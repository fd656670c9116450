import Docsage.Frontend.EventStream

/-! # The round trip of the event stream

How the network cuts the bytes does not matter, and what the reader hands on are
the events that the server framed, up to the first error.
-/

namespace Docsage
open Effects

namespace Frontend

variable {codec : JsonCodec} {s : Seen} {buffer : List Char} {d : TextDecoder}

namespace TextDecoder

theorem serialize_append (bomSeen : Bool) (xs ys : List Char) :
    serialize bomSeen (xs ++ ys) =
      serialize bomSeen xs ++ serialize (bomSeen || !xs.isEmpty) ys := by
  cases xs with
  | nil => simp [serialize]
  | cons c cs =>
    have hseen : serialize true ys = ys := by cases ys <;> rfl
    rw [List.isEmpty_cons, Bool.not_false, Bool.or_true, hseen]
    simp only [List.cons_append, serialize]
    split <;> rfl

theorem decodeStream_append (d : TextDecoder) (xs ys : List UInt8) :
    d.decodeStream (xs ++ ys) =
      ((d.decodeStream xs).1 ++ ((d.decodeStream xs).2.decodeStream ys).1,
        ((d.decodeStream xs).2.decodeStream ys).2) := by
  have hempty (cs cs' : List Char) : (!(cs ++ cs').isEmpty) = (!cs.isEmpty || !cs'.isEmpty) := by
    cases cs <;> rfl
  simp only [decodeStream, Utf8.decode_append, serialize_append, hempty, Bool.or_assoc]

end TextDecoder

theorem consume_append (codec : JsonCodec) (xs ys : List Char) (open_ : s.reading = true) :
    consume codec s (xs ++ ys) =
      if (consume codec s xs).2.reading then
        consume codec (consume codec s xs).2 ((consume codec s xs).1 ++ ys)
      else ((consume codec s xs).1 ++ ys, (consume codec s xs).2) :=
  Lines.drain_append xs ys open_

theorem consume_consumed (open_ : s.reading = true)
    (h : (consume codec s buffer).2.reading = true) :
    consume codec (consume codec s buffer).2 (consume codec s buffer).1 =
      consume codec s buffer := by
  have hempty := consume_append codec buffer [] open_
  rw [if_pos h, List.append_nil, List.append_nil] at hempty
  exact hempty.symm

theorem readChunks_ofList (chunks : List (List UInt8)) (open_ : s.reading = true)
    (consumed : consume codec s buffer = (buffer, s)) :
    readChunks codec d buffer s (.ofList chunks) =
      let text := d.decodeStream chunks.flatten
      let r := consume codec s (buffer ++ text.1)
      if r.2.reading then finish codec text.2 r.1 r.2 else r.2 := by
  induction chunks generalizing d buffer s with
  | nil =>
    have htext : d.decodeStream [] = ([], d) := by
      simp [TextDecoder.decodeStream, Utf8.decode, TextDecoder.serialize]
    simp only [List.flatten_nil, htext, List.append_nil, consumed, open_, if_true]
    rfl
  | cons value rest ih =>
    simp only [Generator.ofList, readChunks, List.flatten_cons, TextDecoder.decodeStream_append]
    rw [← List.append_assoc]
    generalize buffer ++ (d.decodeStream value).1 = text
    rw [consume_append codec _ _ open_]
    by_cases hreading : (consume codec s text).2.reading = true
    · rw [if_pos hreading, if_pos hreading]
      exact ih hreading (consume_consumed open_ hreading)
    · rw [if_neg hreading, if_neg hreading, if_neg hreading]

theorem payload_data (text : List Char) : payload ("data: ".toList ++ text) = text := rfl

theorem dropCarriageReturn_of_notMem {line : List Char} (h : '\r' ∉ line) :
    dropCarriageReturn line = line := by
  refine if_neg fun hlast => h ?_
  exact List.mem_of_getLast? hlast

end Frontend

open Frontend

def ChatEvent.isError {τ : Type} : ChatEvent τ → Bool
  | .error _ => true
  | _ => false

def uptoError {τ : Type} : List (ChatEvent τ) → List (ChatEvent τ)
  | [] => []
  | event :: rest => if event.isError then [event] else event :: uptoError rest

/-- What the two JSON libraries do with some events: what is dumped is on one line, and parsing
inverts it. That it is ASCII is not needed. -/
structure JsonCodec.Faithful (codec : JsonCodec) (events : List Json) : Prop where
  inverts : ∀ e ∈ events, codec.parse (codec.dumps e) = some e
  singleLine : ∀ e ∈ events, '\n' ∉ (codec.dumps e).toList ∧ '\r' ∉ (codec.dumps e).toList
  parse_empty : codec.parse "" = none

section

variable {codec : JsonCodec} {uuidText : Uuid → String} {s : Seen}

theorem isErrorEvent_dict (event : ChatEvent String) :
    isErrorEvent (event.dict uuidText) = .ok event.isError := by
  cases event <;> rfl

def Frontend.Seen.observe (uuidText : Uuid → String) (s : Seen) (event : ChatEvent String) :
    Seen where
  events := s.events ++ [event.dict uuidText]
  progress := if event.isError then .terminal else s.progress

theorem handleLine_data {event : ChatEvent String} {events : List Json}
    (faithful : codec.Faithful events) (mem : event.dict uuidText ∈ events) :
    handleLine codec s ("data: ".toList ++ (codec.dumps (event.dict uuidText)).toList) =
      s.observe uuidText event := by
  have hparse := faithful.inverts _ mem
  have hnonempty : (codec.dumps (event.dict uuidText)).toList ≠ [] := by
    intro hempty
    rw [String.toList_eq_nil_iff.mp hempty, faithful.parse_empty] at hparse
    cases hparse
  unfold handleLine
  rw [payload_data, if_neg hnonempty, String.ofList_toList, hparse]
  simp only [isErrorEvent_dict, Seen.observe]
  cases event <;> rfl

/-- The first line of a frame is the event, the second is empty. -/
theorem consume_sse {event : ChatEvent String} {events : List Json} (rest : List Char)
    (faithful : codec.Faithful events) (mem : event.dict uuidText ∈ events)
    (open_ : s.reading = true) :
    consume codec s ((sse codec (event.dict uuidText)).toList ++ rest) =
      if event.isError then ('\n' :: rest, s.observe uuidText event)
      else consume codec (s.observe uuidText event) rest := by
  obtain ⟨hnewline, hreturn⟩ := faithful.singleLine _ mem
  have hframe : (sse codec (event.dict uuidText)).toList ++ rest =
      ("data: ".toList ++ (codec.dumps (event.dict uuidText)).toList) ++ '\n' :: '\n' :: rest := by
    simp [sse]
  have hline : dropCarriageReturn ("data: ".toList ++ (codec.dumps (event.dict uuidText)).toList) =
      "data: ".toList ++ (codec.dumps (event.dict uuidText)).toList := by
    refine dropCarriageReturn_of_notMem ?_
    simpa using hreturn
  have hempty (s : Seen) (open_ : s.reading = true) :
      consume codec s ('\n' :: rest) = consume codec s rest := by
    change Lines.drain '\n' _ _ s ([] ++ '\n' :: rest) = _
    rw [Lines.drain_line List.not_mem_nil]
    exact if_pos open_
  rw [hframe, consume, Lines.drain_line (by simpa using hnewline), hline,
    handleLine_data faithful mem]
  cases herror : event.isError with
  | false =>
    have hopen : (s.observe uuidText event).reading = true := by
      simpa [Seen.reading, Seen.observe, herror] using open_
    rw [if_pos hopen]
    exact hempty _ hopen
  | true =>
    have hclosed : ¬ (s.observe uuidText event).reading = true := by
      simp [Seen.reading, Seen.observe, herror]
    rw [if_neg hclosed]
    rfl

/-- All the frames of a stream. Without an error nothing is left over. -/
theorem consume_frames {all : List Json} (faithful : codec.Faithful all)
    {events : List (ChatEvent String)} (mem : ∀ e ∈ events, e.dict uuidText ∈ all)
    (open_ : s.reading = true) :
    ∃ left, consume codec s (events.flatMap fun e => (sse codec (e.dict uuidText)).toList) =
        (left, { events := s.events ++ (uptoError events).map (·.dict uuidText)
                 progress := if events.any (·.isError) then .terminal else .reading }) ∧
      (events.any (·.isError) = false → left = []) := by
  induction events generalizing s with
  | nil =>
    have hs : s.progress = .reading := by simpa [Seen.reading] using open_
    refine ⟨[], ?_, fun _ => rfl⟩
    rw [List.flatMap_nil, consume, Lines.drain_open List.not_mem_nil]
    simp [uptoError, ← hs]
  | cons event rest ih =>
    obtain ⟨hevent, hrest⟩ := List.forall_mem_cons.mp mem
    rw [List.flatMap_cons, consume_sse _ faithful hevent open_]
    cases herror : event.isError with
    | true =>
      refine ⟨'\n' :: rest.flatMap fun e => (sse codec (e.dict uuidText)).toList, ?_, ?_⟩
      · simp [Seen.observe, uptoError, herror]
      · simp [herror]
    | false =>
      have hopen : (s.observe uuidText event).reading = true := by
        simpa [Seen.reading, Seen.observe, herror] using open_
      obtain ⟨left, hleft, hnone⟩ := ih hrest hopen
      refine ⟨left, ?_, by simpa [herror] using hnone⟩
      simp only [Bool.false_eq_true, if_false, hleft]
      simp [Seen.observe, uptoError, herror]

/-- A decoder at the start of a stream reads the frames as they were written. -/
theorem decodeStream_frames (events : List (ChatEvent String)) :
    (TextDecoder.decodeStream {} (Utf8.encode
      (events.flatMap fun e => (sse codec (e.dict uuidText)).toList))) =
      (events.flatMap fun e => (sse codec (e.dict uuidText)).toList,
        { bomSeen := !events.isEmpty }) := by
  simp only [TextDecoder.decodeStream, Utf8.decode_encode]
  cases events with
  | nil => rfl
  | cons event rest => simp [TextDecoder.serialize, sse]

theorem finish_nil (d : TextDecoder) (h : d.pending = {}) : finish codec d [] s = s := by
  have htext : d.decode = [] := by rw [TextDecoder.decode, h]; rfl
  have hconsume : consume codec s [] = ([], s) := Lines.drain_open List.not_mem_nil
  rw [finish, htext, List.append_nil, hconsume]
  simp only
  split <;> rfl

theorem streamChatMessage_of_eventStream {response : Response}
    {body : Generator Exc (List UInt8)} (ok : response.ok = true)
    (contentType : "text/event-stream".toList <:+: (response.contentType.getD "").toList)
    (hbody : response.body = some body) :
    streamChatMessage codec (.ok response) = (readChunks codec {} [] {} body).streamed := by
  simp only [streamChatMessage, ok, hbody, Bool.not_true, Bool.false_eq_true, if_false]
  exact if_neg (not_not.mpr contentType)

end

/-- However the network cuts the bytes of a body, the calls of `onEvent` and the end agree. -/
theorem streamChatMessage_cut (codec : JsonCodec) (response : Response)
    (chunks chunks' : List (List UInt8)) (same : chunks.flatten = chunks'.flatten) :
    streamChatMessage codec (.ok { response with body := some (.ofList chunks) }) =
      streamChatMessage codec (.ok { response with body := some (.ofList chunks') }) := by
  have hconsumed : consume codec {} [] = ([], {}) := Lines.drain_open List.not_mem_nil
  have hread : readChunks codec {} [] {} (.ofList chunks) =
      readChunks codec {} [] {} (.ofList chunks') := by
    rw [readChunks_ofList chunks rfl hconsumed, readChunks_ofList chunks' rfl hconsumed, same]
  simp only [streamChatMessage, Response.ok, hread]
  rfl

/-- The client is handed exactly the events of the server in order, up to and including the first
error, however the network cuts the bytes of the frames. -/
theorem stream_round_trip (codec : JsonCodec) (uuidText : Uuid → String)
    (events : List (ChatEvent String))
    (faithful : codec.Faithful (events.map (·.dict uuidText))) (chunks : List (List UInt8))
    (cut : chunks.flatten =
      Utf8.encode (events.flatMap fun e => (sse codec (e.dict uuidText)).toList)) :
    streamChatMessage codec (.ok (streamingResponse chunks)) =
      ⟨(uptoError events).map (·.dict uuidText), none⟩ := by
  have hcontentType : "text/event-stream".toList <:+: "text/event-stream; charset=utf-8".toList :=
    ⟨[], "; charset=utf-8".toList, by decide⟩
  have hconsumed : consume codec {} [] = ([], {}) := Lines.drain_open List.not_mem_nil
  obtain ⟨left, hleft, hnone⟩ := consume_frames (s := {}) faithful
    (fun e he => List.mem_map_of_mem (f := (·.dict uuidText)) he) rfl
  have hserved : streamChatMessage codec (.ok (streamingResponse chunks)) =
      (readChunks codec {} [] {} (.ofList chunks)).streamed :=
    streamChatMessage_of_eventStream rfl hcontentType rfl
  rw [hserved, readChunks_ofList chunks rfl hconsumed, cut, decodeStream_frames]
  simp only [List.nil_append, hleft]
  cases herror : events.any (·.isError) with
  | true => rfl
  | false =>
    rw [hnone herror]
    exact congrArg Seen.streamed ((if_pos rfl).trans (finish_nil _ rfl))

namespace Wire

def events : List (ChatEvent String) := [.delta "Hé", .error "boom"]

def deltaText : String := "\x7b\"type\":\"delta\",\"text\":\"H\\u00e9\"\x7d"

def errorText : String := "\x7b\"type\":\"error\",\"message\":\"boom\"\x7d"

def codec : JsonCodec where
  dumps event := match isErrorEvent event with | .ok true => errorText | _ => deltaText
  parse text :=
    if text = deltaText then some ((ChatEvent.delta "Hé").dict toString)
    else if text = errorText then some ((ChatEvent.error "boom").dict toString)
    else none

theorem inverts : ∀ e ∈ events.map (·.dict toString), codec.parse (codec.dumps e) = some e := by
  have hdelta : codec.dumps ((ChatEvent.delta "Hé").dict toString) = deltaText := rfl
  have herror : codec.dumps ((ChatEvent.error "boom").dict toString) = errorText := rfl
  have hne : errorText ≠ deltaText := by decide
  simp only [events, List.map_cons, List.map_nil, List.forall_mem_cons, hdelta, herror]
  refine ⟨?_, ?_, List.forall_mem_nil _⟩
  · simp only [codec, if_true]
  · simp only [codec, if_neg hne, if_true]

theorem faithful : codec.Faithful (events.map (·.dict toString)) where
  inverts := inverts
  singleLine := List.forall_mem_cons.mpr ⟨by decide, List.forall_mem_cons.mpr
    ⟨by decide, List.forall_mem_nil _⟩⟩
  parse_empty := rfl

def bytes : List UInt8 :=
  Utf8.encode (events.flatMap fun e => (sse codec (e.dict toString)).toList)

/-- A comment line, an invalid byte, both kinds of line end and a last line without one. -/
def ragged : List UInt8 :=
  Utf8.encode (": keep-alive\r\ndata: ".toList ++ deltaText.toList ++ ['\r', '\n']) ++
    [0xff, 0x0a] ++ Utf8.encode ("data: ".toList ++ errorText.toList)

end Wire

theorem streamChatMessage_cut_ragged :
    streamChatMessage Wire.codec (.ok { streamingResponse [] with
        body := some (.ofList (Wire.ragged.map ([·]))) }) =
      streamChatMessage Wire.codec (.ok { streamingResponse [] with
        body := some (.ofList [Wire.ragged]) }) :=
  streamChatMessage_cut Wire.codec (streamingResponse []) (Wire.ragged.map ([·])) [Wire.ragged] (by
    rw [← List.flatMap_def, List.flatMap_singleton', List.flatten_singleton])

theorem stream_round_trip_bytewise :
    streamChatMessage Wire.codec (.ok (streamingResponse (Wire.bytes.map ([·])))) =
      ⟨[(ChatEvent.delta "Hé").dict toString, (ChatEvent.error "boom").dict toString], none⟩ :=
  stream_round_trip Wire.codec toString Wire.events Wire.faithful (Wire.bytes.map ([·])) (by
    rw [← List.flatMap_def, List.flatMap_singleton', Wire.bytes])

end Docsage
