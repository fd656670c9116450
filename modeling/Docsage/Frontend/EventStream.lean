import Docsage.Chat.Messages
import Docsage.Library.Lines
import Docsage.Library.Utf8
import Mathlib.Data.List.Infix

/-! # The event stream on the wire

The server writes each event as a frame of one `data:` line. `streamChatMessage`
reads the bytes as the network cuts them: a streaming decoder, a line buffer and a
flag that stops the reading at an error event.
-/

namespace Docsage
open Effects

inductive Json where
  | null
  | bool (b : Bool)
  | num (x : ℚ)
  | str (text : String)
  | arr (items : List Json)
  | obj (fields : List (String × Json))

/-- The two JSON libraries: `json.dumps` of the server and `JSON.parse` of the browser, which
raises on what is not JSON. -/
structure JsonCodec where
  dumps : Json → String
  parse : String → Option Json

section Events

variable (uuidText : Uuid → String)

/-- The dict of a citation; the page is left out where there is none. -/
def Citation.dict (c : Citation String) : Json :=
  .obj ([("chunk_id", .str (uuidText c.chunkId)), ("document_id", .str (uuidText c.documentId)),
    ("document_title", .str c.documentTitle), ("snippet", .str c.snippet),
    ("score", .num c.score)] ++ c.page.toList.map fun page => ("page", .num page))

def ChatEvent.dict : ChatEvent String → Json
  | .delta text => .obj [("type", .str "delta"), ("text", .str text)]
  | .citations listed =>
    .obj [("type", .str "citations"), ("citations", .arr (listed.map (Citation.dict uuidText)))]
  | .done messageId => .obj [("type", .str "done"), ("message_id", .str (uuidText messageId))]
  | .error message => .obj [("type", .str "error"), ("message", .str message)]

end Events

def sse (codec : JsonCodec) (event : Json) : String := "data: " ++ codec.dumps event ++ "\n\n"

namespace Frontend

def isWhiteSpace (c : Char) : Bool :=
  c ∈ ['\t', '\n', '\x0b', '\x0c', '\r', ' ', '\u00a0', '\u1680', '\u2028', '\u2029', '\u202f',
    '\u205f', '\u3000', '\ufeff'] || ('\u2000' ≤ c && c ≤ '\u200a')

/-- A `TextDecoder` that is neither fatal nor told to keep a byte order mark. -/
structure TextDecoder where
  pending : Utf8.State := {}
  bomSeen : Bool := false

namespace TextDecoder

/-- The first character of the stream is dropped where it is a byte order mark. -/
def serialize (bomSeen : Bool) : List Char → List Char
  | c :: cs => if !bomSeen && c = '\ufeff' then cs else c :: cs
  | [] => []

def decodeStream (d : TextDecoder) (value : List UInt8) : List Char × TextDecoder :=
  let chars := (Utf8.decode d.pending value).1
  (serialize d.bomSeen chars,
    { pending := (Utf8.decode d.pending value).2, bomSeen := d.bomSeen || !chars.isEmpty })

def decode (d : TextDecoder) : List Char := serialize d.bomSeen (Utf8.flush d.pending)

end TextDecoder

/-- What the promise of `streamChatMessage` is rejected with. -/
inductive Rejection where
  | apiError (status : ℕ) (detail : String)
  | thrown (e : Exc)
deriving DecidableEq

inductive Progress where
  | reading
  /-- After an error event. -/
  | terminal
  | rejected (r : Rejection)
deriving DecidableEq

/-- The calls of `onEvent` so far, and whether reading goes on. -/
structure Seen where
  events : List Json := []
  progress : Progress := .reading

def Seen.reading (s : Seen) : Bool := s.progress = .reading

/-- `event.type === "error"`. Only `null` has no properties. -/
def isErrorEvent : Json → Except Exc Bool
  | .null => .error { message := "Cannot read properties of null (reading 'type')" }
  | .obj fields =>
    match fields.lookup "type" with
    | some (.str type) => .ok (type = "error")
    | _ => .ok false
  | _ => .ok false

/-- `line.replace(/^\s*data:\s?/, "")`. -/
def payload (line : List Char) : List Char :=
  match List.dropPrefix? (line.dropWhile isWhiteSpace) "data:".toList with
  | some (c :: rest) => if isWhiteSpace c then rest else c :: rest
  | some [] => []
  | none => line

def dropCarriageReturn (line : List Char) : List Char :=
  if line.getLast? = some '\r' then line.dropLast else line

def handleLine (codec : JsonCodec) (s : Seen) (line : List Char) : Seen :=
  if payload line = [] then s
  else
    match codec.parse (String.ofList (payload line)) with
    | none => s
    | some event =>
      { events := s.events ++ [event]
        progress :=
          match isErrorEvent event with
          | .error e => .rejected (.thrown e)
          | .ok true => .terminal
          | .ok false => s.progress }

/-- The loop of `consume`, on the buffer with the new text. -/
def consume (codec : JsonCodec) (s : Seen) (buffer : List Char) : List Char × Seen :=
  Lines.drain '\n' (fun s line => handleLine codec s (dropCarriageReturn line)) Seen.reading s
    buffer

/-- After the last chunk: the flush of the decoder, and what is left as a line of its own. -/
def finish (codec : JsonCodec) (decoder : TextDecoder) (buffer : List Char) (s : Seen) : Seen :=
  let r := consume codec s (buffer ++ decoder.decode)
  match r.2.progress with
  | .rejected _ => r.2
  | _ => handleLine codec r.2 (dropCarriageReturn r.1)

def readChunks (codec : JsonCodec) (decoder : TextDecoder) (buffer : List Char) (s : Seen) :
    Generator Exc (List UInt8) → Seen
  | .stop => finish codec decoder buffer s
  | .raised e => { s with progress := .rejected (.thrown e) }
  | .yields value rest =>
    let text := decoder.decodeStream value
    let r := consume codec s (buffer ++ text.1)
    if r.2.reading then readChunks codec text.2 r.1 r.2 rest else r.2

/-- What `fetch` resolves to. `detail` is that of a JSON error body. -/
structure Response where
  status : ℕ
  statusText : String := ""
  detail : Option String := none
  contentType : Option String
  body : Option (Generator Exc (List UInt8))

def Response.ok (r : Response) : Bool := 200 ≤ r.status && r.status ≤ 299

/-- The string itself where it is not empty: `||`, and `if (body.detail)`. -/
def orElse (text fallback : String) : String := if text = "" then fallback else text

def parseError (r : Response) : Rejection :=
  .apiError r.status
    (orElse (r.detail.getD "") (orElse r.statusText "The request failed."))

structure Streamed where
  events : List Json
  rejection : Option Rejection

def Seen.streamed (s : Seen) : Streamed :=
  ⟨s.events, match s.progress with | .rejected r => some r | _ => none⟩

def streamChatMessage (codec : JsonCodec) (fetched : Except Exc Response) : Streamed :=
  match fetched with
  | .error e => ⟨[], some (.thrown e)⟩
  | .ok response =>
    if !response.ok then ⟨[], some (parseError response)⟩
    else
      let contentType := response.contentType.getD ""
      if ¬ "text/event-stream".toList <:+: contentType.toList then
        ⟨[], some (.apiError response.status
          ("Expected an event stream but received '" ++ contentType ++ "'."))⟩
      else
        match response.body with
        | none => ⟨[], some (.apiError 0 "The response had no body to stream.")⟩
        | some chunks => (readChunks codec {} [] {} chunks).streamed

/-- The `StreamingResponse` of the server, as the network cuts it. -/
def streamingResponse (chunks : List (List UInt8)) : Response where
  status := 200
  contentType := some "text/event-stream; charset=utf-8"
  body := some (.ofList chunks)

end Frontend

end Docsage
