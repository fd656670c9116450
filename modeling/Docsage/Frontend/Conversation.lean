import Docsage.Frontend.ChatPage

/-! # One conversation at a time

A stream that ends and a transcript that arrives write to the list of whatever
conversation is open by then. The list stays with one conversation exactly as
long as they find their own one open.
-/

namespace Docsage
open Relational Transition

namespace ChatPage

/-- Every message of the list is part of the open conversation. -/
def Belongs (p : ChatPage) : Prop := ∀ m ∈ p.messages, p.activeId = some m.sessionId

/-- What is about to be written is written to its own conversation: a posted message, a transcript
that is listened to, and the message that a stream leaves. -/
def KeepsToConversation (p : ChatPage) : Action → Prop
  | .send _ _ =>
    p.view.streaming = false → ∀ sid, p.view.activeId = some sid → p.activeId = some sid
  | .resume ticket _ =>
    ∀ r, lookup Resumed.ticket ticket p.resumed = some r → p.activeId = some r.sessionId
  | .transcript ticket response =>
    ∀ f, lookup TranscriptFetch.ticket ticket p.fetches = some f → ∀ items, response = .ok items →
      items ≠ [] → f.cancelled = false → f.aborted = false → p.activeId = some f.sessionId
  | .streamEnds ticket outcome now =>
    ∀ s, lookup AnswerStream.ticket ticket p.streams = some s → (s.leaves now outcome).isSome →
      p.activeId = some s.sid
  | _ => True

/-- Conversations are opened while no answer is on its way, a message is sent to the conversation
that is open, and transcripts arrive when the effect ran for the selection. -/
def Waits (p : ChatPage) : Action → Prop
  | .created _ (.ok _) | .handleSelect _ => p.streams = [] ∧ p.resumed = []
  | .send _ _ => p.view.activeId = p.activeId
  | .transcript _ _ => p.effectKey = some (p.activeId, p.selectionNonce)
  | _ => True

variable {p p' : ChatPage} {a : Action} {s : AnswerStream} {f : TranscriptFetch} {m : Message}

theorem Belongs.frame (messages : p'.messages = p.messages) (activeId : p'.activeId = p.activeId) :
    p'.Belongs ↔ p.Belongs := by
  rw [Belongs, Belongs, messages, activeId]

theorem belongs_of_nil (h : p.messages = []) : p.Belongs := by
  simp [Belongs, h]

theorem Belongs.append (belongs : p.Belongs) (messages : p'.messages = p.messages ++ [m])
    (activeId : p'.activeId = p.activeId) : p'.Belongs ↔ p.activeId = some m.sessionId := by
  rw [Belongs, messages, activeId]
  refine ⟨fun h => h m (by simp), fun h m' hm' => ?_⟩
  rcases List.mem_append.mp hm' with hm' | hm'
  · exact belongs m' hm'
  · rw [List.mem_singleton.mp hm', h]

theorem leaves_sessionId {outcome : Except Frontend.Rejection Unit} {now : Timestamp}
    (h : s.leaves now outcome = some m) : m.sessionId = s.sid := by
  cases outcome with
  | ok =>
    obtain rfl := Option.some.inj h
    rfl
  | error =>
    obtain ⟨-, h⟩ := Option.ite_none_right_eq_some.mp h
    obtain rfl := Option.some.inj h
    rfl

theorem Belongs.streamEnds (belongs : p.Belongs) {outcome : Except Frontend.Rejection Unit}
    {now : Timestamp} : (p.streamEnds s outcome now).Belongs ↔
      ((s.leaves now outcome).isSome → p.activeId = some s.sid) := by
  obtain ⟨hmessages, hactive⟩ := @streamEnds_messages p s outcome now
  cases hleaves : s.leaves now outcome with
  | none =>
    rw [hleaves, Option.toList_none, List.append_nil] at hmessages
    exact iff_of_true ((frame hmessages hactive).mpr belongs) (by simp)
  | some m =>
    rw [hleaves, Option.toList_some] at hmessages
    rw [belongs.append hmessages hactive, leaves_sessionId hleaves]
    simp

theorem Belongs.transcript (belongs : p.Belongs) {response : Except Exc (List Message)} :
    (p.transcript f response).Belongs ↔ ∀ items, response = .ok items → items ≠ [] →
      f.cancelled = false → f.aborted = false → p.activeId = some f.sessionId := by
  unfold ChatPage.transcript
  split
  · next hcancelled => exact iff_of_true belongs fun _ _ _ h => by simp [hcancelled] at h
  · next hcancelled =>
    split
    · next items haborted =>
      have hwritten : ({ p.settleFetch f with
          messages := items.map fun m => { m with sessionId := f.sessionId }
          messagesLoading := false } : ChatPage).Belongs ↔
          (items ≠ [] → p.activeId = some f.sessionId) := by
        constructor
        · intro h hne
          obtain ⟨m, hm⟩ := List.exists_mem_of_ne_nil items hne
          exact h _ (List.mem_map_of_mem hm)
        · intro h m hm
          obtain ⟨m₀, hm₀, rfl⟩ := List.mem_map.mp hm
          exact h (List.ne_nil_of_mem hm₀)
      rw [hwritten]
      constructor
      · rintro h items' hitems hne - -
        obtain rfl := Except.ok.inj hitems
        exact h hne
      · intro h hne
        exact h items rfl hne (by simpa using hcancelled) haborted
    · next hother =>
      refine iff_of_true belongs fun items hitems _ _ haborted => ?_
      exact absurd hitems (hother items haborted)

theorem post_activeId {sid : Uuid} {content : String} {now : Timestamp} :
    (p.post sid content now).activeId = p.activeId := by
  rw [ChatPage.post, abortTranscript_eq]

theorem Belongs.post (belongs : p.Belongs) {sid : Uuid} {content : String} {now : Timestamp} :
    (p.post sid content now).Belongs ↔ p.activeId = some sid :=
  belongs.append (m := { id := .localUser now, role := .user, content, createdAt := now
                         sessionId := sid, post := some p.tickets }) rfl post_activeId

/-- The first conversation of the list is opened where none was open, and then nothing is shown. -/
theorem Belongs.listed (belongs : p.Belongs) {response : Except Exc (List Session)} :
    (p.listed response).Belongs := by
  cases response with
  | error => exact belongs
  | ok items =>
    intro m hm
    have hactive := belongs m hm
    simp [ChatPage.listed, hactive]

theorem Belongs.created (belongs : p.Belongs) {c : Creation} {response : Except Exc Session} :
    (p.created c response).Belongs := by
  cases response with
  | error => exact belongs
  | ok session => exact belongs_of_nil rfl

/-- One step leaves the list with the open conversation exactly when it writes to its own. -/
theorem Belongs.step_iff (belongs : p.Belongs) (h : p.step a = some p') :
    p'.Belongs ↔ p.KeepsToConversation a := by
  cases step_cases h with
  | render | retry | handleNew | signedOut => exact iff_of_true belongs trivial
  | stop =>
    rw [abortStream_eq]
    exact iff_of_true belongs trivial
  | listed response => exact iff_of_true belongs.listed trivial
  | transcriptEffect h =>
    obtain ⟨fetches, tickets, controller, effectFetch, rfl⟩ := transcriptEffect_eq h
    exact iff_of_true belongs trivial
  | transcript f response hf =>
    rw [belongs.transcript]
    simp [KeepsToConversation, hf]
  | send content now =>
    unfold ChatPage.send
    split
    · next hstreaming => exact iff_of_true belongs fun h => by simp [hstreaming] at h
    · next hstreaming =>
      split
      · next hnone => exact iff_of_true belongs fun _ sid hsid => by simp [hnone] at hsid
      · next sid hsid =>
        rw [belongs.post]
        simp [KeepsToConversation, hstreaming, hsid]
  | created c response => exact iff_of_true belongs.created trivial
  | @resume ticket r now hr =>
    have hrest : { p with resumed := delete Resumed.ticket ticket p.resumed }.Belongs := belongs
    rw [hrest.post]
    simp [KeepsToConversation, hr]
  | event s e => cases e <;> exact iff_of_true belongs trivial
  | streamEnds s outcome now hs =>
    rw [belongs.streamEnds]
    simp [KeepsToConversation, hs]
  | handleSelect id => exact iff_of_true (belongs_of_nil rfl) trivial

/-- Answers on their way and transcripts that are listened to are those of the open
conversation. -/
structure Settled (p : ChatPage) : Prop where
  listening : p.Listening
  streams : ∀ s ∈ p.streams, p.activeId = some s.sid
  resumed : ∀ r ∈ p.resumed, p.activeId = some r.sessionId

theorem mounted_settled : mounted.Settled :=
  ⟨mounted_listening, by simp [mounted], by simp [mounted]⟩

theorem Settled.keeps (settled : p.Settled) (waits : p.Waits a) : p.KeepsToConversation a := by
  cases a with
  | send content now => exact fun _ sid hsid => waits.symm.trans hsid
  | resume ticket now => exact fun r hr => settled.resumed r (lookup_some hr).1
  | transcript ticket response =>
    intro f hf items _ _ live _
    obtain ⟨nonce, hkey⟩ := settled.listening.key f (lookup_some hf).1 live
    have hwaits : p.effectKey = some (p.activeId, p.selectionNonce) := waits
    exact congrArg Prod.fst (Option.some.inj (hwaits.symm.trans hkey))
  | streamEnds ticket outcome now => exact fun s hs _ => settled.streams s (lookup_some hs).1
  | _ => trivial

theorem Settled.frame (settled : p.Settled) (listening : p'.Listening)
    (activeId : p'.activeId = p.activeId)
    (streams : ∀ s ∈ p'.streams, ∃ s₀ ∈ p.streams, s.sid = s₀.sid)
    (resumed : p'.resumed ⊆ p.resumed) : p'.Settled where
  listening := listening
  streams s hs := by
    obtain ⟨s₀, hs₀, hsid⟩ := streams s hs
    rw [activeId, hsid]
    exact settled.streams s₀ hs₀
  resumed r hr := by
    rw [activeId]
    exact settled.resumed r (resumed hr)

theorem same_sid {streams : List AnswerStream} : ∀ x ∈ streams, ∃ y ∈ streams, x.sid = y.sid :=
  fun x hx => ⟨x, hx, rfl⟩

theorem mem_delete_sid {ticket : ℕ} {streams : List AnswerStream} :
    ∀ x ∈ delete AnswerStream.ticket ticket streams, ∃ y ∈ streams, x.sid = y.sid :=
  fun x hx => ⟨x, (mem_delete.mp hx).1, rfl⟩

theorem mem_update_sid {s' : AnswerStream} {streams : List AnswerStream} (hs : s ∈ streams)
    (hsid : s'.sid = s.sid) :
    ∀ x ∈ update AnswerStream.ticket s.ticket (fun _ => s') streams,
      ∃ y ∈ streams, x.sid = y.sid := by
  intro x hx
  rcases mem_update_const hx with rfl | ⟨hx, -⟩
  · exact ⟨s, hs, hsid⟩
  · exact ⟨x, hx, rfl⟩

theorem abortStream_streams : ∀ x ∈ p.abortStream.streams, ∃ y ∈ p.streams, x.sid = y.sid := by
  intro x hx
  unfold abortStream at hx
  split at hx
  · exact ⟨x, hx, rfl⟩
  · obtain ⟨y, hy, rfl⟩ := mem_update.mp hx
    refine ⟨y, hy, ?_⟩
    split <;> rfl

theorem Settled.post (settled : p.Settled) {sid : Uuid} {content : String} {now : Timestamp}
    (listening : (p.post sid content now).Listening) (hsid : p.activeId = some sid) :
    (p.post sid content now).Settled where
  listening := listening
  streams s hs := by
    rw [post_activeId]
    rcases List.mem_append.mp hs with hs | hs
    · exact settled.streams s hs
    · rw [List.mem_singleton.mp hs, hsid]
  resumed r hr := by
    rw [post_activeId]
    refine settled.resumed r ?_
    simp only [ChatPage.post, abortTranscript] at hr
    split at hr <;> exact hr

theorem Settled.send (settled : p.Settled) {content : String} {now : Timestamp}
    (waits : p.view.activeId = p.activeId) (listening : (p.send content now).Listening) :
    (p.send content now).Settled := by
  unfold ChatPage.send at listening ⊢
  split_ifs at listening ⊢
  · exact settled
  cases hactive : p.view.activeId with
  | none =>
    rw [hactive] at listening
    exact settled.frame listening rfl same_sid (List.Subset.refl _)
  | some sid =>
    rw [hactive] at listening
    exact settled.post listening (waits.symm.trans hactive)

theorem Settled.streamEnds (settled : p.Settled) {outcome : Except Frontend.Rejection Unit}
    {now : Timestamp} (hs : s ∈ p.streams) (listening : (p.streamEnds s outcome now).Listening) :
    (p.streamEnds s outcome now).Settled := by
  unfold ChatPage.streamEnds at listening ⊢
  split at listening
  · exact settled.frame listening rfl (mem_update_sid hs rfl) (List.Subset.refl _)
  · exact settled.frame listening rfl mem_delete_sid (List.Subset.refl _)

/-- Another conversation may be opened while there is no answer on its way. -/
theorem handleSelect_idle {id : Uuid} (streams : p.streams = []) (resumed : p.resumed = []) :
    (p.handleSelect id).streams = [] ∧ (p.handleSelect id).resumed = [] := by
  unfold ChatPage.handleSelect abortStream
  split
  · split
    · exact ⟨streams, resumed⟩
    · exact ⟨by simp [streams, update], resumed⟩
  · exact ⟨streams, resumed⟩

theorem Settled.step (settled : p.Settled) (waits : p.Waits a) (h : p.step a = some p') :
    p'.Settled := by
  have listening := settled.listening.step h
  cases step_cases h with
  | render | retry | handleNew =>
    exact settled.frame listening rfl same_sid (List.Subset.refl _)
  | stop =>
    refine settled.frame listening (by rw [abortStream_eq]) abortStream_streams ?_
    rw [abortStream_eq]
    exact List.Subset.refl _
  | listed response =>
    cases response with
    | error => exact settled.frame listening rfl same_sid (List.Subset.refl _)
    | ok items =>
      refine ⟨listening, fun s hs => ?_, fun r hr => ?_⟩
      · simp [ChatPage.listed, settled.streams s hs]
      · simp [ChatPage.listed, settled.resumed r hr]
  | transcriptEffect h =>
    obtain ⟨fetches, tickets, controller, effectFetch, rfl⟩ := transcriptEffect_eq h
    exact settled.frame listening rfl same_sid (List.Subset.refl _)
  | transcript f response =>
    obtain ⟨messages, messagesLoading, heq⟩ := @transcript_eq p f response
    rw [heq] at listening ⊢
    exact settled.frame listening rfl same_sid (List.Subset.refl _)
  | send content now => exact settled.send waits listening
  | created c response =>
    cases response with
    | error => exact settled.frame listening rfl same_sid (List.Subset.refl _)
    | ok session =>
      obtain ⟨hstreams, hresumed⟩ : p.streams = [] ∧ p.resumed = [] := waits
      refine ⟨listening, fun s hs => ?_, fun r hr => ?_⟩
      · simp [ChatPage.created, settleCreation, ensureSession, hstreams] at hs
      · simp only [ChatPage.created, hresumed, List.nil_append, Option.mem_toList,
          Option.map_eq_some_iff] at hr
        obtain ⟨content, -, rfl⟩ := hr
        rfl
  | @resume ticket r now hr =>
    have hrest : { p with resumed := delete Resumed.ticket ticket p.resumed }.Settled :=
      ⟨⟨settled.listening.issued, settled.listening.effect, settled.listening.key,
        settled.listening.controller⟩, settled.streams,
        fun r' hr' => settled.resumed r' (mem_delete.mp hr').1⟩
    exact hrest.post listening (settled.resumed r (lookup_some hr).1)
  | event s e hs =>
    have hmem := (lookup_some hs).1
    cases e <;>
      exact settled.frame listening rfl (mem_update_sid hmem rfl) (List.Subset.refl _)
  | streamEnds s outcome now hs => exact settled.streamEnds (lookup_some hs).1 listening
  | signedOut s => exact settled.frame listening rfl mem_delete_sid (List.Subset.refl _)
  | handleSelect id =>
    obtain ⟨hstreams, hresumed⟩ : p.streams = [] ∧ p.resumed = [] := waits
    obtain ⟨hstreams, hresumed⟩ := @handleSelect_idle p id hstreams hresumed
    exact ⟨listening, by simp [hstreams], by simp [hresumed]⟩

/-- A run shows one conversation throughout exactly as long as everything it writes finds its own
conversation open, and so does every run of a user who waits. -/
theorem one_conversation_iff (p : ChatPage) :
    (Run step KeepsToConversation mounted p → p.Belongs ∧
      ∀ a p', p.step a = some p' → (p'.Belongs ↔ p.KeepsToConversation a)) ∧
    (Run step Waits mounted p → p.Belongs) := by
  have hmounted : mounted.Belongs := belongs_of_nil rfl
  refine ⟨fun run => ?_, fun run => ?_⟩
  · have belongs : p.Belongs := run.invariant hmounted fun _ _ _ belongs keeps taken =>
      (Belongs.step_iff belongs taken).mpr keeps
    exact ⟨belongs, fun _ _ taken => belongs.step_iff taken⟩
  · have hboth : p.Settled ∧ p.Belongs := by
      refine run.invariant (I := fun p => p.Settled ∧ p.Belongs) ⟨mounted_settled, hmounted⟩ ?_
      rintro p a p' ⟨settled, belongs⟩ waits taken
      exact ⟨settled.step waits taken, (belongs.step_iff taken).mpr (settled.keeps waits)⟩
    exact hboth.2

/-- Conversation 1 is loaded, a question is asked in it, and the answer begins. -/
def ask : List Action :=
  [.listed 0 (.ok [⟨1, .personal, 0⟩]), .render, .transcriptEffect, .transcript 1 (.ok []),
    .send "Who owns the drill log?" 5, .render, .event 2 (.delta "The agency")]

theorem one_conversation_iff_ask : ∃ p, execute step mounted (ask ++ [.streamEnds 2 (.ok ()) 9]) =
    some p ∧ p.messages.map (·.sessionId) = [1, 1] ∧ p.Belongs := by
  have hlist : (execute step mounted (ask ++ [.streamEnds 2 (.ok ()) 9])).map
      (fun p => p.messages.map (·.sessionId)) = some [1, 1] := by decide
  obtain ⟨p, hp, hsessions⟩ := Option.map_eq_some_iff.mp hlist
  have obeys : Obeys step Waits mounted (ask ++ [.streamEnds 2 (.ok ()) 9]) := by
    refine .cons trivial rfl (.cons trivial rfl (.cons trivial rfl ?_))
    -- the transcript of the open conversation, and a message sent to it
    refine .cons rfl rfl (.cons rfl rfl ?_)
    exact .cons trivial rfl (.cons trivial rfl (.cons trivial rfl trivial))
  exact ⟨p, hp, hsessions, (one_conversation_iff p).2 (.of_execute obeys hp)⟩

/-- A new conversation is opened before the answer ends. -/
theorem answer_in_new_conversation :
    ¬ ∀ p, Run step (fun _ _ => True) mounted p → p.Belongs := by
  intro h
  have hlist : (execute step mounted (ask ++ [.handleNew .personal,
      .created 3 (.ok ⟨2, .personal, 6⟩), .streamEnds 2 (.ok ()) 9])).map
      (fun p => (p.activeId, p.messages.map (·.sessionId))) = some (some 2, [1]) := by decide
  obtain ⟨p, hp, hvalues⟩ := Option.map_eq_some_iff.mp hlist
  obtain ⟨hactive, hsessions⟩ := Prod.mk.inj hvalues
  obtain ⟨m, hm, hone⟩ : ∃ m ∈ p.messages, m.sessionId = 1 :=
    List.mem_map.mp (hsessions ▸ List.mem_singleton_self 1)
  have hbelongs := h p (.of_execute (obeys_true _ _) hp) m hm
  rw [hactive, hone] at hbelongs
  cases hbelongs

end ChatPage

end Docsage
