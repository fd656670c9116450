import Docsage.Frontend.ChatPage

/-! # A late transcript

`send` aborts the transcript fetch there is, not the one that an effect still to
be run starts afterwards. A message stays in the list of its conversation as long
as no transcript without it arrives; where the effect ran for the selection
before the message was posted, none does.
-/

namespace Docsage
open Relational Transition

namespace ChatPage

/-- The message of this call of `send`, or a copy of it, is in the list. -/
def Shows (n : ℕ) (p : ChatPage) : Prop := ∃ m ∈ p.messages, m.post = some n

/-- `send` appends the message of call `n` to its conversation. -/
def Posts (p : ChatPage) (n : ℕ) (sid : Uuid) : Action → Prop
  | .send _ _ => p.view.streaming = false ∧ p.view.activeId = some sid ∧ n = p.tickets
  | .resume ticket _ =>
    n = p.tickets ∧ ∃ r, lookup Resumed.ticket ticket p.resumed = some r ∧ r.sessionId = sid
  | _ => False

/-- The user neither selects nor creates another conversation. -/
def Stays (p : ChatPage) : Action → Prop
  | .handleSelect id => p.activeId = some id
  | .created _ (.ok _) => False
  | _ => True

/-- The user does not select the conversation again, and a transcript that is listened to has
the message. -/
def KeepsPost (n : ℕ) (p : ChatPage) : Action → Prop
  | .handleSelect _ => False
  | .transcript ticket response =>
    ∀ f, lookup TranscriptFetch.ticket ticket p.fetches = some f → ∀ items, response = .ok items →
      f.cancelled = false → f.aborted = false → ∃ m ∈ items, m.post = some n
  | _ => True

/-- The user does not select the conversation again. -/
def Remains (p : ChatPage) : Action → Prop
  | .handleSelect _ => False
  | a => p.Stays a

/-- The page is rendered, and the transcript effect ran for the selection. -/
def EffectRan (p : ChatPage) : Prop :=
  p.view.key = (p.activeId, p.selectionNonce) ∧ p.effectKey = some p.view.key

variable {p p' : ChatPage} {a : Action} {n : ℕ} {sid : Uuid} {s : AnswerStream}
  {f : TranscriptFetch}

theorem Shows.of_append (shows : p.Shows n) {messages : List Message}
    (h : p'.messages = p.messages ++ messages) : p'.Shows n := by
  obtain ⟨m, hm, hpost⟩ := shows
  exact ⟨m, h ▸ List.mem_append_left _ hm, hpost⟩

theorem Shows.transcript (shows : p.Shows n) {response : Except Exc (List Message)} :
    (p.transcript f response).Shows n ↔ ∀ items, response = .ok items → f.cancelled = false →
      f.aborted = false → ∃ m ∈ items, m.post = some n := by
  unfold ChatPage.transcript
  split
  · next hcancelled => exact iff_of_true shows fun _ _ h => by simp [hcancelled] at h
  · next hcancelled =>
    split
    · next items haborted =>
      constructor
      · rintro ⟨m, hm, hpost⟩ items' hitems - -
        obtain rfl := Except.ok.inj hitems
        obtain ⟨m₀, hm₀, rfl⟩ := List.mem_map.mp hm
        exact ⟨m₀, hm₀, hpost⟩
      · intro h
        obtain ⟨m, hm, hpost⟩ := h items rfl (by simpa using hcancelled) haborted
        exact ⟨_, List.mem_map_of_mem hm, hpost⟩
    · next hother =>
      exact iff_of_true shows fun items hitems _ haborted => absurd hitems (hother items haborted)

/-- While the user stays, one step takes the message away exactly when it is a new selection or
a transcript without it. -/
theorem Shows.step_iff (shows : p.Shows n) (stays : p.Stays a) (h : p.step a = some p') :
    p'.Shows n ↔ KeepsPost n p a := by
  cases step_cases h with
  | render | retry | handleNew | signedOut => exact iff_of_true shows trivial
  | stop =>
    rw [abortStream_eq]
    exact iff_of_true shows trivial
  | listed response => cases response <;> exact iff_of_true shows trivial
  | transcriptEffect h =>
    obtain ⟨fetches, tickets, controller, effectFetch, rfl⟩ := transcriptEffect_eq h
    exact iff_of_true shows trivial
  | transcript f response hf =>
    rw [shows.transcript]
    simp [KeepsPost, hf]
  | send content now =>
    refine iff_of_true ?_ trivial
    unfold ChatPage.send
    split
    · exact shows
    · split
      · exact shows
      · exact shows.of_append rfl
  | created c response =>
    cases response with
    | error => exact iff_of_true shows trivial
    | ok => exact stays.elim
  | resume r now => exact iff_of_true (shows.of_append rfl) trivial
  | event s e => cases e <;> exact iff_of_true shows trivial
  | streamEnds s outcome now =>
    exact iff_of_true (shows.of_append streamEnds_messages.1) trivial
  | handleSelect id =>
    refine iff_of_false ?_ fun h => h
    rintro ⟨m, hm, -⟩
    cases hm

/-- The effect ran for the selection, and every transcript that is listened to was aborted. -/
structure Quiet (p : ChatPage) (sid : Uuid) : Prop where
  active : p.activeId = some sid
  ran : p.EffectRan
  aborted : ∀ f ∈ p.fetches, f.cancelled = false → f.aborted = true

/-- While the user remains, the selection is the same, and a render shows it. -/
theorem Remains.selection (remains : p.Remains a) (active : p.activeId = some sid)
    (h : p.step a = some p') : p'.activeId = p.activeId ∧
      p'.selectionNonce = p.selectionNonce ∧
      (p'.view.key = p.view.key ∨ p'.view.key = (p.activeId, p.selectionNonce)) := by
  cases step_cases h with
  | render => exact ⟨rfl, rfl, .inr rfl⟩
  | retry | handleNew | signedOut => exact ⟨rfl, rfl, .inl rfl⟩
  | stop =>
    rw [abortStream_eq]
    exact ⟨rfl, rfl, .inl rfl⟩
  | listed response =>
    cases response with
    | error => exact ⟨rfl, rfl, .inl rfl⟩
    | ok items => exact ⟨by simp [ChatPage.listed, active], rfl, .inl rfl⟩
  | transcriptEffect h =>
    obtain ⟨fetches, tickets, controller, effectFetch, rfl⟩ := transcriptEffect_eq h
    exact ⟨rfl, rfl, .inl rfl⟩
  | transcript f response =>
    obtain ⟨messages, messagesLoading, heq⟩ := @transcript_eq p f response
    rw [heq]
    exact ⟨rfl, rfl, .inl rfl⟩
  | send content now =>
    unfold ChatPage.send
    split
    · exact ⟨rfl, rfl, .inl rfl⟩
    · split
      · exact ⟨rfl, rfl, .inl rfl⟩
      · rw [post, abortTranscript_eq]
        exact ⟨rfl, rfl, .inl rfl⟩
  | created c response =>
    cases response with
    | error => exact ⟨rfl, rfl, .inl rfl⟩
    | ok => exact remains.elim
  | resume r now =>
    rw [post, abortTranscript_eq]
    exact ⟨rfl, rfl, .inl rfl⟩
  | event s e => cases e <;> exact ⟨rfl, rfl, .inl rfl⟩
  | streamEnds s outcome now =>
    unfold ChatPage.streamEnds
    split <;> exact ⟨rfl, rfl, .inl rfl⟩
  | handleSelect id => exact remains.elim

theorem EffectRan.rests (ran : p.EffectRan) (h : p.step a = some p') : p.EffectRests p' := by
  refine .step h ?_
  rintro rfl
  rw [step, transcriptEffect, if_pos ran.2] at h
  cases h

theorem EffectRan.step (ran : p.EffectRan) (active : p.activeId = some sid)
    (remains : p.Remains a) (h : p.step a = some p') :
    p'.activeId = some sid ∧ p'.EffectRan := by
  obtain ⟨hactive, hnonce, hview⟩ := remains.selection active h
  have hkey : p'.view.key = p.view.key := hview.elim id fun hview => hview.trans ran.1.symm
  refine ⟨hactive.trans active, ?_, ?_⟩
  · rw [hkey, hactive, hnonce, ran.1]
  · rw [hkey, (ran.rests h).effectKey, ran.2]

theorem Quiet.step (quiet : p.Quiet sid) (remains : p.Remains a) (h : p.step a = some p') :
    p'.Quiet sid := by
  obtain ⟨hactive, hran⟩ := quiet.ran.step quiet.active remains h
  refine ⟨hactive, hran, fun f hf live => ?_⟩
  obtain ⟨f₀, hf₀, same⟩ := (quiet.ran.rests h).fetches f hf
  exact same.aborted (quiet.aborted f₀ hf₀ (same.cancelled.symm.trans live))

theorem Quiet.keepsPost (quiet : p.Quiet sid) (remains : p.Remains a) : KeepsPost n p a := by
  cases a with
  | handleSelect id => exact remains
  | transcript ticket response =>
    intro f hf items _ live haborted
    rw [quiet.aborted f (lookup_some hf).1 live] at haborted
    cases haborted
  | _ => trivial

theorem Remains.stays (remains : p.Remains a) : p.Stays a := by
  cases a with
  | handleSelect id => exact remains.elim
  | _ => exact remains

theorem Posts.shows (posts : p.Posts n sid a) (h : p.step a = some p') : p'.Shows n := by
  cases a with
  | send content now =>
    obtain ⟨hstreaming, hactive, rfl⟩ := posts
    obtain rfl := Option.some.inj h
    rw [ChatPage.send, hstreaming, hactive]
    exact ⟨_, List.mem_append_right _ (List.mem_singleton_self _), rfl⟩
  | resume ticket now =>
    obtain ⟨rfl, -⟩ := posts
    obtain ⟨r, -, rfl⟩ := Option.map_eq_some_iff.mp h
    exact ⟨_, List.mem_append_right _ (List.mem_singleton_self _), rfl⟩
  | _ => exact posts.elim

/-- The posting aborts the fetch that is listened to, and there is none to follow. -/
theorem Posts.quiet (posts : p.Posts n sid a) (listening : p.Listening)
    (active : p.activeId = some sid) (ran : p.EffectRan) (h : p.step a = some p') :
    p'.Quiet sid := by
  have hfetches : p'.fetches = p.abortTranscript.fetches := by
    cases a with
    | send content now =>
      obtain ⟨hstreaming, hactive, -⟩ := posts
      obtain rfl := Option.some.inj h
      rw [ChatPage.send, hstreaming, hactive]
      rfl
    | resume ticket now =>
      obtain ⟨r, -, rfl⟩ := Option.map_eq_some_iff.mp h
      simp only [post, abortTranscript]
      split <;> rfl
    | _ => exact posts.elim
  have remains : p.Remains a := by
    cases a with
    | send content now => trivial
    | resume ticket now => trivial
    | _ => exact posts.elim
  obtain ⟨hactive, hran⟩ := ran.step active remains h
  exact ⟨hactive, hran, fun f hf live => listening.aborted (hfetches ▸ hf) live⟩

/-- A posted message stays as long as the user stays, selects nothing again and no transcript
without it arrives; and it stays in any case where the effect ran before it was posted. -/
theorem posted_message_stays_iff {p₀ p₁ : ChatPage} {a₁ : Action} {n : ℕ} {sid : Uuid}
    (reachable : Run step (fun _ _ => True) mounted p₀) (posts : p₀.Posts n sid a₁)
    (active : p₀.activeId = some sid) (posted : p₀.step a₁ = some p₁) :
    (∀ p, Run step (fun p a => p.Stays a ∧ KeepsPost n p a) p₁ p → p.Shows n ∧
      ∀ a p', p.Stays a → p.step a = some p' → (p'.Shows n ↔ KeepsPost n p a)) ∧
    (p₀.EffectRan → ∀ p, Run step Remains p₁ p → p.Shows n) := by
  have hshows : p₁.Shows n := posts.shows posted
  refine ⟨fun p run => ?_, fun ran p run => ?_⟩
  · have shows : p.Shows n := run.invariant hshows fun _ _ _ shows ⟨stays, keeps⟩ taken =>
      (Shows.step_iff shows stays taken).mpr keeps
    exact ⟨shows, fun _ _ => shows.step_iff⟩
  · have listening : p₀.Listening :=
      reachable.invariant mounted_listening fun _ _ _ listening _ => Listening.step listening
    have hboth : p.Quiet sid ∧ p.Shows n := by
      refine run.invariant (I := fun p => p.Quiet sid ∧ p.Shows n)
        ⟨posts.quiet listening active ran posted, hshows⟩ ?_
      rintro p a p' ⟨quiet, shows⟩ remains taken
      exact ⟨quiet.step remains taken,
        (shows.step_iff remains.stays taken).mpr (quiet.keepsPost remains)⟩
    exact hboth.2

def loading : List Action := [.listed 0 (.ok [⟨1, .personal, 0⟩]), .render, .transcriptEffect]

/-- The transcript arrives, as empty as it was, when the first question has been asked. -/
def lateTranscript : List Action :=
  [.transcript 1 (.ok []), .render, .streamEnds 2 (.ok ()) 9]

theorem posted_message_stays_iff_loading : ∃ p₀ p₁ p, execute step mounted loading = some p₀ ∧
    p₀.step (.send "Who owns the drill log?" 5) = some p₁ ∧
    execute step p₁ lateTranscript = some p ∧ p.Shows 2 := by
  have hlast : ((execute step mounted loading).bind fun p₀ =>
      (p₀.step (.send "Who owns the drill log?" 5)).bind fun p₁ =>
        (execute step p₁ lateTranscript).map fun _ =>
          (p₀.tickets, p₀.view, p₀.activeId, p₀.selectionNonce, p₀.effectKey)) =
      some (2, ⟨some 1, 0, false⟩, some 1, 0, some (some 1, 0)) := rfl
  obtain ⟨p₀, hp₀, hlast⟩ := Option.bind_eq_some_iff.mp hlast
  obtain ⟨p₁, hp₁, hlast⟩ := Option.bind_eq_some_iff.mp hlast
  obtain ⟨p, hp, hvalues⟩ := Option.map_eq_some_iff.mp hlast
  obtain ⟨htickets, hview, hactive, hnonce, hkey⟩ : p₀.tickets = 2 ∧
      p₀.view = ⟨some 1, 0, false⟩ ∧ p₀.activeId = some 1 ∧ p₀.selectionNonce = 0 ∧
      p₀.effectKey = some (some 1, 0) := by simpa using hvalues
  have hposts : p₀.Posts 2 1 (.send "Who owns the drill log?" 5) := by
    simp [Posts, htickets, hview]
  have hran : p₀.EffectRan := by simp [EffectRan, View.key, hview, hactive, hnonce, hkey]
  have remains : Obeys step Remains p₁ lateTranscript :=
    ⟨trivial, fun _ _ => ⟨trivial, fun _ _ => ⟨trivial, fun _ _ => trivial⟩⟩⟩
  exact ⟨p₀, p₁, p, hp₀, hp₁, hp, (posted_message_stays_iff (.of_execute (obeys_true _ _) hp₀)
    hposts hactive hp₁).2 hran p (.of_execute remains hp)⟩

/-- There is no conversation yet, and one is created for the first question. -/
def firstQuestion : List Action :=
  [.listed 0 (.ok []), .render, .transcriptEffect, .send "Who owns the drill log?" 5,
    .created 1 (.ok ⟨7, .personal, 6⟩)]

/-- The effect runs after the question was posted, and its transcript is from before. -/
theorem first_question_wiped :
    ¬ ∀ p₀ a₁ p₁ n sid p, Run step (fun _ _ => True) mounted p₀ → p₀.Posts n sid a₁ →
      p₀.activeId = some sid → p₀.step a₁ = some p₁ → Run step Remains p₁ p → p.Shows n := by
  intro h
  have hlast : ((execute step mounted firstQuestion).bind fun p₀ => (p₀.step (.resume 1 6)).bind
      fun p₁ => (execute step p₁ [.render, .transcriptEffect, .transcript 3 (.ok [])]).map
        fun p => (p₀.tickets, p₀.activeId, p₀.resumed, p.messages)) =
      some (2, some 7, [⟨1, 7, "Who owns the drill log?"⟩], []) := by decide
  obtain ⟨p₀, hp₀, hlast⟩ := Option.bind_eq_some_iff.mp hlast
  obtain ⟨p₁, hp₁, hlast⟩ := Option.bind_eq_some_iff.mp hlast
  obtain ⟨p, hp, hvalues⟩ := Option.map_eq_some_iff.mp hlast
  obtain ⟨htickets, hactive, hresumed, hmessages⟩ : p₀.tickets = 2 ∧ p₀.activeId = some 7 ∧
      p₀.resumed = [⟨1, 7, "Who owns the drill log?"⟩] ∧ p.messages = [] := by
    simpa using hvalues
  have hposts : p₀.Posts 2 7 (.resume 1 6) := by
    refine ⟨htickets.symm, ⟨1, 7, "Who owns the drill log?"⟩, ?_, rfl⟩
    rw [hresumed]
    rfl
  have remains : Obeys step Remains p₁ [.render, .transcriptEffect, .transcript 3 (.ok [])] :=
    ⟨trivial, fun _ _ => ⟨trivial, fun _ _ => ⟨trivial, fun _ _ => trivial⟩⟩⟩
  obtain ⟨m, hm, -⟩ := h p₀ _ p₁ 2 7 p (.of_execute (obeys_true _ _) hp₀) hposts hactive hp₁
    (.of_execute remains hp)
  rw [hmessages] at hm
  cases hm

end ChatPage

end Docsage
