import Docsage.Chat.Protocol

/-! # Failures of an accepted turn

The user's message is stored before anything can fail. In FastAPI what fails
inside the stream becomes an event, but the retrieval comes before the stream,
and what fails there becomes a status code.
-/

namespace Docsage
open Effects Relational

/-- The last event, and no other, is `done` or `error`. -/
def EndsOnce {τ : Type} (events : List (ChatEvent τ)) : Prop :=
  ∃ sent last, events = sent ++ [last] ∧ last.terminal = true ∧ ∀ e ∈ sent, e.terminal = false

theorem ChatGrammar.endsOnce {τ : Type} {events : List (ChatEvent τ)}
    (grammar : ChatGrammar events) : EndsOnce events := by
  induction grammar with
  | delta text _ ih =>
    obtain ⟨sent, last, rfl, hlast, hsent⟩ := ih
    exact ⟨.delta text :: sent, last, rfl, hlast, List.forall_mem_cons.mpr ⟨rfl, hsent⟩⟩
  | done citations messageId =>
    exact ⟨[.citations citations], .done messageId, rfl, rfl, by simp [ChatEvent.terminal]⟩
  | error message => exact ⟨[], .error message, rfl, rfl, List.forall_mem_nil _⟩

/-- The answer is a stream, and read to its end it ends in exactly one of `done` and `error`. -/
def PostResponse.EndsInEvent {τ : Type} (fault : ChatCommit → Option Exc)
    (response : PostResponse τ × ChatStore τ) : Prop :=
  ∃ body, response.1 = .stream body ∧ EndsOnce (body.exec fault response.2).events

/-- Nothing fails in the retrieval: the listing of the provider spaces, and for each of the spaces
that are asked its provider, the embedding of the question and the vector query. -/
structure RetrievalSucceeds (settings : Settings) (calls : TurnCalls) (s : Store)
    (visible : Document → Bool) (question : String) : Prop where
  listing : calls.retrieval.listing = none
  embedding : ∀ p ∈ queriedSpaces s visible,
    ∃ vector, queryVector settings calls.embedding question p = .ok vector
  vectorQuery : ∀ p ∈ queriedSpaces s visible, calls.retrieval.vectorQuery p = none

section

variable {index : VectorIndex} {settings : Settings} {calls : TurnCalls} {s : Store} {user : User}
  {sessionId : Uuid} {session : ChatSession} {content : String} {chat : ChatStore String}

theorem retrieveUnder_isOk_iff (index : VectorIndex) {scope : ChatScope} (k : ℕ) :
    (∃ retrieved, retrieveUnder calls.retrieval index settings calls.embedding s user scope content
      k = .ok retrieved) ↔
      RetrievalSucceeds settings calls s (candidateFilter user.id scope) content := by
  -- one iteration of the loop over the provider spaces
  have hiteration (visible : Document → Bool) (p : ProviderName) : (∃ rows,
      (queryVector settings calls.embedding content p >>= fun query =>
        orRaise (calls.retrieval.vectorQuery p) >>= fun _ =>
          pure (retrieveSpace index s visible k query p)) = .ok rows) ↔
      (∃ vector, queryVector settings calls.embedding content p = .ok vector) ∧
        calls.retrieval.vectorQuery p = none := by
    cases queryVector settings calls.embedding content p with
    | error exc => simp [bind, Except.bind]
    | ok vector =>
      cases calls.retrieval.vectorQuery p <;>
        simp [orRaise, bind, Except.bind, pure, Except.pure]
  unfold retrieveUnder
  cases hlisting : calls.retrieval.listing with
  | some exc =>
    refine iff_of_false (by simp [orRaise, bind, Except.bind]) fun h => ?_
    rw [h.listing] at hlisting
    cases hlisting
  | none =>
    refine bind_pure_isOk_iff.trans (mapM_isOk_iff.trans ?_)
    simp only [hiteration]
    constructor
    · intro h
      exact ⟨hlisting, fun p hp => (h p hp).1, fun p hp => (h p hp).2⟩
    · intro h p hp
      exact ⟨h.embedding p hp, h.vectorQuery p hp⟩

/-- Whatever the answer generator does and whether or not the answer can be stored. -/
theorem answerStream_grammar {service : AnswerService} {retrieved : List RetrievedChunk}
    {messageId : Uuid} {fault : ChatCommit → Option Exc} :
    ChatGrammar ((answerStream settings service content retrieved sessionId messageId).exec
      fault chat).events := by
  cases h : (answerDeltas settings service content retrieved).failure with
  | none =>
    rw [answerStream, AnswerService.stream, eventStream_exec_done {} h]
    exact (ChatGrammar.done _ _).deltas _
  | some exc =>
    rw [answerStream, AnswerService.stream, eventStream_exec_error {} h rfl]
    exact (ChatGrammar.error _).deltas _

theorem postChecks_ok (h : postChecks chat user sessionId = .ok session) :
    (chat.session? session.id).isSome := by
  obtain ⟨found, hfound, h⟩ := bind_ok h
  obtain ⟨-, h⟩ := refuse_bind_ok h
  obtain rfl := Except.ok.inj h
  unfold orRefuse at hfound
  split at hfound
  · next session' hsession =>
    obtain rfl := Except.ok.inj hfound
    obtain ⟨hlookup, -⟩ := Option.filter_eq_some_iff.mp hsession
    rw [(lookup_some hlookup).2]
    exact Option.isSome_of_eq_some hlookup
  · cases hfound

end

/-- An accepted turn whose message is stored is answered by a stream that ends in one event exactly
when nothing fails in its retrieval. What fails in the answer generator or in storing the answer
does not matter. -/
theorem turn_ends_in_event_iff (index : VectorIndex) (settings : Settings) (calls : TurnCalls)
    (s : Store) {user : User} {sessionId : Uuid} {session : ChatSession} (content : String)
    {chat : ChatStore String} (fault : ChatCommit → Option Exc)
    (accepted : postChecks chat user sessionId = .ok session) (stored : calls.storeUser = none) :
    PostResponse.EndsInEvent fault
        (postMessage index settings calls s user sessionId content chat) ↔
      RetrievalSucceeds settings calls s (candidateFilter user.id session.scope) content := by
  have hinsert := attempt_none (ChatStore.insertMessage_of_session calls.userMessageId .user content
    [] (postChecks_ok accepted))
  rw [← retrieveUnder_isOk_iff index topKDefault]
  simp only [postMessage, accepted, stored, hinsert]
  cases retrieveUnder calls.retrieval index settings calls.embedding s user session.scope content
    topKDefault with
  | error exc =>
    refine iff_of_false ?_ (by simp)
    rintro ⟨body, hbody, -⟩
    cases hbody
  | ok retrieved => exact iff_of_true ⟨_, rfl, answerStream_grammar.endsOnce⟩ ⟨retrieved, rfl⟩

namespace Conversation

def calls : TurnCalls where
  embedding := Mixed.service
  answer := answers
  userMessageId := 8
  assistantMessageId := 9

def orphaned : Store := { Mixed.corpus with documents := [Mixed.document 13 .openai] }

end Conversation

theorem turn_ends_in_event_iff_mixed :
    PostResponse.EndsInEvent (fun _ => none)
        (postMessage Mixed.index Mixed.settings Conversation.calls Mixed.corpus Mixed.owner 1 "?"
          Conversation.chat) ↔
      RetrievalSucceeds Mixed.settings Conversation.calls Mixed.corpus
        (candidateFilter Mixed.owner.id Conversation.session.scope) "?" :=
  turn_ends_in_event_iff Mixed.index Mixed.settings Conversation.calls Mixed.corpus "?"
    (fun _ => none) rfl rfl

/-- The key of the only visible space is gone: the turn is answered 500, after its message was
stored. -/
theorem turn_answered_by_status :
    ¬ ∀ (index : VectorIndex) (settings : Settings) (calls : TurnCalls) (s : Store) (user : User)
      (sessionId : Uuid) (session : ChatSession) (content : String) (chat : ChatStore String)
      (fault : ChatCommit → Option Exc), postChecks chat user sessionId = .ok session →
      calls.storeUser = none →
      PostResponse.EndsInEvent fault
        (postMessage index settings calls s user sessionId content chat) := by
  intro h
  obtain ⟨body, hbody, -⟩ := h Mixed.index {} Conversation.calls Conversation.orphaned Mixed.owner 1
    Conversation.session "telework?" Conversation.chat (fun _ => none) rfl rfl
  have hrefused : (postMessage Mixed.index {} Conversation.calls Conversation.orphaned Mixed.owner 1
      "telework?" Conversation.chat).1 = .refused internalError := rfl
  rw [hrefused] at hbody
  cases hbody

/-- A .NET turn retrieves inside its stream, so nothing that fails leaves it. -/
theorem DotNet.turn_ends_in_event (options : ChatOptions) (calls : TurnCalls) (sessionId : Uuid)
    (content : Text.Utf16) (retrieved : Except Exc (List RetrievedChunk))
    (chat : ChatStore Text.Utf16) (fault : ChatCommit → Option Exc) :
    EndsOnce ((processAsync options calls sessionId content retrieved).exec fault chat).events := by
  obtain ⟨_, _, _, _, protocol⟩ := @processAsync_protocol fault sessionId chat options calls content
    retrieved
  exact protocol.grammar.endsOnce

end Docsage
