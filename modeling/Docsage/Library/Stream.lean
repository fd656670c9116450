import Docsage.Library.Program

/-! # Generators and streamed responses

A generator is the tree of what a producer yields before it stops or raises. A
body is a response that is produced while it is sent: between two events it may
commit a transaction, and whether that succeeds decides how it goes on. Like a
program it is run to its end by `exec` and one step at a time by `resume`.
-/

namespace Effects

variable {σ ε ℓ η : Type}

/-- A sequence produced one by one, ended normally or by an exception. -/
inductive Generator (ε η : Type) where
  | stop
  | raised (e : ε)
  | yields (x : η) (rest : Generator ε η)

namespace Generator

def ofList : List η → Generator ε η
  | [] => .stop
  | x :: xs => .yields x (ofList xs)

def items : Generator ε η → List η
  | .stop => []
  | .raised _ => []
  | .yields x rest => x :: rest.items

def failure : Generator ε η → Option ε
  | .stop => none
  | .raised e => some e
  | .yields _ rest => rest.failure

@[simp] theorem failure_ofList (xs : List η) : (ofList xs : Generator ε η).failure = none := by
  induction xs with
  | nil => rfl
  | cons x xs ih => rw [ofList, failure, ih]

end Generator

/-- A response that sends events `η` and commits transactions on `σ` in between. -/
inductive Body (σ ε ℓ η : Type) where
  | ended
  | raised (e : ε)
  | emit (event : η) (rest : Body σ ε ℓ η)
  | commit (label : ℓ) (transaction : σ → Except ε σ) (next : Except ε Unit → Body σ ε ℓ η)

structure Served (σ ε η : Type) where
  events : List η
  failure : Option ε
  store : σ

namespace Body

/-- Send the whole response; `fault` says which commits fail. -/
def exec (fault : ℓ → Option ε) : Body σ ε ℓ η → σ → Served σ ε η
  | .ended, s => ⟨[], none, s⟩
  | .raised e, s => ⟨[], some e, s⟩
  | .emit event rest, s =>
    { rest.exec fault s with events := event :: (rest.exec fault s).events }
  | .commit label t next, s =>
    (next (attempt (fault label) t s).1).exec fault (attempt (fault label) t s).2

/-- Perform the next step: what it sends, and how the response goes on. -/
def resume (fault : Option ε) : Body σ ε ℓ η → σ → Option (List η × Body σ ε ℓ η × σ)
  | .ended, _ => none
  | .raised _, _ => none
  | .emit event rest, s => some ([event], rest, s)
  | .commit _ t next, s => some ([], next (attempt fault t s).1, (attempt fault t s).2)

/-- `Honours promise P b`: started where `P` holds, `b` sends an event only when what the event
promises of the store is true, and no transaction makes it false again. -/
inductive Honours (promise : η → σ → Prop) : (σ → Prop) → Body σ ε ℓ η → Prop where
  | ended {P : σ → Prop} : Honours promise P .ended
  | raised {P : σ → Prop} (e : ε) : Honours promise P (.raised e)
  | emit {P : σ → Prop} {event : η} {rest : Body σ ε ℓ η} (kept : ∀ s, P s → promise event s)
      (later : Honours promise P rest) : Honours promise P (.emit event rest)
  | commit {P Q : σ → Prop} {label : ℓ} {t : σ → Except ε σ}
      {next : Except ε Unit → Body σ ε ℓ η}
      (keeps : ∀ event s s', promise event s → t s = .ok s' → promise event s')
      (establishes : ∀ s s', P s → t s = .ok s' → Q s')
      (done : Honours promise Q (next (.ok ())))
      (failed : ∀ e, Honours promise P (next (.error e))) :
      Honours promise P (.commit label t next)

/-- One step keeps the promises made so far, and those it makes. -/
theorem Honours.resume {promise : η → σ → Prop} {P : σ → Prop} {fault : Option ε}
    {b b' : Body σ ε ℓ η} {s s' : σ} {sent made : List η} (honours : b.Honours promise P)
    (holds : P s) (kept : ∀ event ∈ made, promise event s)
    (h : b.resume fault s = some (sent, b', s')) :
    (∃ Q, b'.Honours promise Q ∧ Q s') ∧ ∀ event ∈ made ++ sent, promise event s' := by
  cases honours with
  | ended => cases h
  | raised e => cases h
  | @emit P event rest hkept later =>
    obtain ⟨rfl, rfl, rfl⟩ := by simpa [Body.resume] using h
    refine ⟨⟨P, later, holds⟩, fun event' hevent => ?_⟩
    rcases List.mem_append.mp hevent with hevent | hevent
    · exact kept event' hevent
    · obtain rfl := List.mem_singleton.mp hevent
      exact hkept s holds
  | @commit P Q label t next keeps establishes done failed =>
    obtain ⟨rfl, rfl, rfl⟩ := by simpa [Body.resume] using h
    rw [List.append_nil]
    rcases attempt_cases fault t s with ⟨hr, ht⟩ | ⟨⟨e, hr⟩, hs⟩
    · exact ⟨⟨Q, hr ▸ done, establishes _ _ holds ht⟩,
        fun event hevent => keeps event _ _ (kept event hevent) ht⟩
    · exact ⟨⟨P, hr ▸ failed e, by rwa [hs]⟩, fun event hevent => by
        rw [hs]
        exact kept event hevent⟩

inductive Commits (kind : (σ → Except ε σ) → Prop) : Body σ ε ℓ η → Prop where
  | ended : Commits kind .ended
  | raised (e : ε) : Commits kind (.raised e)
  | emit {event : η} {rest : Body σ ε ℓ η} (later : Commits kind rest) :
      Commits kind (.emit event rest)
  | commit {label : ℓ} {t : σ → Except ε σ} {next : Except ε Unit → Body σ ε ℓ η}
      (first : kind t) (later : ∀ r, Commits kind (next r)) : Commits kind (.commit label t next)

/-- A handler around a response: an exception goes on as the handler says. -/
def guard (handler : ε → Body σ ε ℓ η) : Body σ ε ℓ η → Body σ ε ℓ η
  | .ended => .ended
  | .raised e => handler e
  | .emit event rest => .emit event (rest.guard handler)
  | .commit label t next => .commit label t fun r => (next r).guard handler

variable {fault : ℓ → Option ε} {handler : ε → Body σ ε ℓ η} {b : Body σ ε ℓ η} {s : σ}

theorem exec_guard_of_none (h : (b.exec fault s).failure = none) :
    (b.guard handler).exec fault s = b.exec fault s := by
  induction b generalizing s with
  | ended => rfl
  | raised e => cases h
  | emit event rest ih => simp only [guard, exec, ih h]
  | commit label t next ih => exact ih _ h

/-- A handled exception: what was sent stays sent, and the handler goes on from there. -/
theorem exec_guard_of_some {e : ε} (h : (b.exec fault s).failure = some e) :
    (b.guard handler).exec fault s =
      { (handler e).exec fault (b.exec fault s).store with
        events := (b.exec fault s).events ++
          ((handler e).exec fault (b.exec fault s).store).events } := by
  induction b generalizing s with
  | ended => cases h
  | raised e' =>
    obtain rfl := Option.some.inj h
    rfl
  | emit event rest ih => simp only [guard, exec, ih h, List.cons_append]
  | commit label t next ih => exact ih _ h

theorem Commits.guard {kind : (σ → Except ε σ) → Prop} (commits : b.Commits kind)
    (handled : ∀ e, (handler e).Commits kind) : (b.guard handler).Commits kind := by
  induction commits with
  | ended => exact .ended
  | raised e => exact handled e
  | emit _ ih => exact .emit ih
  | commit first _ ih => exact .commit first ih

theorem Honours.guard {promise : η → σ → Prop} {P : σ → Prop} (honours : b.Honours promise P)
    (handled : ∀ e Q, (handler e).Honours promise Q) : (b.guard handler).Honours promise P := by
  induction honours with
  | ended => exact .ended
  | raised e => exact handled e _
  | emit kept _ ih => exact .emit kept ih
  | commit keeps establishes _ _ ihDone ihFailed => exact .commit keeps establishes ihDone ihFailed

end Body

end Effects
