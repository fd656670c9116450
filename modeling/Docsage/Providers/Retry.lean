import Mathlib.Order.Bounds.Basic
import Mathlib.Data.List.Range
import Mathlib.Data.Rat.Init
import Mathlib.Tactic.Common

/-! # `call_with_retries`

An operation is called until it succeeds, until it fails in a way that is not worth
another attempt, or until the attempts are used up. The calls and the sleeps of a run
are recorded in order.
-/

namespace Docsage.Retry

def attempts : ℕ := 3

def delays : List ℚ := [1, 2, 4]

variable {Value Exc Delay : Type}

inductive Action (Delay : Type) where
  | call
  | sleep (delay : Delay)
deriving DecidableEq

/-- How a run ends. The last two are not meant to happen: a look-up in no delays at all, and the
assertion behind the loop. -/
inductive Result (Value Exc : Type) where
  | returned (value : Value)
  | raised (exc : Exc)
  | indexError
  | unreachable
deriving DecidableEq

/-- The calls of an operation by number, from one on, and what is known of its exceptions. Only an
`Exception` is caught. -/
structure Operation (Value Exc : Type) where
  outcome : ℕ → Except Exc Value
  isException : Exc → Bool
  isRetryable : Exc → Bool

/-- The loop from an attempt on, with `left` attempts left. -/
def attemptFrom (op : Operation Value Exc) (attempts : ℕ) (delays : List Delay) (attempt : ℕ) :
    ℕ → List (Action Delay) × Result Value Exc
  | 0 => ([], .unreachable)
  | left + 1 =>
    match op.outcome attempt with
    | .ok value => ([.call], .returned value)
    | .error exc =>
      if op.isException exc = false then ([.call], .raised exc)
      else if attempts ≤ attempt ∨ op.isRetryable exc = false then ([.call], .raised exc)
      else
        match delays[min (attempt - 1) (delays.length - 1)]? with
        | none => ([.call], .indexError)
        | some delay =>
          let (actions, result) := attemptFrom op attempts delays (attempt + 1) left
          (.call :: .sleep delay :: actions, result)

def callWithRetries (op : Operation Value Exc) (attempts : ℕ) (delays : List Delay) :
    List (Action Delay) × Result Value Exc := attemptFrom op attempts delays 1 attempts

def calls (actions : List (Action Delay)) : ℕ :=
  actions.countP fun action => match action with
    | .call => true
    | .sleep _ => false

def sleeps (actions : List (Action Delay)) : List Delay :=
  actions.filterMap fun action => match action with
    | .call => none
    | .sleep delay => some delay

def Operation.Retryable (op : Operation Value Exc) (exc : Exc) : Prop :=
  op.isException exc = true ∧ op.isRetryable exc = true

def Operation.Succeeds (op : Operation Value Exc) (i : ℕ) : Prop :=
  ∃ value, op.outcome i = .ok value

/-- The call fails, and not in a way that is worth another attempt. -/
def Operation.FailsForGood (op : Operation Value Exc) (i : ℕ) : Prop :=
  ∃ exc, op.outcome i = .error exc ∧ ¬ op.Retryable exc

def Operation.ends (op : Operation Value Exc) (attempts : ℕ) : Set ℕ :=
  { i | 1 ≤ i ∧ (i = attempts ∨ op.Succeeds i ∨ op.FailsForGood i) }

def Operation.result (op : Operation Value Exc) (i : ℕ) : Result Value Exc :=
  match op.outcome i with
  | .ok value => .returned value
  | .error exc => .raised exc

section

variable {op : Operation Value Exc} {attempts attempt : ℕ} {delays : List Delay}

theorem ends_of_error {exc : Exc} (h : op.outcome attempt = .error exc) :
    op.Succeeds attempt ∨ op.FailsForGood attempt ↔ ¬ op.Retryable exc := by
  constructor
  · rintro (⟨value, hok⟩ | ⟨exc', herror, hgood⟩)
    · rw [h] at hok
      cases hok
    · rw [h] at herror
      exact Except.error.inj herror ▸ hgood
  · exact fun hgood => .inr ⟨exc, h, hgood⟩

/-- The last attempt, a success and a failure for good end the run. -/
theorem attemptFrom_end (left : ℕ)
    (h : attempt = attempts ∨ op.Succeeds attempt ∨ op.FailsForGood attempt) :
    attemptFrom op attempts delays attempt (left + 1) = ([.call], op.result attempt) := by
  rw [attemptFrom, Operation.result]
  cases houtcome : op.outcome attempt with
  | ok value => rfl
  | error exc =>
    rw [ends_of_error houtcome] at h
    simp only
    split_ifs with hcaught hstop
    · rfl
    · rfl
    · refine absurd h (not_or.mpr ⟨fun heq => hstop (.inl heq.ge), not_not.mpr ⟨?_, ?_⟩⟩)
      · simpa using hcaught
      · simpa using (not_or.mp hstop).2

theorem attemptFrom_again (left : ℕ) (nonempty : delays ≠ []) (lt : attempt < attempts)
    (h : ¬ (op.Succeeds attempt ∨ op.FailsForGood attempt)) :
    ∃ delay, delays[min attempt delays.length - 1]? = some delay ∧
      attemptFrom op attempts delays attempt (left + 1) =
        (.call :: .sleep delay :: (attemptFrom op attempts delays (attempt + 1) left).1,
          (attemptFrom op attempts delays (attempt + 1) left).2) := by
  have hindex : min (attempt - 1) (delays.length - 1) = min attempt delays.length - 1 := by omega
  have hpos : 0 < delays.length := List.length_pos_iff.mpr nonempty
  have hlast : min attempt delays.length - 1 < delays.length := by omega
  have hget := List.getElem?_eq_getElem hlast
  refine ⟨_, hget, ?_⟩
  rw [attemptFrom]
  cases houtcome : op.outcome attempt with
  | ok value => exact absurd (.inl ⟨value, houtcome⟩) h
  | error exc =>
    rw [ends_of_error houtcome, not_not] at h
    simp only
    rw [if_neg (by simp [h.1]), if_neg (by simp [h.2, lt]), hindex, hget]

/-- What a run does from an attempt on, with the number of sleeps that it takes. -/
theorem attemptFrom_run (op : Operation Value Exc) (nonempty : delays ≠ []) (k : ℕ)
    (h : attempt + k = attempts) :
    ∃ m, (attempt + m = attempts ∨ op.Succeeds (attempt + m) ∨ op.FailsForGood (attempt + m)) ∧
      (∀ i, attempt ≤ i → i < attempt + m →
        ¬ (i = attempts ∨ op.Succeeds i ∨ op.FailsForGood i)) ∧
      calls (attemptFrom op attempts delays attempt (k + 1)).1 = m + 1 ∧
      (sleeps (attemptFrom op attempts delays attempt (k + 1)).1).map some =
        (List.range' attempt m).map (fun j => delays[min j delays.length - 1]?) ∧
      (attemptFrom op attempts delays attempt (k + 1)).2 = op.result (attempt + m) := by
  induction k generalizing attempt with
  | zero =>
    have hattempt : attempt = attempts := h
    rw [attemptFrom_end 0 (.inl hattempt)]
    exact ⟨0, .inl hattempt, fun i hi hlt => absurd hlt hi.not_gt, rfl, rfl, rfl⟩
  | succ k ih =>
    by_cases hend : op.Succeeds attempt ∨ op.FailsForGood attempt
    · rw [attemptFrom_end (k + 1) (.inr hend)]
      exact ⟨0, .inr hend, fun i hi hlt => absurd hlt hi.not_gt, rfl, rfl, rfl⟩
    · obtain ⟨delay, hdelay, hagain⟩ := attemptFrom_again (k + 1) nonempty
        (show attempt < attempts by omega) hend
      obtain ⟨m, hlast, hbefore, hcalls, hsleeps, hresult⟩ := @ih (attempt + 1) (by omega)
      have hnext : attempt + 1 + m = attempt + (m + 1) := by omega
      rw [hnext] at hlast hbefore hresult
      rw [hagain]
      refine ⟨m + 1, hlast, fun i hi hlt => ?_, ?_, ?_, hresult⟩
      · rcases Nat.eq_or_lt_of_le hi with rfl | hgt
        · exact not_or.mpr ⟨by omega, hend⟩
        · exact hbefore i hgt hlt
      · have hcons : calls (.call :: .sleep delay ::
            (attemptFrom op attempts delays (attempt + 1) (k + 1)).1) =
              calls (attemptFrom op attempts delays (attempt + 1) (k + 1)).1 + 1 := by
          simp [calls]
        rw [hcons, hcalls]
      · have hcons : sleeps (.call :: .sleep delay ::
            (attemptFrom op attempts delays (attempt + 1) (k + 1)).1) =
              delay :: sleeps (attemptFrom op attempts delays (attempt + 1) (k + 1)).1 := by
          simp [sleeps]
        rw [hcons, List.map_cons, hsleeps, List.range'_succ, List.map_cons, hdelay]

theorem callWithRetries_result (op : Operation Value Exc) {attempts : ℕ} (positive : 1 ≤ attempts)
    {delays : List Delay} (nonempty : delays ≠ []) :
    ∃ n, (callWithRetries op attempts delays).2 = op.result n := by
  obtain ⟨k, rfl⟩ : ∃ k, attempts = k + 1 := ⟨attempts - 1, by omega⟩
  obtain ⟨m, -, -, -, -, hresult⟩ := attemptFrom_run op nonempty k (Nat.add_comm 1 k)
  exact ⟨1 + m, hresult⟩

/-- The run makes the calls up to the first at which it may end, sleeps between them, and leaves
what the last one left. -/
theorem callWithRetries_spec (op : Operation Value Exc) {attempts : ℕ} (positive : 1 ≤ attempts)
    {delays : List Delay} (nonempty : delays ≠ []) :
    ∃ n, IsLeast (op.ends attempts) n ∧
      calls (callWithRetries op attempts delays).1 = n ∧
      (callWithRetries op attempts delays).2 = op.result n ∧
      (sleeps (callWithRetries op attempts delays).1).map some =
        (List.range' 1 (n - 1)).map (fun j => delays[min j delays.length - 1]?) ∧
      (callWithRetries op attempts delays).2 ≠ .unreachable := by
  obtain ⟨k, hk⟩ : ∃ k, 1 + k = attempts := ⟨attempts - 1, by omega⟩
  obtain ⟨m, hlast, hbefore, hcalls, hsleeps, hresult⟩ :=
    attemptFrom_run op nonempty k hk
  have hrun : callWithRetries op attempts delays = attemptFrom op attempts delays 1 (k + 1) := by
    rw [callWithRetries, Nat.add_comm k 1, hk]
  rw [hrun]
  refine ⟨1 + m, ⟨⟨by omega, hlast⟩, fun i hi => ?_⟩, by rw [hcalls, Nat.add_comm], hresult, ?_, ?_⟩
  · by_contra hlt
    exact hbefore i hi.1 (by omega) hi.2
  · rw [hsleeps, Nat.add_sub_cancel_left]
  · rw [hresult, Operation.result]
    split <;> simp

end

def overloaded : Operation String ℕ where
  outcome i := if i < 3 then .error 503 else .ok "answer"
  isException _ := true
  isRetryable status := status = 503

theorem callWithRetries_spec_overloaded :
    ∃ n, IsLeast (overloaded.ends attempts) n ∧
      calls (callWithRetries overloaded attempts delays).1 = n ∧
      (callWithRetries overloaded attempts delays).2 = overloaded.result n ∧
      (sleeps (callWithRetries overloaded attempts delays).1).map some =
        (List.range' 1 (n - 1)).map (fun j => delays[min j delays.length - 1]?) ∧
      (callWithRetries overloaded attempts delays).2 ≠ .unreachable :=
  callWithRetries_spec overloaded (by decide) (List.cons_ne_nil _ _)

example : callWithRetries overloaded attempts delays =
    ([.call, .sleep 1, .call, .sleep 2, .call], .returned "answer") := rfl

end Docsage.Retry
