import Docsage.Library.Transition
import Mathlib.Algebra.Order.BigOperators.Group.List
import Mathlib.Algebra.Order.Ring.Nat

/-! # Check, then insert

Processes that insert a row under one key of a table with a unique constraint.
Each looks for a row first, and inserts in a later step where there was none. The
first to insert wins; whoever had looked before and inserts after violates the
constraint, and some are not able to insert at all. No insert fails exactly as long
as nobody looks at a free key who is not able, or while somebody else is about to
insert.
-/

namespace Race
open Transition

/-- Where a process stands. The winner may have steps of its own left. -/
inductive Stage where
  | arrived (able : Bool)
  | passed (able : Bool)
  | won (left : ℕ)
  | refused
  | failed
deriving DecidableEq

structure State where
  taken : Bool
  stages : List Stage

/-- The next step of a process, and what becomes of the key. -/
def advance (after : ℕ) (taken : Bool) : Stage → Option (Bool × Stage)
  | .arrived able => some (taken, if taken then .refused else .passed able)
  | .passed able => some (taken || able, if !taken && able then .won after else .failed)
  | .won (left + 1) => some (taken, .won left)
  | .won 0 | .refused | .failed => none

def step (after : ℕ) (s : State) (i : ℕ) : Option State :=
  (s.stages[i]?).bind fun stage =>
    (advance after s.taken stage).map fun next => ⟨next.1, s.stages.set i next.2⟩

/-- Who looks at a free key is able to insert, and nobody else is about to. -/
def InTurn (s : State) (i : ℕ) : Prop :=
  s.taken = false → ∀ able, s.stages[i]? = some (.arrived able) →
    able = true ∧ ∀ other, .passed other ∉ s.stages

namespace Stage

def hasWon : Stage → Bool
  | .won _ => true
  | _ => false

def late : Stage → Bool
  | .won _ | .refused => true
  | .arrived _ | .passed _ | .failed => false

/-- What it adds to the contention: who cannot insert counts for two. -/
def weight : Stage → ℕ
  | .passed true | .won _ => 1
  | .passed false | .failed => 2
  | .arrived _ | .refused => 0

def hopeful : Stage → Bool
  | .arrived able | .passed able => able
  | .won _ | .refused | .failed => false

def ended : Stage → Bool
  | .won 0 | .refused | .failed => true
  | _ => false

end Stage

namespace State

def winners (s : State) : ℕ := s.stages.countP Stage.hasWon

def contention (s : State) : ℕ := (s.stages.map Stage.weight).sum

/-- While the key is free nobody has found it taken or won it, then somebody has won it. -/
structure Fair (s : State) : Prop where
  free : s.taken = false → ∀ stage ∈ s.stages, stage.late = false
  taken : s.taken = true → s.winners = 1

/-- The key is free, and all processes are about to look. -/
def free (able : List Bool) : State := ⟨false, able.map .arrived⟩

/-- The key is taken, and all processes are about to look. -/
def occupied (able : List Bool) : State := ⟨true, able.map .arrived⟩

end State

variable {after : ℕ} {s s' : State} {i : ℕ} {able : List Bool}

theorem step_split (h : step after s i = some s') : ∃ before stage later next,
    s.stages = before ++ stage :: later ∧ s.stages[i]? = some stage ∧
      advance after s.taken stage = some next ∧
      s' = ⟨next.1, before ++ next.2 :: later⟩ := by
  obtain ⟨stage, hstage, h⟩ := Option.bind_eq_some_iff.mp h
  obtain ⟨next, hnext, rfl⟩ := Option.map_eq_some_iff.mp h
  obtain ⟨hi, rfl⟩ := List.getElem?_eq_some_iff.mp hstage
  obtain ⟨before, later, hsplit, -, hset⟩ := @List.exists_of_set _ i next.2 s.stages hi
  exact ⟨before, _, later, next, hsplit, hstage, hnext, by rw [hset]⟩

theorem advance_cases {taken : Bool} {stage : Stage} {next : Bool × Stage}
    (h : advance after taken stage = some next) :
    (∃ able, stage = .arrived able ∧
        next = (taken, if taken then .refused else .passed able)) ∨
      (∃ able, stage = .passed able ∧
        next = (taken || able, if !taken && able then .won after else .failed)) ∨
      ∃ left, stage = .won (left + 1) ∧ next = (taken, .won left) := by
  cases stage with
  | arrived able => exact .inl ⟨able, rfl, (Option.some.inj h).symm⟩
  | passed able => exact .inr (.inl ⟨able, rfl, (Option.some.inj h).symm⟩)
  | won left =>
    cases left with
    | zero => cases h
    | succ left => exact .inr (.inr ⟨left, rfl, (Option.some.inj h).symm⟩)
  | refused | failed => cases h

theorem State.free_fair (able : List Bool) : (free able).Fair :=
  ⟨fun _ => List.forall_mem_map.mpr fun _ _ => rfl, nofun⟩

theorem State.Fair.no_winner (fair : s.Fair) (h : s.taken = false) : s.winners = 0 := by
  rw [winners, List.countP_eq_zero]
  intro stage hstage
  have hlate := fair.free h stage hstage
  cases stage with
  | won => cases hlate
  | _ => simp [Stage.hasWon]

theorem State.Fair.winners_le (fair : s.Fair) : s.winners ≤ 1 := by
  cases h : s.taken with
  | true => exact (fair.taken h).le
  | false => exact (fair.no_winner h).trans_le (Nat.zero_le _)

theorem State.Fair.step (fair : s.Fair) (h : step after s i = some s') : s'.Fair := by
  obtain ⟨before, stage, later, next, hsplit, -, hnext, rfl⟩ := step_split h
  have hfree := fair.free
  have htaken := fair.taken
  have hnone := fair.no_winner
  rw [winners, hsplit, List.countP_append, List.countP_cons] at htaken hnone
  rw [hsplit] at hfree
  simp only [List.forall_mem_append, List.forall_mem_cons] at hfree
  rcases advance_cases hnext with ⟨able, rfl, rfl⟩ | ⟨able, rfl, rfl⟩ | ⟨left, rfl, rfl⟩
  · refine ⟨fun h => ?_, fun h => ?_⟩
    · have h : s.taken = false := h
      simp only [h, Bool.false_eq_true, if_false, List.forall_mem_append, List.forall_mem_cons]
      exact ⟨(hfree h).1, rfl, (hfree h).2.2⟩
    · have h : s.taken = true := h
      simpa [winners, List.countP_append, List.countP_cons, h, Stage.hasWon] using htaken h
  · cases h : s.taken with
    | true =>
      refine ⟨nofun, fun _ => ?_⟩
      simpa [winners, List.countP_append, List.countP_cons, Stage.hasWon] using htaken h
    | false =>
      have hothers := hfree h
      have hzero := hnone h
      cases able with
      | true =>
        refine ⟨nofun, fun _ => ?_⟩
        simp only [Stage.hasWon, Bool.false_eq_true, if_false, Nat.add_zero] at hzero
        simp only [winners, List.countP_append, List.countP_cons, Stage.hasWon, Bool.not_false,
          Bool.and_self, if_true]
        omega
      | false =>
        refine ⟨fun _ => ?_, nofun⟩
        simp only [Bool.and_false, Bool.false_eq_true, if_false, List.forall_mem_append,
          List.forall_mem_cons]
        exact ⟨hothers.1, rfl, hothers.2.2⟩
  · -- only a taken key has a winner
    cases h : s.taken with
    | true =>
      refine ⟨nofun, fun _ => ?_⟩
      simpa [winners, List.countP_append, List.countP_cons, Stage.hasWon] using htaken h
    | false => cases (hfree h).2.1

theorem winners_le_contention (stages : List Stage) :
    stages.countP Stage.hasWon ≤ (stages.map Stage.weight).sum := by
  induction stages with
  | nil => exact Nat.le_refl 0
  | cons stage stages ih =>
    rw [List.countP_cons, List.map_cons, List.sum_cons]
    cases stage with
    | won => simp only [Stage.hasWon, Stage.weight, if_true]; omega
    | _ => simp only [Stage.hasWon, Bool.false_eq_true, if_false]; omega

/-- While the key is free there is no contention if nobody is about to insert or has failed to. -/
theorem State.Fair.contention_eq_zero (fair : s.Fair) (h : s.taken = false) :
    s.contention = 0 ↔ s.contention ≤ 1 ∧ ∀ other, .passed other ∉ s.stages := by
  constructor
  · intro hzero
    refine ⟨hzero.trans_le (Nat.zero_le _), fun other hmem => ?_⟩
    have hweight := List.single_le_sum (fun _ _ => Nat.zero_le _) _
      (List.mem_map_of_mem (f := Stage.weight) hmem)
    rw [← contention, hzero] at hweight
    cases other <;> cases hweight
  · rintro ⟨hle, hnot⟩
    rw [contention, List.sum_eq_zero_iff]
    refine List.forall_mem_map.mpr fun stage hstage => ?_
    have hweight := (List.single_le_sum (fun _ _ => Nat.zero_le _) _
      (List.mem_map_of_mem (f := Stage.weight) hstage)).trans hle
    have hlate := fair.free h stage hstage
    cases stage with
    | arrived | refused => rfl
    | passed other => exact absurd hstage (hnot other)
    | won => cases hlate
    | failed => exact absurd hweight (by decide)

/-- The contention exceeds one exactly when somebody looks out of turn. -/
theorem contention_step (fair : s.Fair) (h : step after s i = some s') :
    s'.contention ≤ 1 ↔ s.contention ≤ 1 ∧ InTurn s i := by
  obtain ⟨before, stage, later, next, hsplit, hstage, hnext, rfl⟩ := step_split h
  have hbefore : s.contention = (before.map Stage.weight).sum + stage.weight +
      (later.map Stage.weight).sum := by
    rw [State.contention, hsplit]
    simp [Nat.add_assoc]
  have hafter : (⟨next.1, before ++ next.2 :: later⟩ : State).contention =
      (before.map Stage.weight).sum + next.2.weight + (later.map Stage.weight).sum := by
    rw [State.contention]
    simp [Nat.add_assoc]
  rw [hafter]
  rcases advance_cases hnext with ⟨able, rfl, rfl⟩ | ⟨able, rfl, rfl⟩ | ⟨left, rfl, rfl⟩
  · cases htaken : s.taken with
    | true =>
      have hin : InTurn s i := fun hfree => by simp [htaken] at hfree
      rw [and_iff_left hin, hbefore]
      rfl
    | false =>
      have hin : s.contention ≤ 1 ∧ InTurn s i ↔ able = true ∧ s.contention = 0 := by
        rw [fair.contention_eq_zero htaken]
        constructor
        · rintro ⟨hle, hin⟩
          exact ⟨(hin htaken able hstage).1, hle, (hin htaken able hstage).2⟩
        · rintro ⟨hable, hle, hnot⟩
          refine ⟨hle, fun _ able' hable' => ?_⟩
          obtain rfl : able = able' := by simpa using hstage.symm.trans hable'
          exact ⟨hable, hnot⟩
      rw [hin, hbefore]
      cases able <;> simp [Stage.weight] <;> omega
  · have hin : InTurn s i := fun _ able' harrived => by simp [hstage] at harrived
    rw [and_iff_left hin, hbefore]
    cases htaken : s.taken with
    | true =>
      -- the winner and this one are two
      have hone := fair.taken htaken
      rw [State.winners, hsplit, List.countP_append, List.countP_cons] at hone
      have hwinners := winners_le_contention before
      have hothers := winners_le_contention later
      simp only [Stage.hasWon, Bool.false_eq_true, if_false] at hone
      cases able with
      | false => simp [Stage.weight]
      | true =>
        simp [Stage.weight]
        omega
    | false => cases able <;> simp [Stage.weight]
  · have hin : InTurn s i := fun _ able' harrived => by simp [hstage] at harrived
    rw [and_iff_left hin, hbefore]
    rfl

/-- Who is able to insert either still can, or somebody else has won. -/
theorem taken_or_hopeful {moves : List ℕ} (some_able : true ∈ able)
    (done : execute (step after) (.free able) moves = some s) :
    s.taken = true ∨ ∃ stage ∈ s.stages, stage.hopeful = true := by
  have run : Run (step after) (fun _ _ => True) (.free able) s := .of_execute (obeys_true _ _) done
  refine run.invariant (I := fun s => s.taken = true ∨ ∃ stage ∈ s.stages, stage.hopeful = true)
    (.inr ⟨_, List.mem_map_of_mem some_able, rfl⟩) ?_
  rintro s i s' hopeful - h
  obtain ⟨before, stage, later, next, hsplit, -, hnext, rfl⟩ := step_split h
  rcases hopeful with htaken | ⟨stage', hmem, hhopeful⟩
  · left
    rcases advance_cases hnext with ⟨able, rfl, rfl⟩ | ⟨able, rfl, rfl⟩ | ⟨left, rfl, rfl⟩ <;>
      simp [htaken]
  · have hmoved (h : next.1 = true ∨ next.2.hopeful = true) : next.1 = true ∨
        ∃ stage ∈ before ++ next.2 :: later, stage.hopeful = true :=
      h.imp_right fun h => ⟨_, List.mem_append_right _ List.mem_cons_self, h⟩
    rw [hsplit, List.mem_append, List.mem_cons] at hmem
    rcases hmem with hmem | rfl | hmem
    · exact .inr ⟨stage', List.mem_append_left _ hmem, hhopeful⟩
    · apply hmoved
      rcases advance_cases hnext with ⟨able, rfl, rfl⟩ | ⟨able, rfl, rfl⟩ | ⟨left, rfl, rfl⟩
      · cases s.taken with
        | true => exact .inl rfl
        | false => exact .inr hhopeful
      · obtain rfl : able = true := hhopeful
        exact .inl (Bool.or_true _)
      · cases hhopeful
    · exact .inr ⟨stage', List.mem_append_right _ (List.mem_cons_of_mem _ hmem), hhopeful⟩

/-- Once everybody has ended, the contention is that of the winners and of those who failed. -/
theorem contention_of_ended {stages : List Stage} (ended : ∀ stage ∈ stages, stage.ended) :
    (stages.map Stage.weight).sum =
      stages.countP Stage.hasWon + 2 * stages.count .failed := by
  induction stages with
  | nil => rfl
  | cons stage stages ih =>
    rw [List.forall_mem_cons] at ended
    rw [List.map_cons, List.sum_cons, List.countP_cons, List.count_cons, ih ended.2]
    cases stage with
    | arrived | passed => cases ended.1
    | won left =>
      simp [Stage.weight, Stage.hasWon]
      omega
    | refused => simp [Stage.weight, Stage.hasWon]
    | failed =>
      simp [Stage.weight, Stage.hasWon]
      omega

theorem length_stages {start : State} {moves : List ℕ}
    (done : execute (step after) start moves = some s) : s.stages.length = start.stages.length := by
  have run : Run (step after) (fun _ _ => True) start s := .of_execute (obeys_true _ _) done
  refine run.invariant (I := fun t => t.stages.length = start.stages.length) rfl ?_
  intro s i s' hlength _ h
  obtain ⟨before, stage, later, next, hsplit, -, -, rfl⟩ := step_split h
  rw [← hlength, hsplit]
  simp

/-- Processes that find the key free, and have all ended. None of them failed exactly when everybody
looked in turn; then one has won, and so it has if somebody is able to. -/
theorem race_free {moves : List ℕ} (many : able ≠ [])
    (done : execute (step after) (.free able) moves = some s)
    (ended : ∀ stage ∈ s.stages, stage.ended) :
    (.failed ∉ s.stages ↔ Obeys (step after) InTurn (.free able) moves) ∧
      (.failed ∉ s.stages ∨ true ∈ able → s.taken = true ∧ s.winners = 1) := by
  have run : Run (step after) (fun _ _ => True) (.free able) s := .of_execute (obeys_true _ _) done
  have fair : s.Fair :=
    run.invariant (State.free_fair able) fun _ _ _ fair _ taken => fair.step taken
  have hnobody : (State.free able).contention ≤ 1 := by
    have hzero : (State.free able).contention = 0 := by
      rw [State.contention, List.sum_eq_zero_iff, State.free, List.map_map]
      exact List.forall_mem_map.mpr fun _ _ => rfl
    omega
  have htracks := obeys_iff (P := fun s => s.contention ≤ 1)
    (fun _ _ _ fair taken => State.Fair.step fair taken)
    (fun _ _ _ fair taken => contention_step fair taken) (State.free_fair able) done
  rw [and_iff_right hnobody] at htracks
  refine ⟨?_, fun h => ?_⟩
  · have hle := fair.winners_le
    rw [← htracks, State.contention, contention_of_ended ended, ← List.count_eq_zero]
    unfold State.winners at hle
    omega
  · have htaken : s.taken = true := by
      rcases h with hnone | hable
      · by_contra hfree
        have hstages : s.stages ≠ [] := by
          rw [← List.length_pos_iff, length_stages done]
          simpa [State.free] using List.length_pos_iff.mpr many
        obtain ⟨stage, hstage⟩ := List.exists_mem_of_ne_nil _ hstages
        have hlate := fair.free (by simpa using hfree) stage hstage
        have hended := ended stage hstage
        cases stage with
        | failed => exact hnone hstage
        | arrived | passed => cases hended
        | won | refused => cases hlate
      · refine (taken_or_hopeful hable done).resolve_right ?_
        rintro ⟨stage, hstage, hhopeful⟩
        have hended := ended stage hstage
        cases stage with
        | arrived | passed => cases hended
        | won | refused | failed => cases hhopeful
    exact ⟨htaken, fair.taken htaken⟩

/-- Processes that find the key taken are all refused, and it stays taken. -/
theorem race_occupied {moves : List ℕ}
    (done : execute (step after) (.occupied able) moves = some s)
    (ended : ∀ stage ∈ s.stages, stage.ended) :
    s.taken = true ∧ ∀ stage ∈ s.stages, stage = .refused := by
  have run : Run (step after) (fun _ _ => True) (.occupied able) s :=
    .of_execute (obeys_true _ _) done
  have hrefused : s.taken = true ∧
      ∀ stage ∈ s.stages, (∃ able, stage = .arrived able) ∨ stage = .refused := by
    refine run.invariant (I := fun s => s.taken = true ∧
      ∀ stage ∈ s.stages, (∃ able, stage = .arrived able) ∨ stage = .refused)
      ⟨rfl, List.forall_mem_map.mpr fun able _ => .inl ⟨able, rfl⟩⟩ ?_
    rintro s i s' ⟨htaken, hstages⟩ - h
    obtain ⟨before, stage, later, next, hsplit, -, hnext, rfl⟩ := step_split h
    simp only [hsplit, List.forall_mem_append, List.forall_mem_cons] at hstages ⊢
    obtain ⟨hbefore, hstage, hlater⟩ := hstages
    rcases advance_cases hnext with ⟨able, rfl, rfl⟩ | ⟨able, rfl, rfl⟩ | ⟨left, rfl, rfl⟩
    · rw [htaken]
      exact ⟨rfl, hbefore, .inr rfl, hlater⟩
    · simp at hstage
    · simp at hstage
  refine ⟨hrefused.1, fun stage hstage => ?_⟩
  rcases hrefused.2 stage hstage with ⟨able, rfl⟩ | rfl
  · cases ended _ hstage
  · rfl

end Race
