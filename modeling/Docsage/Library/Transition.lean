import Mathlib.Data.Option.Basic

/-! # Guarded runs of an executable step function

A machine is a partial step function on states and actions. A guard restricts
which action may be taken in which state, so that a property of all runs and a
property of the runs that keep a discipline are instances of one relation.
-/

namespace Transition

variable {S A : Type*}

/-- Finite runs of `step`, every action of which passes the guard where it is taken. -/
inductive Run (step : S → A → Option S) (guard : S → A → Prop) : S → S → Prop where
  | refl (s : S) : Run step guard s s
  | tail {s t u : S} (a : A) (before : Run step guard s t) (allowed : guard t a)
      (taken : step t a = some u) : Run step guard s u

variable {step : S → A → Option S} {guard : S → A → Prop}

/-- What holds at the start and is preserved by every allowed step holds at the end of a run. -/
theorem Run.invariant {I : S → Prop} {s t : S} (run : Run step guard s t) (start : I s)
    (preserved : ∀ s a t, I s → guard s a → step s a = some t → I t) : I t := by
  induction run with
  | refl => exact start
  | tail a _ allowed taken ih => exact preserved _ a _ ih allowed taken

/-- A relation between the two ends of a run: reflexive, and extended by every allowed step. -/
theorem Run.relation {I : S → Prop} {R : S → S → Prop} {s t : S} (run : Run step guard s t)
    (start : I s) (preserved : ∀ s a t, I s → guard s a → step s a = some t → I t)
    (refl : ∀ s, R s s) (extend : ∀ s t u a, R s t → I t → guard t a → step t a = some u → R s u) :
    R s t := by
  induction run with
  | refl => exact refl _
  | tail a before allowed taken ih =>
    exact extend _ _ _ a ih (before.invariant start preserved) allowed taken

theorem Run.trans {s t u : S} (first : Run step guard s t) (second : Run step guard t u) :
    Run step guard s u := by
  induction second with
  | refl => exact first
  | tail a _ allowed taken ih => exact .tail a ih allowed taken

/-- Forward simulation: if every allowed step is matched by a run of the other machine, so is
every run. -/
theorem Run.simulate {T B : Type*} {step' : T → B → Option T} {guard' : T → B → Prop}
    {R : S → T → Prop} {s s' : S} {t : T} (run : Run step guard s s') (start : R s t)
    (matched : ∀ s a s' t, R s t → guard s a → step s a = some s' →
      ∃ t', Run step' guard' t t' ∧ R s' t') :
    ∃ t', Run step' guard' t t' ∧ R s' t' := by
  induction run with
  | refl => exact ⟨t, .refl t, start⟩
  | tail a _ allowed taken ih =>
    obtain ⟨t₁, hrun, hrel⟩ := ih
    obtain ⟨t₂, hstep, hrel'⟩ := matched _ a _ t₁ hrel allowed taken
    exact ⟨t₂, hrun.trans hstep, hrel'⟩

theorem Run.mono {guard' : S → A → Prop} {s t : S} (run : Run step guard s t)
    (weaker : ∀ s a, guard s a → guard' s a) : Run step guard' s t := by
  induction run with
  | refl => exact .refl _
  | tail a _ allowed taken ih => exact .tail a ih (weaker _ a allowed) taken

def execute (step : S → A → Option S) : S → List A → Option S
  | s, [] => some s
  | s, a :: actions => (step s a).bind fun t => execute step t actions

/-- Every action of the list passes the guard in the state it is taken in. -/
def Obeys (step : S → A → Option S) (guard : S → A → Prop) : S → List A → Prop
  | _, [] => True
  | s, a :: actions => guard s a ∧ ∀ t, step s a = some t → Obeys step guard t actions

/-- Whether a list of actions keeps a decidable discipline can be computed. -/
instance Obeys.decidable [∀ s a, Decidable (guard s a)] (s : S) (actions : List A) :
    Decidable (Obeys step guard s actions) :=
  match actions with
  | [] => .isTrue trivial
  | a :: actions =>
    match h : step s a with
    | none => decidable_of_iff (guard s a) ⟨fun hg => ⟨hg, fun t ht => by simp [h] at ht⟩, And.left⟩
    | some t =>
      have := Obeys.decidable t actions
      decidable_of_iff (guard s a ∧ Obeys step guard t actions)
        ⟨fun ⟨hg, ht⟩ => ⟨hg, fun u hu => by rwa [Option.some.inj (hu.symm.trans h)]⟩,
          fun ⟨hg, ht⟩ => ⟨hg, ht t h⟩⟩

/-- The discipline of a list is that of its first action, and of the rest in the next state. -/
theorem Obeys.cons {s t : S} {a : A} {actions : List A} (allowed : guard s a)
    (taken : step s a = some t) (rest : Obeys step guard t actions) :
    Obeys step guard s (a :: actions) :=
  ⟨allowed, fun _ hu => Option.some.inj (taken.symm.trans hu) ▸ rest⟩

/-- Driving the machine by a list of allowed actions is a run. -/
theorem Run.of_execute {actions : List A} {s t : S} (obeys : Obeys step guard s actions)
    (done : execute step s actions = some t) : Run step guard s t := by
  suffices h : ∀ r, Run step guard r s → Run step guard r t from h s (.refl s)
  induction actions generalizing s with
  | nil =>
    intro r hr
    obtain rfl : s = t := by simpa [execute] using done
    exact hr
  | cons a actions ih =>
    intro r hr
    obtain ⟨u, hu, hrest⟩ := Option.bind_eq_some_iff.mp done
    exact ih (obeys.2 u hu) hrest r (.tail a hr obeys.1 hu)

/-- Actions that the guard lets through in every state may be taken in any order. -/
theorem obeys_of_forall {actions : List A} (h : ∀ a ∈ actions, ∀ s, guard s a) (s : S) :
    Obeys step guard s actions := by
  induction actions generalizing s with
  | nil => trivial
  | cons a actions ih =>
    exact ⟨h a List.mem_cons_self s, fun t _ => ih (fun a ha => h a (List.mem_cons_of_mem _ ha)) t⟩

theorem obeys_true (actions : List A) (s : S) : Obeys step (fun _ _ => True) s actions :=
  obeys_of_forall (fun _ _ _ => trivial) s

/-- A property that each step keeps exactly when it passes the guard holds at the end of the
machine's run exactly when every step passed. -/
theorem obeys_iff {I P : S → Prop} (invariant : ∀ s a t, I s → step s a = some t → I t)
    (tracks : ∀ s a t, I s → step s a = some t → (P t ↔ P s ∧ guard s a)) {actions : List A}
    {s t : S} (start : I s) (done : execute step s actions = some t) :
    P t ↔ P s ∧ Obeys step guard s actions := by
  induction actions generalizing s with
  | nil =>
    obtain rfl : s = t := by simpa [execute] using done
    simp [Obeys]
  | cons a actions ih =>
    obtain ⟨u, hu, hrest⟩ := Option.bind_eq_some_iff.mp done
    rw [ih (invariant s a u start hu) hrest, tracks s a u start hu, and_assoc, Obeys]
    refine and_congr_right fun _ => and_congr_right fun _ => ⟨fun h v hv => ?_, fun h => h u hu⟩
    obtain rfl := Option.some.inj (hu.symm.trans hv)
    exact h

/-- The property holds of every state that the list of actions leads through. -/
def Throughout (step : S → A → Option S) (P : S → Prop) : S → List A → Prop
  | s, [] => P s
  | s, a :: actions => P s ∧ ∀ t, step s a = some t → Throughout step P t actions

theorem Throughout.head {P : S → Prop} {s : S} {actions : List A}
    (h : Throughout step P s actions) : P s := by
  cases actions with
  | nil => exact h
  | cons => exact h.1

/-- If the steps that pass the guard are those that keep a property, it holds throughout a list of
actions exactly when all of them pass. -/
theorem throughout_iff {I P : S → Prop} (invariant : ∀ s a t, I s → step s a = some t → I t)
    (tracks : ∀ s a, I s → P s → (guard s a ↔ ∀ t, step s a = some t → P t)) {actions : List A}
    {s : S} (start : I s) (holds : P s) :
    Throughout step P s actions ↔ Obeys step guard s actions := by
  induction actions generalizing s with
  | nil => exact iff_of_true holds trivial
  | cons a actions ih =>
    rw [Throughout, Obeys, and_iff_right holds, tracks s a start holds]
    constructor
    · intro h
      exact ⟨fun t ht => (h t ht).head,
        fun t ht => (ih (invariant s a t start ht) (h t ht).head).mp (h t ht)⟩
    · rintro ⟨kept, obeys⟩ t ht
      exact (ih (invariant s a t start ht) (kept t ht)).mpr (obeys t ht)

/-- Machines that move in lockstep: the other one can be driven by the same actions, and a
discipline that both read off related states is kept by both or by neither. -/
theorem execute_lockstep {T : Type*} {step' : T → A → Option T} {guard' : T → A → Prop}
    {R : S → T → Prop}
    (matched : ∀ s t a s', R s t → step s a = some s' → ∃ t', step' t a = some t' ∧ R s' t')
    (guards : ∀ s t a, R s t → (guard s a ↔ guard' t a)) {actions : List A} {s s' : S} {t : T}
    (related : R s t) (done : execute step s actions = some s') :
    ∃ t', execute step' t actions = some t' ∧ R s' t' ∧
      (Obeys step guard s actions ↔ Obeys step' guard' t actions) := by
  induction actions generalizing s t with
  | nil =>
    obtain rfl : s = s' := by simpa [execute] using done
    exact ⟨t, rfl, related, Iff.rfl⟩
  | cons a actions ih =>
    obtain ⟨u, hu, hrest⟩ := Option.bind_eq_some_iff.mp done
    obtain ⟨v, hv, hrelated⟩ := matched s t a u related hu
    obtain ⟨t', hdone, hrelated', hobeys⟩ := ih hrelated hrest
    refine ⟨t', by rw [execute, hv]; exact hdone, hrelated', ?_⟩
    rw [Obeys, Obeys, guards s t a related]
    refine and_congr_right fun _ => ⟨fun h w hw => ?_, fun h w hw => ?_⟩
    · obtain rfl := Option.some.inj (hv.symm.trans hw)
      exact hobeys.mp (h u hu)
    · obtain rfl := Option.some.inj (hu.symm.trans hw)
      exact hobeys.mpr (h v hv)

/-- Leaving actions out: if a kept action can be taken beside, and one that is left out changes
nothing that the other machine stands for, the kept actions alone can be taken in their order. -/
theorem execute_filter {R : S → S → Prop} {kept : A → Bool}
    (matched : ∀ s t a s', R s t → kept a = true → step s a = some s' →
      ∃ t', step t a = some t' ∧ R s' t')
    (skipped : ∀ s t a s', R s t → kept a = false → step s a = some s' → R s' t)
    {actions : List A} {s s' t : S} (related : R s t) (done : execute step s actions = some s') :
    ∃ t', execute step t (actions.filter kept) = some t' ∧ R s' t' := by
  induction actions generalizing s t with
  | nil =>
    obtain rfl : s = s' := by simpa [execute] using done
    exact ⟨t, rfl, related⟩
  | cons a actions ih =>
    obtain ⟨u, hu, hrest⟩ := Option.bind_eq_some_iff.mp done
    cases ha : kept a with
    | true =>
      obtain ⟨v, hv, hrelated⟩ := matched s t a u related ha hu
      obtain ⟨t', hdone, hrelated'⟩ := ih hrelated hrest
      rw [List.filter_cons_of_pos ha]
      exact ⟨t', by rw [execute, hv]; exact hdone, hrelated'⟩
    | false =>
      rw [List.filter_cons_of_neg (by simp [ha])]
      exact ih (skipped s t a u related ha hu) hrest

def responses {B O : Type*} (serve : S → B → O × S) : S → List B → List O
  | _, [] => []
  | s, b :: requests => (serve s b).1 :: responses serve (serve s b).2 requests

/-- Unwinding of two machines: if states related for the requests to come answer the next one alike
and are related for the rest, the machines answer alike. -/
theorem responses_eq_of {T B O : Type*} {serve : S → B → O × S} {serve' : T → B → O × T}
    {R : S → T → List B → Prop}
    (unwind : ∀ s t b rest, R s t (b :: rest) →
      (serve s b).1 = (serve' t b).1 ∧ R (serve s b).2 (serve' t b).2 rest)
    {requests : List B} {s : S} {t : T} (related : R s t requests) :
    responses serve s requests = responses serve' t requests := by
  induction requests generalizing s t with
  | nil => rfl
  | cons b requests ih =>
    obtain ⟨hsame, hstill⟩ := unwind s t b requests related
    rw [responses, responses, hsame, ih hstill]

/-- If related states answer each request alike and stay related, no list of requests tells them
apart. -/
theorem responses_eq {B O : Type*} {serve : S → B → O × S} {R : S → S → Prop}
    (unwind : ∀ s t b, R s t → (serve s b).1 = (serve t b).1 ∧ R (serve s b).2 (serve t b).2)
    {s t : S} (related : R s t) (requests : List B) :
    responses serve s requests = responses serve t requests :=
  responses_eq_of (R := fun s t _ => R s t) (fun s t b _ => unwind s t b) related

/-- If related states answer a request alike exactly when it keeps the secret, and stay related,
then exactly the lists of requests that all keep it tell them nothing. -/
theorem responses_eq_iff {B O : Type*} {serve : S → B → O × S} {R : S → S → Prop} {P : B → Prop}
    (unwind : ∀ s t b, R s t → ((serve s b).1 = (serve t b).1 ↔ P b) ∧
      R (serve s b).2 (serve t b).2)
    {s t : S} (related : R s t) (requests : List B) :
    responses serve s requests = responses serve t requests ↔ ∀ b ∈ requests, P b := by
  induction requests generalizing s t with
  | nil => simp [responses]
  | cons b requests ih =>
    obtain ⟨halike, hstill⟩ := unwind s t b related
    rw [responses, responses, List.cons.injEq, halike, ih hstill, List.forall_mem_cons]

end Transition
