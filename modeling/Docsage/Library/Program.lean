import Mathlib.Data.List.Forall2
import Mathlib.Data.Option.Basic

/-! # Programs over a shared transactional store

A program is the tree of its store accesses: a consistent read, or a labelled
transaction that commits as a whole or not at all. Everything between two
accesses is local to the program. The same tree is run alone by `exec` and one
access at a time by `resume`, which is what a concurrent system interleaves.
-/

namespace Effects

variable {σ ε ℓ α : Type}

/-- A sequence returns only what its second part returns on the result of the first. -/
theorem bind_ok {β : Type} {x : Except ε α} {f : α → Except ε β} {b : β}
    (h : (x >>= f) = .ok b) : ∃ a, x = .ok a ∧ f a = .ok b := by
  cases x with
  | error e => cases h
  | ok a => exact ⟨a, rfl, h⟩

theorem mapM_eq_ok {β : Type} {f : α → Except ε β} {g : α → β} {xs : List α}
    (h : ∀ x ∈ xs, f x = .ok (g x)) : xs.mapM f = .ok (xs.map g) := by
  induction xs with
  | nil => rfl
  | cons x xs ih =>
    rw [List.mapM_cons, h x List.mem_cons_self, ih fun y hy => h y (List.mem_cons_of_mem x hy)]
    rfl

theorem forall₂_of_mapM_ok {β : Type} {f : α → Except ε β} {xs : List α} {ys : List β}
    (h : xs.mapM f = .ok ys) : List.Forall₂ (fun x y => f x = .ok y) xs ys := by
  induction xs generalizing ys with
  | nil =>
    obtain rfl := Except.ok.inj h
    exact .nil
  | cons x xs ih =>
    rw [List.mapM_cons] at h
    obtain ⟨y, hy, h⟩ := bind_ok h
    obtain ⟨rest, hrest, h⟩ := bind_ok h
    obtain rfl := Except.ok.inj h
    exact .cons hy (ih hrest)

theorem mapM_eq_ok_iff {β : Type} {f : α → Except ε β} {g : α → β} {fits : α → Prop}
    (h : ∀ x y, f x = .ok y ↔ y = g x ∧ fits x) {xs : List α} {ys : List β} :
    xs.mapM f = .ok ys ↔ ys = xs.map g ∧ ∀ x ∈ xs, fits x := by
  constructor
  · intro hys
    have hpairs := forall₂_of_mapM_ok hys
    clear hys
    induction hpairs with
    | nil => exact ⟨rfl, List.forall_mem_nil _⟩
    | cons hx _ ih =>
      obtain ⟨rfl, hfits⟩ := (h _ _).mp hx
      obtain ⟨rfl, hrest⟩ := ih
      exact ⟨rfl, List.forall_mem_cons.mpr ⟨hfits, hrest⟩⟩
  · rintro ⟨rfl, hfits⟩
    exact mapM_eq_ok fun x hx => (h x (g x)).mpr ⟨rfl, hfits x hx⟩

/-- A loop over a list ends normally when each of its iterations does. -/
theorem mapM_isOk_iff {β : Type} {f : α → Except ε β} {xs : List α} :
    (∃ ys, xs.mapM f = .ok ys) ↔ ∀ x ∈ xs, ∃ y, f x = .ok y := by
  induction xs with
  | nil => exact iff_of_true ⟨[], rfl⟩ (by simp)
  | cons x xs ih =>
    rw [List.mapM_cons, List.forall_mem_cons, ← ih]
    constructor
    · rintro ⟨ys, h⟩
      obtain ⟨y, hy, h⟩ := bind_ok h
      obtain ⟨rest, hrest, -⟩ := bind_ok h
      exact ⟨⟨y, hy⟩, rest, hrest⟩
    · rintro ⟨⟨y, hy⟩, rest, hrest⟩
      exact ⟨y :: rest, by rw [hy, hrest]; rfl⟩

theorem bind_pure_isOk_iff {β : Type} {x : Except ε α} {g : α → β} :
    (∃ b, (x >>= fun a => pure (g a)) = .ok b) ↔ ∃ a, x = .ok a := by
  cases x with
  | error e => simp [bind, Except.bind]
  | ok a => simp [bind, Except.bind, pure, Except.pure]

/-- A resumption over stores `σ`, exceptions `ε`, commit labels `ℓ` and results `α`. -/
inductive Program (σ ε ℓ α : Type) where
  | ret (a : α)
  | raised (e : ε)
  | read (next : Except ε σ → Program σ ε ℓ α)
  | commit (label : ℓ) (transaction : σ → Except ε σ) (next : Except ε Unit → Program σ ε ℓ α)

/-- A transaction under an injected fault: it either happens entirely or leaves the store alone. -/
def attempt (fault : Option ε) (transaction : σ → Except ε σ) (s : σ) : Except ε Unit × σ :=
  match fault with
  | some e => (.error e, s)
  | none =>
    match transaction s with
    | .ok s' => (.ok (), s')
    | .error e => (.error e, s)

theorem attempt_eq_ok {fault : Option ε} {t : σ → Except ε σ} {s s' : σ}
    (h : attempt fault t s = (.ok (), s')) : t s = .ok s' := by
  unfold attempt at h
  split at h
  · cases h
  · split at h
    · next hok =>
      obtain ⟨-, rfl⟩ := Prod.mk.inj h
      exact hok
    · cases h

theorem attempt_eq_error {fault : Option ε} {t : σ → Except ε σ} {s s' : σ} {e : ε}
    (h : attempt fault t s = (.error e, s')) : s' = s := by
  unfold attempt at h
  split at h
  · exact (Prod.mk.inj h).2.symm
  · split at h
    · cases h
    · exact (Prod.mk.inj h).2.symm

theorem attempt_cases (fault : Option ε) (t : σ → Except ε σ) (s : σ) :
    ((attempt fault t s).1 = .ok () ∧ t s = .ok (attempt fault t s).2) ∨
      ((∃ e, (attempt fault t s).1 = .error e) ∧ (attempt fault t s).2 = s) := by
  cases fault with
  | some e => exact .inr ⟨⟨e, rfl⟩, rfl⟩
  | none =>
    cases h : t s with
    | ok s' => left; simp [attempt, h]
    | error e => right; simp [attempt, h]

theorem attempt_none {t : σ → Except ε σ} {s s' : σ} (h : t s = .ok s') :
    attempt none t s = (.ok (), s') := by
  simp [attempt, h]

theorem attempt_ok {fault : Option ε} {t : σ → Except ε σ} {s s' : σ}
    (h : attempt fault t s = (.ok (), s')) : t s = .ok s' := by
  rcases attempt_cases fault t s with ⟨-, ht⟩ | ⟨⟨e, he⟩, -⟩
  · rw [ht, h]
  · rw [h] at he
    cases he

namespace Program

def ended : Program σ ε ℓ α → Bool
  | .ret _ => true
  | .raised _ => true
  | _ => false

/-- Run the program to its end with nobody else writing; `fault` says which commits fail. -/
def exec (fault : ℓ → Option ε) : Program σ ε ℓ α → σ → Except ε α × σ
  | .ret a, s => (.ok a, s)
  | .raised e, s => (.error e, s)
  | .read next, s => (next (.ok s)).exec fault s
  | .commit label t next, s =>
    (next (attempt (fault label) t s).1).exec fault (attempt (fault label) t s).2

/-- Perform the next store access, if the program has not ended. -/
def resume (fault : Option ε) : Program σ ε ℓ α → σ → Option (Program σ ε ℓ α × σ)
  | .ret _, _ => none
  | .raised _, _ => none
  | .read next, s =>
    match fault with
    | some e => some (next (.error e), s)
    | none => some (next (.ok s), s)
  | .commit _ t next, s => some (next (attempt fault t s).1, (attempt fault t s).2)

/-- The fault the sequential run meets at the next access. -/
def nextFault (fault : ℓ → Option ε) : Program σ ε ℓ α → Option ε
  | .commit label _ _ => fault label
  | _ => none

/-- One access of the sequential run is one step of the concurrent one. -/
theorem exec_resume (fault : ℓ → Option ε) {p p' : Program σ ε ℓ α} {s s' : σ}
    (h : p.resume (p.nextFault fault) s = some (p', s')) : p.exec fault s = p'.exec fault s' := by
  cases p with
  | ret a => simp [resume] at h
  | raised e => simp [resume] at h
  | read next =>
    obtain ⟨rfl, rfl⟩ : next (.ok s) = p' ∧ s = s' := by simpa [resume, nextFault] using h
    rfl
  | commit label t next =>
    obtain ⟨rfl, rfl⟩ : next (attempt (fault label) t s).1 = p' ∧
        (attempt (fault label) t s).2 = s' := by
      simpa [resume, nextFault] using h
    rfl

theorem exec_of_ended (fault : ℓ → Option ε) {p : Program σ ε ℓ α} (h : p.ended = true) (s : σ) :
    (p.exec fault s).2 = s := by
  cases p with
  | ret a => rfl
  | raised e => rfl
  | read next => cases h
  | commit label t next => cases h

/-- Induction along the sequential run, access by access, of a program that has not ended. -/
theorem exec_induction (fault : ℓ → Option ε) {motive : Program σ ε ℓ α → σ → Prop}
    (access : ∀ p s p' s', p.resume (p.nextFault fault) s = some (p', s') →
      (p'.ended = false → motive p' s') → motive p s)
    (p : Program σ ε ℓ α) (s : σ) (unended : p.ended = false) : motive p s := by
  induction p generalizing s with
  | ret a => cases unended
  | raised e => cases unended
  | read next ih => exact access _ s _ _ rfl (ih (.ok s) s)
  | commit label t next ih => exact access _ s _ _ rfl (ih (attempt (fault label) t s).1 _)

/-- Perform accesses, each under the fault that the list says, until the list or the program
ends. A list that is too short is an interruption. -/
def perform : List (Option ε) → Program σ ε ℓ α → σ → Program σ ε ℓ α × σ
  | [], p, s => (p, s)
  | fault :: faults, p, s =>
    match p.resume fault s with
    | none => (p, s)
    | some (p', s') => perform faults p' s'

theorem perform_of_ended {p : Program σ ε ℓ α} (h : p.ended = true) (faults : List (Option ε))
    (s : σ) : perform faults p s = (p, s) := by
  cases faults with
  | nil => rfl
  | cons fault faults => cases p <;> first | rfl | cases h

/-- The stores behind the accesses of a performance, one after the other. -/
def stores : List (Option ε) → Program σ ε ℓ α → σ → List σ
  | [], _, _ => []
  | fault :: faults, p, s =>
    match p.resume fault s with
    | none => []
    | some (p', s') => s' :: stores faults p' s'

/-! A protocol says which transactions a program may commit in which phase, and the
phase each leads to. `Conforms` follows every branch of the tree, so it can be
established once for a program and then carried along any interleaving. -/

variable {Φ : Type}

/-- `Conforms allow sees φ p`: in phase `φ`, every commit `p` can still make is allowed. A read
may rely on `sees`, and a failed commit leaves the phase as it was. -/
inductive Conforms (allow : Φ → (σ → Except ε σ) → Φ → Prop) (sees : Φ → σ → Prop) :
    Φ → Program σ ε ℓ α → Prop where
  | ret (φ : Φ) (a : α) : Conforms allow sees φ (.ret a)
  | raised (φ : Φ) (e : ε) : Conforms allow sees φ (.raised e)
  | read {φ : Φ} {next : Except ε σ → Program σ ε ℓ α}
      (found : ∀ s, sees φ s → Conforms allow sees φ (next (.ok s)))
      (failed : ∀ e, Conforms allow sees φ (next (.error e))) :
      Conforms allow sees φ (.read next)
  | commit {φ ψ : Φ} {label : ℓ} {t : σ → Except ε σ} {next : Except ε Unit → Program σ ε ℓ α}
      (allowed : allow φ t ψ) (done : Conforms allow sees ψ (next (.ok ())))
      (failed : ∀ e, Conforms allow sees φ (next (.error e))) :
      Conforms allow sees φ (.commit label t next)

/-- What one access of a conforming program can do: nothing to the store, or one allowed
transaction that moves to the next phase. -/
theorem Conforms.resume {allow : Φ → (σ → Except ε σ) → Φ → Prop} {sees : Φ → σ → Prop}
    {φ : Φ} {p p' : Program σ ε ℓ α} {s s' : σ} {fault : Option ε}
    (conforms : Conforms allow sees φ p) (view : sees φ s)
    (h : p.resume fault s = some (p', s')) :
    (s' = s ∧ Conforms allow sees φ p') ∨
      ∃ t ψ, allow φ t ψ ∧ t s = .ok s' ∧ Conforms allow sees ψ p' := by
  cases conforms with
  | ret => simp [Program.resume] at h
  | raised => simp [Program.resume] at h
  | read found failed =>
    left
    cases fault with
    | none =>
      obtain ⟨rfl, rfl⟩ := by simpa [Program.resume] using h
      exact ⟨rfl, found _ view⟩
    | some e =>
      obtain ⟨rfl, rfl⟩ := by simpa [Program.resume] using h
      exact ⟨rfl, failed e⟩
  | @commit _ ψ _ t next allowed done failed =>
    obtain ⟨rfl, rfl⟩ := by simpa [Program.resume] using h
    rcases attempt_cases fault t s with ⟨hr, ht⟩ | ⟨⟨e, hr⟩, hs⟩
    · exact .inr ⟨t, ψ, allowed, ht, hr ▸ done⟩
    · exact .inl ⟨hs, hr ▸ failed e⟩

/-- A list of stores that transactions of a protocol lead through, with accesses in between that
leave the store alone. -/
inductive Path (allow : Φ → (σ → Except ε σ) → Φ → Prop) : Φ → σ → List σ → Prop where
  | nil (φ : Φ) (s : σ) : Path allow φ s []
  | stay {φ : Φ} {s : σ} {rest : List σ} (behind : Path allow φ s rest) :
    Path allow φ s (s :: rest)
  | move {φ ψ : Φ} {s s' : σ} {t : σ → Except ε σ} {rest : List σ} (allowed : allow φ t ψ)
    (done : t s = .ok s') (behind : Path allow ψ s' rest) : Path allow φ s (s' :: rest)

/-- A conforming program that nobody interferes with keeps to a path. -/
theorem Conforms.path {allow : Φ → (σ → Except ε σ) → Φ → Prop} {sees : Φ → σ → Prop} {φ : Φ}
    {p : Program σ ε ℓ α} {s : σ} (faults : List (Option ε)) (conforms : Conforms allow sees φ p)
    (view : sees φ s)
    (keeps : ∀ φ t ψ s s', sees φ s → allow φ t ψ → t s = .ok s' → sees ψ s') :
    Path allow φ s (stores faults p s) := by
  induction faults generalizing p s φ with
  | nil => exact .nil φ s
  | cons fault faults ih =>
    rw [stores]
    cases hresume : p.resume fault s with
    | none => exact .nil φ s
    | some next =>
      rcases conforms.resume view hresume with ⟨hs, hrest⟩ | ⟨t, ψ, allowed, ht, hrest⟩
      · dsimp only
        rw [hs]
        exact .stay (ih hrest view)
      · exact .move allowed ht (ih hrest (keeps _ _ _ _ _ view allowed ht))

/-- Every transaction the program can still commit keeps `I`, whatever the program reads. -/
abbrev Preserves (I : σ → Prop) (p : Program σ ε ℓ α) : Prop :=
  p.Conforms (fun (_ : Unit) t _ => ∀ s s', I s → t s = .ok s' → I s') (fun _ _ => True) ()

theorem Preserves.resume {I : σ → Prop} {p p' : Program σ ε ℓ α} {s s' : σ} {fault : Option ε}
    (preserves : p.Preserves I) (holds : I s) (h : p.resume fault s = some (p', s')) :
    I s' ∧ p'.Preserves I := by
  rcases Conforms.resume preserves trivial h with ⟨rfl, hrest⟩ | ⟨t, _, hkeeps, ht, hrest⟩
  · exact ⟨holds, hrest⟩
  · exact ⟨hkeeps s s' holds ht, hrest⟩

end Program

end Effects
