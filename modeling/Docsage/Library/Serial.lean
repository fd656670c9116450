import Docsage.Library.Program
import Docsage.Library.Transition
import Mathlib.Algebra.BigOperators.Group.List.Basic
import Mathlib.Algebra.Order.Ring.Int

/-! # Serializable requests

Requests are programs over one store, interleaved access by access. What a request
reads may have changed when it goes on. Where that matters only to transactions that
rely on something they found, the answers are those of a serial order exactly if it
was still there. A quantity that serial orders account for tells when it was not.
-/

namespace Serial
open Effects Transition

variable {Q σ ε ℓ α A : Type}

/-- The store, and the requests with what is left of their programs. -/
structure State (Q σ ε ℓ α : Type) where
  store : σ
  processes : List (Q × Program σ ε ℓ α)

def step (s : State Q σ ε ℓ α) (i : ℕ) : Option (State Q σ ε ℓ α) :=
  (s.processes[i]?).bind fun process =>
    (process.2.resume none s.store).map fun next =>
      ⟨next.2, s.processes.set i (process.1, next.1)⟩

def start (program : Q → Program σ ε ℓ α) (requests : List Q) (s : σ) : State Q σ ε ℓ α :=
  ⟨s, requests.map fun q => (q, program q)⟩

def result : Program σ ε ℓ α → Option (Except ε α)
  | .ret a => some (.ok a)
  | .raised e => some (.error e)
  | .read _ | .commit _ _ _ => none

def alone (answer : Except ε α → A) (p : Program σ ε ℓ α) (s : σ) : A × σ :=
  (answer (p.exec (fun _ => none) s).1, (p.exec (fun _ => none) s).2)

/-- The store after a list of requests, one after the other. -/
def served (serve : σ → Q → A × σ) : σ → List Q → σ
  | s, [] => s
  | s, q :: requests => served serve (serve s q).2 requests

/-- The requests are answered, and leave the store, as in some serial order of them. -/
def Serializable (answer : Except ε α → A) (program : Q → Program σ ε ℓ α) (s : σ)
    (t : State Q σ ε ℓ α) : Prop :=
  let serve (s : σ) (q : Q) := alone answer (program q) s
  ∃ order : List (Q × A),
    (order.map fun e => (e.1, some e.2)).Perm
      (t.processes.map fun process => (process.1, (result process.2).map answer)) ∧
    responses serve s (order.map Prod.fst) = order.map Prod.snd ∧
    served serve s (order.map Prod.fst) = t.store

/-- What the requests rely on: an invariant of the store, facts that stay true, and what a
transaction needs besides. -/
structure Setting (σ ε ℓ α A : Type) where
  answer : Except ε α → A
  Valid : σ → Prop
  Later : σ → σ → Prop
  refl : ∀ s, Later s s
  trans : ∀ {s t u}, Later s t → Later t u → Later s u
  Lasts : ℓ → σ → Prop

variable {P : Setting σ ε ℓ α A} {w : A → ℤ} {a : A} {p p' : Program σ ε ℓ α} {s s' t : σ}

/-- What the next transaction of the program relies on is there. -/
def Undisturbed (P : Setting σ ε ℓ α A) (s : σ) : Program σ ε ℓ α → Prop
  | .commit label _ _ => P.Lasts label s
  | _ => True

instance Undisturbed.decidable [∀ label s, Decidable (P.Lasts label s)] (s : σ)
    (p : Program σ ε ℓ α) : Decidable (Undisturbed P s p) :=
  match p with
  | .commit label _ _ => inferInstanceAs (Decidable (P.Lasts label s))
  | .ret _ | .raised _ | .read _ => .isTrue trivial

/-- The program writes no more, and answers `a` whatever it still reads. -/
inductive Settled (P : Setting σ ε ℓ α A) (a : A) : Program σ ε ℓ α → σ → Prop where
  | ended {p : Program σ ε ℓ α} {s : σ} {x : Except ε α} (ended : result p = some x)
    (answers : P.answer x = a) : Settled P a p s
  | read {next : Except ε σ → Program σ ε ℓ α} {s : σ}
    (rest : ∀ t, P.Later s t → P.Valid t → Settled P a (next (.ok t)) t) :
    Settled P a (.read next) s

/-- A program that writes at most once, and to which it does not matter what happens between two
of its accesses. If what its transaction relies on is gone, it writes nothing and gives an answer
of negative weight. -/
inductive Steady (P : Setting σ ε ℓ α A) (w : A → ℤ) : Program σ ε ℓ α → σ → Prop where
  | read {next : Except ε σ → Program σ ε ℓ α} {s : σ}
    (rest : ∀ t, P.Later s t → P.Valid t → result (next (.ok t)) = none →
      Steady P w (next (.ok t)) t)
    (same : ∀ t, P.Later s t → P.Valid t → result (next (.ok t)) = none →
      ∀ u, P.Later t u → P.Valid u → Undisturbed P u (next (.ok t)) →
        alone P.answer (next (.ok t)) u = alone P.answer (.read next) u) :
    Steady P w (.read next) s
  | commit {label : ℓ} {transaction : σ → Except ε σ} {next : Except ε Unit → Program σ ε ℓ α}
    {s : σ}
    (keeps : ∀ t, P.Later s t → P.Valid t → P.Valid (attempt none transaction t).2 ∧
      P.Later t (attempt none transaction t).2)
    (settles : ∀ t, P.Later s t → P.Valid t → ∃ a,
      Settled P a (next (attempt none transaction t).1) (attempt none transaction t).2 ∧
        (¬ P.Lasts label t → (attempt none transaction t).2 = t ∧ w a < 0)) :
    Steady P w (.commit label transaction next) s

theorem Settled.later (settled : Settled P a p s) (h : P.Later s t) : Settled P a p t := by
  cases settled with
  | ended ended answers => exact .ended ended answers
  | read rest => exact .read fun u hu => rest u (P.trans h hu)

theorem Steady.later (steady : Steady P w p s) (h : P.Later s t) : Steady P w p t := by
  cases steady with
  | read rest same =>
    exact .read (fun u hu => rest u (P.trans h hu)) fun u hu => same u (P.trans h hu)
  | commit keeps settles =>
    exact .commit (fun u hu => keeps u (P.trans h hu)) fun u hu => settles u (P.trans h hu)

theorem alone_of_result {answer : Except ε α → A} {x : Except ε α} (h : result p = some x) :
    alone answer p s = (answer x, s) := by
  cases p with
  | ret b =>
    obtain rfl := Option.some.inj h
    rfl
  | raised e =>
    obtain rfl := Option.some.inj h
    rfl
  | read next | commit label transaction next => cases h

theorem Settled.alone (settled : Settled P a p s) (valid : P.Valid s) :
    alone P.answer p s = (a, s) := by
  induction settled with
  | ended ended answers => rw [alone_of_result ended, answers]
  | read _ ih => exact ih _ (P.refl _) valid valid

theorem Settled.resume (settled : Settled P a p s) (valid : P.Valid s)
    (h : p.resume none s = some (p', s')) : s' = s ∧ Settled P a p' s' := by
  cases settled with
  | ended ended _ =>
    cases p with
    | ret b | raised e => cases h
    | read next | commit label transaction next => cases ended
  | read rest =>
    obtain ⟨rfl, rfl⟩ := Prod.mk.inj (Option.some.inj h)
    exact ⟨rfl, rest _ (P.refl _) valid⟩

theorem Steady.result_eq (steady : Steady P w p s) : result p = none := by
  cases steady <;> rfl

theorem Steady.alone_valid (steady : Steady P w p s) (valid : P.Valid s) :
    P.Valid (Serial.alone P.answer p s).2 := by
  induction steady with
  | @read next s rest same ih =>
    change P.Valid (Serial.alone P.answer (next (.ok s)) s).2
    cases h : result (next (.ok s)) with
    | some x => rwa [alone_of_result h]
    | none => exact ih s (P.refl s) valid h valid
  | @commit label transaction next s keeps settles =>
    obtain ⟨hvalid, -⟩ := keeps s (P.refl s) valid
    obtain ⟨a, settled, -⟩ := settles s (P.refl s) valid
    change P.Valid (Serial.alone P.answer (next (attempt none transaction s).1)
      (attempt none transaction s).2).2
    rwa [settled.alone hvalid]

/-- A request with what is left of its program and, once that is certain, its answer. -/
structure Entry (Q σ ε ℓ α A : Type) where
  request : Q
  program : Program σ ε ℓ α
  fate : Option A

def Entry.process (e : Entry Q σ ε ℓ α A) : Q × Program σ ε ℓ α := (e.request, e.program)

def fates (entries : List (Entry Q σ ε ℓ α A)) : List (Q × A) :=
  entries.filterMap fun e => e.fate.map (e.request, ·)

/-- A request with a fate is settled. Alone from here, one without would do what its whole program
alone does. -/
def Entry.Stands (P : Setting σ ε ℓ α A) (w : Q → A → ℤ) (program : Q → Program σ ε ℓ α) (s : σ)
    (e : Entry Q σ ε ℓ α A) : Prop :=
  match e.fate with
  | some a => Settled P a e.program s
  | none => Steady P (w e.request) e.program s ∧ ∀ t, P.Later s t → P.Valid t →
      Undisturbed P t e.program →
        alone P.answer e.program t = alone P.answer (program e.request) t

structure Accounts (P : Setting σ ε ℓ α A) (w : Q → A → ℤ) (program : Q → Program σ ε ℓ α)
    (s : State Q σ ε ℓ α) (entries : List (Entry Q σ ε ℓ α A)) : Prop where
  processes : s.processes = entries.map Entry.process
  valid : P.Valid s.store
  stands : ∀ e ∈ entries, e.Stands P w program s.store

/-- What the transaction of the request relies on is there. -/
def InPeace (P : Setting σ ε ℓ α A) (s : State Q σ ε ℓ α) (i : ℕ) : Prop :=
  ∀ process, s.processes[i]? = some process → Undisturbed P s.store process.2

instance InPeace.decidable [∀ label s, Decidable (P.Lasts label s)] (s : State Q σ ε ℓ α) (i : ℕ) :
    Decidable (InPeace P s i) :=
  match h : s.processes[i]? with
  | none => .isTrue (by simp [InPeace, h])
  | some process => decidable_of_iff (Undisturbed P s.store process.2) (by simp [InPeace, h])

section Step

variable {program : Q → Program σ ε ℓ α} {w : Q → A → ℤ} {S S' : State Q σ ε ℓ α}
  {entries : List (Entry Q σ ε ℓ α A)} {e e' : Entry Q σ ε ℓ α A} {i : ℕ}

theorem Entry.Stands.later (stands : e.Stands P w program s) (h : P.Later s t) :
    e.Stands P w program t := by
  unfold Entry.Stands at stands ⊢
  cases hfate : e.fate with
  | some a =>
    rw [hfate] at stands
    exact stands.later h
  | none =>
    rw [hfate] at stands
    exact ⟨stands.1.later h, fun u hu => stands.2 u (P.trans h hu)⟩

/-- What one access of one request does, when it is in peace and when it is not. -/
theorem Entry.Stands.resume (stands : e.Stands P w program s) (valid : P.Valid s)
    (h : e.program.resume none s = some (p', s')) :
    P.Valid s' ∧ P.Later s s' ∧ ∃ fate, (Entry.mk e.request p' fate).Stands P w program s' ∧
      (fate = e.fate ∧ s' = s ∧ Undisturbed P s e.program ∨
        ∃ a, e.fate = none ∧ fate = some a ∧
          (Undisturbed P s e.program ∧ alone P.answer (program e.request) s = (a, s') ∨
            ¬ Undisturbed P s e.program ∧ s' = s ∧ w e.request a < 0)) := by
  obtain ⟨q, p, fate⟩ := e
  cases fate with
  | some a =>
    have settled : Settled P a p s := stands
    obtain ⟨rfl, settled'⟩ := settled.resume valid h
    refine ⟨valid, P.refl _, some a, settled', .inl ⟨rfl, rfl, ?_⟩⟩
    cases settled with
    | ended ended _ =>
      cases p with
      | ret | raised | read => trivial
      | commit => cases ended
    | read => trivial
  | none =>
    obtain ⟨steady, agrees⟩ := stands
    dsimp only at h agrees ⊢
    have hhere := agrees s (P.refl s) valid
    cases steady with
    | @read next _ rest same =>
      obtain ⟨rfl, rfl⟩ := Prod.mk.inj (Option.some.inj h)
      refine ⟨valid, P.refl _, ?_⟩
      cases hresult : result (next (.ok s)) with
      | some x =>
        refine ⟨some (P.answer x), .ended hresult rfl, .inr ⟨_, rfl, rfl, .inl ⟨trivial, ?_⟩⟩⟩
        rw [← hhere trivial]
        change alone P.answer (next (.ok s)) s = _
        exact alone_of_result hresult
      | none =>
        refine ⟨none, ⟨rest s (P.refl s) valid hresult, fun u hu hvalid hpeace => ?_⟩,
          .inl ⟨rfl, rfl, trivial⟩⟩
        rw [same s (P.refl s) valid hresult u hu hvalid hpeace]
        exact agrees u hu hvalid trivial
    | @commit label transaction next _ keeps settles =>
      obtain ⟨rfl, rfl⟩ := Prod.mk.inj (Option.some.inj h)
      obtain ⟨hvalid, hlater⟩ := keeps s (P.refl s) valid
      obtain ⟨a, settled, missed⟩ := settles s (P.refl s) valid
      refine ⟨hvalid, hlater, some a, settled, .inr ⟨a, rfl, rfl, ?_⟩⟩
      by_cases hlasts : P.Lasts label s
      · refine .inl ⟨hlasts, ?_⟩
        rw [← hhere hlasts, ← settled.alone hvalid]
        rfl
      · exact .inr ⟨hlasts, missed hlasts⟩

theorem fates_append (before later : List (Entry Q σ ε ℓ α A)) :
    fates (before ++ later) = fates before ++ fates later := List.filterMap_append ..

theorem fates_perm {before later : List (Entry Q σ ε ℓ α A)} {a : A} (none : e.fate = none) :
    (fates (before ++ ⟨e.request, p', some a⟩ :: later)).Perm
      (fates (before ++ e :: later) ++ [(e.request, a)]) := by
  have hold : fates (before ++ e :: later) = fates before ++ fates later := by
    rw [fates_append, fates, fates, List.filterMap_cons_none (by rw [none]; rfl)]
    rfl
  have hnew : fates (before ++ ⟨e.request, p', some a⟩ :: later) =
      fates before ++ (e.request, a) :: fates later := by
    rw [fates_append]
    rfl
  rw [hold, hnew, List.append_assoc]
  have hlast : ([(e.request, a)] ++ fates later).Perm (fates later ++ [(e.request, a)]) :=
    List.perm_append_comm
  exact hlast.append_left (fates before)

theorem Accounts.step (accounts : Accounts P w program S entries) (h : step S i = some S') :
    ∃ entries', Accounts P w program S' entries' ∧
      (fates entries' = fates entries ∧ S'.store = S.store ∧ InPeace P S i ∨
        ∃ q a, (fates entries').Perm (fates entries ++ [(q, a)]) ∧
          (InPeace P S i ∧ alone P.answer (program q) S.store = (a, S'.store) ∨
            ¬ InPeace P S i ∧ S'.store = S.store ∧ w q a < 0)) := by
  obtain ⟨process, hprocess, h⟩ := Option.bind_eq_some_iff.mp h
  obtain ⟨⟨p', s'⟩, hresume, rfl⟩ := Option.map_eq_some_iff.mp h
  have hpeace : InPeace P S i ↔ Undisturbed P S.store process.2 := by
    simp [InPeace, hprocess]
  have hentries := accounts.processes ▸ hprocess
  rw [List.getElem?_map, Option.map_eq_some_iff] at hentries
  obtain ⟨e, he, rfl⟩ := hentries
  obtain ⟨hi, rfl⟩ := List.getElem?_eq_some_iff.mp he
  obtain ⟨valid, later, fate, stands, hfate⟩ :=
    (accounts.stands _ (List.getElem_mem hi)).resume accounts.valid hresume
  obtain ⟨before, after, hsplit, -, hset⟩ :=
    @List.exists_of_set _ i (Entry.mk entries[i].request p' fate) entries hi
  refine ⟨entries.set i ⟨entries[i].request, p', fate⟩, ⟨?_, valid, ?_⟩, ?_⟩
  · rw [List.map_set, ← accounts.processes]
    rfl
  · intro e he
    rcases List.mem_or_eq_of_mem_set he with he | rfl
    · exact (accounts.stands e he).later later
    · exact stands
  · rw [hpeace, hset]
    generalize entries[i] = e at hsplit hfate ⊢
    subst hsplit
    rcases hfate with ⟨rfl, hsame, peace⟩ | ⟨a, hnone, rfl, hdone⟩
    · refine .inl ⟨?_, hsame, peace⟩
      rw [fates_append, fates_append]
      rfl
    · exact .inr ⟨e.request, a, fates_perm hnone, hdone⟩

/-- Requests in peace make their answers certain in a serial order. -/
theorem Accounts.serial {moves : List ℕ} (accounts : Accounts P w program S entries)
    (done : execute Serial.step S moves = some S')
    (obeys : Obeys Serial.step (InPeace P) S moves) :
    let serve (s : σ) (q : Q) := alone P.answer (program q) s
    ∃ entries' order, Accounts P w program S' entries' ∧
      (fates entries').Perm (fates entries ++ order) ∧
      responses serve S.store (order.map Prod.fst) = order.map Prod.snd ∧
      served serve S.store (order.map Prod.fst) = S'.store := by
  intro serve
  induction moves generalizing S entries with
  | nil =>
    obtain rfl := Option.some.inj done
    exact ⟨entries, [], accounts, by simp, rfl, rfl⟩
  | cons i moves ih =>
    obtain ⟨T, hstep, done⟩ := Option.bind_eq_some_iff.mp done
    obtain ⟨entries₁, accounts₁, hfates⟩ := accounts.step hstep
    obtain ⟨entries', order, accounts', hperm, hanswers, hstore⟩ :=
      ih accounts₁ done (obeys.2 T hstep)
    rcases hfates with ⟨hsame, hkept, -⟩ | ⟨q, a, hnew, ⟨-, hserved⟩ | ⟨hnot, -⟩⟩
    · rw [hsame] at hperm
      rw [hkept] at hanswers hstore
      exact ⟨entries', order, accounts', hperm, hanswers, hstore⟩
    · refine ⟨entries', (q, a) :: order, accounts', ?_, ?_, ?_⟩
      · have hmore := hperm.trans (hnew.append_right order)
        rwa [List.append_assoc] at hmore
      · have hserve : serve S.store q = (a, T.store) := hserved
        rw [List.map_cons, responses, hserve, hanswers]
        rfl
      · have hserve : serve S.store q = (a, T.store) := hserved
        rw [List.map_cons, served, hserve]
        exact hstore
    · exact absurd obeys.1 hnot

def total (w : Q → A → ℤ) (answers : List (Q × A)) : ℤ := (answers.map fun e => w e.1 e.2).sum

theorem total_perm {answers answers' : List (Q × A)} (h : answers.Perm answers') :
    total w answers = total w answers' := (h.map _).sum_eq

theorem total_cons (e : Q × A) (answers : List (Q × A)) :
    total w (e :: answers) = w e.1 e.2 + total w answers := by
  rw [total, List.map_cons, List.sum_cons]
  rfl

theorem total_append (answers : List (Q × A)) (q : Q) (a : A) :
    total w (answers ++ [(q, a)]) = total w answers + w q a := by
  simp [total]

variable {φ : σ → ℤ}

theorem total_serial {order : List (Q × A)}
    (steady : ∀ q s, P.Valid s → Steady P (w q) (program q) s)
    (balanced : ∀ q s, P.Valid s → φ (alone P.answer (program q) s).2 =
      φ s + w q (alone P.answer (program q) s).1) (valid : P.Valid s) :
    let serve (s : σ) (q : Q) := alone P.answer (program q) s
    responses serve s (order.map Prod.fst) = order.map Prod.snd →
      φ (served serve s (order.map Prod.fst)) = φ s + total w order := by
  intro serve hanswers
  induction order generalizing s with
  | nil => simp [served, total]
  | cons e order ih =>
    rw [List.map_cons, List.map_cons, responses, List.cons.injEq] at hanswers
    rw [List.map_cons, served, ih ((steady e.1 s valid).alone_valid valid) hanswers.2,
      balanced e.1 s valid, total_cons, ← hanswers.1, add_assoc]

/-- A run leaves at least what its answers account for, and more if a request was not in peace. -/
theorem Accounts.balance {moves : List ℕ} (accounts : Accounts P w program S entries)
    (balanced : ∀ q s, P.Valid s → φ (alone P.answer (program q) s).2 =
      φ s + w q (alone P.answer (program q) s).1)
    (done : execute Serial.step S moves = some S') :
    ∃ entries', Accounts P w program S' entries' ∧
      φ S.store - total w (fates entries) ≤ φ S'.store - total w (fates entries') ∧
      (¬ Obeys Serial.step (InPeace P) S moves →
        φ S.store - total w (fates entries) < φ S'.store - total w (fates entries')) := by
  induction moves generalizing S entries with
  | nil =>
    obtain rfl := Option.some.inj done
    exact ⟨entries, accounts, le_rfl, fun h => absurd trivial h⟩
  | cons i moves ih =>
    obtain ⟨T, hstep, done⟩ := Option.bind_eq_some_iff.mp done
    obtain ⟨entries₁, accounts₁, hfates⟩ := accounts.step hstep
    obtain ⟨entries', accounts', hle, hlt⟩ := ih accounts₁ done
    have hobeys (peace : InPeace P S i) (h : ¬ Obeys Serial.step (InPeace P) S (i :: moves)) :
        ¬ Obeys Serial.step (InPeace P) T moves := fun obeys => h (.cons peace hstep obeys)
    refine ⟨entries', accounts', ?_⟩
    rcases hfates with ⟨hsame, hkept, peace⟩ | ⟨q, a, hnew, ⟨peace, hserved⟩ | ⟨-, hkept, hlost⟩⟩
    · rw [hsame, hkept] at hle hlt
      exact ⟨hle, fun h => hlt (hobeys peace h)⟩
    · have hquantity := balanced q S.store accounts.valid
      rw [hserved] at hquantity
      dsimp only at hquantity
      rw [total_perm hnew, total_append, hquantity] at hle hlt
      exact ⟨by omega, fun h => by have := hlt (hobeys peace h); omega⟩
    · rw [total_perm hnew, total_append, hkept] at hle
      exact ⟨by omega, fun _ => by omega⟩

theorem accounts_start {requests : List Q}
    (steady : ∀ q s, P.Valid s → Steady P (w q) (program q) s) (valid : P.Valid s) :
    Accounts P w program (start program requests s)
      (requests.map fun q => ⟨q, program q, none⟩) where
  processes := by
    rw [start, List.map_map]
    rfl
  valid := valid
  stands := by
    rw [List.forall_mem_map]
    exact fun q _ => ⟨steady q s valid, fun _ _ _ _ => rfl⟩

theorem fates_start (requests : List Q) :
    fates (A := A) (requests.map fun q => ⟨q, program q, none⟩) = [] := by
  simp [fates]

theorem Accounts.answers (accounts : Accounts P w program S entries)
    (answered : ∀ process ∈ S.processes, (result process.2).isSome) :
    S.processes.map (fun process => (process.1, (result process.2).map P.answer)) =
      (fates entries).map fun e => (e.1, some e.2) := by
  have hended (e) (he : e ∈ entries) : ∃ a, e.fate = some a ∧
      (result e.program).map P.answer = some a := by
    have hsome : (result e.program).isSome :=
      answered e.process (accounts.processes ▸ List.mem_map_of_mem he)
    have stands := accounts.stands e he
    obtain ⟨q, p, fate⟩ := e
    cases fate with
    | some a =>
      have settled : Settled P a p S.store := stands
      cases settled with
      | ended ended answers => exact ⟨a, rfl, by rw [ended, Option.map_some, answers]⟩
      | read rest => cases hsome
    | none =>
      dsimp only at hsome
      rw [stands.1.result_eq] at hsome
      cases hsome
  rw [accounts.processes, List.map_map]
  clear accounts answered
  induction entries with
  | nil => rfl
  | cons e entries ih =>
    rw [List.forall_mem_cons] at hended
    obtain ⟨a, hfate, hresult⟩ := hended.1
    rw [fates, List.filterMap_cons_some (by rw [hfate]; rfl), List.map_cons, List.map_cons,
      ih hended.2]
    simp only [Function.comp, Entry.process, hresult]
    rfl

/-- Requests that write at most once are answered as in some serial order exactly if whatever a
transaction of theirs relied on was still there. -/
theorem serializable_iff (φ : σ → ℤ) {requests : List Q} {moves : List ℕ}
    (steady : ∀ q s, P.Valid s → Steady P (w q) (program q) s)
    (balanced : ∀ q s, P.Valid s → φ (alone P.answer (program q) s).2 =
      φ s + w q (alone P.answer (program q) s).1) (valid : P.Valid s)
    (done : execute Serial.step (start program requests s) moves = some S)
    (answered : ∀ process ∈ S.processes, (result process.2).isSome) :
    Serializable P.answer program s S ↔
      Obeys Serial.step (InPeace P) (start program requests s) moves := by
  have accounts := @accounts_start _ _ _ _ _ _ P s program w requests steady valid
  constructor
  · rintro ⟨order, hperm, hanswers, hstore⟩
    by_contra hnot
    obtain ⟨entries, accounts', -, hlt⟩ := accounts.balance balanced done
    have hless := hlt hnot
    have hserial := total_serial steady balanced valid hanswers
    rw [accounts'.answers answered] at hperm
    have hsame : order.Perm (fates entries) := by
      refine (List.map_perm_map_iff fun e e' h => ?_).mp hperm
      simpa [Prod.ext_iff] using h
    rw [hstore, total_perm hsame] at hserial
    rw [fates_start] at hless
    simp only [start, total, List.map_nil, List.sum_nil] at hless hserial
    omega
  · intro obeys
    obtain ⟨entries, order, accounts', hperm, hanswers, hstore⟩ := accounts.serial done obeys
    rw [fates_start, List.nil_append] at hperm
    refine ⟨order, ?_, hanswers, hstore⟩
    rw [accounts'.answers answered]
    exact (hperm.map _).symm

end Step

end Serial
