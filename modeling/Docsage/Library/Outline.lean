import Docsage.Library.Program

/-! # Proof outlines under interference

Between two accesses of a program other parties change the store. An outline
annotates every access with an assertion that such changes keep, and the end
with what the program promises of the store it leaves. A program that raises
promises nothing.
-/

namespace Effects

variable {σ ε ℓ α : Type}

/-- What the others may do to the store keeps the assertion. -/
def Stable (rely : σ → σ → Prop) (P : σ → Prop) : Prop := ∀ s s', P s → rely s s' → P s'

namespace Program

/-- `Outline rely post P p`: started where `P` holds, `p` only returns where `post` does. The
assertion after a read may speak of the store that was read. -/
inductive Outline (rely : σ → σ → Prop) (post : σ → Prop) :
    (σ → Prop) → Program σ ε ℓ α → Prop where
  | ret {P : σ → Prop} (a : α) (promised : ∀ s, P s → post s) : Outline rely post P (.ret a)
  | raised {P : σ → Prop} (e : ε) : Outline rely post P (.raised e)
  | read {P : σ → Prop} {next : Except ε σ → Program σ ε ℓ α} (found : σ → σ → Prop)
      (stable : ∀ s, Stable rely (found s)) (holds : ∀ s, P s → found s s)
      (done : ∀ s, P s → Outline rely post (found s) (next (.ok s)))
      (failed : ∀ e, Outline rely post P (next (.error e))) : Outline rely post P (.read next)
  | commit {P Q : σ → Prop} {label : ℓ} {t : σ → Except ε σ}
      {next : Except ε Unit → Program σ ε ℓ α} (stable : Stable rely Q)
      (establishes : ∀ s s', P s → t s = .ok s' → Q s')
      (done : Outline rely post Q (next (.ok ())))
      (failed : ∀ e, Outline rely post P (next (.error e))) :
      Outline rely post P (.commit label t next)

/-- The program keeps its promise from the store as it is, whatever the others do. -/
def Promises (rely : σ → σ → Prop) (post : σ → Prop) (p : Program σ ε ℓ α) (s : σ) : Prop :=
  ∃ P : σ → Prop, Stable rely P ∧ P s ∧ Outline rely post P p

variable {rely : σ → σ → Prop} {post P P' : σ → Prop} {p p' : Program σ ε ℓ α} {s s' : σ}

theorem Outline.strengthen (outline : Outline rely post P p) (stronger : ∀ s, P' s → P s) :
    Outline rely post P' p := by
  induction outline with
  | ret a promised => exact .ret a fun s h => promised s (stronger s h)
  | raised e => exact .raised e
  | read found stable holds done _ _ ih =>
    exact .read found stable (fun s h => holds s (stronger s h)) (fun s h => done s (stronger s h))
      fun e => ih e stronger
  | commit stable establishes done _ _ ih =>
    exact .commit stable (fun s s' h => establishes s s' (stronger s h)) done fun e => ih e stronger

theorem Promises.interfere (promises : Promises rely post p s) (h : rely s s') :
    Promises rely post p s' := by
  obtain ⟨P, stable, holds, outline⟩ := promises
  exact ⟨P, stable, stable s s' holds h, outline⟩

theorem Promises.resume {fault : Option ε} (promises : Promises rely post p s)
    (h : p.resume fault s = some (p', s')) : Promises rely post p' s' := by
  obtain ⟨P, stable, holds, outline⟩ := promises
  cases outline with
  | ret => simp [Program.resume] at h
  | raised => simp [Program.resume] at h
  | read found stable' holds' done failed =>
    cases fault with
    | none =>
      obtain ⟨rfl, rfl⟩ := by simpa [Program.resume] using h
      exact ⟨_, stable' _, holds' _ holds, done _ holds⟩
    | some e =>
      obtain ⟨rfl, rfl⟩ := by simpa [Program.resume] using h
      exact ⟨P, stable, holds, failed e⟩
  | @commit _ Q label t next stable' establishes done failed =>
    obtain ⟨rfl, rfl⟩ := by simpa [Program.resume] using h
    rcases attempt_cases fault t s with ⟨hr, ht⟩ | ⟨⟨e, hr⟩, hs⟩
    · exact ⟨Q, stable', establishes _ _ holds ht, hr ▸ done⟩
    · exact ⟨P, stable, by rwa [hs], hr ▸ failed e⟩

theorem Promises.returned {a : α} (promises : Promises rely post (.ret a : Program σ ε ℓ α) s) :
    post s := by
  obtain ⟨P, -, holds, outline⟩ := promises
  cases outline with
  | ret _ promised => exact promised s holds

end Program

end Effects
