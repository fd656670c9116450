import Mathlib.Data.List.TakeWhile
import Mathlib.Tactic.Common

/-! # Matches of a pattern in a text

A pattern is tried at every position, left to right, and goes on behind each match.
Where no match reaches over a stop symbol, a text is searched piece by piece: the
matches of pieces that end in a stop are the matches of the whole.
-/

namespace Patterns

variable {α β : Type}

abbrev Pattern (α : Type) := List α → Option (List α)

/-- All matches with their positions. The first `skip` symbols are left out: they belong to the
last match. -/
def found (pattern : Pattern α) : ℕ → ℕ → List α → List (ℕ × List α)
  | _, _, [] => []
  | skip + 1, start, _ :: rest => found pattern skip (start + 1) rest
  | 0, start, a :: rest =>
    match pattern (a :: rest) with
    | some token => (start, token) :: found pattern (token.length - 1) (start + 1) rest
    | none => found pattern 0 (start + 1) rest

/-- `split` by a pattern that is captured: the text before each match, the match, and the text at
the end, each with its position. The text since the last match is `open_`. -/
def split (pattern : Pattern α) : ℕ → ℕ → List α → List α → List (ℕ × List α)
  | _, start, open_, [] => [(start - open_.length, open_)]
  | skip + 1, start, open_, _ :: rest => split pattern skip (start + 1) open_ rest
  | 0, start, open_, a :: rest =>
    match pattern (a :: rest) with
    | some token =>
      (start - open_.length, open_) :: (start, token) ::
        split pattern (token.length - 1) (start + 1) [] rest
    | none => split pattern 0 (start + 1) (open_ ++ [a]) rest

/-- `split` at runs of two stops or more, with the position of each block. -/
def blocks [DecidableEq α] (stop : α) : Bool → ℕ → List α → List α → List (ℕ × List α)
  | true, start, _, [] => [(start, [])]
  | false, start, open_, [] => [(start - open_.length, open_)]
  | true, start, _, a :: rest =>
    if a = stop then blocks stop true (start + 1) [] rest
    else blocks stop false (start + 1) [a] rest
  | false, start, open_, a :: rest =>
    if a = stop ∧ rest.head? = some stop then
      (start - open_.length, open_) :: blocks stop true (start + 1) [] rest
    else blocks stop false (start + 1) (open_ ++ [a]) rest

/-- Between two fences stands a run of one class, of a length that fits. -/
def enclosed [BEq α] (opening closing : List α) (inside : α → Bool) (fits : ℕ → Bool) : Pattern α :=
  fun text =>
    let rest := text.drop opening.length
    let run := rest.takeWhile inside
    if opening.isPrefixOf text && fits run.length && closing.isPrefixOf (rest.dropWhile inside) then
      some (opening ++ run ++ closing)
    else none

/-- The pattern matches something, and looks no further than the next stop. -/
structure Confined (pattern : Pattern α) (stop : α) : Prop where
  within : ∀ text token, pattern text = some token → token ≠ [] ∧ token.length ≤ text.length
  confined : ∀ before rest, pattern (before ++ stop :: rest) = pattern before

variable {pattern : Pattern α} {stop : α} {skip start : ℕ} {text : List α}

namespace Confined

theorem nil (h : Confined pattern stop) : pattern [] = none := by
  cases hnil : pattern [] with
  | none => rfl
  | some token =>
    obtain ⟨hne, hle⟩ := h.within [] token hnil
    exact absurd (List.length_eq_zero_iff.mp (Nat.le_zero.mp hle)) hne

theorem at_stop (h : Confined pattern stop) (rest : List α) : pattern (stop :: rest) = none :=
  (h.confined [] rest).trans h.nil

theorem orElse {pattern' : Pattern α} (h : Confined pattern stop) (h' : Confined pattern' stop) :
    Confined (fun text => pattern text <|> pattern' text) stop where
  within text token htoken := by
    rw [Option.orElse_eq_orElse, Option.orElse_eq_or, Option.or_eq_some_iff] at htoken
    rcases htoken with htoken | ⟨-, htoken⟩
    · exact h.within text token htoken
    · exact h'.within text token htoken
  confined before rest := by simp only [h.confined, h'.confined]

theorem found_stop (h : Confined pattern stop) (start : ℕ) (rest : List α) :
    found pattern 0 start (stop :: rest) = found pattern 0 (start + 1) rest := by
  rw [found, h.at_stop]

theorem found_append (h : Confined pattern stop) (before rest : List α)
    (hskip : skip ≤ before.length) :
    found pattern skip start (before ++ stop :: rest) =
      found pattern skip start before ++ found pattern 0 (start + before.length + 1) rest := by
  induction before generalizing skip start with
  | nil =>
    obtain rfl := Nat.le_zero.mp hskip
    exact h.found_stop start rest
  | cons a before ih =>
    have hstart : start + (a :: before).length + 1 = start + 1 + before.length + 1 := by
      rw [List.length_cons]
      omega
    rw [hstart]
    cases skip with
    | succ skip => exact ih (Nat.le_of_succ_le_succ hskip)
    | zero =>
      rw [List.cons_append, found, found, ← List.cons_append, h.confined]
      cases htoken : pattern (a :: before) with
      | none => exact ih (Nat.zero_le _)
      | some token =>
        have hle := (h.within _ token htoken).2
        rw [List.length_cons] at hle
        exact congrArg (List.cons _) (ih (by omega))

/-- No match is lost between the blocks. -/
theorem blocks_found [DecidableEq α] (h : Confined pattern stop) (gap : Bool) (start : ℕ)
    (open_ rest : List α) (hstart : open_.length ≤ start) :
    (blocks stop gap start open_ rest).flatMap (fun block => found pattern 0 block.1 block.2) =
      if gap then found pattern 0 start rest
      else found pattern 0 (start - open_.length) (open_ ++ rest) := by
  fun_induction blocks stop gap start open_ rest with
  | case1 => simp [found]
  | case2 => simp
  | case3 start open_ rest ih =>
    have hrest := ih (Nat.zero_le _)
    rw [if_pos rfl] at hrest ⊢
    rw [hrest, h.found_stop]
  | case4 start open_ a rest hne ih =>
    have hrest := ih (by simp)
    simpa using hrest
  | case5 start open_ a rest hstop ih =>
    obtain ⟨rfl, hnext⟩ := hstop
    have hrest := ih (Nat.zero_le _)
    have hposition : start - open_.length + open_.length + 1 = start + 1 := by omega
    rw [if_pos rfl] at hrest
    rw [List.flatMap_cons, hrest, if_neg (by simp), h.found_append _ _ (Nat.zero_le _), hposition]
  | case6 start open_ a rest hne ih =>
    have hlength : (open_ ++ [a]).length = open_.length + 1 := by simp
    have hrest := ih (by omega)
    have hposition : start + 1 - (open_ ++ [a]).length = start - open_.length := by omega
    rw [if_neg (by simp), hposition, List.append_assoc, List.singleton_append] at hrest
    rw [hrest, if_neg (by simp)]

end Confined

section Enclosed
variable {opening closing : List α} {inside : α → Bool} {fits : ℕ → Bool}

theorem takeWhile_append_stop (h : inside stop = false) (before rest : List α) :
    (before ++ stop :: rest).takeWhile inside = before.takeWhile inside := by
  induction before with
  | nil => simp [h]
  | cons a before ih => simp only [List.cons_append, List.takeWhile_cons, ih]

theorem dropWhile_append_stop (h : inside stop = false) (before rest : List α) :
    (before ++ stop :: rest).dropWhile inside = before.dropWhile inside ++ stop :: rest := by
  induction before with
  | nil => simp [h]
  | cons a before ih =>
    rw [List.cons_append, List.dropWhile_cons, List.dropWhile_cons, ih]
    split <;> rfl

variable [BEq α]

/-- What is matched is an opening fence, a run that fits and a closing fence. -/
theorem enclosed_eq_some {token : List α}
    (h : enclosed opening closing inside fits text = some token) :
    ∃ run, token = opening ++ run ++ closing ∧ (∀ a ∈ run, inside a = true) ∧
      fits run.length = true := by
  simp only [enclosed, Option.ite_none_right_eq_some, Bool.and_eq_true] at h
  obtain ⟨⟨⟨-, hfits⟩, -⟩, h⟩ := h
  exact ⟨_, (Option.some.inj h).symm, fun a ha => List.mem_takeWhile_imp ha, hfits⟩

variable [LawfulBEq α]

theorem isPrefixOf_append_stop (h : stop ∉ opening) (before rest : List α) :
    opening.isPrefixOf (before ++ stop :: rest) = opening.isPrefixOf before := by
  induction before generalizing opening with
  | nil =>
    cases opening with
    | nil => rfl
    | cons a opening =>
      have ha : (a == stop) = false := by simpa using (List.ne_of_not_mem_cons h).symm
      simp [List.isPrefixOf, ha]
  | cons b before ih =>
    cases opening with
    | nil => rfl
    | cons a opening => simp [List.isPrefixOf, ih (List.not_mem_of_not_mem_cons h)]

theorem enclosed_confined (hne : opening ≠ []) (hopening : stop ∉ opening)
    (hclosing : stop ∉ closing) (hinside : inside stop = false) :
    Confined (enclosed opening closing inside fits) stop where
  within text token h := by
    unfold enclosed at h
    simp only [Option.ite_none_right_eq_some, Bool.and_eq_true, List.isPrefixOf_iff_prefix] at h
    obtain ⟨⟨⟨⟨rest, rfl⟩, -⟩, hclose⟩, htoken⟩ := h
    rw [List.drop_left] at hclose htoken
    have hrest := congrArg List.length (List.takeWhile_append_dropWhile (p := inside) (l := rest))
    have hlength := hclose.length_le
    obtain rfl := Option.some.inj htoken
    rw [List.length_append] at hrest
    refine ⟨by simp [hne], ?_⟩
    simp only [List.length_append]
    omega
  confined before rest := by
    unfold enclosed
    rw [isPrefixOf_append_stop hopening]
    cases hprefix : opening.isPrefixOf before with
    | false => simp
    | true =>
      obtain ⟨body, rfl⟩ := List.isPrefixOf_iff_prefix.mp hprefix
      simp only [List.append_assoc, List.drop_left, takeWhile_append_stop hinside,
        dropWhile_append_stop hinside, isPrefixOf_append_stop hclosing]

/-- A run between its fences is matched whole, whatever follows. -/
theorem enclosed_run {run : List α} (hrun : ∀ a ∈ run, inside a = true)
    (hfits : fits run.length = true) {last : α} (hlast : inside last = false)
    (opening closing rest : List α) :
    enclosed opening (last :: closing) inside fits (opening ++ run ++ last :: closing ++ rest) =
      some (opening ++ run ++ last :: closing) := by
  have hopening : opening.isPrefixOf (opening ++ run ++ last :: closing ++ rest) = true := by
    rw [List.isPrefixOf_iff_prefix, List.append_assoc, List.append_assoc]
    exact List.prefix_append _ _
  have hbody : (opening ++ run ++ last :: closing ++ rest).drop opening.length =
      run ++ last :: (closing ++ rest) := by simp
  have htake : (run ++ last :: (closing ++ rest)).takeWhile inside = run := by
    rw [takeWhile_append_stop hlast, List.takeWhile_eq_self_iff]
    exact hrun
  have hdrop : (run ++ last :: (closing ++ rest)).dropWhile inside = last :: (closing ++ rest) := by
    rw [dropWhile_append_stop hlast, List.dropWhile_eq_nil_iff.mpr hrun, List.nil_append]
  have hclosing : (last :: closing).isPrefixOf (last :: (closing ++ rest)) = true :=
    List.isPrefixOf_iff_prefix.mpr (List.prefix_append (last :: closing) rest)
  simp only [enclosed, hopening, hbody, htake, hdrop, hfits, hclosing, Bool.and_self, if_true]

/-- No match begins with another symbol than the opening fence does. -/
theorem enclosed_cons_of_ne {a b : α} (h : b ≠ a) (opening rest : List α) :
    enclosed (a :: opening) closing inside fits (b :: rest) = none := by
  have hne : (a == b) = false := by simpa using h.symm
  simp [enclosed, List.isPrefixOf, hne]

end Enclosed

theorem found_shift (shift : ℕ) :
    found pattern skip (start + shift) text =
      (found pattern skip start text).map fun m => (m.1 + shift, m.2) := by
  induction text generalizing skip start with
  | nil => rfl
  | cons a rest ih =>
    have hstart : start + shift + 1 = start + 1 + shift := by omega
    cases skip with
    | succ skip => rw [found, found, hstart, ih]
    | zero =>
      rw [found, found, hstart]
      split
      · rw [ih, List.map_cons]
      · rw [ih]

/-- What is said of the matches alone does not depend on where the text starts. -/
theorem forall_found_start {P : List α → Prop} :
    (∀ m ∈ found pattern skip start text, P m.2) ↔ ∀ m ∈ found pattern skip 0 text, P m.2 := by
  have hshift := @found_shift _ pattern skip 0 text start
  rw [Nat.zero_add] at hshift
  rw [hshift, List.forall_mem_map]

theorem found_position {m : ℕ × List α} (h : m ∈ found pattern skip start text) :
    start ≤ m.1 ∧ m.1 < start + text.length := by
  induction text generalizing skip start with
  | nil => cases h
  | cons a rest ih =>
    rw [List.length_cons]
    cases skip with
    | succ skip =>
      have hrest := ih h
      omega
    | zero =>
      rw [found] at h
      split at h
      · rcases List.mem_cons.mp h with rfl | h
        · exact ⟨Nat.le_refl _, by dsimp only; omega⟩
        · have hrest := ih h
          omega
      · have hrest := ih h
        omega

theorem found_append_free {before : List α}
    (free : ∀ a ∈ before, ∀ rest, pattern (a :: rest) = none) (start : ℕ) (rest : List α) :
    found pattern 0 start (before ++ rest) = found pattern 0 (start + before.length) rest := by
  induction before generalizing start with
  | nil => rfl
  | cons a before ih =>
    obtain ⟨ha, hbefore⟩ := List.forall_mem_cons.mp free
    have hposition : start + 1 + before.length = start + (before.length + 1) := by omega
    rw [List.cons_append, found, ha, List.length_cons, ← hposition]
    exact ih hbefore (start + 1)

def pieceAt : List (List α) → ℕ → ℕ
  | [], _ => 0
  | piece :: pieces, position =>
    if position < piece.length then 0 else pieceAt pieces (position - piece.length) + 1

theorem forall_getElem?_cons {a : α} {l : List α} {Q : ℕ → α → Prop} :
    (∀ k b, (a :: l)[k]? = some b → Q k b) ↔ Q 0 a ∧ ∀ k b, l[k]? = some b → Q (k + 1) b := by
  constructor
  · intro h
    exact ⟨h 0 a rfl, fun k b hb => h (k + 1) b hb⟩
  · rintro ⟨hfirst, hrest⟩ k b hb
    cases k with
    | zero =>
      rw [List.getElem?_cons_zero] at hb
      exact Option.some.inj hb ▸ hfirst
    | succ k => exact hrest k b hb

/-- What holds of all matches in a text made of pieces holds of those in each piece. -/
theorem Confined.forall_found_flatten (h : Confined pattern stop) {pieces : List (List α)}
    (ended : ∀ piece ∈ pieces.dropLast, ∃ body, piece = body ++ [stop]) {P : ℕ → List α → Prop} :
    (∀ m ∈ found pattern 0 0 pieces.flatten, P (pieceAt pieces m.1) m.2) ↔
      ∀ k piece, pieces[k]? = some piece → ∀ m ∈ found pattern 0 0 piece, P k m.2 := by
  induction pieces generalizing P with
  | nil => simp [found]
  | cons piece pieces ih =>
    have hfound : found pattern 0 0 (piece :: pieces).flatten =
        found pattern 0 0 piece ++
          (found pattern 0 0 pieces.flatten).map fun m => (m.1 + piece.length, m.2) := by
      rw [← found_shift, List.flatten_cons]
      cases pieces with
      | nil => simp [found]
      | cons next pieces =>
        obtain ⟨body, rfl⟩ := ended piece (by simp)
        rw [List.append_assoc, List.singleton_append, h.found_append _ _ (Nat.zero_le _),
          h.found_append _ _ (Nat.zero_le _)]
        simp [found]
    have hpieces := ih (fun next hnext => ended next (by
      cases pieces with
      | nil => cases hnext
      | cons _ _ => exact List.mem_cons_of_mem _ hnext)) (P := fun k token => P (k + 1) token)
    have hfirst (m : ℕ × List α) (hm : m ∈ found pattern 0 0 piece) :
        pieceAt (piece :: pieces) m.1 = 0 := if_pos (by have := found_position hm; omega)
    have hlater (n : ℕ) : pieceAt (piece :: pieces) (n + piece.length) = pieceAt pieces n + 1 := by
      rw [pieceAt, if_neg (by omega), Nat.add_sub_cancel]
    rw [hfound, List.forall_mem_append, List.forall_mem_map, forall_getElem?_cons]
    simp only [hlater, hpieces]
    exact and_congr_left fun _ => forall₂_congr fun m hm => by rw [hfirst m hm]

/-- The pieces that a reader takes for tokens are the matches it takes for tokens. -/
theorem split_filterMap {read : List α → Option β} (hnil : read [] = none)
    (hread : ∀ token rest, pattern (token ++ rest) = none → read token = none)
    (open_ : List α) (hopen : open_ = [] ∨ skip = 0 ∧ pattern (open_ ++ text) = none) :
    (split pattern skip start open_ text).filterMap (fun m => (read m.2).map (m.1, ·)) =
      (found pattern skip start text).filterMap fun m => (read m.2).map (m.1, ·) := by
  have hplain : read open_ = none := by
    rcases hopen with rfl | ⟨-, hopen⟩
    · exact hnil
    · exact hread _ _ hopen
  induction text generalizing skip start open_ with
  | nil => cases skip <;> simp [split, found, hplain]
  | cons a rest ih =>
    cases skip with
    | succ skip =>
      have hempty : open_ = [] := hopen.resolve_right (by simp)
      exact ih open_ (.inl hempty) hplain
    | zero =>
      rw [split, found]
      cases htoken : pattern (a :: rest) with
      | some token =>
        have hrest := @ih (token.length - 1) (start + 1) [] (.inl rfl) hnil
        simp only [List.filterMap_cons, hplain, Option.map_none, hrest]
      | none =>
        have hnext : pattern (open_ ++ [a] ++ rest) = none := by
          rcases hopen with rfl | ⟨-, hopen⟩
          · exact htoken
          · rwa [List.append_assoc]
        exact ih (open_ ++ [a]) (.inr ⟨rfl, hnext⟩) (hread _ _ hnext)

end Patterns
