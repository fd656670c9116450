import Docsage.Library.Recoding
import Mathlib.Data.List.DropRight
import Mathlib.Tactic.Common

/-! # Leading sentences

A text is stripped, split at the white space behind an end mark, and the first
sentences are joined again. `emit` writes the same text in one pass, which is the
form for two readers with different alphabets or different white space.
-/

namespace Sentences
open Recoding

variable {α : Type}

def strip (space : α → Bool) (text : List α) : List α := (text.dropWhile space).rdropWhile space

/-- Where a reader stands: in white space that belongs to no sentence, or in a sentence, where it
matters whether the last symbol was an end mark. -/
inductive Place where
  | gap
  | sentence (ended : Bool)

/-- Split at every run of white space behind an end mark. -/
def pieces (space mark : α → Bool) : Place → List α → List (List α)
  | _, [] => [[]]
  | .gap, c :: rest =>
    if space c then pieces space mark .gap rest
    else (pieces space mark (.sentence (mark c)) rest).modifyHead (c :: ·)
  | .sentence ended, c :: rest =>
    if ended && space c then [] :: pieces space mark .gap rest
    else (pieces space mark (.sentence (mark c)) rest).modifyHead (c :: ·)

/-- What is left of the pieces when they are stripped, up to a count, joined again. -/
def joined (space : α → Bool) (joiner : List α) (count : ℕ) (sentences : List (List α)) : List α :=
  joiner.intercalate (((sentences.map (strip space)).filter fun s => !s.isEmpty).take count)

def leading (space mark : α → Bool) (joiner : List α) (count : ℕ) (text : List α) : List α :=
  joined space joiner count (pieces space mark (.sentence false) (strip space text))

/-- The text that comes out behind a place when `more` further sentences may begin. -/
def emit (space mark : α → Bool) (joiner : List α) : ℕ → Place → List α → List α
  | _, _, [] => []
  | more, .gap, c :: rest =>
    if space c then emit space mark joiner more .gap rest
    else c :: emit space mark joiner more (.sentence (mark c)) rest
  | more, .sentence ended, c :: rest =>
    if (c :: rest).all space then []
    else if ended && space c then
      if more = 0 then [] else joiner ++ emit space mark joiner (more - 1) .gap rest
    else c :: emit space mark joiner more (.sentence (mark c)) rest

variable {space mark : α → Bool} {joiner text before : List α} {more : ℕ}

theorem emit_blank (place : Place) (h : text.all space = true) :
    emit space mark joiner more place text = [] := by
  induction text generalizing place with
  | nil => cases place <;> rfl
  | cons c rest ih =>
    cases place with
    | gap =>
      rw [List.all_cons, Bool.and_eq_true] at h
      rw [emit, if_pos h.1]
      exact ih .gap h.2
    | sentence ended => rw [emit, if_pos h]

section

variable {c : α}

theorem emit_cut_last (hc : space c = true) :
    emit space mark joiner 0 (.sentence true) (c :: text) = [] := by
  rw [emit, hc, Bool.true_and, if_pos rfl, if_pos rfl]
  exact ite_self _

theorem emit_cut (hc : space c = true) (hmore : more ≠ 0) (hrest : ¬ text.all space = true) :
    emit space mark joiner more (.sentence true) (c :: text) =
      joiner ++ emit space mark joiner (more - 1) .gap text := by
  rw [emit, List.all_cons, hc, Bool.true_and, Bool.true_and, if_neg hrest, if_pos rfl, if_neg hmore]

theorem emit_keep {ended : Bool} (h : ¬ (c :: text).all space = true)
    (hcut : ¬ (ended && space c) = true) :
    emit space mark joiner more (.sentence ended) (c :: text) =
      c :: emit space mark joiner more (.sentence (mark c)) text := by
  rw [emit, if_neg h, if_neg hcut]

theorem emit_cons (place : Place) (h : space c = false) :
    emit space mark joiner more place (c :: text) =
      c :: emit space mark joiner more (.sentence (mark c)) text := by
  cases place with
  | gap => rw [emit, h, if_neg Bool.false_ne_true]
  | sentence ended => exact emit_keep (by simp [h]) (by simp [h])

end

theorem emit_append_blank (place : Place) {blank : List α} (h : blank.all space = true) :
    emit space mark joiner more place (text ++ blank) = emit space mark joiner more place text := by
  induction text generalizing place more with
  | nil => rw [List.nil_append, emit_blank place h, emit_blank place (List.all_nil)]
  | cons c rest ih =>
    have hall : ((c :: rest) ++ blank).all space = (c :: rest).all space := by
      rw [List.all_append, h, Bool.and_true]
    cases place with
    | gap => simp only [List.cons_append, emit, ih]
    | sentence ended =>
      rw [List.cons_append] at hall ⊢
      simp only [emit, hall, ih]

theorem emit_strip : emit space mark joiner more .gap (strip space text) =
    emit space mark joiner more .gap text := by
  have hleft : emit space mark joiner more .gap (text.dropWhile space) =
      emit space mark joiner more .gap text := by
    induction text with
    | nil => rfl
    | cons c rest ih =>
      by_cases hc : space c = true
      · rw [List.dropWhile_cons_of_pos hc, ih, emit, if_pos hc]
      · rw [List.dropWhile_cons_of_neg hc]
  have hblank : ((text.dropWhile space).rtakeWhile space).all space = true :=
    List.all_eq_true.mpr fun c hc => List.mem_rtakeWhile_imp hc
  rw [← hleft, strip]
  conv_rhs => rw [← List.rdropWhile_append_rtakeWhile (p := space) (l := text.dropWhile space),
    emit_append_blank .gap hblank]

theorem emit_gap_ne_nil (h : ¬ text.all space = true) :
    emit space mark joiner more .gap text ≠ [] := by
  induction text with
  | nil => exact absurd List.all_nil h
  | cons c rest ih =>
    by_cases hc : space c = true
    · rw [emit, if_pos hc]
      apply ih
      intro hrest
      exact h (by rw [List.all_cons, hc, hrest, Bool.and_true])
    · rw [emit, if_neg hc]
      exact List.cons_ne_nil _ _

section

variable {a : α} (ha : space a = false)
include ha

theorem strip_open : strip space (a :: before) = (a :: before).rdropWhile space := by
  rw [strip, List.dropWhile_cons_of_neg (by simp [ha])]

theorem rdropWhile_open_ne_nil : (a :: before).rdropWhile space ≠ [] := by
  intro h
  have hspace := List.rdropWhile_eq_nil_iff.mp h a List.mem_cons_self
  rw [ha] at hspace
  cases hspace

theorem joined_last {sentences : List (List α)} (h : more = 0 ∨ sentences = [[]] ∨ sentences = []) :
    joined space joiner (more + 1) ((a :: before) :: sentences) =
      (a :: before).rdropWhile space := by
  have hne : ¬ ((a :: before).rdropWhile space).isEmpty = true := by
    simpa using rdropWhile_open_ne_nil ha
  rw [joined, List.map_cons, strip_open ha, List.filter_cons_of_pos (by simpa using hne),
    List.take_succ_cons]
  rcases h with rfl | rfl | rfl
  · rw [List.take_zero, List.intercalate_singleton]
  · simp [strip]
  · simp

theorem joined_cons {sentences : List (List α)}
    (closed : (a :: before).rdropWhile space = a :: before)
    (h : joined space joiner more sentences ≠ []) :
    joined space joiner (more + 1) ((a :: before) :: sentences) =
      a :: before ++ (joiner ++ joined space joiner more sentences) := by
  have hrest : ((sentences.map (strip space)).filter fun s => !s.isEmpty).take more ≠ [] := by
    intro hnil
    rw [joined, hnil] at h
    exact h rfl
  rw [joined, List.map_cons, strip_open ha, closed, List.filter_cons_of_pos rfl,
    List.take_succ_cons, List.intercalate_cons_of_ne_nil hrest, List.append_assoc]
  rfl

end

theorem pieces_blank (h : text.all space = true) : pieces space mark .gap text = [[]] := by
  induction text with
  | nil => rfl
  | cons c rest ih =>
    rw [List.all_cons, Bool.and_eq_true] at h
    rw [pieces, if_pos h.1, ih h.2]

/-- The pieces behind a place, joined, are what is emitted there. A sentence that is open at the
place, from `a` on, belongs to the first piece; behind an end mark it does not end in white
space. -/
structure Joins (space mark : α → Bool) (joiner text : List α) : Prop where
  gap : ∀ more, joined space joiner (more + 1) (pieces space mark .gap text) =
    emit space mark joiner more .gap text
  sentence : ∀ more ended a before, space a = false →
    (ended = true → (a :: before).rdropWhile space = a :: before) →
    joined space joiner (more + 1)
        ((pieces space mark (.sentence ended) text).modifyHead (a :: before ++ ·)) =
      if text.all space = true then (a :: before).rdropWhile space
      else a :: before ++ emit space mark joiner more (.sentence ended) text

namespace Joins

variable {c : α}

theorem nil : Joins space mark joiner [] where
  gap more := by simp [joined, pieces, strip, emit]
  sentence more ended a before ha _ := by
    rw [pieces, List.modifyHead_cons, List.append_nil, joined_last ha (.inr (.inr rfl)),
      if_pos List.all_nil]

theorem cons_gap (h : Joins space mark joiner text) :
    joined space joiner (more + 1) (pieces space mark .gap (c :: text)) =
      emit space mark joiner more .gap (c :: text) := by
  by_cases hc : space c = true
  · rw [pieces, emit, if_pos hc, if_pos hc, h.gap]
  · have hspace : space c = false := by simpa using hc
    have hpush := h.sentence more (mark c) c [] hspace fun _ => by
      rw [List.rdropWhile_singleton, if_neg hc]
    rw [pieces, emit, if_neg hc, if_neg hc]
    refine hpush.trans ?_
    split_ifs with hblank
    · rw [List.rdropWhile_singleton, if_neg hc, emit_blank _ hblank]
    · rfl

variable {a : α} (ha : space a = false)
include ha

theorem cons_cut (h : Joins space mark joiner text) (hc : space c = true)
    (closed : (a :: before).rdropWhile space = a :: before) :
    joined space joiner (more + 1)
        ((pieces space mark (.sentence true) (c :: text)).modifyHead (a :: before ++ ·)) =
      if (c :: text).all space = true then (a :: before).rdropWhile space
      else a :: before ++ emit space mark joiner more (.sentence true) (c :: text) := by
  have hall : (c :: text).all space = text.all space := by
    rw [List.all_cons, hc, Bool.true_and]
  rw [pieces, Bool.true_and, if_pos hc, List.modifyHead_cons, List.append_nil, hall, closed]
  by_cases hblank : text.all space = true
  · rw [if_pos hblank, pieces_blank hblank, joined_last ha (.inr (.inl rfl)), closed]
  · rw [if_neg hblank]
    cases more with
    | zero => rw [joined_last ha (.inl rfl), closed, emit_cut_last hc, List.append_nil]
    | succ more =>
      have hne : joined space joiner (more + 1) (pieces space mark .gap text) ≠ [] := by
        rw [h.gap]
        exact emit_gap_ne_nil hblank
      rw [joined_cons ha closed hne, h.gap, emit_cut hc (Nat.succ_ne_zero more) hblank]
      rfl

theorem cons_keep (hmark : ∀ c, mark c = true → space c = false) (h : Joins space mark joiner text)
    {ended : Bool} (hcut : ¬ (ended && space c) = true) :
    joined space joiner (more + 1)
        ((pieces space mark (.sentence ended) (c :: text)).modifyHead (a :: before ++ ·)) =
      if (c :: text).all space = true then (a :: before).rdropWhile space
      else a :: before ++ emit space mark joiner more (.sentence ended) (c :: text) := by
  have hpush := h.sentence more (mark c) a (before ++ [c]) ha fun hc => by
    rw [← List.cons_append, List.rdropWhile_concat_neg _ _ _ (by simp [hmark c hc])]
  have hhead : (a :: (before ++ [c]) ++ ·) = (a :: before ++ ·) ∘ (c :: ·) := by
    funext l
    simp
  rw [pieces, if_neg hcut, List.modifyHead_modifyHead, ← hhead, hpush, ← List.cons_append]
  by_cases hc : space c = true
  · have hall : (c :: text).all space = text.all space := by
      rw [List.all_cons, hc, Bool.true_and]
    rw [hall, List.rdropWhile_concat_pos _ _ _ hc]
    split_ifs with hblank
    · rfl
    · rw [emit_keep (by rwa [hall]) hcut]
      simp
  · have hall : ¬ (c :: text).all space = true := by simp [hc]
    rw [if_neg hall, emit_keep hall hcut, List.rdropWhile_concat_neg _ _ _ hc]
    split_ifs with hblank
    · simp [emit_blank _ hblank]
    · simp

end Joins

theorem joins (hmark : ∀ c, mark c = true → space c = false) (text : List α) :
    Joins space mark joiner text := by
  induction text with
  | nil => exact Joins.nil
  | cons c text ih =>
    refine ⟨fun more => ih.cons_gap, fun more ended a before ha closed => ?_⟩
    by_cases hcut : (ended && space c) = true
    · obtain ⟨rfl, hc⟩ := Bool.and_eq_true_iff.mp hcut
      exact ih.cons_cut ha hc (closed rfl)
    · exact ih.cons_keep ha hmark hcut

theorem strip_head {c : α} {rest : List α} (h : strip space text = c :: rest) :
    space c = false := by
  have hdrop : text.dropWhile space ≠ [] := by
    intro hnil
    rw [strip, hnil, List.rdropWhile_nil] at h
    cases h
  have hhead := List.head_dropWhile_not space hdrop
  obtain ⟨tail, htail⟩ := List.rdropWhile_prefix space (l := text.dropWhile space)
  rw [← strip, h] at htail
  simpa [← htail] using hhead

theorem strip_subset : strip space text ⊆ text :=
  ((List.rdropWhile_prefix space _).sublist.trans (List.dropWhile_sublist space)).subset

theorem leading_eq_emit (hmark : ∀ c, mark c = true → space c = false) :
    leading space mark joiner (more + 1) text = emit space mark joiner more .gap text := by
  have hstrip : pieces space mark (.sentence false) (strip space text) =
      pieces space mark .gap (strip space text) := by
    cases htext : strip space text with
    | nil => rfl
    | cons c rest =>
      rw [pieces, pieces, strip_head htext, Bool.and_false, if_neg Bool.false_ne_true,
        if_neg Bool.false_ne_true]
  rw [leading, hstrip, (joins hmark _).gap, emit_strip]

theorem leading_of_unmarked (h : ∀ c ∈ text, mark c = false) :
    leading space mark joiner (more + 1) text = strip space text := by
  have hpieces (l : List α) (hl : ∀ c ∈ l, mark c = false) :
      pieces space mark (.sentence false) l = [l] := by
    induction l with
    | nil => rfl
    | cons c l ih =>
      obtain ⟨hc, hl⟩ := List.forall_mem_cons.mp hl
      rw [pieces, Bool.false_and, if_neg Bool.false_ne_true, hc, ih hl, List.modifyHead_cons]
  rw [leading, hpieces _ fun c hc => h c (strip_subset hc)]
  cases htext : strip space text with
  | nil => rfl
  | cons c rest =>
    rw [joined_last (strip_head htext) (.inr (.inr rfl)), ← htext, strip,
      List.rdropWhile_idempotent]

section

variable {β : Type} {f : α → List β} {space' mark' : β → Bool}

theorem emit_plain {units rest : List β} (h : ∀ u ∈ units, space' u = false ∧ mark' u = false)
    {joiner : List β} : emit space' mark' joiner more (.sentence false) (units ++ rest) =
      units ++ emit space' mark' joiner more (.sentence false) rest := by
  induction units with
  | nil => rfl
  | cons u units ih =>
    obtain ⟨⟨hspace, hmark⟩, hunits⟩ := List.forall_mem_cons.mp h
    rw [List.cons_append, emit_cons _ hspace, hmark, ih hunits, List.cons_append]

section

variable (code : ∀ c, f c ≠ []) (hspace : Reads f space space') (hmark : Reads f mark mark')
include hmark

theorem mark_of_space {c : α} {u : β} (hu : f c = [u]) : mark' u = mark c := by
  cases hend : mark c with
  | true =>
    obtain ⟨v, hv, hmark'⟩ := hmark.1 c hend
    rw [hu] at hv
    rwa [List.singleton_inj.mp hv]
  | false => exact hmark.2 c hend u (by simp [hu])

include code hspace

theorem emit_units (place : Place) {c : α} (hc : space c = false) (rest : List β)
    {joiner : List β} : emit space' mark' joiner more place (f c ++ rest) =
      f c ++ emit space' mark' joiner more (.sentence (mark c)) rest := by
  have hunits := hspace.2 c hc
  cases hend : mark c with
  | true =>
    obtain ⟨u, hu, hmark'⟩ := hmark.1 c hend
    rw [hu, List.singleton_append, emit_cons place (hunits u (by simp [hu])), hmark',
      List.singleton_append]
  | false =>
    obtain ⟨u, units, hu⟩ := List.exists_cons_of_ne_nil (code c)
    have hplain (v : β) (hv : v ∈ f c) : space' v = false ∧ mark' v = false :=
      ⟨hunits v hv, hmark.2 c hend v hv⟩
    rw [hu] at hplain ⊢
    obtain ⟨⟨hspace', hmark'⟩, hrest⟩ := List.forall_mem_cons.mp hplain
    rw [List.cons_append, emit_cons place hspace', hmark', emit_plain hrest, List.cons_append]

/-- The sentences of the units are the units of the sentences. -/
theorem emit_flatMap (place : Place) :
    emit space' mark' (joiner.flatMap f) more place (text.flatMap f) =
      (emit space mark joiner more place text).flatMap f := by
  induction text generalizing place more with
  | nil => rfl
  | cons c rest ih =>
    cases hc : space c with
    | false =>
      rw [emit_cons place hc, List.flatMap_cons, List.flatMap_cons, ← ih,
        emit_units code hspace hmark place hc]
    | true =>
      obtain ⟨u, hu, hspace'⟩ := hspace.1 c hc
      have hall : (u :: rest.flatMap f).all space' = (c :: rest).all space := by
        rw [← hspace.all code, List.flatMap_cons, hu, List.singleton_append]
      rw [List.flatMap_cons, hu, List.singleton_append]
      cases place with
      | gap => rw [emit, emit, if_pos hspace', if_pos hc, ih]
      | sentence ended =>
        rw [emit, emit, hall, hspace', hc, mark_of_space hmark hu]
        split_ifs
        · rfl
        · rfl
        · rw [ih, List.flatMap_append]
        · rw [ih, List.flatMap_cons, hu, List.singleton_append]

end

end

section

variable {wide narrow : α → Bool}

/-- No symbol that only the wider reader takes for white space stands where a sentence begins or
ends, up to the end of the last sentence that is read. -/
def sameEdges (wide narrow mark : α → Bool) : ℕ → Place → List α → Bool
  | _, _, [] => true
  | more, .gap, c :: rest =>
    if narrow c then sameEdges wide narrow mark more .gap rest
    else !wide c && sameEdges wide narrow mark more (.sentence (mark c)) rest
  | more, .sentence ended, c :: rest =>
    if ended && narrow c then more == 0 || sameEdges wide narrow mark (more - 1) .gap rest
    else if (c :: rest).all wide then (c :: rest).all narrow
    else !(ended && wide c) && sameEdges wide narrow mark more (.sentence (mark c)) rest

theorem emit_gap_head {c : α} {out : List α}
    (h : emit space mark joiner more .gap text = c :: out) : space c = false := by
  induction text with
  | nil => cases h
  | cons d rest ih =>
    rw [emit] at h
    split_ifs at h with hd
    · exact ih h
    · rw [← (List.cons.inj h).1]
      simpa using hd

/-- The two readers agree behind every place exactly when no edge differs. -/
def Agree (wide narrow mark : α → Bool) (joiner text : List α) : Prop :=
  ∀ more place, emit wide mark joiner more place text = emit narrow mark joiner more place text ↔
    sameEdges wide narrow mark more place text = true

section

variable {c : α} (sub : ∀ c, narrow c = true → wide c = true)
  (h : Agree wide narrow mark joiner text)
include sub

theorem all_wide_of_narrow {l : List α} (h : l.all narrow = true) : l.all wide = true :=
  List.all_eq_true.mpr fun c hc => sub c (List.all_eq_true.mp h c hc)

include h

theorem agree_gap : emit wide mark joiner more .gap (c :: text) =
      emit narrow mark joiner more .gap (c :: text) ↔
    sameEdges wide narrow mark more .gap (c :: text) = true := by
  rw [sameEdges]
  by_cases hn : narrow c = true
  · rw [emit, emit, if_pos hn, if_pos hn, if_pos (sub c hn)]
    exact h more .gap
  · have hnarrow : narrow c = false := by simpa using hn
    rw [if_neg hn, emit_cons .gap hnarrow]
    cases hw : wide c with
    | true =>
      rw [emit, if_pos hw]
      refine iff_of_false (fun heq => ?_) Bool.false_ne_true
      rw [emit_gap_head heq] at hw
      cases hw
    | false =>
      rw [emit_cons .gap hw, List.cons_inj_right, Bool.not_false, Bool.true_and]
      exact h more _

variable (hjoiner : ∃ b rest, joiner = b :: rest ∧ narrow b = true)
include hjoiner

theorem agree_cut (hn : narrow c = true) :
    emit wide mark joiner more (.sentence true) (c :: text) =
        emit narrow mark joiner more (.sentence true) (c :: text) ↔
      sameEdges wide narrow mark more (.sentence true) (c :: text) = true := by
  have hw := sub c hn
  rw [sameEdges, Bool.true_and, if_pos hn, Bool.or_eq_true, beq_iff_eq]
  by_cases hmore : more = 0
  · subst hmore
    rw [emit_cut_last hw, emit_cut_last hn]
    exact iff_of_true rfl (.inl rfl)
  · rw [or_iff_right hmore]
    refine Iff.trans ?_ (h (more - 1) .gap)
    by_cases hwide : text.all wide = true
    · have hblank : (c :: text).all wide = true := by rw [List.all_cons, hw, hwide]; rfl
      rw [emit_blank _ hblank, emit_blank _ hwide]
      by_cases hnarrow : text.all narrow = true
      · have hblank : (c :: text).all narrow = true := by rw [List.all_cons, hn, hnarrow]; rfl
        rw [emit_blank _ hblank, emit_blank _ hnarrow]
      · rw [emit_cut hn hmore hnarrow]
        obtain ⟨b, joiner, rfl, -⟩ := hjoiner
        exact iff_of_false nofun fun heq => emit_gap_ne_nil hnarrow heq.symm
    · rw [emit_cut hw hmore hwide,
        emit_cut hn hmore fun hall => hwide (all_wide_of_narrow sub hall),
        List.append_cancel_left_eq]

theorem agree_keep {ended : Bool} (hcut : ¬ (ended && narrow c) = true) :
    emit wide mark joiner more (.sentence ended) (c :: text) =
        emit narrow mark joiner more (.sentence ended) (c :: text) ↔
      sameEdges wide narrow mark more (.sentence ended) (c :: text) = true := by
  rw [sameEdges, if_neg hcut]
  by_cases hwide : (c :: text).all wide = true
  · rw [if_pos hwide, emit_blank _ hwide]
    by_cases hnarrow : (c :: text).all narrow = true
    · rw [emit_blank _ hnarrow]
      exact iff_of_true rfl hnarrow
    · rw [emit_keep hnarrow hcut]
      exact iff_of_false nofun hnarrow
  · have hnarrow : ¬ (c :: text).all narrow = true := fun hall =>
      hwide (all_wide_of_narrow sub hall)
    rw [if_neg hwide, emit_keep hnarrow hcut]
    by_cases hcut' : (ended && wide c) = true
    · obtain ⟨rfl, hw⟩ := Bool.and_eq_true_iff.mp hcut'
      have hrest : ¬ text.all wide = true := by
        intro hall
        exact hwide (by rw [List.all_cons, hw, hall]; rfl)
      refine iff_of_false (fun heq => ?_) (by simp [hw])
      by_cases hmore : more = 0
      · subst hmore
        rw [emit_cut_last hw] at heq
        cases heq
      · -- a joiner is no symbol that only the wide reader skips
        obtain ⟨b, joiner, rfl, hb⟩ := hjoiner
        rw [emit_cut hw hmore hrest, List.cons_append] at heq
        rw [(List.cons.inj heq).1] at hb
        exact hcut (by rw [hb]; rfl)
    · have hkeep : (ended && wide c) = false := by simpa using hcut'
      rw [emit_keep hwide hcut', List.cons_inj_right, hkeep, Bool.not_false, Bool.true_and]
      exact h more _

end

/-- The two readers read the same first sentences exactly when no edge differs. -/
theorem emit_eq_emit_iff (sub : ∀ c, narrow c = true → wide c = true)
    (hjoiner : ∃ b rest, joiner = b :: rest ∧ narrow b = true) (text : List α) :
    Agree wide narrow mark joiner text := by
  induction text with
  | nil => exact fun _ _ => iff_of_true rfl rfl
  | cons c text ih =>
    intro more place
    cases place with
    | gap => exact agree_gap sub ih
    | sentence ended =>
      by_cases hcut : (ended && narrow c) = true
      · obtain ⟨rfl, hn⟩ := Bool.and_eq_true_iff.mp hcut
        exact agree_cut sub ih hjoiner hn
      · exact agree_keep sub ih hjoiner hcut

end

end Sentences
