import Mathlib.Algebra.GroupWithZero.Nat
import Mathlib.Data.List.Basic
import Mathlib.Tactic.Common

/-! # Joined fields

Fields are joined by a separator and padding, and split at the separators again.
What comes back are the fields, each behind its padding, exactly when no field has
a separator of its own.
-/

namespace Fields

variable {α : Type} {p : α → Bool}

theorem flatten_splitOnP (p : α → Bool) (text : List α) :
    (text.splitOnP p).flatten = text.filter fun a => !p a := by
  induction text with
  | nil => rfl
  | cons a text ih =>
    rw [List.splitOnP_cons_eq_if_modifyHead]
    cases ha : p a with
    | true => simp [ha, ih]
    | false =>
      obtain ⟨first, rest, hsplit⟩ := List.exists_cons_of_ne_nil (List.splitOnP_ne_nil p text)
      rw [hsplit] at ih ⊢
      simpa [ha] using ih

theorem flatten_splitOnP_sublist (p : α → Bool) (text : List α) :
    (text.splitOnP p).flatten.Sublist text := by
  rw [flatten_splitOnP]
  exact List.filter_sublist

theorem mem_splitOnP {text field : List α} (h : field ∈ text.splitOnP p) :
    ∀ a ∈ field, p a = false := by
  intro a ha
  have hmem : a ∈ (text.splitOnP p).flatten := List.mem_flatten_of_mem h ha
  rw [flatten_splitOnP] at hmem
  simpa using (List.mem_filter.mp hmem).2

theorem splitOnP_subset {text field : List α} (h : field ∈ text.splitOnP p) :
    ∀ a ∈ field, a ∈ text := fun _ ha =>
  (flatten_splitOnP_sublist p text).subset (List.mem_flatten_of_mem h ha)

theorem splitOnP_congr {q : α → Bool} {text : List α} (h : ∀ a ∈ text, p a = q a) :
    text.splitOnP p = text.splitOnP q := by
  induction text with
  | nil => rfl
  | cons a text ih =>
    obtain ⟨ha, htext⟩ := List.forall_mem_cons.mp h
    rw [List.splitOnP_cons_eq_if_modifyHead, List.splitOnP_cons_eq_if_modifyHead, ha, ih htext]

theorem splitOnP_map {g : α → α} (sep : ∀ a, p (g a) = p a) (same : ∀ a, p a = false → g a = a)
    (text : List α) : (text.map g).splitOnP p = text.splitOnP p := by
  induction text with
  | nil => rfl
  | cons a text ih =>
    rw [List.map_cons, List.splitOnP_cons_eq_if_modifyHead, List.splitOnP_cons_eq_if_modifyHead,
      sep, ih]
    split
    · rfl
    · next ha => rw [same a (by simpa using ha)]

theorem splitOnP_append {before : List α} (h : ∀ a ∈ before, p a = false) (text : List α) :
    (before ++ text).splitOnP p = (text.splitOnP p).modifyHead (before ++ ·) := by
  induction before with
  | nil =>
    change _ = List.modifyHead id _
    rw [List.modifyHead_id]
    rfl
  | cons a before ih =>
    obtain ⟨ha, hbefore⟩ := List.forall_mem_cons.mp h
    rw [List.cons_append, List.splitOnP_cons_eq_if_modifyHead, if_neg (by simp [ha]), ih hbefore,
      List.modifyHead_modifyHead]
    rfl

theorem append_intercalate (separator padding field : List α) (fields : List (List α)) :
    padding ++ separator.intercalate (field :: fields) =
      separator.intercalate ((padding ++ field) :: fields) := by
  cases fields <;> simp [List.intercalate_cons_cons]

theorem splitOnP_intercalate {mark : α} {padding : List α} (hmark : p mark = true)
    (hpadding : ∀ a ∈ padding, p a = false) {field : List α} {fields : List (List α)}
    (h : ∀ f ∈ field :: fields, ∀ a ∈ f, p a = false) :
    ((mark :: padding).intercalate (field :: fields)).splitOnP p =
      field :: fields.map (padding ++ ·) := by
  induction fields generalizing field with
  | nil => simpa using List.splitOnP_eq_singleton (h field List.mem_cons_self)
  | cons next fields ih =>
    obtain ⟨hfield, hfields⟩ := List.forall_mem_cons.mp h
    obtain ⟨hnext, hrest⟩ := List.forall_mem_cons.mp hfields
    have hpadded : ∀ f ∈ (padding ++ next) :: fields, ∀ a ∈ f, p a = false :=
      List.forall_mem_cons.mpr ⟨List.forall_mem_append.mpr ⟨hpadding, hnext⟩, hrest⟩
    rw [List.intercalate_cons_cons, List.append_assoc, List.cons_append,
      List.splitOnP_append_cons_of_forall_mem hfield mark hmark, append_intercalate, ih hpadded,
      List.map_cons]

theorem splitOnP_intercalate_pieces {mark : α} (hmark : p mark = true) {text : List α}
    {texts : List (List α)} : ([mark].intercalate (text :: texts)).splitOnP p =
      (text :: texts).flatMap (List.splitOnP p) := by
  induction texts generalizing text with
  | nil => simp
  | cons next texts ih =>
    rw [List.intercalate_cons_cons, List.append_assoc, List.singleton_append,
      List.splitOnP_append_cons _ _ hmark, ih]
    rfl

theorem splitOnP_concat {a : α} (ha : p a = false) (text : List α) :
    ∃ fields field, text.splitOnP p = fields ++ [field] ∧
      (text ++ [a]).splitOnP p = fields ++ [field ++ [a]] := by
  induction text with
  | nil => exact ⟨[], [], rfl, List.splitOnP_eq_singleton (by simpa using ha)⟩
  | cons b text ih =>
    obtain ⟨fields, field, hbefore, hsplit⟩ := ih
    rw [List.cons_append, List.splitOnP_cons_eq_if_modifyHead, List.splitOnP_cons_eq_if_modifyHead,
      hbefore, hsplit]
    split
    · exact ⟨[] :: fields, field, rfl, rfl⟩
    · cases fields with
      | nil => exact ⟨[], b :: field, rfl, rfl⟩
      | cons first fields => exact ⟨(b :: first) :: fields, field, rfl, rfl⟩

theorem length_splitOnP (p : α → Bool) (text : List α) :
    (text.splitOnP p).length = text.countP p + 1 := by
  induction text with
  | nil => rfl
  | cons a text ih =>
    rw [List.splitOnP_cons_eq_if_modifyHead, List.countP_cons]
    split <;> simp [ih]

theorem mem_intercalate {separator : List α} {texts : List (List α)} {a : α}
    (h : a ∈ separator.intercalate texts) : a ∈ separator ∨ ∃ text ∈ texts, a ∈ text := by
  induction texts with
  | nil => cases h
  | cons text texts ih =>
    cases texts with
    | nil => exact .inr ⟨text, List.mem_cons_self, by simpa using h⟩
    | cons next texts =>
      rw [List.intercalate_cons_cons, List.mem_append, List.mem_append] at h
      rcases h with (h | h) | h
      · exact .inr ⟨text, List.mem_cons_self, h⟩
      · exact .inl h
      · exact (ih h).imp_right fun ⟨t, ht, ha⟩ => ⟨t, List.mem_cons_of_mem _ ht, ha⟩

theorem countP_intercalate {separator : List α} (free : separator.countP p = 0)
    (texts : List (List α)) :
    (separator.intercalate texts).countP p = (texts.map (List.countP p)).sum := by
  induction texts with
  | nil => rfl
  | cons text texts ih =>
    cases texts with
    | nil => simp
    | cons next texts =>
      rw [List.intercalate_cons_cons, List.countP_append, List.countP_append, ih, free,
        Nat.add_zero]
      simp only [List.map_cons, List.sum_cons]

/-- Of two classes, the larger one has no more members in a text only where both have the same. -/
theorem imp_of_countP_le {q : α → Bool} {text : List α} (sub : ∀ a, q a = true → p a = true)
    (h : text.countP p ≤ text.countP q) : ∀ a ∈ text, p a = true → q a = true := by
  induction text with
  | nil => exact List.forall_mem_nil _
  | cons a text ih =>
    have hle : text.countP q ≤ text.countP p := List.countP_mono_left fun b _ => sub b
    rw [List.countP_cons, List.countP_cons] at h
    cases hq : q a with
    | true =>
      rw [if_pos hq, if_pos (sub a hq)] at h
      exact List.forall_mem_cons.mpr ⟨fun _ => hq, ih (by omega)⟩
    | false =>
      have hnone : (if q a = true then 1 else 0) = 0 := if_neg (by simp [hq])
      rw [hnone] at h
      have hp : ¬ p a = true := fun hp => by
        rw [if_pos hp] at h
        omega
      rw [if_neg hp] at h
      exact List.forall_mem_cons.mpr ⟨fun htrue => absurd htrue hp, ih (by omega)⟩

/-- Cleaned fields, without the empty ones, are the fields exactly when cleaning changes none. -/
theorem filter_map_eq_self {keep : α → Bool} {clean : α → α} {fields : List α}
    (kept : ∀ a ∈ fields, keep a = true) :
    (fields.map clean).filter keep = fields ↔ ∀ a ∈ fields, clean a = a := by
  constructor
  · intro h
    have hlength := congrArg List.length h
    have hall : (fields.map clean).filter keep = fields.map clean :=
      List.filter_eq_self.mpr (List.length_filter_eq_length_iff.mp (by simpa using hlength))
    rw [hall] at h
    exact List.map_inj_left.mp (h.trans (List.map_id fields).symm)
  · intro h
    rw [List.map_congr_left h, List.map_id', List.filter_eq_self]
    exact kept

theorem intercalate_isPrefix (separator : List α) (fields more : List (List α)) :
    separator.intercalate fields <+: separator.intercalate (fields ++ more) := by
  induction fields with
  | nil => exact List.nil_prefix
  | cons field fields ih =>
    cases fields with
    | nil =>
      rw [List.intercalate_singleton, List.singleton_append]
      cases more with
      | nil => simp
      | cons next more =>
        rw [List.intercalate_cons_cons, List.append_assoc]
        exact List.prefix_append _ _
    | cons next fields =>
      rw [List.cons_append, List.cons_append, List.intercalate_cons_cons,
        List.intercalate_cons_cons]
      exact (List.prefix_append_right_inj _).mpr ih

theorem sum_length_le (separator : List α) (fields : List (List α)) :
    (fields.map List.length).sum ≤ (separator.intercalate fields).length := by
  induction fields with
  | nil => exact Nat.le_refl _
  | cons field fields ih =>
    cases fields with
    | nil => simp
    | cons next fields =>
      rw [List.intercalate_cons_cons, List.map_cons, List.sum_cons, List.length_append,
        List.length_append]
      omega

/-- What is cut off inside the first fields does not depend on the others. -/
theorem take_intercalate_append {separator : List α} {fields : List (List α)} {limit : ℕ}
    (h : limit ≤ (fields.map List.length).sum) (more : List (List α)) :
    (separator.intercalate (fields ++ more)).take limit =
      (separator.intercalate fields).take limit := by
  obtain ⟨rest, hrest⟩ := intercalate_isPrefix separator fields more
  rw [← hrest, List.take_append_of_le_length (Nat.le_trans h (sum_length_le separator fields))]

end Fields
