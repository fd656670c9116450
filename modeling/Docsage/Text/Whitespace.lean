import Docsage.Library.Fields
import Mathlib.Data.List.DropRight

/-! # White space in the two runtimes

Python's `str.isspace` and .NET's `char.IsWhiteSpace` agree except for the four
information separators U+001C to U+001F, which only Python counts as space.
-/

namespace Docsage.Text

/-- The space, line and paragraph separator categories of Unicode. -/
def isSeparator (c : Char) : Bool :=
  let n := c.toNat
  n == 0x20 || n == 0xA0 || n == 0x1680 || (0x2000 ≤ n && n ≤ 0x200A) || n == 0x2028 ||
    n == 0x2029 || n == 0x202F || n == 0x205F || n == 0x3000

def isWhiteSpace (c : Char) : Bool :=
  isSeparator c || (0x09 ≤ c.toNat && c.toNat ≤ 0x0D) || c.toNat == 0x85

/-- `str.isspace` on one character. -/
def isSpace (c : Char) : Bool := isWhiteSpace c || (0x1C ≤ c.toNat && c.toNat ≤ 0x1F)

def dropAround {α : Type} (p : α → Bool) (xs : List α) : List α :=
  ((xs.dropWhile p).reverse.dropWhile p).reverse

def trimBy (p : Char → Bool) (s : String) : String :=
  String.ofList ((s.toList.dropWhile p).reverse.dropWhile p).reverse

def strip (s : String) : String := trimBy isSpace s

def trim (s : String) : String := trimBy isWhiteSpace s

def isNullOrWhiteSpace : Option String → Bool
  | none => true
  | some s => s.toList.all isWhiteSpace

/-- `s.split()`: the words between runs of white space. -/
def split (s : String) : List String :=
  ((s.toList.splitOnP isSpace).filter fun word => !word.isEmpty).map String.ofList

/-- `" ".join(s.split())`. -/
def collapse (s : String) : String := " ".intercalate (split s)

/-- `s.rsplit(sep, 1)[-1]`. -/
def afterLast (sep : Char) (s : String) : String :=
  String.ofList (s.toList.reverse.takeWhile (· ≠ sep)).reverse

/-- `s.rsplit(sep, 1)[0]`. -/
def beforeLast (sep : Char) (s : String) : String :=
  if sep ∈ s.toList then
    String.ofList ((s.toList.reverse.dropWhile (· ≠ sep)).drop 1).reverse
  else s

def replaceChar (old new : Char) (s : String) : String :=
  String.ofList (s.toList.map fun c => if c = old then new else c)

section Around
variable {α : Type} {p : α → Bool} {xs : List α}

theorem dropWhile_eq_self : xs.dropWhile p = xs ↔ xs.head?.any p = false := by
  cases xs with
  | nil => simp
  | cons x xs =>
    cases hx : p x with
    | false => simp [hx]
    | true =>
      have hne : xs.dropWhile p ≠ x :: xs := fun h => by
        have hle := (List.dropWhile_sublist p (l := xs)).length_le
        rw [h, List.length_cons] at hle
        omega
      simp [hx, hne]

theorem dropAround_sublist_dropWhile : (dropAround p xs).Sublist (xs.dropWhile p) := by
  have hlast := (List.dropWhile_sublist p (l := (xs.dropWhile p).reverse)).reverse
  rwa [List.reverse_reverse] at hlast

theorem dropAround_sublist (p : α → Bool) (xs : List α) : (dropAround p xs).Sublist xs :=
  dropAround_sublist_dropWhile.trans (List.dropWhile_sublist p)

theorem dropAround_eq_self :
    dropAround p xs = xs ↔ xs.head?.any p = false ∧ xs.getLast?.any p = false := by
  rw [← List.head?_reverse, ← dropWhile_eq_self, ← dropWhile_eq_self]
  constructor
  · intro h
    have hfirst : xs.dropWhile p = xs := by
      have hsub := @dropAround_sublist_dropWhile _ p xs
      rw [h] at hsub
      exact (List.dropWhile_sublist p).antisymm hsub
    rw [dropAround, hfirst] at h
    exact ⟨hfirst, by rw [← List.reverse_reverse (List.dropWhile p xs.reverse), h]⟩
  · rintro ⟨hfirst, hlast⟩
    rw [dropAround, hfirst, hlast, List.reverse_reverse]

theorem dropAround_eq_nil : dropAround p xs = [] ↔ xs.all p = true := by
  rw [dropAround, List.reverse_eq_nil_iff, List.all_eq_true]
  constructor
  · intro h
    rw [List.dropWhile_eq_nil_iff] at h
    have hnil : xs.dropWhile p = [] := by
      by_contra hne
      have hhead := List.head_dropWhile_not p hne
      simp [h _ (List.mem_reverse.mpr (List.head_mem hne))] at hhead
    exact List.dropWhile_eq_nil_iff.mp hnil
  · intro h
    rw [List.dropWhile_eq_nil_iff.mpr h]
    rfl

theorem dropAround_ends (p : α → Bool) (xs : List α) :
    (dropAround p xs).head?.any p = false ∧ (dropAround p xs).getLast?.any p = false := by
  have hhead (xs : List α) : (xs.dropWhile p).head?.any p = false := by
    cases h : xs.dropWhile p with
    | nil => rfl
    | cons x ys => simpa [h] using List.head?_dropWhile_not p xs
  have hlast : (dropAround p xs).getLast?.any p = false := by
    rw [dropAround, List.getLast?_reverse]
    exact hhead _
  refine ⟨?_, hlast⟩
  -- what is dropped from the other end leaves the first element, or nothing
  have hprefix : dropAround p xs <+: xs.dropWhile p := by
    rw [dropAround, ← List.reverse_suffix, List.reverse_reverse]
    exact List.dropWhile_suffix p
  obtain ⟨rest, hrest⟩ := hprefix
  have hfirst := hhead xs
  rw [← hrest] at hfirst
  cases h : dropAround p xs with
  | nil => rfl
  | cons x ys => simpa [h] using hfirst

theorem dropAround_dropAround (p : α → Bool) (xs : List α) :
    dropAround p (dropAround p xs) = dropAround p xs :=
  dropAround_eq_self.mpr (dropAround_ends p xs)

theorem dropAround_concat {x : α} (hx : p x = true) (xs : List α) :
    dropAround p (xs ++ [x]) = dropAround p xs := by
  rw [dropAround, List.dropWhile_append]
  split
  · next hnil =>
    rw [dropAround, List.isEmpty_iff.mp hnil]
    simp [hx]
  · simp [dropAround, hx]

theorem count_dropAround [DecidableEq α] {x : α} (hx : p x = false) (xs : List α) :
    (dropAround p xs).count x = xs.count x := by
  have hfirst (xs : List α) : (xs.dropWhile p).count x = xs.count x := by
    have hnone : (xs.takeWhile p).count x = 0 := List.count_eq_zero.mpr fun hmem => by
      simpa [hx] using List.mem_takeWhile_imp hmem
    conv_rhs => rw [← List.takeWhile_append_dropWhile (p := p) (l := xs), List.count_append, hnone,
      Nat.zero_add]
  rw [dropAround, List.count_reverse, hfirst, List.count_reverse, hfirst]

end Around

theorem trimBy_eq_self {p : Char → Bool} {s : String} :
    trimBy p s = s ↔ s.toList.head?.any p = false ∧ s.toList.getLast?.any p = false := by
  rw [← dropAround_eq_self, ← String.toList_inj, trimBy, String.toList_ofList]
  rfl

theorem trimBy_eq_empty {p : Char → Bool} {s : String} :
    trimBy p s = "" ↔ s.toList.all p = true := by
  rw [← dropAround_eq_nil, ← String.toList_inj, trimBy, String.toList_ofList, String.toList_empty]
  rfl

theorem strip_eq_empty {s : String} : strip s = "" ↔ s.toList.all isSpace = true := trimBy_eq_empty

theorem split_eq_nil {s : String} : split s = [] ↔ s.toList.all isSpace = true := by
  have hwords : split s = [] ↔ (s.toList.splitOnP isSpace).flatten = [] := by
    simp [split, List.filter_eq_nil_iff]
  rw [hwords, Fields.flatten_splitOnP]
  simp [List.filter_eq_nil_iff]

end Docsage.Text
