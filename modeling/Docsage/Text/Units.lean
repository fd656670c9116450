import Docsage.Library.Recoding
import Docsage.Text.Utf16
import Docsage.Text.Whitespace

/-! # Operations on .NET strings

They see one code unit at a time. White space and line breaks are single units,
so a surrogate is never taken for one, but a cut may fall between the two units
of one character.
-/

namespace Docsage.Text
open Recoding

def onUnit (p : Char → Bool) (u : UInt16) : Bool := p (Char.ofNat u.toNat)

def isWhiteSpaceUnit (u : UInt16) : Bool := isWhiteSpace (Char.ofNat u.toNat)

def trimUnits (s : Utf16) : Utf16 := dropAround isWhiteSpaceUnit s

/-- A line break of one code unit, as `ReplaceLineEndings` counts them. -/
def isLineBreak (u : UInt16) : Bool :=
  u == 0x0A || u == 0x0C || u == 0x0D || u == 0x85 || u == 0x2028 || u == 0x2029

/-- `ReplaceLineEndings(replacement)`. -/
def replaceLineEndings (replacement : Utf16) : Utf16 → Utf16
  | [] => []
  | [u] => if isLineBreak u then replacement else [u]
  | u :: v :: rest =>
    if u == 0x0D && v == 0x0A then replacement ++ replaceLineEndings replacement rest
    else (if isLineBreak u then replacement else [u]) ++
      replaceLineEndings replacement (v :: rest)

/-- `Truncate(maxLength)`, and every other cut of a string that may be shorter. -/
def truncate (maxLength : ℕ) (s : Utf16) : Utf16 := s.take maxLength

/-- A class of characters of one code unit each is read unit by unit: no surrogate is taken for one
of them. -/
theorem reads_units {p : Char → Bool} (unit : ∀ c, p c = true → c.toNat < 0x10000)
    (zero : p (Char.ofNat 0) = false) : Reads unitsOfChar p (onUnit p) := by
  have hunit (c : Char) (hc : c.toNat < 0x10000) : onUnit p (UInt16.ofNat c.toNat) = p c := by
    rw [onUnit, toNat_ofNat_units hc, Char.ofNat_toNat]
  constructor
  · intro c hc
    refine ⟨UInt16.ofNat c.toNat, if_pos (unit c hc), ?_⟩
    rw [hunit c (unit c hc), hc]
  · intro c hc u hu
    by_cases hn : c.toNat < 0x10000
    · rw [unitsOfChar, if_pos hn, List.mem_singleton] at hu
      rw [hu, hunit c hn, hc]
    · have hvalid : c.toNat < 0x110000 := by
        have hc : c.toNat < 0xD800 ∨ 0xDFFF < c.toNat ∧ c.toNat < 0x110000 := c.valid
        omega
      have hsurrogate : 0xD800 ≤ u.toNat ∧ u.toNat ≤ 0xDFFF := by
        rw [unitsOfChar, if_neg hn, List.mem_pair] at hu
        rcases hu with rfl | rfl <;> rw [toNat_ofNat_units (by omega)] <;> omega
      have hzero : Char.ofNat u.toNat = Char.ofNat 0 := by
        have hinvalid : ¬ u.toNat.isValidChar := by
          rintro (h | h) <;> omega
        rw [Char.ofNat, dif_neg hinvalid]
        rfl
      rw [onUnit, hzero, zero]

theorem reads_isWhiteSpace : Reads unitsOfChar isWhiteSpace isWhiteSpaceUnit := by
  refine reads_units (fun c hc => ?_) rfl
  simp only [isWhiteSpace, isSeparator, Bool.or_eq_true, Bool.and_eq_true, decide_eq_true_eq,
    beq_iff_eq] at hc
  omega

theorem reads_char (c : Char) (unit : c.toNat < 0x10000) (zero : c ≠ Char.ofNat 0) :
    Reads unitsOfChar (· == c) (· == UInt16.ofNat c.toNat) := by
  have hreads : Reads unitsOfChar (· == c) (onUnit (· == c)) :=
    reads_units (fun d hd => eq_of_beq hd ▸ unit) (beq_false_of_ne zero.symm)
  constructor
  · intro d hd
    obtain rfl := eq_of_beq hd
    exact ⟨_, if_pos unit, beq_self_eq_true _⟩
  · intro d hd u hu
    refine beq_false_of_ne ?_
    rintro rfl
    have hother := hreads.2 d hd _ hu
    rw [onUnit, toNat_ofNat_units unit, Char.ofNat_toNat, beq_self_eq_true] at hother
    cases hother

theorem dropAround_flatMap {f : Char → Utf16} {p : Char → Bool} {p' : UInt16 → Bool}
    (reads : Reads f p p') (code : ∀ c, f c ≠ []) (text : List Char) :
    dropAround p' (text.flatMap f) = (dropAround p text).flatMap f := by
  have hreverse (text : List Char) :
      (text.flatMap f).reverse = text.reverse.flatMap fun c => (f c).reverse := by
    rw [List.reverse_flatMap]
    rfl
  have hreads : Reads (fun c => (f c).reverse) p p' := by
    refine ⟨fun c hc => ?_, fun c hc u hu => reads.2 c hc u (List.mem_reverse.mp hu)⟩
    obtain ⟨u, hu, hp⟩ := reads.1 c hc
    exact ⟨u, by simp [hu], hp⟩
  have hcode (c : Char) : (f c).reverse ≠ [] := fun h => code c (List.reverse_eq_nil_iff.mp h)
  rw [dropAround, reads.dropWhile code, hreverse, hreads.dropWhile hcode, dropAround,
    List.reverse_flatMap]
  simp only [Function.comp_def, List.reverse_reverse]

theorem trimUnits_flatMap (text : List Char) :
    trimUnits (text.flatMap unitsOfChar) = (dropAround isWhiteSpace text).flatMap unitsOfChar :=
  dropAround_flatMap reads_isWhiteSpace unitsOfChar_ne_nil text

end Docsage.Text
