import Docsage.Frontend.EventStream
import Docsage.Text.Units

/-! # Strings in the browser

White space is what `\s` and `trim` take it for: all of Python's but the information
separators and the next line, and the byte order mark besides.
-/

namespace Docsage.Frontend
open Text

def isBlankUnit : UInt16 → Bool := onUnit isWhiteSpace

def trim (text : Utf16) : Utf16 := dropAround isBlankUnit text

/-- The browser trims one character more than Python: the byte order mark. -/
theorem isSpace_or_bom {c : Char} (h : isWhiteSpace c = true) :
    isSpace c = true ∨ c = '\ufeff' := by
  rw [isWhiteSpace, Bool.or_eq_true, Bool.and_eq_true, decide_eq_true_eq,
    decide_eq_true_eq, decide_eq_true_eq] at h
  rcases h with h | ⟨hlow, hhigh⟩
  · simp only [List.mem_cons, List.not_mem_nil, or_false] at h
    rcases h with rfl | rfl | rfl | rfl | rfl | rfl | rfl | rfl | rfl | rfl | rfl | rfl | rfl | rfl
    all_goals decide
  · have hlow : 0x2000 ≤ c.toNat := hlow
    have hhigh : c.toNat ≤ 0x200A := hhigh
    left
    simp only [isSpace, Text.isWhiteSpace, isSeparator, Bool.or_eq_true, Bool.and_eq_true,
      decide_eq_true_eq]
    omega

theorem reads_isBlankUnit : Recoding.Reads unitsOfChar isWhiteSpace isBlankUnit := by
  refine reads_units (fun c hc => ?_) (by decide)
  rcases isSpace_or_bom hc with h | rfl
  · simp only [isSpace, Text.isWhiteSpace, isSeparator, Bool.or_eq_true, Bool.and_eq_true,
      decide_eq_true_eq, beq_iff_eq] at h
    omega
  · decide

theorem reads_isDigit : Recoding.Reads unitsOfChar Char.isDigit (onUnit Char.isDigit) := by
  refine reads_units (fun c hc => ?_) (by decide)
  rw [Char.isDigit, Bool.and_eq_true, decide_eq_true_eq, decide_eq_true_eq] at hc
  have hhigh : c.toNat ≤ 57 := hc.2
  omega

theorem trim_sublist (text : Utf16) : (trim text).Sublist text := dropAround_sublist _ _

end Docsage.Frontend
