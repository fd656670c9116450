import Docsage.Library.Recoding
import Mathlib.Data.List.Basic
import Mathlib.Tactic.NormNum

/-! # .NET strings

A .NET string is a sequence of UTF-16 code units, not necessarily well formed.
The database stores code points, so a string is decoded when it is bound to a
statement, and a lone surrogate makes the binding fail.
-/

namespace Docsage.Text

/-- The code units of a .NET `string`. -/
abbrev Utf16 := List UInt16

def unitsOfChar (c : Char) : Utf16 :=
  if c.toNat < 0x10000 then [UInt16.ofNat c.toNat]
  else [UInt16.ofNat (0xD800 + (c.toNat - 0x10000) / 0x400),
    UInt16.ofNat (0xDC00 + (c.toNat - 0x10000) % 0x400)]

/-- A text column read into a .NET `string`. -/
def utf16 (s : String) : Utf16 := s.toList.flatMap unitsOfChar

def isHighSurrogate (u : UInt16) : Bool := 0xD800 ≤ u.toNat && u.toNat ≤ 0xDBFF

def isLowSurrogate (u : UInt16) : Bool := 0xDC00 ≤ u.toNat && u.toNat ≤ 0xDFFF

/-- Strict decoding: `none` at the first lone surrogate. -/
def decodeUnits : Utf16 → Option (List Char)
  | [] => some []
  | u :: rest =>
    if isHighSurrogate u then
      match rest with
      | v :: rest =>
        if isLowSurrogate v then
          (decodeUnits rest).map
            (Char.ofNat (0x10000 + (u.toNat - 0xD800) * 0x400 + (v.toNat - 0xDC00)) :: ·)
        else none
      | [] => none
    else if isLowSurrogate u then none
    else (decodeUnits rest).map (Char.ofNat u.toNat :: ·)

/-- A string as it is bound to a statement. -/
def decode? (units : Utf16) : Option String := (decodeUnits units).map String.ofList

theorem unitsOfChar_ne_nil (c : Char) : unitsOfChar c ≠ [] := by
  unfold unitsOfChar
  split <;> exact List.cons_ne_nil _ _

@[simp] theorem utf16_append (s t : String) : utf16 (s ++ t) = utf16 s ++ utf16 t := by
  simp [utf16]

theorem utf16_intercalate (s : String) (texts : List String) :
    utf16 (s.intercalate texts) = (utf16 s).intercalate (texts.map utf16) := by
  rw [utf16, String.toList_intercalate, Recoding.flatMap_intercalate, List.map_map]
  rfl

theorem utf16_join (texts : List String) :
    utf16 (String.join texts) = (texts.map utf16).flatten := by
  induction texts with
  | nil => rfl
  | cons text texts ih => rw [String.join_cons, utf16_append, ih, List.map_cons, List.flatten_cons]

theorem utf16_ofList (cs : List Char) : utf16 (String.ofList cs) = cs.flatMap unitsOfChar := by
  rw [utf16, String.toList_ofList]

theorem toNat_ofNat_units {n : ℕ} (h : n < 0x10000) : (UInt16.ofNat n).toNat = n :=
  Nat.mod_eq_of_lt h

theorem isHighSurrogate_ofNat {n : ℕ} (h : n < 0x10000) :
    isHighSurrogate (UInt16.ofNat n) = true ↔ 0xD800 ≤ n ∧ n ≤ 0xDBFF := by
  simp [isHighSurrogate, toNat_ofNat_units h]

theorem isLowSurrogate_ofNat {n : ℕ} (h : n < 0x10000) :
    isLowSurrogate (UInt16.ofNat n) = true ↔ 0xDC00 ≤ n ∧ n ≤ 0xDFFF := by
  simp [isLowSurrogate, toNat_ofNat_units h]

theorem decodeUnits_unit {u : UInt16} (hhigh : ¬ isHighSurrogate u = true)
    (hlow : ¬ isLowSurrogate u = true) (rest : Utf16) :
    decodeUnits (u :: rest) = (decodeUnits rest).map (Char.ofNat u.toNat :: ·) := by
  rw [decodeUnits.eq_def]
  simp only [if_neg hhigh, if_neg hlow]

theorem decodeUnits_pair {u v : UInt16} (hhigh : isHighSurrogate u = true)
    (hlow : isLowSurrogate v = true) (rest : Utf16) :
    decodeUnits (u :: v :: rest) = (decodeUnits rest).map
      (Char.ofNat (0x10000 + (u.toNat - 0xD800) * 0x400 + (v.toNat - 0xDC00)) :: ·) := by
  rw [decodeUnits.eq_def]
  simp only [if_pos hhigh, if_pos hlow]

theorem decodeUnits_unitsOfChar (c : Char) (rest : Utf16) :
    decodeUnits (unitsOfChar c ++ rest) = (decodeUnits rest).map (c :: ·) := by
  have hc : Char.ofNat c.toNat = c := Char.ofNat_toNat c
  have hvalid : c.toNat < 0xD800 ∨ 0xDFFF < c.toNat ∧ c.toNat < 0x110000 := c.valid
  unfold unitsOfChar
  generalize c.toNat = n at hc hvalid
  split_ifs with hn
  · have hhigh : ¬ isHighSurrogate (UInt16.ofNat n) = true := by
      rw [isHighSurrogate_ofNat hn]; omega
    have hlow : ¬ isLowSurrogate (UInt16.ofNat n) = true := by
      rw [isLowSurrogate_ofNat hn]; omega
    rw [List.singleton_append, decodeUnits_unit hhigh hlow, toNat_ofNat_units hn, hc]
  · have hhi : 0xD800 + (n - 0x10000) / 0x400 < 0x10000 := by omega
    have hlo : 0xDC00 + (n - 0x10000) % 0x400 < 0x10000 := by omega
    have hhigh := (isHighSurrogate_ofNat hhi).mpr ⟨by omega, by omega⟩
    have hlow := (isLowSurrogate_ofNat hlo).mpr ⟨by omega, by omega⟩
    have hvalue : 0x10000 + (0xD800 + (n - 0x10000) / 0x400 - 0xD800) * 0x400 +
        (0xDC00 + (n - 0x10000) % 0x400 - 0xDC00) = n := by omega
    simp only [List.cons_append, List.nil_append]
    rw [decodeUnits_pair hhigh hlow, toNat_ofNat_units hhi, toNat_ofNat_units hlo, hvalue, hc]

theorem decodeUnits_flatMap (cs : List Char) : decodeUnits (cs.flatMap unitsOfChar) = some cs := by
  induction cs with
  | nil => rfl
  | cons c cs ih => rw [List.flatMap_cons, decodeUnits_unitsOfChar, ih, Option.map_some]

theorem unitsOfChars_injective : Function.Injective (List.flatMap unitsOfChar) := by
  intro cs cs' h
  have hdecode := congrArg decodeUnits h
  rwa [decodeUnits_flatMap, decodeUnits_flatMap, Option.some.injEq] at hdecode

theorem utf16_injective : Function.Injective utf16 := fun _ _ h =>
  String.toList_injective (unitsOfChars_injective h)

theorem toNat_ofNat_char {n : ℕ} (h : n < 0xD800 ∨ 0xDFFF < n ∧ n < 0x110000) :
    (Char.ofNat n).toNat = n := by
  have hvalid : n.isValidChar := h
  rw [Char.ofNat, dif_pos hvalid]
  rfl

theorem unitsOfChar_unit {u : UInt16} (hhigh : ¬ isHighSurrogate u = true)
    (hlow : ¬ isLowSurrogate u = true) : unitsOfChar (Char.ofNat u.toNat) = [u] := by
  have hu := u.toNat_lt
  simp only [isHighSurrogate, isLowSurrogate, Bool.and_eq_true, decide_eq_true_eq] at hhigh hlow
  rw [unitsOfChar, toNat_ofNat_char (by omega), if_pos (by omega), UInt16.ofNat_toNat]

theorem unitsOfChar_pair {u v : UInt16} (hhigh : isHighSurrogate u = true)
    (hlow : isLowSurrogate v = true) :
    unitsOfChar (Char.ofNat (0x10000 + (u.toNat - 0xD800) * 0x400 + (v.toNat - 0xDC00))) =
      [u, v] := by
  simp only [isHighSurrogate, isLowSurrogate, Bool.and_eq_true, decide_eq_true_eq] at hhigh hlow
  rw [unitsOfChar, toNat_ofNat_char (by omega), if_neg (by omega)]
  have hu : 0xD800 + (0x10000 + (u.toNat - 0xD800) * 0x400 + (v.toNat - 0xDC00) - 0x10000) / 0x400 =
      u.toNat := by omega
  have hv : 0xDC00 + (0x10000 + (u.toNat - 0xD800) * 0x400 + (v.toNat - 0xDC00) - 0x10000) % 0x400 =
      v.toNat := by omega
  rw [hu, hv, UInt16.ofNat_toNat, UInt16.ofNat_toNat]

theorem decodeUnits_eq_some {units : Utf16} {cs : List Char} :
    decodeUnits units = some cs ↔ units = cs.flatMap unitsOfChar := by
  refine ⟨fun h => ?_, fun h => h ▸ decodeUnits_flatMap cs⟩
  fun_induction decodeUnits units generalizing cs with
  | case1 =>
    obtain rfl := Option.some.inj h
    rfl
  | case2 u hhigh v rest hlow ih =>
    obtain ⟨cs', hcs', rfl⟩ := Option.map_eq_some_iff.mp h
    rw [List.flatMap_cons, unitsOfChar_pair hhigh hlow, ← ih hcs']
    rfl
  | case3 u hhigh v rest hlow => cases h
  | case4 u hhigh => cases h
  | case5 u rest hhigh hlow => cases h
  | case6 u rest hhigh hlow ih =>
    obtain ⟨cs', hcs', rfl⟩ := Option.map_eq_some_iff.mp h
    rw [List.flatMap_cons, unitsOfChar_unit hhigh hlow, ← ih hcs']
    rfl

theorem decode?_eq_some {units : Utf16} {s : String} :
    decode? units = some s ↔ units = utf16 s := by
  rw [decode?, Option.map_eq_some_iff]
  constructor
  · rintro ⟨cs, hcs, rfl⟩
    rw [utf16, String.toList_ofList, decodeUnits_eq_some.mp hcs]
  · intro h
    exact ⟨s.toList, decodeUnits_eq_some.mpr h, String.ofList_toList⟩

end Docsage.Text
