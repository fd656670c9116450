import Mathlib.Data.List.Basic
import Mathlib.Tactic.NormNum

/-! # A streaming UTF-8 decoder

The decoder of the WHATWG encoding standard in replacement mode, one byte at a
time. It carries the unfinished character from one chunk of input to the next, so
how the input is cut does not matter, and it inverts the encoder.
-/

namespace Utf8

def replacement : Char := '\uFFFD'

/-- What is pending between two bytes: the bits read so far, how many bytes are owed, and the
range of the next one. -/
structure State where
  codePoint : ℕ := 0
  owed : ℕ := 0
  lower : ℕ := 0x80
  upper : ℕ := 0xBF
deriving DecidableEq, Repr

def first (byte : UInt8) : List Char × State :=
  let b := byte.toNat
  if b ≤ 0x7F then ([Char.ofNat b], {})
  else if 0xC2 ≤ b ∧ b ≤ 0xDF then ([], { codePoint := b - 0xC0, owed := 1 })
  else if 0xE0 ≤ b ∧ b ≤ 0xEF then
    ([], { codePoint := b - 0xE0, owed := 2
           lower := if b = 0xE0 then 0xA0 else 0x80
           upper := if b = 0xED then 0x9F else 0xBF })
  else if 0xF0 ≤ b ∧ b ≤ 0xF4 then
    ([], { codePoint := b - 0xF0, owed := 3
           lower := if b = 0xF0 then 0x90 else 0x80
           upper := if b = 0xF4 then 0x8F else 0xBF })
  else ([replacement], {})

/-- One byte. A byte that cannot continue the pending character is read again as a first one. -/
def step (s : State) (byte : UInt8) : List Char × State :=
  if s.owed = 0 then first byte
  else if byte.toNat < s.lower ∨ s.upper < byte.toNat then
    (replacement :: (first byte).1, (first byte).2)
  else
    let codePoint := s.codePoint * 64 + byte.toNat % 64
    if s.owed = 1 then ([Char.ofNat codePoint], {})
    else ([], { codePoint, owed := s.owed - 1 })

def decode (s : State) : List UInt8 → List Char × State
  | [] => ([], s)
  | byte :: rest => ((step s byte).1 ++ (decode (step s byte).2 rest).1,
      (decode (step s byte).2 rest).2)

def flush (s : State) : List Char := if s.owed = 0 then [] else [replacement]

def encodeChar (c : Char) : List UInt8 :=
  let n := c.toNat
  if n < 0x80 then [UInt8.ofNat n]
  else if n < 0x800 then [UInt8.ofNat (0xC0 + n / 64), UInt8.ofNat (0x80 + n % 64)]
  else if n < 0x10000 then
    [UInt8.ofNat (0xE0 + n / 4096), UInt8.ofNat (0x80 + n / 64 % 64), UInt8.ofNat (0x80 + n % 64)]
  else
    [UInt8.ofNat (0xF0 + n / 262144), UInt8.ofNat (0x80 + n / 4096 % 64),
      UInt8.ofNat (0x80 + n / 64 % 64), UInt8.ofNat (0x80 + n % 64)]

def encode (cs : List Char) : List UInt8 := cs.flatMap encodeChar

variable {s : State}

/-- The cut between two chunks does not matter. -/
theorem decode_append (xs ys : List UInt8) :
    decode s (xs ++ ys) =
      ((decode s xs).1 ++ (decode (decode s xs).2 ys).1, (decode (decode s xs).2 ys).2) := by
  induction xs generalizing s with
  | nil => rfl
  | cons x xs ih => simp only [List.cons_append, decode, ih, List.append_assoc]

theorem toNat_ofNat_of_lt {n : ℕ} (h : n < 256) : (UInt8.ofNat n).toNat = n :=
  Nat.mod_eq_of_lt h

theorem step_start (byte : UInt8) : step {} byte = first byte := rfl

theorem step_tail (owed : ℕ) {codePoint lower upper n : ℕ} (hn : n < 64) (hl : lower ≤ 0x80 + n)
    (hu : 0x80 + n ≤ upper) :
    step ⟨codePoint, owed + 1, lower, upper⟩ (UInt8.ofNat (0x80 + n)) =
      if owed = 0 then ([Char.ofNat (codePoint * 64 + n)], {})
      else ([], { codePoint := codePoint * 64 + n, owed }) := by
  have hb := toNat_ofNat_of_lt (n := 0x80 + n) (by omega)
  have hmod : (0x80 + n) % 64 = n := by omega
  simp only [step, hb, hmod]
  rw [if_neg (by omega), if_neg (by omega)]
  simp

/-! The lead byte of two, three and four bytes, by the bits it carries. -/

theorem first_two {n : ℕ} (hl : 2 ≤ n) (hu : n < 32) :
    first (UInt8.ofNat (0xC0 + n)) = ([], ⟨n, 1, 0x80, 0xBF⟩) := by
  have hb := toNat_ofNat_of_lt (n := 0xC0 + n) (by omega)
  simp only [first, hb]
  rw [if_neg (by omega), if_pos (by omega), Nat.add_sub_cancel_left]

theorem first_three {n : ℕ} (hu : n < 16) :
    first (UInt8.ofNat (0xE0 + n)) =
      ([], ⟨n, 2, if n = 0 then 0xA0 else 0x80, if n = 13 then 0x9F else 0xBF⟩) := by
  have hb := toNat_ofNat_of_lt (n := 0xE0 + n) (by omega)
  simp only [first, hb]
  rw [if_neg (by omega), if_neg (by omega), if_pos (by omega), Nat.add_sub_cancel_left]
  have hlow : 0xE0 + n = 0xE0 ↔ n = 0 := by omega
  have hhigh : 0xE0 + n = 0xED ↔ n = 13 := by omega
  simp only [hlow, hhigh]

theorem first_four {n : ℕ} (hu : n ≤ 4) :
    first (UInt8.ofNat (0xF0 + n)) =
      ([], ⟨n, 3, if n = 0 then 0x90 else 0x80, if n = 4 then 0x8F else 0xBF⟩) := by
  have hb := toNat_ofNat_of_lt (n := 0xF0 + n) (by omega)
  simp only [first, hb]
  rw [if_neg (by omega), if_neg (by omega), if_neg (by omega), if_pos (by omega),
    Nat.add_sub_cancel_left]
  have hlow : 0xF0 + n = 0xF0 ↔ n = 0 := by omega
  have hhigh : 0xF0 + n = 0xF4 ↔ n = 4 := by omega
  simp only [hlow, hhigh]

theorem toNat_range (c : Char) :
    c.toNat < 0xD800 ∨ 0xDFFF < c.toNat ∧ c.toNat < 0x110000 := c.valid

/-- The decoder reads one encoded character and is between characters again. -/
theorem decode_encodeChar (c : Char) (rest : List UInt8) :
    decode {} (encodeChar c ++ rest) = (c :: (decode {} rest).1, (decode {} rest).2) := by
  have hrange := toNat_range c
  have hc : Char.ofNat c.toNat = c := Char.ofNat_toNat c
  unfold encodeChar
  generalize c.toNat = n at hrange hc
  simp only
  split_ifs with h₁ h₂ h₃
  · have hb := toNat_ofNat_of_lt (n := n) (by omega)
    have hfirst : first (UInt8.ofNat n) = ([c], {}) := by
      simp only [first, hb, hc]
      rw [if_pos (by omega)]
    simp only [decode, List.cons_append, List.nil_append, step_start, hfirst]
  · have hn : n / 64 * 64 + n % 64 = n := by omega
    have hfirst := first_two (n := n / 64) (by omega) (by omega)
    have hlast : step ⟨n / 64, 1, 0x80, 0xBF⟩ (UInt8.ofNat (0x80 + n % 64)) = ([c], {}) := by
      rw [step_tail 0 (by omega) (by omega) (by omega), hn, hc]
      rfl
    simp only [decode, List.cons_append, List.nil_append, step_start, hfirst, hlast]
  · have hfirst := first_three (n := n / 4096) (by omega)
    have hsecond : step ⟨n / 4096, 2, if n / 4096 = 0 then 0xA0 else 0x80,
        if n / 4096 = 13 then 0x9F else 0xBF⟩ (UInt8.ofNat (0x80 + n / 64 % 64)) =
        ([], ⟨n / 64, 1, 0x80, 0xBF⟩) := by
      rw [step_tail 1 (by omega) (by split <;> omega) (by split <;> omega),
        show n / 4096 * 64 + n / 64 % 64 = n / 64 by omega]
      rfl
    have hlast : step ⟨n / 64, 1, 0x80, 0xBF⟩ (UInt8.ofNat (0x80 + n % 64)) = ([c], {}) := by
      rw [step_tail 0 (by omega) (by omega) (by omega),
        show n / 64 * 64 + n % 64 = n by omega, hc]
      rfl
    simp only [decode, List.cons_append, List.nil_append, step_start, hfirst, hsecond, hlast]
  · have hfirst := first_four (n := n / 262144) (by omega)
    have hsecond : step ⟨n / 262144, 3, if n / 262144 = 0 then 0x90 else 0x80,
        if n / 262144 = 4 then 0x8F else 0xBF⟩ (UInt8.ofNat (0x80 + n / 4096 % 64)) =
        ([], ⟨n / 4096, 2, 0x80, 0xBF⟩) := by
      rw [step_tail 2 (by omega) (by split <;> omega) (by split <;> omega),
        show n / 262144 * 64 + n / 4096 % 64 = n / 4096 by omega]
      rfl
    have hthird : step ⟨n / 4096, 2, 0x80, 0xBF⟩ (UInt8.ofNat (0x80 + n / 64 % 64)) =
        ([], ⟨n / 64, 1, 0x80, 0xBF⟩) := by
      rw [step_tail 1 (by omega) (by omega) (by omega),
        show n / 4096 * 64 + n / 64 % 64 = n / 64 by omega]
      rfl
    have hlast : step ⟨n / 64, 1, 0x80, 0xBF⟩ (UInt8.ofNat (0x80 + n % 64)) = ([c], {}) := by
      rw [step_tail 0 (by omega) (by omega) (by omega),
        show n / 64 * 64 + n % 64 = n by omega, hc]
      rfl
    simp only [decode, List.cons_append, List.nil_append, step_start, hfirst, hsecond, hthird,
      hlast]

theorem decode_encode (cs : List Char) : decode {} (encode cs) = (cs, {}) := by
  induction cs with
  | nil => rfl
  | cons c cs ih =>
    rw [encode, List.flatMap_cons, decode_encodeChar]
    change (c :: (decode {} (encode cs)).1, (decode {} (encode cs)).2) = _
    rw [ih]

end Utf8
