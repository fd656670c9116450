import Docsage.Library.Utf8

/-! # Percent-encoding

Every byte of the UTF-8 form of a character that is not unreserved is written as `%` and
two hexadecimal digits. The decoder reads the characters that a run of such triples
spells, and leaves a triple that begins none as it is.
-/

namespace PercentEncoding

/-- Letters, digits, hyphen, full stop, underscore and tilde. -/
def isUnreserved (c : Char) : Bool :=
  let n := c.toNat
  (0x30 ≤ n && n ≤ 0x39) || (0x41 ≤ n && n ≤ 0x5A) || (0x61 ≤ n && n ≤ 0x7A) ||
    n == 0x2D || n == 0x2E || n == 0x5F || n == 0x7E

def hexDigit (n : ℕ) : Char := Char.ofNat (if n < 10 then 0x30 + n else 0x37 + n)

def hexValue? (c : Char) : Option ℕ :=
  let n := c.toNat
  if 0x30 ≤ n ∧ n ≤ 0x39 then some (n - 0x30)
  else if 0x41 ≤ n ∧ n ≤ 0x46 then some (n - 0x37)
  else if 0x61 ≤ n ∧ n ≤ 0x66 then some (n - 0x57)
  else none

def encodeByte (byte : UInt8) : List Char :=
  ['%', hexDigit (byte.toNat / 16), hexDigit (byte.toNat % 16)]

def encodeChar (c : Char) : List Char :=
  if isUnreserved c then [c] else (Utf8.encodeChar c).flatMap encodeByte

def encode (cs : List Char) : List Char := cs.flatMap encodeChar

def triples : List Char → List UInt8
  | '%' :: a :: b :: rest =>
    match hexValue? a, hexValue? b with
    | some m, some n => UInt8.ofNat (16 * m + n) :: triples rest
    | _, _ => []
  | _ => []

/-- The character that the bytes begin with, if they begin with one. -/
def firstChar? (bytes : List UInt8) : Option Char :=
  (Utf8.decode {} bytes).1.head?.filter fun c => (Utf8.encodeChar c).isPrefixOf bytes

/-- Decode behind the given number of characters, which have been read already. -/
def decodeBehind (skip : ℕ) : List Char → List Char
  | [] => []
  | a :: rest =>
    match skip with
    | skip + 1 => decodeBehind skip rest
    | 0 =>
      match firstChar? (triples (a :: rest)) with
      | some c => c :: decodeBehind (3 * (Utf8.encodeChar c).length - 1) rest
      | none => a :: decodeBehind 0 rest

def decode (text : List Char) : List Char := decodeBehind 0 text

theorem hexValue?_hexDigit {n : ℕ} (h : n < 16) : hexValue? (hexDigit n) = some n := by
  revert n
  decide

theorem isUnreserved_hexDigit {n : ℕ} (h : n < 16) : isUnreserved (hexDigit n) = true := by
  revert n
  decide

theorem mem_encode {cs : List Char} {c : Char} (h : c ∈ encode cs) :
    isUnreserved c = true ∨ c = '%' := by
  obtain ⟨d, -, hc⟩ := List.mem_flatMap.mp h
  rw [encodeChar] at hc
  split at hc
  · next hd =>
    rw [List.mem_singleton.mp hc]
    exact .inl hd
  · obtain ⟨byte, -, hc⟩ := List.mem_flatMap.mp hc
    have hbyte := byte.toNat_lt
    simp only [encodeByte, List.mem_cons, List.not_mem_nil, or_false] at hc
    rcases hc with rfl | rfl | rfl
    · exact .inr rfl
    · exact .inl (isUnreserved_hexDigit (by omega))
    · exact .inl (isUnreserved_hexDigit (by omega))

theorem not_mem_encode {mark : Char} (reserved : isUnreserved mark = false)
    (not_percent : mark ≠ '%') (cs : List Char) : mark ∉ encode cs := by
  intro h
  rcases mem_encode h with h | h
  · rw [reserved] at h
    cases h
  · exact not_percent h

theorem encode_eq_self {cs : List Char} (h : ∀ c ∈ cs, isUnreserved c = true) :
    encode cs = cs := by
  induction cs with
  | nil => rfl
  | cons c cs ih =>
    obtain ⟨hc, hcs⟩ := List.forall_mem_cons.mp h
    rw [encode, List.flatMap_cons, encodeChar, if_pos hc]
    exact congrArg (c :: ·) (ih hcs)

theorem triples_encodeByte (byte : UInt8) (rest : List Char) :
    triples (encodeByte byte ++ rest) = byte :: triples rest := by
  have hbyte := byte.toNat_lt
  have hdigits : 16 * (byte.toNat / 16) + byte.toNat % 16 = byte.toNat := by omega
  rw [encodeByte, List.cons_append, List.cons_append, List.cons_append, List.nil_append, triples,
    hexValue?_hexDigit (by omega), hexValue?_hexDigit (by omega)]
  simp [hdigits]

theorem triples_encodeBytes (bytes : List UInt8) (rest : List Char) :
    triples (bytes.flatMap encodeByte ++ rest) = bytes ++ triples rest := by
  induction bytes with
  | nil => rfl
  | cons byte bytes ih =>
    rw [List.flatMap_cons, List.append_assoc, triples_encodeByte, ih, List.cons_append]

theorem firstChar?_encodeChar (c : Char) (rest : List UInt8) :
    firstChar? (Utf8.encodeChar c ++ rest) = some c := by
  rw [firstChar?, Utf8.decode_encodeChar]
  simp [Option.filter]

theorem decodeBehind_eq (skip : ℕ) (text : List Char) :
    decodeBehind skip text = decode (text.drop skip) := by
  induction skip generalizing text with
  | zero => rfl
  | succ skip ih =>
    cases text with
    | nil => rfl
    | cons a text => exact ih text

theorem decode_cons {c : Char} (h : c ≠ '%') (rest : List Char) :
    decode (c :: rest) = c :: decode rest := by
  have hnone : triples (c :: rest) = [] := by
    unfold triples
    split
    · next heq => exact absurd (List.cons.inj heq).1 h
    · rfl
  rw [decode, decodeBehind, hnone]
  rfl

/-- A run of triples that begins with a character: it is read, and its triples are passed over. -/
theorem decode_triples {text : List Char} {c : Char} (h : firstChar? (triples text) = some c) :
    decode text = c :: decode (text.drop (3 * (Utf8.encodeChar c).length)) := by
  have hpos : 0 < (Utf8.encodeChar c).length := by
    unfold Utf8.encodeChar
    simp only
    split
    · simp
    · split
      · simp
      · split <;> simp
  cases text with
  | nil => cases h
  | cons a rest =>
    obtain ⟨n, hn⟩ : ∃ n, 3 * (Utf8.encodeChar c).length = n + 1 :=
      ⟨3 * (Utf8.encodeChar c).length - 1, by omega⟩
    rw [decode, decodeBehind, h]
    simp only [hn, Nat.add_sub_cancel, List.drop_succ_cons, decodeBehind_eq]

theorem length_encodeBytes (bytes : List UInt8) :
    (bytes.flatMap encodeByte).length = 3 * bytes.length := by
  induction bytes with
  | nil => rfl
  | cons byte bytes ih =>
    rw [List.flatMap_cons, List.length_append, ih, List.length_cons, encodeByte]
    simp only [List.length_cons, List.length_nil]
    omega

theorem decode_encodeChar (c : Char) (rest : List Char) :
    decode (encodeChar c ++ rest) = c :: decode rest := by
  rw [encodeChar]
  split
  · next h =>
    refine decode_cons ?_ rest
    rintro rfl
    exact absurd h (by decide)
  · have hread := firstChar?_encodeChar c (triples rest)
    rw [← triples_encodeBytes] at hread
    rw [decode_triples hread, ← length_encodeBytes, List.drop_left]

theorem decode_encode (cs : List Char) : decode (encode cs) = cs := by
  induction cs with
  | nil => rfl
  | cons c cs ih =>
    rw [encode, List.flatMap_cons, decode_encodeChar]
    exact congrArg (c :: ·) ih

end PercentEncoding
