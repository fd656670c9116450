import Docsage.Api.Upload

/-! # Text uploads and their first bytes

Both backends decode the first 1024 bytes of a text upload and refuse what is not
UTF-8. A character may straddle the cut, and one of the allowed text types is never
decoded.
-/

namespace Docsage

def utf8Bytes (text : String) : List UInt8 := text.toByteArray.data.toList

def textTypes : List String := ["text/plain", "text/markdown", "text/csv"]

/-- What the checks owe an upload of a text type: a text passes both, and what cannot start a text
does not pass the Python one, which also allows `application/csv`. -/
def TextVerified (declaredMime : String) (data : List UInt8) : Prop :=
  (declaredMime ∈ textTypes → (∃ text, data = utf8Bytes text) →
    verifyMagicBytes declaredMime data = none ∧ DotNet.verifyUpload declaredMime data = none) ∧
  (declaredMime ∈ "application/csv" :: textTypes →
    (∀ rest text, data.take 1024 ++ rest ≠ utf8Bytes text) →
    verifyMagicBytes declaredMime data ≠ none)

/-- The byte at the cut, where there is one, starts a character. -/
def CutsBetweenCharacters (data : List UInt8) : Prop :=
  ∀ byte, data[1024]? = some byte → byte.IsUTF8FirstByte

theorem isUtf8_iff {bytes : List UInt8} : isUtf8 bytes = true ↔ ∃ text, bytes = utf8Bytes text := by
  rw [isUtf8, ByteArray.validateUTF8_eq_true_iff]
  constructor
  · intro h
    exact ⟨⟨_, h⟩, rfl⟩
  · rintro ⟨text, rfl⟩
    exact text.isValidUTF8

theorem length_utf8Bytes (text : String) : (utf8Bytes text).length = text.utf8ByteSize := by
  rw [utf8Bytes, Array.length_toList]
  rfl

/-- A prefix of a text is a text where the byte after it starts a character. -/
theorem isUtf8_take (text : String) (n : ℕ) :
    isUtf8 ((utf8Bytes text).take n) = true ↔
      ∀ byte, (utf8Bytes text)[n]? = some byte → byte.IsUTF8FirstByte := by
  by_cases hn : n < text.utf8ByteSize
  · have hextract : ByteArray.mk ((utf8Bytes text).take n).toArray =
        text.toByteArray.extract 0 n := by
      apply ByteArray.ext
      rw [ByteArray.data_extract, ← Array.toList_inj, Array.toList_extract]
      simp [utf8Bytes, List.extract_eq_take_drop]
    have hle : (⟨n⟩ : String.Pos.Raw) ≤ text.rawEndPos := String.Pos.Raw.le_iff.mpr hn.le
    have hlt : (⟨n⟩ : String.Pos.Raw) < text.rawEndPos := String.Pos.Raw.lt_iff.mpr hn
    have hne : (⟨n⟩ : String.Pos.Raw) ≠ text.rawEndPos := by
      rintro h
      exact hn.ne (congrArg String.Pos.Raw.byteIdx h)
    have hbyte : (utf8Bytes text)[n]? = some (text.getUTF8Byte ⟨n⟩ hlt) := by
      rw [utf8Bytes, Array.getElem?_toList]
      exact Array.getElem?_eq_getElem hn
    calc isUtf8 ((utf8Bytes text).take n) = true
        ↔ (text.toByteArray.extract 0 n).IsValidUTF8 := by
          rw [isUtf8, ByteArray.validateUTF8_eq_true_iff, hextract]
      _ ↔ String.Pos.Raw.IsValid text ⟨n⟩ := by
          rw [String.Pos.Raw.isValid_iff_isValidUTF8_extract_zero, and_iff_right hle]
      _ ↔ (text.getUTF8Byte ⟨n⟩ hlt).IsUTF8FirstByte := by
          rw [String.Pos.Raw.isValid_iff_isUTF8FirstByte, or_iff_right hne, exists_prop_of_true hlt]
      _ ↔ ∀ byte, (utf8Bytes text)[n]? = some byte → byte.IsUTF8FirstByte := by
          simp [hbyte]
  · have hlength : (utf8Bytes text).length ≤ n := by
      rw [length_utf8Bytes]
      exact not_lt.mp hn
    rw [List.take_of_length_le hlength, List.getElem?_eq_none hlength]
    exact iff_of_true (isUtf8_iff.mpr ⟨text, rfl⟩) fun byte h => by cases h

theorem verifyMagicBytes_text {declaredMime : String} (text : declaredMime ∈ textTypes)
    (data : List UInt8) :
    verifyMagicBytes declaredMime data = none ↔ isUtf8 (data.take 1024) = true := by
  simp only [textTypes, List.mem_cons, List.not_mem_nil, or_false] at text
  rcases text with rfl | rfl | rfl <;> simp [verifyMagicBytes]

theorem verifyMagicBytes_csv (data : List UInt8) :
    verifyMagicBytes "application/csv" data = none := by
  simp [verifyMagicBytes]

theorem DotNet.verifyUpload_text {mime : String} (text : mime ∈ textTypes) (head : List UInt8) :
    DotNet.verifyUpload mime head = verifyMagicBytes mime head := by
  have hallowed : ¬ mime ∉ DotNet.extensionMime.map (·.2) := by
    simp only [textTypes, List.mem_cons, List.not_mem_nil, or_false] at text
    rcases text with rfl | rfl | rfl <;> decide
  rw [DotNet.verifyUpload, if_neg hallowed]

/-- An upload gets what the checks owe it exactly where the cut at 1024 bytes falls between two
characters of a text, and where no CSV under its other name starts with anything but text. -/
theorem textVerified_iff (declaredMime : String) (data : List UInt8) :
    TextVerified declaredMime data ↔
      (declaredMime ∈ textTypes → (∃ text, data = utf8Bytes text) → CutsBetweenCharacters data) ∧
      (declaredMime = "application/csv" →
        ∃ rest text, data.take 1024 ++ rest = utf8Bytes text) := by
  refine and_congr ?_ ?_
  · refine forall_congr' fun htext => ?_
    constructor
    · rintro h ⟨text, rfl⟩
      exact (isUtf8_take text 1024).mp ((verifyMagicBytes_text htext _).mp (h ⟨text, rfl⟩).1)
    · rintro h ⟨text, rfl⟩
      have hnone := (verifyMagicBytes_text htext _).mpr
        ((isUtf8_take text 1024).mpr (h ⟨text, rfl⟩))
      exact ⟨hnone, (DotNet.verifyUpload_text htext _).trans hnone⟩
  · constructor
    · rintro h rfl
      by_contra hnone
      push Not at hnone
      exact h List.mem_cons_self hnone (verifyMagicBytes_csv data)
    · intro h hmem hnone hverified
      rcases List.mem_cons.mp hmem with rfl | htext
      · obtain ⟨rest, text, heq⟩ := h rfl
        exact hnone rest text heq
      · obtain ⟨text, heq⟩ := isUtf8_iff.mp ((verifyMagicBytes_text htext data).mp hverified)
        exact hnone [] text ((List.append_nil _).trans heq)

theorem utf8Bytes_ofList (cs : List Char) :
    utf8Bytes (String.ofList cs) = cs.flatMap String.utf8EncodeChar := by
  rw [utf8Bytes, String.toByteArray_ofList, List.utf8Encode]
  simp

/-- A two-byte character across the cut is refused, and bytes that start no text are let through
as the other CSV type. -/
theorem straddled_character :
    ¬ TextVerified "text/plain" (List.replicate 1023 0x61 ++ [0xC3, 0xA9]) ∧
      ¬ TextVerified "application/csv" [0xFF] := by
  have htext : List.replicate 1023 0x61 ++ [0xC3, 0xA9] =
      utf8Bytes (String.ofList (List.replicate 1023 'a' ++ ['é'])) := by
    have hletter : String.utf8EncodeChar 'a' = [0x61] := by decide
    have haccent : String.utf8EncodeChar 'é' = [0xC3, 0xA9] := by decide
    rw [utf8Bytes_ofList, List.flatMap_append, List.flatMap_replicate, hletter,
      List.flatten_replicate_singleton, List.flatMap_singleton, haccent]
  refine ⟨fun h => ?_, fun h => ?_⟩
  · have hnone := (h.1 (by decide) ⟨_, htext⟩).1
    rw [verifyMagicBytes_text (by decide), htext, isUtf8_take, ← htext] at hnone
    have hcut : (List.replicate 1023 0x61 ++ [0xC3, 0xA9] : List UInt8)[1024]? = some 0xA9 := by
      have hlength : (List.replicate 1023 (0x61 : UInt8)).length = 1023 := List.length_replicate
      rw [List.getElem?_append_right (by rw [hlength]; decide), hlength]
      rfl
    exact absurd (hnone 0xA9 hcut) (by decide)
  · refine h.2 List.mem_cons_self (fun rest text heq => ?_) (verifyMagicBytes_csv _)
    have hfirst := (isUtf8_take text 0).mp rfl 0xFF (by rw [← heq]; rfl)
    exact absurd hfirst (by decide)

end Docsage
