import Docsage.Enrichment.Demo

/-! # The two keyword counts

The backends count the same words, unless a dotted capital I stands behind a word:
FastAPI reads it as one more letter, .NET as the end of the word.
-/

namespace Docsage
open Text Recoding Words

def DotNet.lowerChar (c : Char) : Char :=
  if 0x41 ≤ c.toNat ∧ c.toNat ≤ 0x5A then Char.ofNat (c.toNat + 0x20)
  else if c.toNat = 0x212A then 'k'
  else c

def DotNet.lowered (c : Char) : List Char := [DotNet.lowerChar c]

/-- The counted words of a text that is lowered character by character, behind a word that is being
read. -/
def wordsBy (lower : Char → List Char) (open_ : Option (List Char)) (text : List Char) :
    List (List Char) :=
  (scan isLetter isWordMark open_ (text.flatMap lower)).filter isCounted

/-- No dotted capital I stands behind a word of four characters or more. The first argument is the
length of the word that is being read. -/
def undotted : ℕ → List Char → Bool
  | _, [] => true
  | n, c :: rest =>
    if c.toNat = 0x130 then decide (n < 4) && undotted 0 rest
    else if isLetter (DotNet.lowerChar c) ||
        (decide (0 < n) && isWordMark (DotNet.lowerChar c)) then
      undotted (n + 1) rest
    else undotted 0 rest

section

variable {c : Char} {lower : Char → List Char} {open_ : Option (List Char)} {text word : List Char}

theorem lowerChar_plain (h : c.toNat ≠ 0x130) : lowerChar c = [DotNet.lowerChar c] := by
  rw [lowerChar, DotNet.lowerChar]
  split_ifs <;> rfl

theorem lowerChar_dotted (h : c.toNat = 0x130) : lowerChar c = ['i', Char.ofNat 0x307] := by
  rw [lowerChar, h]
  rfl

theorem isCounted_of_short (h : word.length ≤ 4) : isCounted word = false := by
  rw [isCounted, decide_eq_false (by omega), Bool.false_and]

theorem isCounted_dotted (h : 4 ≤ word.length) : isCounted (word ++ ['i']) = true := by
  have hlast : ∀ s ∈ stopwords, s.toList.getLast? ≠ some 'i' := by decide
  have hword : String.ofList (word ++ ['i']) ∉ stopwords := by
    intro hmem
    apply hlast _ hmem
    rw [String.toList_ofList, List.getLast?_concat]
  rw [isCounted, List.length_append, decide_eq_true (by simp; omega), Bool.true_and,
    Bool.not_eq_true', ← Bool.not_eq_true, List.contains_iff_mem]
  exact hword

def close (word : List Char) (words : List (List Char)) : List (List Char) :=
  if isCounted word = true then word :: words else words

theorem wordsBy_none {d : Char} (h : lower c = [d]) : wordsBy lower none (c :: text) =
    if isLetter d = true then wordsBy lower (some [d]) text else wordsBy lower none text := by
  rw [wordsBy, List.flatMap_cons, h, List.singleton_append, scan]
  split_ifs <;> rfl

theorem wordsBy_some {d : Char} (h : lower c = [d]) : wordsBy lower (some word) (c :: text) =
    if (isLetter d || isWordMark d) = true then wordsBy lower (some (word ++ [d])) text
    else close word (wordsBy lower none text) := by
  rw [wordsBy, List.flatMap_cons, h, List.singleton_append, scan]
  split_ifs
  · rfl
  · rw [List.filter_cons]
    rfl

theorem wordsBy_lowerChar_dotted (h : c.toNat = 0x130) : wordsBy lowerChar open_ (c :: text) =
    if 4 ≤ (open_.getD []).length then (open_.getD [] ++ ['i']) :: wordsBy lowerChar none text
    else wordsBy lowerChar none text := by
  have hscan : scan isLetter isWordMark open_ ((c :: text).flatMap lowerChar) =
      (open_.getD [] ++ ['i']) :: scan isLetter isWordMark none (text.flatMap lowerChar) := by
    rw [List.flatMap_cons, lowerChar_dotted h]
    cases open_ <;> rfl
  rw [wordsBy, hscan]
  split_ifs with hlong
  · rw [List.filter_cons_of_pos (isCounted_dotted hlong)]
    rfl
  · have hshort : ¬ isCounted (open_.getD [] ++ ['i']) = true := by
      rw [isCounted_of_short (by simp; omega)]
      exact Bool.false_ne_true
    rw [List.filter_cons_of_neg hshort]
    rfl

theorem DotNet.wordsBy_lowerChar_dotted (h : c.toNat = 0x130) :
    wordsBy DotNet.lowered open_ (c :: text) =
      close (open_.getD []) (wordsBy DotNet.lowered none text) := by
  have hc : DotNet.lowered c = [Char.ofNat 0x130] := by
    rw [← h, Char.ofNat_toNat, DotNet.lowered, DotNet.lowerChar, h]
    rfl
  cases open_ with
  | none => exact wordsBy_none hc
  | some word => exact wordsBy_some hc

theorem length_close_le {words words' : List (List Char)} (h : words.length ≤ words'.length) :
    (close word words).length ≤ (close word words').length := by
  unfold close
  split_ifs
  · exact Nat.succ_le_succ h
  · exact h

theorem length_wordsBy_le (open_ : Option (List Char)) :
    (wordsBy DotNet.lowered open_ text).length ≤
      (wordsBy lowerChar open_ text).length := by
  induction text generalizing open_ with
  | nil => exact Nat.le_refl _
  | cons c text ih =>
    by_cases hc : c.toNat = 0x130
    · rw [wordsBy_lowerChar_dotted hc, DotNet.wordsBy_lowerChar_dotted hc, close]
      have hrest := ih none
      split_ifs with hcounted hlong hlong
      · exact Nat.succ_le_succ hrest
      · rw [isCounted_of_short (by omega)] at hcounted
        cases hcounted
      · exact hrest.trans (Nat.le_succ _)
      · exact hrest
    · have hplain := lowerChar_plain hc
      cases open_ with
      | none =>
        rw [wordsBy_none hplain, wordsBy_none rfl]
        split_ifs
        · exact ih _
        · exact ih _
      | some word =>
        rw [wordsBy_some hplain, wordsBy_some rfl]
        split_ifs
        · exact ih _
        · exact length_close_le (ih none)

theorem close_inj {words words' : List (List Char)} :
    close word words = close word words' ↔ words = words' := by
  unfold close
  split_ifs
  · exact List.cons_inj_right word
  · exact Iff.rfl

/-- Behind four characters FastAPI counts a word that .NET does not count. -/
theorem wordsBy_dotted_ne (h : c.toNat = 0x130) (hlong : 4 ≤ (open_.getD []).length) :
    wordsBy lowerChar open_ (c :: text) ≠ wordsBy DotNet.lowered open_ (c :: text) := by
  rw [wordsBy_lowerChar_dotted h, DotNet.wordsBy_lowerChar_dotted h, if_pos hlong, close]
  intro heq
  split_ifs at heq
  · simpa using congrArg List.length (List.cons.inj heq).1
  · have hlength := @length_wordsBy_le text none
    rw [← heq, List.length_cons] at hlength
    omega

/-- Both count the same words exactly when no dotted capital I ends one. -/
theorem wordsBy_eq_iff (h : ∀ word ∈ open_, word ≠ []) :
    wordsBy lowerChar open_ text = wordsBy DotNet.lowered open_ text ↔
      undotted (open_.getD []).length text = true := by
  induction text generalizing open_ with
  | nil => exact iff_of_true rfl rfl
  | cons c text ih =>
    have hrest := @ih none (by simp)
    rw [undotted]
    by_cases hc : c.toNat = 0x130
    · rw [if_pos hc, Bool.and_eq_true, decide_eq_true_iff]
      by_cases hlong : 4 ≤ (open_.getD []).length
      · exact iff_of_false (wordsBy_dotted_ne hc hlong) (by omega)
      · rw [wordsBy_lowerChar_dotted hc, DotNet.wordsBy_lowerChar_dotted hc, if_neg hlong, close,
          isCounted_of_short (by omega), if_neg Bool.false_ne_true, and_iff_right (by omega)]
        exact hrest
    · have hplain := lowerChar_plain hc
      rw [if_neg hc]
      cases open_ with
      | none =>
        rw [wordsBy_none hplain, wordsBy_none rfl]
        simp only [Option.getD_none, List.length_nil, Nat.lt_irrefl, decide_false, Bool.false_and,
          Bool.or_false]
        split_ifs
        · exact @ih (some [DotNet.lowerChar c]) (by simp)
        · exact hrest
      | some word =>
        have hword : 0 < word.length := List.length_pos_iff.mpr (h word rfl)
        rw [wordsBy_some hplain, wordsBy_some rfl, Option.getD_some, decide_eq_true hword,
          Bool.true_and]
        split_ifs
        · have hnext := @ih (some (word ++ [DotNet.lowerChar c])) (by simp)
          rwa [Option.getD_some, List.length_append] at hnext
        · rw [close_inj]
          exact hrest

theorem countedWords_eq_iff {t : String} :
    countedWords t = wordsBy DotNet.lowered none t.toList ↔ undotted 0 t.toList = true :=
  wordsBy_eq_iff (by simp)

theorem wordsBy_intercalate (newline : lower '\n' = ['\n']) (texts : List String) :
    wordsBy lower none ("\n".intercalate texts).toList =
      texts.flatMap fun t => wordsBy lower none t.toList := by
  have htoList : "\n".toList = ['\n'] := rfl
  rw [wordsBy, String.toList_intercalate, flatMap_intercalate, htoList, List.flatMap_singleton,
    newline, scan_intercalate rfl, List.filter_flatMap, List.map_map, List.flatMap_map]
  rfl

theorem wordsBy_blank (keep : ∀ c, isSpace c = true → lower c = [c])
    (h : text.all isSpace = true) : wordsBy lower none text = [] := by
  have hspace (c : Char) (hc : c ∈ text) : isSpace c = true := List.all_eq_true.mp h c hc
  have hletter (c : Char) (hc : isSpace c = true) : isLetter c = false := by
    simp only [isSpace, isWhiteSpace, isSeparator, Bool.or_eq_true, Bool.and_eq_true,
      decide_eq_true_eq, beq_iff_eq] at hc
    simp only [isLetter, Bool.or_eq_false_iff, Bool.and_eq_false_iff, decide_eq_false_iff_not]
    omega
  rw [wordsBy, scan_of_no_letter, List.filter_nil]
  intro d hd
  obtain ⟨c, hc, hd⟩ := List.mem_flatMap.mp hd
  rw [keep c (hspace c hc), List.mem_singleton] at hd
  rw [hd, hletter c (hspace c hc)]

theorem DotNet.lowered_space (h : isSpace c = true) : DotNet.lowered c = [c] := by
  simp only [isSpace, isWhiteSpace, isSeparator, Bool.or_eq_true, Bool.and_eq_true,
    decide_eq_true_eq, beq_iff_eq] at h
  rw [DotNet.lowered, DotNet.lowerChar, if_neg (by omega), if_neg (by omega)]

theorem lowerChar_space (h : isSpace c = true) : lowerChar c = [c] := by
  have hlowered := DotNet.lowered_space h
  simp only [isSpace, isWhiteSpace, isSeparator, Bool.or_eq_true, Bool.and_eq_true,
    decide_eq_true_eq, beq_iff_eq] at h
  rw [← hlowered, DotNet.lowered, lowerChar_plain (by omega)]

theorem map_lowerUnit (c : Char) :
    (unitsOfChar c).map DotNet.lowerUnit = unitsOfChar (DotNet.lowerChar c) := by
  by_cases hn : c.toNat < 0x10000
  · rw [unitsOfChar, if_pos hn, List.map_singleton, DotNet.lowerUnit, toNat_ofNat_units hn,
      DotNet.lowerChar]
    split_ifs with hcapital hkelvin
    · have hc : (Char.ofNat (c.toNat + 0x20)).toNat = c.toNat + 0x20 :=
        toNat_ofNat_char (.inl (by omega))
      rw [unitsOfChar, hc, if_pos (by omega)]
    · rfl
    · rw [unitsOfChar, if_pos hn]
  · have hvalid : c.toNat < 0xD800 ∨ 0xDFFF < c.toNat ∧ c.toNat < 0x110000 := c.valid
    have hkeep (n : ℕ) (h : 0xD800 ≤ n ∧ n < 0x10000) :
        DotNet.lowerUnit (UInt16.ofNat n) = UInt16.ofNat n := by
      rw [DotNet.lowerUnit, toNat_ofNat_units h.2, if_neg (by omega), if_neg (by omega)]
    rw [DotNet.lowerChar, if_neg (by omega), if_neg (by omega), unitsOfChar, if_neg hn,
      List.map_cons, List.map_singleton, hkeep _ (by omega), hkeep _ (by omega)]

theorem toNat_of_word (h : (isLetter c || isWordMark c) = true) : c.toNat < 0x10000 := by
  simp only [isLetter, isWordMark, Bool.or_eq_true, Bool.and_eq_true, decide_eq_true_eq,
    beq_iff_eq] at h
  omega

theorem reads_isLetter : Reads unitsOfChar isLetter (onUnit isLetter) :=
  reads_units (fun _ hc => toNat_of_word (Bool.or_eq_true_iff.mpr (.inl hc))) rfl

theorem reads_isWordMark : Reads unitsOfChar isWordMark (onUnit isWordMark) :=
  reads_units (fun _ hc => toNat_of_word (Bool.or_eq_true_iff.mpr (.inr hc))) rfl

theorem units_of_word (h : ∀ c ∈ word, (isLetter c || isWordMark c) = true) :
    word.flatMap unitsOfChar = word.map fun c => UInt16.ofNat c.toNat := by
  induction word with
  | nil => rfl
  | cons c word ih =>
    obtain ⟨hc, hword⟩ := List.forall_mem_cons.mp h
    rw [List.flatMap_cons, ih hword, unitsOfChar, if_pos (toNat_of_word hc)]
    rfl

theorem spelling_of_word (h : ∀ c ∈ word, (isLetter c || isWordMark c) = true) :
    (word.flatMap unitsOfChar).map UInt16.toNat = word.map Char.toNat := by
  rw [units_of_word h, List.map_map]
  exact List.map_congr_left fun c hc => toNat_ofNat_units (toNat_of_word (h c hc))

theorem isCounted_units (h : ∀ c ∈ word, (isLetter c || isWordMark c) = true) :
    DotNet.isCounted (word.flatMap unitsOfChar) = isCounted word := by
  have hmem : (stopwords.map utf16).contains (word.flatMap unitsOfChar) =
      stopwords.contains (String.ofList word) := by
    rw [Bool.eq_iff_iff, List.contains_iff_mem, List.contains_iff_mem, ← utf16_ofList,
      List.mem_map_of_injective utf16_injective]
  rw [DotNet.isCounted, isCounted, hmem, units_of_word h, List.length_map]

theorem DotNet.countedWords_utf16 (text : String) : DotNet.countedWords (utf16 text) =
    (wordsBy DotNet.lowered none text.toList).map (List.flatMap unitsOfChar) := by
  have hlower : (utf16 text).map DotNet.lowerUnit =
      (text.toList.flatMap DotNet.lowered).flatMap unitsOfChar := by
    rw [utf16, List.map_flatMap, List.flatMap_assoc]
    refine congrArg (List.flatMap · text.toList) (funext fun c => ?_)
    rw [map_lowerUnit, DotNet.lowered, List.flatMap_singleton]
  have hscan := @scan_flatMap Char UInt16 isLetter isWordMark (text.toList.flatMap DotNet.lowered)
    unitsOfChar (onUnit isLetter) (onUnit isWordMark) unitsOfChar_ne_nil reads_isLetter
    reads_isWordMark none
  rw [Option.map_none] at hscan
  rw [DotNet.countedWords, hlower, hscan, wordsBy, List.filter_map]
  refine congrArg (List.map (List.flatMap unitsOfChar)) (List.filter_congr fun word hword => ?_)
  exact isCounted_units (mem_scan (by simp) hword)

theorem frequencyKeywords_intercalate (texts : List String) :
    frequencyKeywords ("\n".intercalate texts) =
      (top (List.map Char.toNat) 8 (texts.flatMap countedWords)).map String.ofList := by
  have hwords : countedWords ("\n".intercalate texts) = texts.flatMap countedWords :=
    wordsBy_intercalate rfl texts
  rw [frequencyKeywords, hwords]

theorem DotNet.frequencyKeywords_utf16 (texts : List String) :
    DotNet.frequencyKeywords (texts.map utf16) =
      ((top (List.map Char.toNat) 8
        (texts.flatMap fun t =>
          wordsBy DotNet.lowered none t.toList)).map String.ofList).map utf16 := by
  have hwords := @wordsBy_intercalate DotNet.lowered rfl texts
  have hspelling (word : List Char)
      (h : word ∈ texts.flatMap fun t => wordsBy DotNet.lowered none t.toList) :
      (word.flatMap unitsOfChar).map UInt16.toNat = word.map Char.toNat := by
    obtain ⟨t, -, hword⟩ := List.mem_flatMap.mp h
    exact spelling_of_word (mem_scan (by simp) (List.mem_of_mem_filter hword))
  rw [DotNet.frequencyKeywords, ← utf16_intercalate, DotNet.countedWords_utf16, hwords,
    top_map unitsOfChars_injective hspelling, List.map_map]
  exact List.map_congr_left fun word _ => (utf16_ofList word).symm

end

end Docsage
