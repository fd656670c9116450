import Docsage.Enrichment.Demo
import Mathlib.Data.String.Basic

/-! # The keywords are the most frequent words

Of the tokens that are no stopwords and longer than four characters, the most frequent
ones are returned, alphabetically where they are as frequent. Nothing else of the text
matters.
-/

namespace Docsage
open Words

/-- `_WORD_RE.findall(text.lower())`. -/
def tokens (text : String) : List String :=
  (scan isLetter isWordMark none (text.toList.flatMap lowerChar)).map String.ofList

def isEligible (token : String) : Bool := 4 < token.length && !stopwords.contains token

/-- The tokens that are counted, in the order they occur. -/
def eligible (text : String) : List String := (tokens text).filter isEligible

/-- `frequency_keywords` with any integer for the limit: `ranked[:limit]`. -/
def frequencyKeywordsTo (text : String) (limit : ℤ) : List String :=
  (upTo limit (ranking (List.map Char.toNat) (countedWords text))).map String.ofList

theorem frequencyKeywordsTo_natCast (text : String) (limit : ℕ) :
    frequencyKeywordsTo text limit = frequencyKeywords text limit := by
  rw [frequencyKeywordsTo, frequencyKeywords, top_eq_take, upTo, if_pos (Int.natCast_nonneg limit),
    Int.toNat_natCast]

/-- More frequent, or as frequent and alphabetically earlier. -/
def RanksBefore (text first second : String) : Prop :=
  (eligible text).count second < (eligible text).count first ∨
    (eligible text).count first = (eligible text).count second ∧ first < second

def spelling (word : String) : List ℕ := word.toList.map Char.toNat

theorem toNat_strictMono : StrictMono Char.toNat := fun _ _ h => h

theorem spelling_lt_iff {first second : String} :
    spelling first < spelling second ↔ first < second := by
  have hmono : StrictMono (List.map Char.toNat) := fun _ _ h =>
    List.map_lt (fun _ _ h => toNat_strictMono h) h
  rw [spelling, spelling, hmono.lt_iff_lt, String.lt_iff_toList_lt]

theorem spelling_injective : Function.Injective spelling :=
  (List.map_injective_iff.mpr toNat_strictMono.injective).comp fun _ _ h =>
    String.toList_injective h

theorem map_countedWords (text : String) :
    (countedWords text).map String.ofList = eligible text := by
  rw [countedWords, eligible, tokens, List.filter_map]
  refine congrArg _ (List.filter_congr fun word _ => ?_)
  rw [isCounted, Function.comp_apply, isEligible, String.length_ofList]

theorem frequencyKeywordsTo_eq (text : String) (limit : ℤ) :
    frequencyKeywordsTo text limit = upTo limit (ranking spelling (eligible text)) := by
  have hranking : ranking spelling (eligible text) =
      (ranking (List.map Char.toNat) (countedWords text)).map String.ofList := by
    rw [← map_countedWords]
    refine ranking_map (fun _ _ h => String.ofList_injective h) fun word _ => ?_
    rw [spelling, String.toList_ofList]
  rw [frequencyKeywordsTo, hranking, upTo, upTo, List.length_map, List.map_take]

theorem ranksBefore_iff {text first second : String} :
    Words.RanksBefore spelling (eligible text) first second ↔ RanksBefore text first second := by
  rw [Words.RanksBefore, RanksBefore, spelling_lt_iff]

/-- The keywords are the top of the words by their counts. -/
theorem frequencyKeywords_top (text : String) (limit : ℤ) :
    (frequencyKeywordsTo text limit).Nodup ∧
      (∀ word ∈ frequencyKeywordsTo text limit, word ∈ eligible text) ∧
      (frequencyKeywordsTo text limit).Pairwise (RanksBefore text) ∧
      (∀ word ∈ eligible text, word ∉ frequencyKeywordsTo text limit →
        ∀ kept ∈ frequencyKeywordsTo text limit, RanksBefore text kept word) ∧
      (((frequencyKeywordsTo text limit).length : ℤ) < limit →
        ∀ word ∈ eligible text, word ∈ frequencyKeywordsTo text limit) ∧
      ∀ text', (tokens text).Perm (tokens text') →
        frequencyKeywordsTo text' limit = frequencyKeywordsTo text limit := by
  have htop := isTop_upTo spelling_injective (eligible text) limit
  rw [frequencyKeywordsTo_eq]
  refine ⟨htop.distinct, htop.occurs, htop.ordered.imp ranksBefore_iff.mp, ?_, ?_, ?_⟩
  · exact fun word hword hout kept hkept =>
      ranksBefore_iff.mp (htop.best word hword hout kept hkept)
  · exact fun short word hword => mem_upTo_of_short short hword
  · intro text' hperm
    have heligible : (eligible text').Perm (eligible text) := hperm.symm.filter isEligible
    rw [frequencyKeywordsTo_eq, ranking_eq_of_perm spelling_injective heligible]

/-- Three tokens in two orders have the same keywords. -/
theorem frequencyKeywords_top_leave :
    frequencyKeywordsTo "Leave, payroll: leave" 8 = frequencyKeywordsTo "Payroll leave leave" 8 :=
  (frequencyKeywords_top "Payroll leave leave" 8).2.2.2.2.2 "Leave, payroll: leave" (by decide)

theorem DotNet.frequencyKeywords_isTop (texts : List Text.Utf16) :
    IsTop (List.map UInt16.toNat) (DotNet.countedWords ((Text.utf16 "\n").intercalate texts))
      (DotNet.frequencyKeywords texts) := by
  rw [DotNet.frequencyKeywords, top_eq_take]
  exact isTop_take (List.map_injective_iff.mpr fun _ _ h => UInt16.toNat_inj.mp h) _ 8

end Docsage
