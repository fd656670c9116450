import Docsage.Enrichment.Parity
import Docsage.Enrichment.Passes

/-! # Bad model output

A text without an object falls back to the demo passes, and a table description of
the wrong type is replaced. A list of the wrong type is iterated all the same, and
a summary of blanks is kept.
-/

namespace Docsage
open JsonScan Text

/-- The outcome is a result, within the limits of the prompts and complete for the parts. -/
def Enriched (parts : List ExtractedPart) : Except PassError Passes.EnrichmentResult → Prop
  | .error _ => False
  | .ok result =>
    result.summary ≠ [] ∧ result.keywords.length ≤ 8 ∧ result.questions.length ≤ 5 ∧
      result.captions.map (·.1) = (captioned parts).map (·.2) ∧
      result.tablePreambles.map (·.1) = tableIndexes parts

def Describable (title : String) (parts : List ExtractedPart) : Prop :=
  title.toList.all isSpace = false ∨
    ∃ part ∈ parts, part.kind ≠ .image ∧ part.content.toList.all isSpace = false

/-- The fields of the document's object can be used as they are. -/
structure FieldsUsable (runtime : Runtime) (title : String) (parts : List ExtractedPart)
    (members : JsonObject) : Prop where
  keywords : ∀ v, getTruthy runtime members "keywords" = some v → (iterate v).isSome
  questions : ∀ v, getTruthy runtime members "questions" = some v → (iterate v).isSome
  summary : ∀ text, getTruthy runtime members "summary" = some (.string text) →
    text.all isSpacePoint = false
  noSummary : getTruthy runtime members "summary" = none → Describable title parts

/-- The answers to the document and the table call are within the limits of the decoder, and an
object that is found in the first has fields that can be used. -/
structure AnswersUsable (runtime : Runtime) (limits : Limits) (responses : Responses)
    (title : String) (parts : List ExtractedPart) : Prop where
  document : ¬ ExceedsLimits limits (spanned (generate responses 0 (documentRequest title parts)))
  tables : tableIndexes parts ≠ [] → ¬ ExceedsLimits limits (spanned
    (generate responses (1 + (captioned parts).length) (tableRequest title parts)))
  fields : ∀ members, ObjectAt (generate responses 0 (documentRequest title parts))
    (firstBrace (generate responses 0 (documentRequest title parts))) members →
      FieldsUsable runtime title parts members

variable {runtime : Runtime} {limits : Limits} {responses : Responses} {title : String}
  {parts : List ExtractedPart} {showImage : ShowImage} {members : JsonObject}

theorem isSpacePoint_toNat (c : Char) : isSpacePoint c.toNat = isSpace c := by
  rw [isSpacePoint, Char.ofNat_toNat]

theorem all_isSpacePoint (s : String) : (points s).all isSpacePoint = s.toList.all isSpace := by
  rw [points, List.all_map]
  exact List.all_congr rfl isSpacePoint_toNat

theorem points_ne_nil {s : String} (h : s ≠ "") : points s ≠ [] := by
  simpa [points] using h

theorem stripPoints_ne_nil {text : Text} :
    stripPoints text ≠ [] ↔ text.all isSpacePoint = false := by
  rw [← Bool.not_eq_true]
  exact not_congr dropAround_eq_nil

theorem not_all_of_mem {text : Text} {c : ℕ} (hc : c ∈ text) (h : isSpacePoint c = false) :
    text.all isSpacePoint = false :=
  List.all_eq_false.mpr ⟨c, hc, by simp [h]⟩

theorem isSpace_of_isDigit {c : Char} (h : c.isDigit = true) : isSpace c = false := by
  have hdigit : 48 ≤ c.toNat ∧ c.toNat ≤ 57 := by
    simpa [Char.isDigit, UInt32.le_iff_toNat_le] using h
  simp [isSpace, isWhiteSpace, isSeparator]
  omega

theorem toString_visible (n : ℤ) : (points (toString n)).all isSpacePoint = false := by
  have hnat (m : ℕ) : (toString m).toList.all isSpace = false := by
    obtain ⟨c, hc⟩ := List.exists_mem_of_ne_nil _ (Nat.toDigits_ne_nil (b := 10) (n := m))
    have hdigit := Nat.isDigit_of_mem_toDigits (by decide) (by decide) hc
    exact List.all_eq_false.mpr ⟨c, by simpa using hc, by simp [isSpace_of_isDigit hdigit]⟩
  rw [all_isSpacePoint]
  cases n with
  | ofNat m => exact hnat m
  | negSucc m =>
    rw [show toString (Int.negSucc m) = "-" ++ toString (m + 1) from rfl, String.toList_append,
      List.all_append, hnat, Bool.and_false]

theorem strValue_visible {v : Value} (htruthy : truthy runtime v = true)
    (hstring : ∀ text, v ≠ .string text) : (strValue runtime v).all isSpacePoint = false := by
  cases v with
  | null => cases htruthy
  | bool b => cases b <;> rfl
  | int n => exact toString_visible n
  | float literal => exact runtime.reprFloat_visible literal
  | string text => exact absurd rfl (hstring text)
  | array items => exact not_all_of_mem (c := 0x5B) (by simp [strValue, reprValue, points]) rfl
  | object members =>
    exact not_all_of_mem (c := 0x7B) (by simp [strValue, reprValue, points]) rfl

/-- A leading sentence of a text that is not blank is not blank. -/
theorem firstSentences_visible {text : String} (h : text.toList.all isSpace = false) :
    (firstSentences text).toList.all isSpace = false := by
  rw [firstSentences, String.toList_ofList, Sentences.leading_eq_emit isEndMark_not_isSpace]
  cases hemit : Sentences.emit isSpace isEndMark [' '] 1 .gap text.toList with
  | nil => exact absurd hemit (Sentences.emit_gap_ne_nil (by simp [h]))
  | cons c out => simp [Sentences.emit_gap_head hemit]

theorem mem_contentsOf {kind : PartKind} {content : String} :
    content ∈ contentsOf kind parts ↔
      ∃ part ∈ parts, part.kind = kind ∧ part.content = content ∧
        content.toList.all isSpace = false := by
  have hblank (s : String) : (strip s).isEmpty = s.toList.all isSpace := by
    rw [Bool.eq_iff_iff, String.isEmpty_iff, strip_eq_empty]
  simp only [contentsOf, List.mem_map, List.mem_filter, Bool.and_eq_true, decide_eq_true_eq,
    Bool.not_eq_true', hblank]
  constructor
  · rintro ⟨part, ⟨hmem, hkind, hvisible⟩, rfl⟩
    exact ⟨part, hmem, hkind, rfl, hvisible⟩
  · rintro ⟨part, hmem, hkind, rfl, hvisible⟩
    exact ⟨part, ⟨hmem, hkind, hvisible⟩, rfl⟩

theorem fallback_summary_ne (h : title ≠ "") : (fallback title parts).summary ≠ "" := by
  simp only [fallback, orElse]
  split
  · exact h
  · next hne => simpa using hne

theorem orElse_of_visible {text otherwise : String} (h : text.toList.all isSpace = false) :
    orElse (some text) otherwise = text := by
  refine if_neg fun hempty => ?_
  rw [String.isEmpty_iff.mp hempty] at h
  cases h

/-- The first content that shows something gives the summary, and without one it is the title. -/
theorem fallback_summary_cases :
    (∃ kind, kind ≠ .image ∧ ∃ content ∈ contentsOf kind parts,
      (fallback title parts).summary = firstSentences content) ∨
    contentsOf .text parts = [] ∧ contentsOf .table parts = [] ∧
      (fallback title parts).summary = title := by
  have hfirst {kind : PartKind} {content : String} (h : content ∈ contentsOf kind parts) :
      orElse (some (firstSentences content)) title = firstSentences content := by
    obtain ⟨-, -, -, -, hvisible⟩ := mem_contentsOf.mp h
    exact orElse_of_visible (firstSentences_visible hvisible)
  simp only [fallback, demo]
  cases htexts : contentsOf .text parts with
  | cons text texts =>
    have hmem : text ∈ contentsOf .text parts := htexts ▸ List.mem_cons_self
    exact .inl ⟨.text, by simp, text, hmem, hfirst hmem⟩
  | nil =>
    cases htables : contentsOf .table parts with
    | cons table tables =>
      have hmem : table ∈ contentsOf .table parts := htables ▸ List.mem_cons_self
      exact .inl ⟨.table, by simp, table, hmem, hfirst hmem⟩
    | nil => exact .inr ⟨rfl, rfl, by simp [orElse]⟩

theorem fallback_summary_visible :
    (fallback title parts).summary.toList.all isSpace = false ↔ Describable title parts := by
  have hcases := @fallback_summary_cases title parts
  rcases hcases with ⟨kind, hkind, content, hmem, hsummary⟩ | ⟨htexts, htables, hsummary⟩
  · obtain ⟨part, hpart, rfl, rfl, hvisible⟩ := mem_contentsOf.mp hmem
    rw [hsummary]
    exact ⟨fun _ => .inr ⟨part, hpart, hkind, hvisible⟩, fun _ => firstSentences_visible hvisible⟩
  · rw [hsummary]
    refine ⟨.inl, fun h => h.resolve_right ?_⟩
    rintro ⟨part, hpart, hkind, hvisible⟩
    have hmem : part.content ∈ contentsOf part.kind parts :=
      mem_contentsOf.mpr ⟨part, hpart, rfl, rfl, hvisible⟩
    cases hpartKind : part.kind with
    | image => exact hkind hpartKind
    | text =>
      rw [hpartKind, htexts] at hmem
      cases hmem
    | table =>
      rw [hpartKind, htables] at hmem
      cases hmem

theorem fallback_keywords_length : (fallback title parts).keywords.length ≤ 8 := by
  simp only [fallback, demo, frequencyKeywords, Words.top, List.length_map]
  exact List.length_take_le _ _

theorem fallback_questions_length : (fallback title parts).questions.length ≤ 5 := by
  simp [fallback, demo]

theorem summaryField_ne_nil : summaryField runtime members (fallback title parts) ≠ [] ↔
    (∀ text, getTruthy runtime members "summary" = some (.string text) →
      text.all isSpacePoint = false) ∧
    (getTruthy runtime members "summary" = none → Describable title parts) := by
  rw [summaryField, stripPoints_ne_nil]
  cases hsummary : getTruthy runtime members "summary" with
  | none =>
    rw [all_isSpacePoint, fallback_summary_visible]
    simp
  | some v =>
    have htruthy : truthy runtime v = true := (Option.filter_eq_some_iff.mp hsummary).2
    by_cases hstring : ∃ text, v = .string text
    · obtain ⟨text, rfl⟩ := hstring
      simp [strValue]
    · have hvisible := strValue_visible htruthy (not_exists.mp hstring)
      simp only [hvisible, true_iff]
      exact ⟨fun text h => absurd ⟨text, Option.some.inj h⟩ hstring, nofun⟩

theorem listField_ok_iff {key : String} {convert : Text → Text} {count : ℕ}
    {otherwise : List String} :
    (∃ shown, listField runtime members key convert count otherwise = .ok shown) ↔
      ∀ v, getTruthy runtime members key = some v → (iterate v).isSome := by
  simp only [listField]
  cases getTruthy runtime members key with
  | none => simp [iterate]
  | some v => cases h : iterate v <;> simp [h]

theorem listField_length {key : String} {convert : Text → Text} {count : ℕ}
    {otherwise : List String} {shown : List Text} (hotherwise : otherwise.length ≤ count)
    (h : listField runtime members key convert count otherwise = .ok shown) :
    shown.length ≤ count := by
  simp only [listField] at h
  split at h
  · cases h
  · rw [← Except.ok.inj h]
    split
    · simpa using hotherwise
    · exact List.length_take_le _ _

theorem parsePass_ok_iff {text : Text} {parsed : Option JsonObject} :
    parsePass limits text = .ok parsed ↔ parseJsonObject limits text = .ok parsed := by
  unfold parsePass
  cases parseJsonObject limits text <;> simp [Except.mapError]

def FieldsEnriched : Except PassError (Text × List Text × List Text) → Prop
  | .error _ => False
  | .ok (summary, keywords, questions) =>
    summary ≠ [] ∧ keywords.length ≤ 8 ∧ questions.length ≤ 5

theorem documentFields_enriched_none (h : title ≠ "") :
    FieldsEnriched (documentFields runtime none (fallback title parts)) := by
  refine ⟨points_ne_nil (fallback_summary_ne h), ?_, ?_⟩
  · rw [List.length_map]
    exact fallback_keywords_length
  · rw [List.length_map]
    exact fallback_questions_length

theorem documentFields_enriched_iff :
    FieldsEnriched (documentFields runtime (some members) (fallback title parts)) ↔
      FieldsUsable runtime title parts members := by
  have hkeywordsOk := @listField_ok_iff runtime members "keywords" runtime.lower 8
    (fallback title parts).keywords
  have hquestionsOk := @listField_ok_iff runtime members "questions" id 5
    (fallback title parts).questions
  simp only [documentFields]
  cases hkeywords : listField runtime members "keywords" runtime.lower 8
      (fallback title parts).keywords with
  | error e =>
    rw [hkeywords] at hkeywordsOk
    exact ⟨False.elim, fun usable => by simpa using hkeywordsOk.mpr usable.keywords⟩
  | ok keywords =>
    cases hquestions : listField runtime members "questions" id 5
        (fallback title parts).questions with
    | error e =>
      rw [hquestions] at hquestionsOk
      exact ⟨False.elim, fun usable => by simpa using hquestionsOk.mpr usable.questions⟩
    | ok questions =>
      have hlengths := And.intro (listField_length fallback_keywords_length hkeywords)
        (listField_length fallback_questions_length hquestions)
      constructor
      · rintro ⟨hsummary, -, -⟩
        obtain ⟨hstring, hnone⟩ := summaryField_ne_nil.mp hsummary
        exact ⟨hkeywordsOk.mp ⟨keywords, hkeywords⟩, hquestionsOk.mp ⟨questions, hquestions⟩,
          hstring, hnone⟩
      · intro usable
        exact ⟨summaryField_ne_nil.mpr ⟨usable.summary, usable.noSummary⟩, hlengths⟩

theorem tablePreambles_iff :
    (∃ preambles, tablePreambles runtime limits responses title parts = .ok preambles) ↔
      (tableIndexes parts ≠ [] → ¬ ExceedsLimits limits (spanned
        (generate responses (1 + (captioned parts).length) (tableRequest title parts)))) := by
  unfold tablePreambles
  split
  · next hnone => simp [hnone]
  · next hsome =>
    rw [← parseJsonObject_ok]
    simp only [← parsePass_ok_iff, ne_eq, hsome, not_false_eq_true, true_imp_iff]
    cases parsePass limits _ <;> simp [bind, Except.bind, pure, Except.pure]

theorem tablePreambles_indexes {preambles : List (ℕ × Text)}
    (h : tablePreambles runtime limits responses title parts = .ok preambles) :
    preambles.map (·.1) = tableIndexes parts := by
  unfold tablePreambles at h
  split at h
  · next hnone => rw [hnone, ← Except.ok.inj h, List.map_nil]
  · obtain ⟨parsed, -, h⟩ := Effects.bind_ok h
    rw [← Except.ok.inj h, List.map_map]
    exact List.zipIdx_map_fst 0 _

theorem captionsPass_indexes : (captionsPass showImage responses title parts).map (·.1) =
    (captioned parts).map (·.2) := by
  conv_rhs => rw [← List.zipIdx_map_fst 0 (captioned parts), List.map_map]
  rw [captionsPass, List.map_map]
  rfl

theorem passes_enriched_iff_parts {parsed : Option JsonObject}
    (h : parsePass limits (generate responses 0 (documentRequest title parts)) = .ok parsed) :
    Enriched parts (passes runtime showImage limits responses title parts) ↔
      FieldsEnriched (documentFields runtime parsed (fallback title parts)) ∧
        ∃ preambles, tablePreambles runtime limits responses title parts = .ok preambles := by
  simp only [passes, h]
  change Enriched parts ((documentFields runtime parsed (fallback title parts)).bind _) ↔ _
  cases documentFields runtime parsed (fallback title parts) with
  | error e => exact ⟨False.elim, fun h => h.1⟩
  | ok fields =>
    cases hpreambles : tablePreambles runtime limits responses title parts with
    | error e => exact ⟨False.elim, nofun⟩
    | ok preambles =>
      refine ⟨fun h => ⟨⟨h.1, h.2.1, h.2.2.1⟩, preambles, rfl⟩, fun h => ?_⟩
      exact ⟨h.1.1, h.1.2.1, h.1.2.2, captionsPass_indexes, tablePreambles_indexes hpreambles⟩

theorem passes_enriched_iff (named : title ≠ "") :
    Enriched parts (passes runtime showImage limits responses title parts) ↔
      AnswersUsable runtime limits responses title parts := by
  cases hparse : parsePass limits (generate responses 0 (documentRequest title parts)) with
  | error e =>
    have hexceeds := mt parseJsonObject_ok.mpr (by
      rintro ⟨parsed, h⟩
      rw [parsePass_ok_iff.mpr h] at hparse
      cases hparse)
    simp only [passes, hparse]
    exact ⟨False.elim, fun usable => hexceeds usable.document⟩
  | ok parsed =>
    have hparsed := parsePass_ok_iff.mp hparse
    have fits := parseJsonObject_ok.mp ⟨parsed, hparsed⟩
    rw [passes_enriched_iff_parts hparse, tablePreambles_iff]
    cases parsed with
    | none =>
      refine ⟨fun h => ⟨fits, h.2, fun members hobject => ?_⟩,
        fun usable => ⟨documentFields_enriched_none named, usable.tables⟩⟩
      cases Except.ok.inj (hparsed.symm.trans (parseJsonObject_found fits hobject))
    | some members =>
      rw [documentFields_enriched_iff]
      refine ⟨fun h => ⟨fits, h.2, fun members' hobject => ?_⟩,
        fun usable => ⟨usable.fields members (parseJsonObject_ok_iff.mp hparsed).2, usable.tables⟩⟩
      have hfound := hparsed.symm.trans (parseJsonObject_found fits hobject)
      rw [← Option.some.inj (Except.ok.inj hfound)]
      exact h.1

/-- The passes of both families return a complete result exactly when the answers can be used. -/
theorem bad_output_iff (runtime : Runtime) (limits : Limits) (responses : Responses)
    (title : String) (parts : List ExtractedPart) (named : title ≠ "") :
    (Enriched parts (geminiPasses runtime limits responses title parts) ↔
      AnswersUsable runtime limits responses title parts) ∧
    (Enriched parts (openaiPasses runtime limits responses title parts) ↔
      AnswersUsable runtime limits responses title parts) :=
  ⟨passes_enriched_iff named, passes_enriched_iff named⟩

namespace Handbook

/-- The conversions of a runtime, on texts in ASCII and without floats. -/
def plainRuntime : Runtime where
  lower text := text.map fun c => if 0x41 ≤ c ∧ c ≤ 0x5A then c + 0x20 else c
  reprString text := 0x27 :: (text ++ [0x27])
  reprFloat _ := points "0.0"
  isZero _ := true
  reprFloat_visible _ := rfl

def decoderLimits : Limits := ⟨4300, 1000⟩

def answering (text : String) : Responses := fun _ _ => some (points text)

def prose : Responses := answering "Here are the \x7bkeywords\x7d: none."

def sections : List ExtractedPart :=
  [{ kind := .text, content := "Press start." },
    { kind := .image, imageBytes := some [0x89, 0x50], mime := "image/png" },
    { kind := .table, content := "| Key | Use |" }]

/-- An object with a number where the keywords should be. -/
def counted : Responses :=
  answering "\x7b\"summary\": \"A guide.\", \"keywords\": 5\x7d"

end Handbook

/-- Prose with braces in it falls back to the demo passes, for an image and a table too. -/
theorem bad_output_prose :
    Enriched Handbook.sections (geminiPasses Handbook.plainRuntime Handbook.decoderLimits
      Handbook.prose "Guide" Handbook.sections) ∧
    Enriched Handbook.sections (openaiPasses Handbook.plainRuntime Handbook.decoderLimits
      Handbook.prose "Guide" Handbook.sections) ∧
    (captioned Handbook.sections).map (·.2) = [1] ∧ tableIndexes Handbook.sections = [2] := by
  have hnone (n : ℕ) (request : ModelRequest) : parseJsonObject Handbook.decoderLimits
      (generate Handbook.prose n request) = .ok none := rfl
  have fits (n : ℕ) (request : ModelRequest) := parseJsonObject_ok.mp ⟨_, hnone n request⟩
  have usable : AnswersUsable Handbook.plainRuntime Handbook.decoderLimits Handbook.prose
      "Guide" Handbook.sections :=
    ⟨fits _ _, fun _ => fits _ _, fun members hobject => by
      cases Except.ok.inj ((hnone _ _).symm.trans (parseJsonObject_found (fits _ _) hobject))⟩
  have hboth := bad_output_iff Handbook.plainRuntime Handbook.decoderLimits Handbook.prose
    "Guide" Handbook.sections (by decide)
  exact ⟨hboth.1.mpr usable, hboth.2.mpr usable, rfl, rfl⟩

/-- A number where the keywords should be raises a `TypeError`. -/
theorem bad_output_counted :
    ¬ ∀ (runtime : Runtime) (limits : Limits) (responses : Responses) (title : String)
      (parts : List ExtractedPart), title ≠ "" →
        Enriched parts (geminiPasses runtime limits responses title parts) ∧
          Enriched parts (openaiPasses runtime limits responses title parts) := by
  intro h
  have herror : geminiPasses Handbook.plainRuntime Handbook.decoderLimits Handbook.counted
      "Guide" [] = .error .typeError := rfl
  have henriched := (h Handbook.plainRuntime Handbook.decoderLimits Handbook.counted "Guide" []
    (by decide)).1
  rw [herror] at henriched
  exact henriched

end Docsage
