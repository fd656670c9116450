import Docsage.Enrichment.Keywords
import Docsage.Ingestion.ChunkParity

/-! # The two demo enrichments

.NET promises the bytes of FastAPI. It takes the same sentences, words and phrases
from a document, but for four characters that only Python counts as white space,
for the dotted capital I, and for a document without text, whose keywords FastAPI
takes from the title. The header that is embedded with every chunk also depends on
the unit in which the summary is cut.
-/

namespace Docsage
open Text Recoding Windows

attribute [ext] DotNet.EnrichmentPlan

def DotNet.extracted (p : Docsage.ExtractedPart) : DotNet.ExtractedPart where
  kind := p.kind.chunkKind
  content := utf16 p.content
  page := p.page
  imageName := if p.kind = .image then some (utf16 p.filename) else none

def DotNet.planOf (e : EnrichmentResult) : EnrichmentPlan where
  summary := utf16 e.summary
  keywords := e.keywords.map utf16
  questions := e.questions.map utf16
  captions := e.captions.map fun c => (c.1, utf16 c.2)
  tablePreambles := preamblesOf e.tablePreambles

def portPlan (title : String) (parts : List ExtractedPart) : DotNet.EnrichmentPlan :=
  DotNet.generateAsync (utf16 title) (parts.map DotNet.extracted)

/-- Both backends describe the document alike, and embed its chunks under the same header. -/
structure DemoParity (title : String) (parts : List ExtractedPart) : Prop where
  plan : portPlan title parts = DotNet.planOf (demo title parts)
  header : DotNet.header (utf16 title) (portPlan title parts) =
    utf16 (embeddingHeader title (demo title parts))

/-- What can be described: the text parts, and then the table parts. -/
def sources (parts : List ExtractedPart) : List String :=
  (parts.filter (·.kind = .text) ++ parts.filter (·.kind = .table)).map (·.content)

def sourceText (parts : List ExtractedPart) : Option String :=
  (sources parts).find? fun text => !isNullOrWhiteSpace (some text)

/-- The first two sentences end and begin at the same places for both. A source that is blank for
Python only is a summary in .NET, which is right when the title is the same white space. -/
def SummaryAgrees (title : String) (parts : List ExtractedPart) : Prop :=
  match sourceText parts with
  | none => True
  | some text =>
    if strip text = "" then (∀ t ∈ sources parts, strip t = "") ∧ trim text = title
    else Sentences.sameEdges isSpace isWhiteSpace isEndMark 1 .gap text.toList = true

/-- There is a text to take keywords from, or none in the title either. -/
def KeywordsAgree (title : String) (parts : List ExtractedPart) : Prop :=
  (∃ text ∈ sources parts, strip text ≠ "") ∨ countedWords title = []

def leadText (title : String) (parts : List ExtractedPart) : String :=
  match sourceText parts with
  | none => title
  | some text => if strip text = "" then title else firstSentences text

/-- The cut keeps everything in both, or no character before it takes two code units. -/
def HeaderAgrees (title : String) (parts : List ExtractedPart) : Prop :=
  (utf16 (leadText title parts)).length ≤ 120 ∨
    Narrow unitsOfChar ((leadText title parts).toList.take 120)

section

variable {title text : String} {parts : List ExtractedPart}

theorem isEndMark_not_isSpace (c : Char) (h : isEndMark c = true) : isSpace c = false := by
  simp only [isEndMark, Bool.or_eq_true, beq_iff_eq] at h
  rcases h with (rfl | rfl) | rfl <;> rfl

theorem isSpace_of_isWhiteSpace (c : Char) (h : isWhiteSpace c = true) : isSpace c = true := by
  rw [isSpace, h, Bool.true_or]

theorem isEndMark_not_isWhiteSpace (c : Char) (h : isEndMark c = true) : isWhiteSpace c = false :=
  (Bool.or_eq_false_iff.mp (isEndMark_not_isSpace c h)).1

theorem reads_isEndMark : Reads unitsOfChar isEndMark (onUnit isEndMark) := by
  refine reads_units (fun c hc => ?_) rfl
  simp only [isEndMark, Bool.or_eq_true, beq_iff_eq] at hc
  rcases hc with (rfl | rfl) | rfl <;> decide

theorem DotNet.firstSentences_utf16 (text : String) : DotNet.firstSentences (utf16 text) =
    (Sentences.leading isWhiteSpace isEndMark [' '] 2 text.toList).flatMap unitsOfChar := by
  have hunits (u : UInt16) (h : onUnit isEndMark u = true) : isWhiteSpaceUnit u = false :=
    isEndMark_not_isWhiteSpace _ h
  rw [DotNet.firstSentences, Sentences.leading_eq_emit hunits,
    Sentences.leading_eq_emit isEndMark_not_isWhiteSpace]
  exact Sentences.emit_flatMap unitsOfChar_ne_nil reads_isWhiteSpace reads_isEndMark .gap

theorem firstSentences_agree_iff :
    DotNet.firstSentences (utf16 text) = utf16 (firstSentences text) ↔
      Sentences.sameEdges isSpace isWhiteSpace isEndMark 1 .gap text.toList = true := by
  rw [DotNet.firstSentences_utf16, firstSentences, utf16_ofList, unitsOfChars_injective.eq_iff,
    Sentences.leading_eq_emit isEndMark_not_isSpace,
    Sentences.leading_eq_emit isEndMark_not_isWhiteSpace, eq_comm]
  exact Sentences.emit_eq_emit_iff isSpace_of_isWhiteSpace ⟨' ', [], rfl, rfl⟩ text.toList 1 .gap

/-- A text that is blank for Python is its own summary in .NET. -/
theorem DotNet.firstSentences_blank (h : strip text = "") :
    DotNet.firstSentences (utf16 text) = utf16 (trim text) := by
  have hmark (c : Char) (hc : c ∈ text.toList) : isEndMark c = false := by
    have hspace := List.all_eq_true.mp (strip_eq_empty.mp h) c hc
    by_contra hend
    rw [isEndMark_not_isSpace c (by simpa using hend)] at hspace
    cases hspace
  rw [DotNet.firstSentences_utf16, Sentences.leading_of_unmarked hmark, ← utf16_ofList]
  rfl

theorem chunkKind_inj {kind kind' : PartKind} :
    kind.chunkKind = kind'.chunkKind ↔ kind = kind' := by
  cases kind <;> cases kind' <;> decide

theorem contentsOf_append : contentsOf .text parts ++ contentsOf .table parts =
    (sources parts).filter fun text => !(strip text).isEmpty := by
  have hkind (kind : PartKind) : contentsOf kind parts =
      ((parts.filter (·.kind = kind)).map (·.content)).filter fun text =>
        !(strip text).isEmpty := by
    rw [contentsOf, List.filter_map, List.filter_filter]
    refine congrArg (List.map _) (List.filter_congr fun p _ => ?_)
    rw [Bool.and_comm, Function.comp_apply]
  rw [hkind, hkind, sources, List.map_append, List.filter_append]

theorem contentsOf_extracted :
    DotNet.contentsOf .text (parts.map DotNet.extracted) ++
        DotNet.contentsOf .table (parts.map DotNet.extracted) =
      ((sources parts).filter fun text => !isNullOrWhiteSpace (some text)).map utf16 := by
  have hkind (kind : PartKind) : DotNet.contentsOf kind.chunkKind (parts.map DotNet.extracted) =
      (((parts.filter (·.kind = kind)).map (·.content)).filter fun text =>
        !isNullOrWhiteSpace (some text)).map utf16 := by
    rw [DotNet.contentsOf, List.filter_map, List.filter_map, List.filter_filter, List.map_map,
      List.map_map]
    refine congrArg (List.map _) (List.filter_congr fun p _ => ?_)
    have hblank := reads_isWhiteSpace.all unitsOfChar_ne_nil p.content.toList
    simp only [Function.comp_apply, DotNet.extracted, chunkKind_inj, utf16, hblank,
      isNullOrWhiteSpace]
    rw [Bool.and_comm]
  rw [sources, List.map_append, List.filter_append, List.map_append, ← hkind, ← hkind]
  rfl

theorem demo_summary : (demo title parts).summary =
    ((sources parts).find? fun text => !(strip text).isEmpty).elim title
      fun text => firstSentences text := by
  rw [← List.head?_filter, ← contentsOf_append, demo]
  cases contentsOf .text parts with
  | nil => cases contentsOf .table parts <;> rfl
  | cons text texts => rfl

theorem portPlan_summary :
    (portPlan title parts).summary =
      (sourceText parts).elim (utf16 title) fun text => DotNet.firstSentences (utf16 text) := by
  have hhead : (DotNet.contentsOf .text (parts.map DotNet.extracted) ++
      DotNet.contentsOf .table (parts.map DotNet.extracted)).head? =
        (sourceText parts).map utf16 := by
    rw [contentsOf_extracted, List.head?_map, List.head?_filter, sourceText]
  have helim : (portPlan title parts).summary =
      (DotNet.contentsOf .text (parts.map DotNet.extracted) ++
        DotNet.contentsOf .table (parts.map DotNet.extracted)).head?.elim (utf16 title)
          DotNet.firstSentences := by
    rw [portPlan, DotNet.generateAsync]
    cases DotNet.contentsOf .text (parts.map DotNet.extracted) with
    | nil => cases DotNet.contentsOf .table (parts.map DotNet.extracted) <;> rfl
    | cons text texts => rfl
  rw [helim, hhead]
  cases sourceText parts <;> rfl

theorem strip_eq_empty_of_isNullOrWhiteSpace (h : isNullOrWhiteSpace (some text) = true) :
    strip text = "" :=
  strip_eq_empty.mpr (List.all_eq_true.mpr fun c hc =>
    isSpace_of_isWhiteSpace c (List.all_eq_true.mp h c hc))

theorem find?_strip_eq_none : ((sources parts).find? fun text => !(strip text).isEmpty) = none ↔
    ∀ text ∈ sources parts, strip text = "" := by
  simp only [List.find?_eq_none, Bool.not_eq_true', Bool.not_eq_false, String.isEmpty_iff]

/-- What .NET takes the summary from is what FastAPI takes it from, when Python does not count it
as blank. -/
theorem find?_strip_of_sourceText (h : sourceText parts = some text) (hne : strip text ≠ "") :
    ((sources parts).find? fun text => !(strip text).isEmpty) = some text := by
  rw [sourceText, List.find?_eq_some_iff_append] at h
  obtain ⟨-, before, after, hsources, hbefore⟩ := h
  rw [List.find?_eq_some_iff_append]
  refine ⟨by simpa using hne, before, after, hsources, fun t ht => ?_⟩
  have hblank := strip_eq_empty_of_isNullOrWhiteSpace (by simpa using hbefore t ht)
  rw [hblank]
  rfl

theorem find?_strip_of_sourceText_none (h : sourceText parts = none) :
    ((sources parts).find? fun text => !(strip text).isEmpty) = none := by
  rw [sourceText, List.find?_eq_none] at h
  exact find?_strip_eq_none.mpr fun t ht =>
    strip_eq_empty_of_isNullOrWhiteSpace (by simpa using h t ht)

theorem trim_ne_firstSentences {blank : String} (hblank : strip blank = "") (h : strip text ≠ "") :
    trim blank ≠ firstSentences text := by
  intro heq
  have hne : ¬ text.toList.all isSpace = true := fun hall => h (strip_eq_empty.mpr hall)
  have hemit : (firstSentences text).toList =
      Sentences.emit isSpace isEndMark [' '] 1 .gap text.toList := by
    rw [firstSentences, String.toList_ofList, Sentences.leading_eq_emit isEndMark_not_isSpace]
  obtain ⟨c, rest, hc⟩ := List.exists_cons_of_ne_nil
    (@Sentences.emit_gap_ne_nil Char isSpace isEndMark [' '] text.toList 1 hne)
  have hmem : c ∈ (trim blank).toList := by
    rw [heq, hemit, hc]
    exact List.mem_cons_self
  have htrim : (trim blank).toList = Sentences.strip isWhiteSpace blank.toList :=
    String.toList_ofList
  rw [htrim] at hmem
  have hspace := List.all_eq_true.mp (strip_eq_empty.mp hblank) c (Sentences.strip_subset hmem)
  rw [Sentences.emit_gap_head hc] at hspace
  cases hspace

theorem summary_agrees_iff :
    (portPlan title parts).summary = utf16 (demo title parts).summary ↔
      SummaryAgrees title parts := by
  rw [portPlan_summary, demo_summary, SummaryAgrees]
  cases hsource : sourceText parts with
  | none =>
    rw [find?_strip_of_sourceText_none hsource]
    exact iff_of_true rfl trivial
  | some text =>
    simp only [Option.elim_some]
    by_cases hblank : strip text = ""
    · rw [if_pos hblank, DotNet.firstSentences_blank hblank, utf16_injective.eq_iff]
      cases hfind : (sources parts).find? fun text => !(strip text).isEmpty with
      | none =>
        rw [Option.elim_none, and_iff_right (find?_strip_eq_none.mp hfind)]
      | some t =>
        have ht : strip t ≠ "" := by simpa using List.find?_some hfind
        refine iff_of_false (trim_ne_firstSentences hblank ht) fun h => ?_
        exact ht (h.1 t (List.mem_of_find?_eq_some hfind))
    · rw [if_neg hblank, find?_strip_of_sourceText hsource hblank, Option.elim_some]
      exact firstSentences_agree_iff

theorem demo_summary_eq_leadText (h : SummaryAgrees title parts) :
    (demo title parts).summary = leadText title parts := by
  rw [SummaryAgrees] at h
  rw [demo_summary, leadText]
  cases hsource : sourceText parts with
  | none => rw [find?_strip_of_sourceText_none hsource, Option.elim_none]
  | some text =>
    rw [hsource] at h
    by_cases hblank : strip text = ""
    · simp only [if_pos hblank] at h ⊢
      rw [find?_strip_eq_none.mpr h.1, Option.elim_none]
    · simp only [if_neg hblank]
      rw [find?_strip_of_sourceText hsource hblank, Option.elim_some]

theorem flatMap_filter_of_nil {α β : Type} {keep : α → Bool} {g : α → List β} {l : List α}
    (h : ∀ a ∈ l, keep a = false → g a = []) : (l.filter keep).flatMap g = l.flatMap g := by
  induction l with
  | nil => rfl
  | cons a l ih =>
    obtain ⟨ha, hl⟩ := List.forall_mem_cons.mp h
    cases hkeep : keep a with
    | true => rw [List.filter_cons_of_pos hkeep, List.flatMap_cons, ih hl, List.flatMap_cons]
    | false =>
      rw [List.filter_cons_of_neg (by simp [hkeep]), ih hl, List.flatMap_cons, ha hkeep,
        List.nil_append]

theorem intercalate_ne_empty {separator : String} {texts : List String} (h : texts ≠ [])
    (hne : ∀ t ∈ texts, t ≠ "") : separator.intercalate texts ≠ "" := by
  cases texts with
  | nil => exact absurd rfl h
  | cons first rest =>
    have hfirst := hne first List.mem_cons_self
    cases rest with
    | nil => rwa [String.intercalate_singleton]
    | cons next rest =>
      rw [String.intercalate_cons_cons]
      simp [hfirst]

theorem countedWords_blank (h : strip text = "") : countedWords text = [] :=
  wordsBy_blank (fun _ => lowerChar_space) (strip_eq_empty.mp h)

theorem wordsBy_lowered_blank (h : strip text = "") :
    wordsBy DotNet.lowered none text.toList = [] :=
  wordsBy_blank (fun _ => DotNet.lowered_space) (strip_eq_empty.mp h)

theorem portPlan_keywords : (portPlan title parts).keywords =
    ((Words.top (List.map Char.toNat) 8 ((sources parts).flatMap fun t =>
      wordsBy DotNet.lowered none t.toList)).map String.ofList).map utf16 := by
  have hblank (t : String) (_ : t ∈ sources parts)
      (h : (!isNullOrWhiteSpace (some t)) = false) : wordsBy DotNet.lowered none t.toList = [] :=
    wordsBy_lowered_blank (strip_eq_empty_of_isNullOrWhiteSpace (by simpa using h))
  have hkeywords : (portPlan title parts).keywords =
      DotNet.frequencyKeywords (DotNet.contentsOf .text (parts.map DotNet.extracted) ++
        DotNet.contentsOf .table (parts.map DotNet.extracted)) := rfl
  rw [hkeywords, contentsOf_extracted, DotNet.frequencyKeywords_utf16, flatMap_filter_of_nil hblank]

theorem demo_keywords_eq : (demo title parts).keywords = frequencyKeywords (orElse
    (some ("\n".intercalate ((sources parts).filter fun text => !(strip text).isEmpty)))
    title) := by
  rw [← contentsOf_append, demo]

theorem orElse_of_ne {s : String} (h : s ≠ "") : orElse (some s) title = s :=
  if_neg (by simpa using h)

theorem demo_keywords (h : ∃ text ∈ sources parts, strip text ≠ "") :
    (demo title parts).keywords =
      (Words.top (List.map Char.toNat) 8 ((sources parts).flatMap countedWords)).map
        String.ofList := by
  have hblank (t : String) (_ : t ∈ sources parts) (h : (!(strip t).isEmpty) = false) :
      countedWords t = [] := countedWords_blank (by simpa using h)
  have hjoined :
      "\n".intercalate ((sources parts).filter fun text => !(strip text).isEmpty) ≠ "" := by
    obtain ⟨text, hmem, hne⟩ := h
    refine intercalate_ne_empty
      (List.ne_nil_of_mem (List.mem_filter.mpr ⟨hmem, by simpa using hne⟩))
      fun t ht hempty => ?_
    rw [hempty] at ht
    exact absurd (List.mem_filter.mp ht).2 (by decide)
  rw [demo_keywords_eq, orElse_of_ne hjoined, frequencyKeywords_intercalate,
    flatMap_filter_of_nil hblank]

theorem demo_keywords_of_blank (h : ∀ text ∈ sources parts, strip text = "") :
    (demo title parts).keywords = frequencyKeywords title := by
  have hnone : (sources parts).filter (fun text => !(strip text).isEmpty) = [] := by
    rw [List.filter_eq_nil_iff]
    intro t ht
    rw [h t ht]
    decide
  have hempty : orElse (some ("\n".intercalate [])) title = title := rfl
  rw [demo_keywords_eq, hnone, hempty]

theorem keywords_agree (plain : ∀ text ∈ sources parts, undotted 0 text.toList = true)
    (h : KeywordsAgree title parts) :
    (portPlan title parts).keywords = (demo title parts).keywords.map utf16 := by
  have hwords : ((sources parts).flatMap fun t => wordsBy DotNet.lowered none t.toList) =
      (sources parts).flatMap countedWords :=
    List.flatMap_congr fun t ht => (countedWords_eq_iff.mpr (plain t ht)).symm
  by_cases hsome : ∃ text ∈ sources parts, strip text ≠ ""
  · rw [portPlan_keywords, demo_keywords hsome, hwords]
  · have hblank : ∀ text ∈ sources parts, strip text = "" := by
      simpa using hsome
    have hnil : (sources parts).flatMap countedWords = [] :=
      List.flatMap_eq_nil_iff.mpr fun t ht => countedWords_blank (hblank t ht)
    rw [portPlan_keywords, hwords, hnil, demo_keywords_of_blank hblank, frequencyKeywords,
      h.resolve_left hsome]

theorem keywordsAgree_of_eq
    (h : (portPlan title parts).keywords = (demo title parts).keywords.map utf16) :
    KeywordsAgree title parts := by
  by_cases hsome : ∃ text ∈ sources parts, strip text ≠ ""
  · exact .inl hsome
  · right
    have hblank : ∀ text ∈ sources parts, strip text = "" := by
      simpa using hsome
    have hnil : ((sources parts).flatMap fun t => wordsBy DotNet.lowered none t.toList) = [] :=
      List.flatMap_eq_nil_iff.mpr fun t ht => wordsBy_lowered_blank (hblank t ht)
    rw [portPlan_keywords, hnil, demo_keywords_of_blank hblank, frequencyKeywords] at h
    have htop : Words.top (List.map Char.toNat) 8 (countedWords title) = [] :=
      List.map_eq_nil_iff.mp (List.map_eq_nil_iff.mp h.symm)
    exact (Words.top_eq_nil (by omega)).mp htop

/-- Phrases for the parts of one kind, when they agree on every part of the kind. -/
theorem phrases_extracted (kind : PartKind) (phrase : DotNet.ExtractedPart → Utf16)
    (phrase' : ExtractedPart → String)
    (h : ∀ p : ExtractedPart, p.kind = kind → phrase (DotNet.extracted p) = utf16 (phrase' p)) :
    (((parts.map DotNet.extracted).zipIdx.filter fun p => p.1.kind = kind.chunkKind).map fun p =>
        (p.2, phrase p.1)) =
      ((parts.zipIdx.filter fun p => p.1.kind = kind).map fun p => (p.2, phrase' p.1)).map
        fun e => (e.1, utf16 e.2) := by
  have hkind (p : ExtractedPart) : (DotNet.extracted p).kind = kind.chunkKind ↔ p.kind = kind :=
    chunkKind_inj
  rw [List.zipIdx_map, List.filter_map, List.map_map, List.map_map]
  simp only [Function.comp_def, Prod.map_fst, Prod.map_snd, id, hkind]
  refine List.map_congr_left fun p hp => ?_
  rw [h p.1 (by simpa using (List.mem_filter.mp hp).2)]

theorem portPlan_captions :
    (portPlan title parts).captions = (DotNet.planOf (demo title parts)).captions := by
  simp only [portPlan, DotNet.generateAsync, DotNet.planOf, demo]
  refine phrases_extracted .image
    (fun q => utf16 "Image " ++ q.imageName.getD [] ++
      utf16 ": chart or photograph extracted from " ++ utf16 title ++ utf16 " (demo caption)")
    (fun p => "Image " ++ p.filename ++ ": chart or photograph extracted from " ++ title ++
      " (demo caption)") fun p hp => ?_
  simp only [DotNet.extracted, hp, if_true, Option.getD_some, utf16_append]

theorem portPlan_tablePreambles :
    (portPlan title parts).tablePreambles = (DotNet.planOf (demo title parts)).tablePreambles := by
  simp only [portPlan, DotNet.generateAsync, DotNet.planOf, DotNet.preamblesOf, demo]
  refine phrases_extracted .table (fun _ => utf16 "Table from " ++ utf16 title ++ utf16 ".")
    (fun _ => "Table from " ++ title ++ ".") fun p _ => ?_
  simp only [utf16_append]

theorem portPlan_questions
    (h : (portPlan title parts).keywords = (demo title parts).keywords.map utf16) :
    (portPlan title parts).questions = (DotNet.planOf (demo title parts)).questions := by
  have hport : (portPlan title parts).questions =
      ((portPlan title parts).keywords.take 3).map fun keyword =>
        utf16 "What does " ++ utf16 title ++ utf16 " say about " ++ keyword ++ utf16 "?" := by
    simp only [portPlan, DotNet.generateAsync]
  have hdemo : (DotNet.planOf (demo title parts)).questions =
      (((demo title parts).keywords.take 3).map fun keyword =>
        "What does " ++ title ++ " say about " ++ keyword ++ "?").map utf16 := by
    simp only [DotNet.planOf, demo]
  rw [hport, h, hdemo, ← List.map_take, List.map_map, List.map_map]
  refine List.map_congr_left fun keyword _ => ?_
  simp only [Function.comp_apply, utf16_append]

/-- The rest follows from the summary and the keywords. -/
theorem plan_agrees_iff : portPlan title parts = DotNet.planOf (demo title parts) ↔
    (portPlan title parts).summary = utf16 (demo title parts).summary ∧
      (portPlan title parts).keywords = (demo title parts).keywords.map utf16 := by
  have hquestions := @portPlan_questions title parts
  have hcaptions := @portPlan_captions title parts
  have hpreambles := @portPlan_tablePreambles title parts
  generalize portPlan title parts = plan at *
  generalize demo title parts = e at *
  constructor
  · rintro rfl
    exact ⟨rfl, rfl⟩
  · rintro ⟨hsummary, hkeywords⟩
    exact DotNet.EnrichmentPlan.ext hsummary hkeywords (hquestions hkeywords) hcaptions hpreambles

theorem header_agrees_iff (e : EnrichmentResult) :
    DotNet.header (utf16 title) (DotNet.planOf e) = utf16 (embeddingHeader title e) ↔
      (utf16 e.summary).length ≤ 120 ∨ Narrow unitsOfChar (e.summary.toList.take 120) := by
  have hkeywords : DotNet.joinComma ((e.keywords.map utf16).take 6) =
      utf16 (joinComma (e.keywords.take 6)) := by
    rw [DotNet.joinComma, joinComma, utf16_intercalate, List.map_take]
  have hcut : (utf16 e.summary).take 120 = utf16 (String.ofList (e.summary.toList.take 120)) ↔
      (utf16 e.summary).length ≤ 120 ∨ Narrow unitsOfChar (e.summary.toList.take 120) := by
    rw [utf16_ofList]
    exact take_flatMap_iff unitsOfChar_ne_nil 120
  simp only [DotNet.header, DotNet.planOf, embeddingHeader, utf16_append, hkeywords,
    List.append_cancel_right_eq, List.append_cancel_left_eq, hcut]

end

/-- .NET describes a document as FastAPI does only if the sentences, the source of the keywords and
the cut of the header agree, and then it does, unless a dotted capital I stands behind a word. -/
theorem demo_parity (title : String) (parts : List ExtractedPart) :
    (DemoParity title parts →
      SummaryAgrees title parts ∧ KeywordsAgree title parts ∧ HeaderAgrees title parts) ∧
    ((∀ text ∈ sources parts, undotted 0 text.toList = true) →
      SummaryAgrees title parts ∧ KeywordsAgree title parts ∧ HeaderAgrees title parts →
        DemoParity title parts) := by
  constructor
  · rintro ⟨hplan, hheader⟩
    obtain ⟨hsummary, hkeywords⟩ := plan_agrees_iff.mp hplan
    have hagree := summary_agrees_iff.mp hsummary
    refine ⟨hagree, keywordsAgree_of_eq hkeywords, ?_⟩
    rw [hplan, header_agrees_iff, demo_summary_eq_leadText hagree] at hheader
    exact hheader
  · rintro plain ⟨hsummary, hkeywords, hheader⟩
    have hplan := plan_agrees_iff.mpr
      ⟨summary_agrees_iff.mpr hsummary, keywords_agree plain hkeywords⟩
    refine ⟨hplan, ?_⟩
    rw [hplan, header_agrees_iff, demo_summary_eq_leadText hsummary]
    exact hheader

theorem demo_parity_note :
    DemoParity "Policy"
      [{ kind := .text, content := "Telework is fine.  Ask first! Thanks." }] := by
  refine (demo_parity _ _).2 (by decide) ⟨?_, .inl (by decide), .inl (by decide)⟩
  have hsource :
      sourceText [{ kind := .text, content := "Telework is fine.  Ask first! Thanks." }] =
      some "Telework is fine.  Ask first! Thanks." := by decide
  rw [SummaryAgrees, hsource]
  decide

/-- An image alone: FastAPI takes the keywords from the title. -/
theorem demo_disparity : ¬ ∀ (title : String) (parts : List ExtractedPart),
    DemoParity title parts := by
  intro h
  have hplan := (h "Quarterly budget" [{ kind := .image, filename := "chart.png" }]).plan
  have hkeywords := congrArg DotNet.EnrichmentPlan.keywords hplan
  exact absurd (congrArg List.length hkeywords) (by decide)

end Docsage
