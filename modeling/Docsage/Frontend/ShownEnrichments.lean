import Docsage.Frontend.DocumentDetail
import Docsage.Ingestion.Orm

/-! # Enrichments through the database

`_persist_enrichments` commits its rows, the caption rows join them later, and the
detail endpoint returns all of them in no particular order. The dialog then shows
the keywords and the questions that were persisted exactly when the row of keywords
can be read back and there is one question at most.
-/

namespace Docsage
open Text

namespace DocumentDetail

/-- What `document_detail` may return: every row of the document, in no particular order. -/
def Selected (s : Store) (documentId : Uuid) (returned : List Enrichment) : Prop :=
  returned.Perm (s.enrichmentsOf documentId)

section Rows
variable {documentId : Uuid} {enrichment : EnrichmentResult} {captions returned : List Enrichment}
  {kind : EnrichmentKind}

theorem findKind_eq_head? (rows : List Enrichment) :
    findKind kind rows = (rows.filter fun row => row.kind = kind).head? :=
  List.head?_filter.symm

theorem filter_captions (hcaptions : ∀ row ∈ captions, row.kind = .caption)
    (hkind : kind ≠ .caption) : captions.filter (fun row => row.kind = kind) = [] := by
  rw [List.filter_eq_nil_iff]
  intro row hrow
  simpa [hcaptions row hrow] using hkind.symm

theorem filter_keywords (hcaptions : ∀ row ∈ captions, row.kind = .caption) :
    (persistEnrichments documentId enrichment ++ captions).filter
        (fun row => row.kind = .keywords) =
      if enrichment.keywords.isEmpty then []
      else [{ documentId, kind := .keywords, content := joinComma enrichment.keywords }] := by
  rw [List.filter_append, filter_captions hcaptions (by decide), List.append_nil]
  unfold persistEnrichments
  split <;> simp [List.filter_eq_nil_iff]

theorem filter_questions (hcaptions : ∀ row ∈ captions, row.kind = .caption) :
    (persistEnrichments documentId enrichment ++ captions).filter
        (fun row => row.kind = .questions) =
      enrichment.questions.map fun question =>
        { documentId, kind := .questions, content := question } := by
  rw [List.filter_append, filter_captions hcaptions (by decide), List.append_nil]
  unfold persistEnrichments
  split <;> simp

variable (hcaptions : ∀ row ∈ captions, row.kind = .caption)
  (hrows : returned.Perm (persistEnrichments documentId enrichment ++ captions))
include hcaptions hrows

theorem shownKeywords_eq_iff {numberText : Utf16 → Utf16} (numbers : WritesNumbers numberText)
    (tidy : ∀ keyword ∈ enrichment.keywords, Tidy keyword) :
    shownKeywords numberText returned = enrichment.keywords.map utf16 ↔
      jsonEntries? numberText (utf16 (joinComma enrichment.keywords)) = none ∧
        ∀ keyword ∈ enrichment.keywords, ',' ∉ keyword.toList ∧ plain keyword = true := by
  have hperm := hrows.filter fun row => row.kind = .keywords
  rw [filter_keywords hcaptions] at hperm
  rw [shownKeywords, findKind_eq_head?]
  by_cases hempty : enrichment.keywords = []
  · rw [if_pos (by simp [hempty]), List.perm_nil] at hperm
    rw [hperm, hempty]
    exact iff_of_true rfl ⟨rfl, List.forall_mem_nil _⟩
  · rw [if_neg (by simpa using hempty), List.perm_singleton] at hperm
    rw [hperm]
    exact parseKeywords_eq_iff numbers hempty tidy

/-- Only the first row is looked at, so a second question is never shown, whatever the order. -/
theorem shownQuestions_eq_iff (tidy : ∀ question ∈ enrichment.questions, Tidy question) :
    shownQuestions returned = enrichment.questions.map utf16 ↔
      enrichment.questions.length ≤ 1 ∧
        ∀ question ∈ enrichment.questions, plain question = true ∧ numbered question = false := by
  have hperm := hrows.filter fun row => row.kind = .questions
  rw [filter_questions hcaptions] at hperm
  rw [shownQuestions, findKind_eq_head?]
  rcases hquestions : enrichment.questions with _ | ⟨question, _ | ⟨next, rest⟩⟩
  · rw [hquestions, List.map_nil, List.perm_nil] at hperm
    rw [hperm]
    exact iff_of_true rfl ⟨Nat.zero_le _, List.forall_mem_nil _⟩
  · rw [hquestions, List.map_singleton, List.perm_singleton] at hperm
    rw [hquestions] at tidy
    rw [hperm]
    simpa using parseQuestions_eq_iff (tidy question List.mem_cons_self)
  · refine iff_of_false (fun h => ?_) fun h => absurd h.1 (by simp)
    cases hfound : (returned.filter fun row => row.kind = .questions).head? with
    | none =>
      rw [hfound] at h
      cases h
    | some row =>
      obtain ⟨text, htext, rfl⟩ :=
        List.mem_map.mp (hperm.mem_iff.mp (List.mem_of_mem_head? hfound))
      rw [hfound] at h
      have hlength := parseQuestions_length_le (tidy text htext)
      have hshown := congrArg List.length h
      simp only [List.length_map, List.length_cons] at hshown
      omega

end Rows

/-- The commit of a unit of work adds its rows to those of its document. -/
theorem enrichmentsOf_flush {document : OrmDocument} {rows : List Enrichment} {s s' : Store}
    (owned : ∀ row ∈ rows, row.documentId = document.id)
    (h : UnitOfWork.flush { document, enrichments := rows } s = .ok s') :
    s'.enrichmentsOf document.id = s.enrichmentsOf document.id ++ rows := by
  obtain ⟨-, rfl⟩ := UnitOfWork.flush_ok ⟨owned, List.forall_mem_nil _⟩ h
  change Relational.select Enrichment.documentId document.id (s.enrichments ++ rows) = _
  rw [Relational.select_append, Relational.select_eq_self owned]
  rfl

/-- For a document without enrichments before, the dialog shows the keywords and questions that
were persisted exactly when the row of keywords is not read as JSON, no keyword or question is
taken apart or loses a prefix, and there is one question at most. -/
theorem enrichments_shown_iff {numberText : Utf16 → Utf16} (numbers : WritesNumbers numberText)
    {document : OrmDocument} {enrichment : EnrichmentResult} {s s' t : Store}
    {captions returned : List Enrichment}
    (tidy : ∀ text ∈ enrichment.keywords ++ enrichment.questions, Tidy text)
    (fresh : s.enrichmentsOf document.id = [])
    (persisted : UnitOfWork.flush
      { document, enrichments := persistEnrichments document.id enrichment } s = .ok s')
    (later : t.enrichmentsOf document.id = s'.enrichmentsOf document.id ++ captions)
    (hcaptions : ∀ row ∈ captions, row.kind = .caption)
    (selected : Selected t document.id returned) :
    shownKeywords numberText returned = enrichment.keywords.map utf16 ∧
        shownQuestions returned = enrichment.questions.map utf16 ↔
      (jsonEntries? numberText (utf16 (joinComma enrichment.keywords)) = none ∧
        ∀ keyword ∈ enrichment.keywords, ',' ∉ keyword.toList ∧ plain keyword = true) ∧
      enrichment.questions.length ≤ 1 ∧
        ∀ question ∈ enrichment.questions, plain question = true ∧ numbered question = false := by
  obtain ⟨tidyKeywords, tidyQuestions⟩ := List.forall_mem_append.mp tidy
  have hrows : returned.Perm (persistEnrichments document.id enrichment ++ captions) := by
    have hstored := enrichmentsOf_flush persistEnrichments_owned persisted
    rw [fresh, List.nil_append] at hstored
    rwa [Selected, later, hstored] at selected
  rw [shownKeywords_eq_iff hcaptions hrows numbers tidyKeywords,
    shownQuestions_eq_iff hcaptions hrows tidyQuestions]

section Examples

def manual : Document where
  id := 5
  ownerId := 1
  scope := .personal
  title := "Pump manual"
  sourceFilename := "pump.pdf"
  mimeType := "application/pdf"
  sizeBytes := 4
  embeddingProvider := .demo
  topicId := none
  createdAt := 0
  updatedAt := 0

def numberText (literal : Utf16) : Utf16 := literal.filter (· ∈ utf16 "0123456789+-.eInfity")

theorem writesNumbers : WritesNumbers numberText := fun _ _ hu =>
  of_decide_eq_true (List.mem_filter.mp hu).2

instance (text : String) : Decidable (Tidy text) :=
  decidable_of_iff (text ≠ "" ∧ strip text = text ∧ '\n' ∉ text.toList)
    ⟨fun ⟨hne, htrimmed, hline⟩ => ⟨hne, htrimmed, hline⟩,
      fun ⟨hne, htrimmed, hline⟩ => ⟨hne, htrimmed, hline⟩⟩

def library : Store := { now := 0, documents := [manual] }

/-- The library once the rows of an enrichment are committed. -/
def enriched (enrichment : EnrichmentResult) : Store :=
  { library with enrichments := persistEnrichments 5 enrichment }

def pumpEnrichment : EnrichmentResult where
  summary := "Pumps."
  keywords := ["seal kit", "valve"]
  questions := ["How often is the seal replaced?"]

theorem enrichments_shown_iff_manual :
    shownKeywords numberText ((enriched pumpEnrichment).enrichmentsOf 5) =
        ["seal kit", "valve"].map utf16 ∧
      shownQuestions ((enriched pumpEnrichment).enrichmentsOf 5) =
        ["How often is the seal replaced?"].map utf16 := by
  have tidy : ∀ text ∈ pumpEnrichment.keywords ++ pumpEnrichment.questions, Tidy text := by decide
  have persisted : UnitOfWork.flush
      { document := OrmDocument.load manual, enrichments := persistEnrichments 5 pumpEnrichment }
      library = .ok (enriched pumpEnrichment) := rfl
  have hjson : jsonEntries? numberText (utf16 (joinComma ["seal kit", "valve"])) = none := by
    decide
  have hkeywords : ∀ keyword ∈ ["seal kit", "valve"],
      ',' ∉ keyword.toList ∧ plain keyword = true := by decide
  have hquestions : ∀ question ∈ ["How often is the seal replaced?"],
      plain question = true ∧ numbered question = false := by decide
  exact (enrichments_shown_iff writesNumbers tidy rfl persisted (List.append_nil _).symm
    (List.forall_mem_nil _) (.refl _)).mpr ⟨⟨hjson, hkeywords⟩, Nat.le_refl 1, hquestions⟩

def drillEnrichment : EnrichmentResult where
  summary := "Drills."
  keywords := ["R&D, EU"]
  questions := ["Who drills?", "When?"]

/-- One keyword is shown as two, and the second question not at all. -/
theorem drill_enrichments_torn :
    (¬ ∀ (document : OrmDocument) (enrichment : EnrichmentResult) (s s' : Store),
      (∀ text ∈ enrichment.keywords ++ enrichment.questions, Tidy text) →
      s.enrichmentsOf document.id = [] →
      UnitOfWork.flush
        { document, enrichments := persistEnrichments document.id enrichment } s = .ok s' →
      ∀ returned, Selected s' document.id returned →
        shownKeywords numberText returned = enrichment.keywords.map utf16 ∧
          shownQuestions returned = enrichment.questions.map utf16) ∧
    shownKeywords numberText ((enriched drillEnrichment).enrichmentsOf 5) =
      ["R&D", "EU"].map utf16 ∧
    shownQuestions ((enriched drillEnrichment).enrichmentsOf 5) = ["Who drills?"].map utf16 := by
  have hkeywords : shownKeywords numberText ((enriched drillEnrichment).enrichmentsOf 5) =
      ["R&D", "EU"].map utf16 := by decide
  have hquestions : shownQuestions ((enriched drillEnrichment).enrichmentsOf 5) =
      ["Who drills?"].map utf16 := by decide
  refine ⟨fun h => ?_, hkeywords, hquestions⟩
  have tidy : ∀ text ∈ drillEnrichment.keywords ++ drillEnrichment.questions, Tidy text := by decide
  have hshown := (h (.load manual) drillEnrichment library (enriched drillEnrichment) tidy rfl rfl
    _ (.refl _)).2
  rw [show (OrmDocument.load manual).id = 5 from rfl, hquestions] at hshown
  exact absurd (congrArg List.length hshown) (by decide)

end Examples

end DocumentDetail

end Docsage
