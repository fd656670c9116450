import Docsage.Ingestion.Chunks
import Docsage.Ingestion.DotNet

/-! # The texts that the embedding providers are given

Both pipelines put a line with the header of the document before the content of
a chunk. FastAPI then adds task prefixes for Gemini and replaces newlines for
OpenAI; .NET sends every text as it is and passes the task beside it.
-/

namespace Docsage
open Effects Text

/-- `f"{header}\n{chunk['content']}"`. -/
def embeddingText (header content : String) : String := header ++ "\n" ++ content

/-- What the provider sends or hashes for one text of a document. -/
def documentInput (name : ProviderName) (title text : String) : String :=
  match name with
  | .demo => text
  | .gemini => "title: " ++ title ++ " | text: " ++ text
  | .openai => replaceChar '\n' ' ' text

def queryInput (name : ProviderName) (text : String) : String :=
  match name with
  | .demo => text
  | .gemini => "task: search result | query: " ++ text
  | .openai => replaceChar '\n' ' ' text

/-- The vectors of the SDK, or of the demo hash, for the texts it is handed. -/
def EmbeddingService.answer (service : EmbeddingService) (name : ProviderName) (call : ℕ)
    (inputs : List String) : Except Exc (List (List ℚ)) :=
  match name with
  | .demo => .ok (inputs.map service.demoVector)
  | _ => service.embedTexts name call inputs

theorem pendingTexts_embeddingText (header : String) (rows : List Chunk) :
    (pendingTexts header rows).map (·.2) =
      (rows.filter (·.embedding.isNone)).map fun row => embeddingText header row.content := by
  simp [pendingTexts, embeddingText]

section
variable {name : ProviderName} {settings : Settings} {service : EmbeddingService}
  {p : EmbeddingProvider}

/-- A provider hands the service the inputs of its texts, and nothing else. -/
theorem getProvider_embedDocuments (h : getProvider name settings service = .ok p) (call : ℕ)
    (texts : List String) (title : String) :
    p.embedDocuments call texts title = (do
      let vectors ← service.answer name call (texts.map (documentInput name title))
      return vectors.map fun v => ⟨name, v⟩) := by
  obtain ⟨rfl, rfl⟩ | ⟨rfl, rfl⟩ | ⟨rfl, rfl⟩ := getProvider_cases h
  · simp [demoEmbeddingProvider, EmbeddingService.answer, documentInput, Function.comp_def]
  · rfl
  · rfl

theorem getProvider_embedQuery (h : getProvider name settings service = .ok p) (text : String) :
    p.embedQuery text =
      (do firstVector name (← service.answer name 0 [queryInput name text])) := by
  obtain ⟨rfl, rfl⟩ | ⟨rfl, rfl⟩ | ⟨rfl, rfl⟩ := getProvider_cases h <;> rfl

end

namespace DotNet

/-- `$"{header}\n{c.Content}"`. -/
def embeddingText (header content : Utf16) : Utf16 := header ++ utf16 "\n" ++ content

/-- Every provider posts or hashes the text of a document as it is. -/
def documentInput (_ : ProviderName) (text : Utf16) : Utf16 := text

def queryInput (_ : ProviderName) (text : Utf16) : Utf16 := text

/-- The vectors that the service, or the demo hash, answers for document inputs. -/
def EmbeddingService.answer (service : EmbeddingService) (name : ProviderName)
    (inputs : List Utf16) : Except Exc (List (List ℚ)) :=
  match name with
  | .demo => .ok (inputs.map service.demoVector)
  | _ => service.embedTexts name inputs

def EmbeddingService.answerQuery (service : EmbeddingService) (name : ProviderName)
    (input : Utf16) : Except Exc (List ℚ) :=
  match name with
  | .demo => .ok (service.demoVector input)
  | _ => service.embedQuery name input

section
variable (options : DocsageOptions) (service : EmbeddingService) (requested : ProviderName)

/-- A provider hands the service, or the hash, the inputs of its texts, and nothing else. -/
theorem resolve_embedDocuments (texts : List Utf16) :
    (resolve options service requested).embedDocuments texts = (do
      let name := options.implementation requested
      let vectors ← service.answer name (texts.map (documentInput name))
      return vectors.map fun v => ⟨name, v⟩) := by
  have hinputs (name : ProviderName) : texts.map (documentInput name) = texts := List.map_id texts
  simp only [hinputs]
  obtain ⟨hname, hp⟩ | ⟨hname, hp⟩ | ⟨hname, hp⟩ := resolve_cases options service requested
  · simp [hname, hp, demoEmbeddingProvider, EmbeddingService.answer, Function.comp_def]
  · rw [hname, hp]
    rfl
  · rw [hname, hp]
    rfl

theorem resolve_embedQuery (text : Utf16) :
    (resolve options service requested).embedQuery text = (do
      let name := options.implementation requested
      return ⟨name, ← service.answerQuery name (queryInput name text)⟩) := by
  obtain ⟨hname, hp⟩ | ⟨hname, hp⟩ | ⟨hname, hp⟩ := resolve_cases options service requested <;>
  · rw [hname, hp]
    rfl

end
end DotNet

section
variable {name : ProviderName} {title header content question : String}

/-- For a chunk of a document and for a question, both backends hand over the same texts. -/
def SameInputs (name : ProviderName) (title header content question : String) : Prop :=
  utf16 (documentInput name title (embeddingText header content)) =
      DotNet.documentInput name (DotNet.embeddingText (utf16 header) (utf16 content)) ∧
    utf16 (queryInput name question) = DotNet.queryInput name (utf16 question)

theorem utf16_embeddingText (header content : String) :
    utf16 (embeddingText header content) =
      DotNet.embeddingText (utf16 header) (utf16 content) := by
  simp [embeddingText, DotNet.embeddingText]

theorem replaceChar_eq_self {old new : Char} (distinct : new ≠ old) {s : String} :
    replaceChar old new s = s ↔ old ∉ s.toList := by
  rw [replaceChar, ← String.toList_inj, String.toList_ofList]
  constructor
  · intro h hold
    rw [← h] at hold
    obtain ⟨c, -, hc⟩ := List.mem_map.mp hold
    split at hc
    · exact distinct hc
    · exact absurd hc ‹_›
  · intro h
    refine (List.map_congr_left fun c hc => if_neg ?_).trans (List.map_id _)
    rintro rfl
    exact h hc

theorem append_eq_self {s text : String} : s ++ text = text ↔ s = "" := by
  rw [← String.toList_inj, String.toList_append, List.append_left_eq_self,
    String.toList_eq_nil_iff]

/-- A document text always holds the newline after its header. -/
theorem documentInput_agrees_iff :
    utf16 (documentInput name title (embeddingText header content)) =
        DotNet.documentInput name (DotNet.embeddingText (utf16 header) (utf16 content)) ↔
      name = .demo := by
  rw [DotNet.documentInput, ← utf16_embeddingText, utf16_injective.eq_iff]
  cases name with
  | demo => simp [documentInput]
  | gemini =>
    rw [documentInput, append_eq_self]
    simp
  | openai =>
    rw [documentInput, replaceChar_eq_self (by decide)]
    simp [embeddingText]

/-- The query of OpenAI is the same text unless the question has a newline. -/
theorem queryInput_agrees_iff :
    utf16 (queryInput name question) = DotNet.queryInput name (utf16 question) ↔
      name = .demo ∨ name = .openai ∧ '\n' ∉ question.toList := by
  rw [DotNet.queryInput, utf16_injective.eq_iff]
  unfold queryInput
  cases name with
  | demo => simp
  | gemini =>
    dsimp only
    rw [append_eq_self]
    simp
  | openai =>
    dsimp only
    rw [replaceChar_eq_self (by decide)]
    simp

/-- Both backends embed the same texts exactly in the demo space. -/
theorem sameInputs_iff (name : ProviderName) (title header content question : String) :
    SameInputs name title header content question ↔ name = .demo := by
  rw [SameInputs, documentInput_agrees_iff, queryInput_agrees_iff]
  constructor
  · rintro ⟨h, -⟩
    exact h
  · rintro rfl
    exact ⟨rfl, .inl rfl⟩

/-- Gemini embeds a task prefix on one side only. -/
theorem gemini_inputs_differ : ¬ ∀ (name : ProviderName) (title header content question : String),
    SameInputs name title header content question := by
  intro h
  obtain ⟨-, hquery⟩ := h .gemini "Leave policy" "Leave policy | " "Ask early." "Who asks?"
  have hlength := congrArg List.length hquery
  revert hlength
  decide

end
end Docsage
