import Docsage.Chat.Messages
import Docsage.Text.Units
import Mathlib.Data.Rat.Floor

/-! # Answers

The services that turn a question and the retrieved passages into a stream of
text. What a language model streams is a parameter, in deltas and ended by
success or by an exception at any point; the demo answers are computed here.
-/

namespace Docsage
open Effects Text

/-- Round half to even at a number of decimals: `round`, `Math.Round`. -/
def roundHalfEven (digits : ℕ) (x : ℚ) : ℚ :=
  let scaled := x * 10 ^ digits
  let floor := ⌊scaled⌋
  let rest := scaled - floor
  let rounded := if rest < 1 / 2 then floor else if 1 / 2 < rest then floor + 1
    else if floor % 2 = 0 then floor else floor + 1
  rounded / 10 ^ digits

def demoExcerptChars : ℕ := 220
def demoExcerpts : ℕ := 3
def snippetChars : ℕ := 200

def excerpt (length : ℕ) (content : String) : String :=
  String.ofList ((collapse content).toList.take length)

def buildCitations (retrieved : List RetrievedChunk) : List (Citation String) :=
  retrieved.map fun chunk =>
    { chunkId := chunk.chunkId
      documentId := chunk.documentId
      documentTitle := chunk.documentTitle
      snippet := excerpt snippetChars chunk.content
      score := roundHalfEven 4 chunk.similarity
      page := chunk.page }

/-- What the language models stream for a question over the retrieved passages. -/
structure AnswerService where
  openai : String → List RetrievedChunk → Generator Exc String
  gemini : String → List RetrievedChunk → Generator Exc String

def streamDemo (question : String) (retrieved : List RetrievedChunk) : Generator Exc String :=
  .ofList
    (("Demo mode — extractive answer from " ++ toString retrieved.length ++ " retrieved passage" ++
        (if retrieved.length ≠ 1 then "s" else "") ++ ". No language model is configured; " ++
        "the excerpts below are the top retrieved passages, clearly labeled.\n\n") ::
      if retrieved = [] then ["No passages were retrieved for: " ++ question]
      else (retrieved.take demoExcerpts).zipIdx.map fun p =>
        "[" ++ toString (p.2 + 1) ++ "] " ++ p.1.documentTitle ++ ": " ++
          excerpt demoExcerptChars p.1.content ++ "\n\n")

/-- The generator that `AnswerService.stream` iterates over. -/
def answerDeltas (settings : Settings) (service : AnswerService) (question : String)
    (retrieved : List RetrievedChunk) : Generator Exc String :=
  if settings.openaiEnabled then service.openai question retrieved
  else if settings.geminiEnabled then service.gemini question retrieved
  else streamDemo question retrieved

/-- The loop of `AnswerService.stream` and what follows it. Only the loop is guarded. -/
def relayAnswer (retrieved : List RetrievedChunk) (messageId : Uuid) :
    Generator Exc String → Generator Exc (ChatEvent String)
  | .stop => .yields (.citations (buildCitations retrieved)) (.yields (.done messageId) .stop)
  | .raised exc => .yields (.error ("answer generation failed: " ++ exc.message)) .stop
  | .yields delta rest => .yields (.delta delta) (relayAnswer retrieved messageId rest)

def AnswerService.stream (service : AnswerService) (settings : Settings) (question : String)
    (retrieved : List RetrievedChunk) (messageId : Uuid) : Generator Exc (ChatEvent String) :=
  relayAnswer retrieved messageId (answerDeltas settings service question retrieved)

namespace DotNet

/-- The part of `DocsageOptions` that selects the answer provider, beside the keys. -/
structure ChatOptions extends DocsageOptions where
  demoMode : Option Bool := none

def ChatOptions.effectiveDemoMode (o : ChatOptions) : Bool :=
  o.demoMode.getD !(o.geminiConfigured || o.openAiConfigured)

structure AnswerPassage where
  number : ℕ
  documentTitle : Utf16
  content : Utf16
  page : Option ℕ

def snippet (content : Utf16) : Utf16 :=
  let text := trimUnits (replaceLineEndings (utf16 " ") content)
  if text.length ≤ 280 then text else text.take 280 ++ utf16 "…"

def citation (r : RetrievedChunk) : Citation Utf16 where
  chunkId := r.chunkId
  documentId := r.documentId
  documentTitle := utf16 r.documentTitle
  snippet := snippet (utf16 r.content)
  score := roundHalfEven 4 r.similarity
  page := r.page

def passages (retrieved : List RetrievedChunk) : List AnswerPassage :=
  retrieved.zipIdx.map fun p => ⟨p.2 + 1, utf16 p.1.documentTitle, utf16 p.1.content, p.1.page⟩

def firstSentence (content : Utf16) : Utf16 :=
  let text := trimUnits (replaceLineEndings (utf16 " ") content)
  if text.length ≤ 220 then text
  else
    let cut := (text.take 220).findIdx (· == 0x2E)
    if 0 < cut && cut < 220 then text.take (cut + 1) else text.take 220 ++ utf16 "…"

def demoAnswer (question : Utf16) (passages : List AnswerPassage) : Generator Exc Utf16 :=
  .ofList
    (utf16 "Demo mode — extractive answer.\n\n" ::
      if passages.length = 0 then [utf16 "No passages were retrieved for: " ++ question]
      else
        (utf16 ("Based on " ++ toString passages.length ++ " retrieved passage" ++
          (if passages.length = 1 then "" else "s") ++ ": ")) ::
          (passages.take 3).map fun p =>
            utf16 ("[" ++ toString p.number ++ "] ") ++ firstSentence p.content ++ utf16 " ")

abbrev OpenAiAnswer := Utf16 → List AnswerPassage → Generator Exc Utf16

/-- The provider that `CoreAsync` picks. -/
def answerDeltas (options : ChatOptions) (openAiAnswer : OpenAiAnswer) (question : Utf16)
    (passages : List AnswerPassage) : Generator Exc Utf16 :=
  if options.openAiConfigured && !options.effectiveDemoMode then openAiAnswer question passages
  else demoAnswer question passages

end DotNet

end Docsage
