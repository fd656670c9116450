import Docsage.Enrichment.Demo
import Docsage.Enrichment.JsonObject

/-! # The passes of a language model

One call for the document, one for every image and one for all tables. What a model
answers is a text of any kind, and what the JSON in it holds is of any type, so each
field is brought into its form by the conversions of Python.
-/

namespace Docsage
open JsonScan Text

def isSpacePoint (c : ℕ) : Bool := isSpace (Char.ofNat c)

def stripPoints (text : Text) : Text := dropAround isSpacePoint text

/-- Conversions of the runtime that depend on its Unicode tables and its floats. A literal stands
for the float that is read from it, and no float is written as white space. -/
structure Runtime where
  lower : Text → Text
  reprString : Text → Text
  reprFloat : Text → Text
  isZero : Text → Bool
  reprFloat_visible : ∀ literal, (reprFloat literal).all isSpacePoint = false

variable (runtime : Runtime)

mutual

def reprValue : Value → Text
  | .null => points "None"
  | .bool b => points (if b then "True" else "False")
  | .int n => points (toString n)
  | .float literal => runtime.reprFloat literal
  | .string text => runtime.reprString text
  | .array items => points "[" ++ (points ", ").intercalate (reprItems items) ++ points "]"
  | .object members =>
    points "\x7b" ++ (points ", ").intercalate (reprMembers members) ++ points "\x7d"

def reprItems : List Value → List Text
  | [] => []
  | item :: items => reprValue item :: reprItems items

def reprMembers : List (Text × Value) → List Text
  | [] => []
  | (key, v) :: members =>
    (runtime.reprString key ++ points ": " ++ reprValue v) :: reprMembers members

end

def strValue : Value → Text
  | .string text => text
  | v => reprValue runtime v

def truthy : Value → Bool
  | .null => false
  | .bool b => b
  | .int n => n ≠ 0
  | .float literal => !runtime.isZero literal
  | .string text => !text.isEmpty
  | .array items => !items.isEmpty
  | .object members => !members.isEmpty

/-- `iter(value)`, and nothing where it raises a `TypeError`. -/
def iterate : Value → Option (List Value)
  | .string text => some (text.map fun c => .string [c])
  | .array items => some items
  | .object members => some (members.map fun member => .string member.1)
  | _ => none

/-- `parsed.get(key)`, where it is truthy. -/
def getTruthy (parsed : JsonObject) (key : String) : Option Value :=
  ((parsed.find? fun member => member.1 = points key).map (·.2)).filter (truthy runtime)

/-- What a model is shown: a prompt, the bytes of an image, or its data URL. -/
inductive ModelInput where
  | text (prompt : String)
  | bytes (data : List UInt8) (mime : String)
  | url (dataUrl : String)

structure ModelRequest where
  instructions : String
  inputs : List ModelInput

def base64Digit (n : ℕ) : Char :=
  ("ABCDEFGHIJKLMNOPQRSTUVWXYZabcdefghijklmnopqrstuvwxyz0123456789+/".toList).getD (n % 64) '='

def b64encode : List UInt8 → List Char
  | [] => []
  | [a] => [base64Digit (a.toNat / 4), base64Digit (a.toNat * 16), '=', '=']
  | [a, b] =>
    [base64Digit (a.toNat / 4), base64Digit (a.toNat * 16 + b.toNat / 16),
      base64Digit (b.toNat * 4), '=']
  | a :: b :: c :: rest =>
    base64Digit (a.toNat / 4) :: base64Digit (a.toNat * 16 + b.toNat / 16) ::
      base64Digit (b.toNat * 4 + c.toNat / 64) :: base64Digit c.toNat :: b64encode rest

def documentPassInstructions : String :=
  "You enrich enterprise documents for retrieval. Read the document excerpt and " ++
  "respond with ONLY a JSON object (no markdown fences) with keys: " ++
  "\"summary\" (2-3 sentence factual summary), \"keywords\" (up to 8 short lowercase " ++
  "keywords), \"questions\" (up to 5 hypothetical questions a user would ask)."

def tablePassInstructions : String :=
  "You describe data tables for retrieval. For each numbered table below, write one " ++
  "line (max 20 words) stating what the table contains. Respond with ONLY a JSON " ++
  "object mapping each table number to its one-line description, e.g. \x7b\"1\": \"...\"\x7d"

def captionInstructions : String := "You caption images for document retrieval."

def captionPrompt : String := "Describe this image for retrieval in <=2 sentences."

def firstChars (count : ℕ) (text : String) : String := String.ofList (text.toList.take count)

/-- The loop of `_document_excerpt`, with the length that was taken so far. -/
def excerptChunks (limit : ℕ) : ℕ → List ExtractedPart → List String
  | _, [] => []
  | taken, part :: parts =>
    if part.kind = .image then excerptChunks limit taken parts
    else
      let sample := firstChars 8000 part.content
      let chunk := if part.kind = .text then sample else "[table]\n" ++ sample
      let taken := taken + chunk.length
      chunk :: if limit ≤ taken then [] else excerptChunks limit taken parts

def documentExcerpt (parts : List ExtractedPart) (limit : ℕ := 24000) : String :=
  firstChars limit ("\n\n".intercalate (excerptChunks limit 0 parts))

def imageBytes? (part : ExtractedPart) : Option (List UInt8) :=
  if part.kind = .image then part.imageBytes.filter (!·.isEmpty) else none

def captioned (parts : List ExtractedPart) : List (ExtractedPart × ℕ) :=
  parts.zipIdx.filter fun p => (imageBytes? p.1).isSome

def tableIndexes (parts : List ExtractedPart) : List ℕ :=
  (parts.zipIdx.filter fun p => p.1.kind = .table).map (·.2)

def tableListing (parts : List ExtractedPart) : String :=
  "\n\n".intercalate ((parts.filter (·.kind = .table)).zipIdx.map fun p =>
    "Table " ++ toString (p.2 + 1) ++ ":\n" ++ firstChars 4000 p.1.content)

/-- How a family is shown an image along with a prompt. -/
abbrev ShowImage := List UInt8 → String → String → List ModelInput

def documentRequest (title : String) (parts : List ExtractedPart) : ModelRequest :=
  ⟨documentPassInstructions,
    [.text ("Document title: " ++ title ++ "\n\n" ++ documentExcerpt parts)]⟩

def captionRequest (showImage : ShowImage) (part : ExtractedPart) : ModelRequest :=
  let seed := if part.content.isEmpty then "" else " EXIF/extracted description: " ++ part.content
  ⟨captionInstructions, showImage ((imageBytes? part).getD []) part.mime (captionPrompt ++ seed)⟩

def tableRequest (title : String) (parts : List ExtractedPart) : ModelRequest :=
  ⟨tablePassInstructions, [.text ("Document: " ++ title ++ "\n\n" ++ tableListing parts)]⟩

/-- The text of the response to each call, by the call's number. -/
abbrev Responses := ℕ → ModelRequest → Option Text

/-- `_gemini_generate` and `_openai_respond`, where the call succeeds. -/
def generate (responses : Responses) (call : ℕ) (request : ModelRequest) : Text :=
  stripPoints ((responses call request).getD [])

/-- What leaves the passes instead of a result: a fault of the decoder, or a `TypeError`. -/
inductive PassError where
  | decoder (fault : Fault)
  | typeError

namespace Passes

/-- `EnrichmentResult`, in texts that may hold lone surrogates. -/
structure EnrichmentResult where
  summary : Text
  keywords : List Text
  questions : List Text
  captions : List (ℕ × Text)
  tablePreambles : List (ℕ × Text)

end Passes

def fallback (title : String) (parts : List ExtractedPart) : EnrichmentResult :=
  let base := demo title parts
  { summary := orElse (some base.summary) title
    keywords := base.keywords
    questions := base.questions }

def parsePass (limits : Limits) (text : Text) : Except PassError (Option JsonObject) :=
  (parseJsonObject limits text).mapError .decoder

/-- `str(parsed.get("summary") or fallback.summary).strip()`. -/
def summaryField (parsed : JsonObject) (fallback : EnrichmentResult) : Text :=
  stripPoints (match getTruthy runtime parsed "summary" with
    | some v => strValue runtime v
    | none => points fallback.summary)

/-- `[convert(str(item)) for item in parsed.get(key) or []][:count] or fallback`. -/
def listField (parsed : JsonObject) (key : String) (convert : Text → Text) (count : ℕ)
    (fallback : List String) : Except PassError (List Text) :=
  let raw := (getTruthy runtime parsed key).getD (.array [])
  match iterate raw with
  | none => .error .typeError
  | some items =>
    let shown := (items.map fun item => convert (strValue runtime item)).take count
    .ok (if shown.isEmpty then fallback.map points else shown)

def documentFields (parsed : Option JsonObject) (fallback : EnrichmentResult) :
    Except PassError (Text × List Text × List Text) :=
  match parsed with
  | none =>
    .ok (points fallback.summary, fallback.keywords.map points, fallback.questions.map points)
  | some parsed => do
    let keywords ← listField runtime parsed "keywords" runtime.lower 8 fallback.keywords
    let questions ← listField runtime parsed "questions" id 5 fallback.questions
    return (summaryField runtime parsed fallback, keywords, questions)

def orPoints (text : Text) (otherwise : String) : Text :=
  if text.isEmpty then points otherwise else text

def captionsPass (showImage : ShowImage) (responses : Responses) (title : String)
    (parts : List ExtractedPart) : List (ℕ × Text) :=
  (captioned parts).zipIdx.map fun ((part, i), k) =>
    (i, orPoints (generate responses (1 + k) (captionRequest showImage part))
      ("Image " ++ part.filename ++ " from " ++ title ++ "."))

/-- The description of the table with a number. Every key that was read is a string, so
`parsed.get(n)` finds nothing. -/
def tableDescription (parsed : Option JsonObject) (number : ℕ) : Text :=
  match parsed.bind fun parsed => getTruthy runtime parsed (toString number) with
  | some (.string text) => stripPoints text
  | _ => []

/-- `_table_preambles_gemini` and `_table_preambles_openai`. -/
def tablePreambles (limits : Limits) (responses : Responses) (title : String)
    (parts : List ExtractedPart) : Except PassError (List (ℕ × Text)) :=
  if tableIndexes parts = [] then .ok []
  else do
    let parsed ← parsePass limits
      (generate responses (1 + (captioned parts).length) (tableRequest title parts))
    return (tableIndexes parts).zipIdx.map fun (i, n) =>
      (i, orPoints (tableDescription runtime parsed (n + 1)) ("Table from " ++ title ++ "."))

def passes (showImage : ShowImage) (limits : Limits) (responses : Responses) (title : String)
    (parts : List ExtractedPart) : Except PassError Passes.EnrichmentResult := do
  let parsed ← parsePass limits (generate responses 0 (documentRequest title parts))
  let (summary, keywords, questions) ← documentFields runtime parsed (fallback title parts)
  let preambles ← tablePreambles runtime limits responses title parts
  return {
    summary, keywords, questions
    captions := captionsPass showImage responses title parts
    tablePreambles := preambles }

def geminiPasses : Limits → Responses → String → List ExtractedPart →
    Except PassError Passes.EnrichmentResult :=
  passes runtime fun data mime prompt => [.bytes data mime, .text prompt]

def openaiPasses : Limits → Responses → String → List ExtractedPart →
    Except PassError Passes.EnrichmentResult :=
  passes runtime fun data mime prompt =>
    [.text prompt, .url ("data:" ++ mime ++ ";base64," ++ String.ofList (b64encode data))]

end Docsage
