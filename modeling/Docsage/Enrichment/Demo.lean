import Docsage.Ingestion.Chunks
import Docsage.Ingestion.DotNet
import Docsage.Library.Sentences
import Docsage.Library.Words
import Docsage.Text.Units

/-! # Demo enrichment

Without a model both backends describe a document by its own text: the first
sentences, the most frequent words, and fixed phrases with the title in them.
Words are ASCII, so lower-casing is modelled as far as ASCII letters come out of it.
-/

namespace Docsage
open Text

def stopwords : List String := [
  "about", "above", "after", "again", "against", "along", "already", "also",
  "although", "always", "among", "around", "because", "before", "behind",
  "below", "beside", "between", "beyond", "both", "during", "each", "either",
  "enough", "every", "except", "following", "further", "having", "here",
  "herself", "himself", "itself", "just", "least", "less", "maybe", "might",
  "more", "most", "much", "must", "myself", "never", "other", "others",
  "ought", "ourselves", "outside", "over", "own", "rather", "really", "same",
  "shall", "should", "since", "some", "still", "their", "theirs", "them",
  "themselves", "there", "these", "those", "through", "under", "until",
  "upon", "what", "whatever", "when", "where", "which", "while", "whose",
  "within", "without", "would", "yourself"]

def isEndMark (c : Char) : Bool := c == '.' || c == '!' || c == '?'

def isLetter (c : Char) : Bool :=
  (0x41 ≤ c.toNat && c.toNat ≤ 0x5A) || (0x61 ≤ c.toNat && c.toNat ≤ 0x7A)

/-- What a word may have behind its first letter besides letters: digits, the apostrophe and the
hyphen. -/
def isWordMark (c : Char) : Bool :=
  (0x30 ≤ c.toNat && c.toNat ≤ 0x39) || c.toNat == 0x27 || c.toNat == 0x2D

def firstSentences (text : String) (count : ℕ := 2) : String :=
  String.ofList (Sentences.leading isSpace isEndMark [' '] count text.toList)

/-- `str.lower()` on one character. Besides the capitals, the Kelvin sign becomes an ASCII letter,
and the dotted capital I one with a combining dot behind it. -/
def lowerChar (c : Char) : List Char :=
  if 0x41 ≤ c.toNat ∧ c.toNat ≤ 0x5A then [Char.ofNat (c.toNat + 0x20)]
  else if c.toNat = 0x212A then ['k']
  else if c.toNat = 0x130 then ['i', Char.ofNat 0x307]
  else [c]

def isCounted (word : List Char) : Bool :=
  4 < word.length && !stopwords.contains (String.ofList word)

def countedWords (text : String) : List (List Char) :=
  (Words.scan isLetter isWordMark none (text.toList.flatMap lowerChar)).filter isCounted

def frequencyKeywords (text : String) (limit : ℕ := 8) : List String :=
  (Words.top (List.map Char.toNat) limit (countedWords text)).map String.ofList

/-- `[p.content for p in parts if p.kind == kind and p.content.strip()]`. -/
def contentsOf (kind : PartKind) (parts : List ExtractedPart) : List String :=
  (parts.filter fun p => p.kind = kind && !(strip p.content).isEmpty).map (·.content)

def demo (title : String) (parts : List ExtractedPart) : EnrichmentResult :=
  let texts := contentsOf .text parts
  let tables := contentsOf .table parts
  let keywords := frequencyKeywords (orElse (some ("\n".intercalate (texts ++ tables))) title)
  { summary :=
      match texts, tables with
      | text :: _, _ => firstSentences text
      | [], table :: _ => firstSentences table
      | [], [] => title
    keywords
    questions := (keywords.take 3).map fun keyword =>
      "What does " ++ title ++ " say about " ++ keyword ++ "?"
    captions := (parts.zipIdx.filter fun p => p.1.kind = .image).map fun p =>
      (p.2, "Image " ++ p.1.filename ++ ": chart or photograph extracted from " ++ title ++
        " (demo caption)")
    tablePreambles := (parts.zipIdx.filter fun p => p.1.kind = .table).map fun p =>
      (p.2, "Table from " ++ title ++ ".") }

namespace DotNet

def firstSentences (text : Utf16) : Utf16 :=
  Sentences.leading isWhiteSpaceUnit (onUnit isEndMark) (utf16 " ") 2 text

/-- `ToLowerInvariant()` on one code unit. The dotted capital I stays as it is. -/
def lowerUnit (u : UInt16) : UInt16 :=
  if 0x41 ≤ u.toNat ∧ u.toNat ≤ 0x5A then UInt16.ofNat (u.toNat + 0x20)
  else if u.toNat = 0x212A then UInt16.ofNat 0x6B
  else u

def isCounted (word : Utf16) : Bool := 4 < word.length && !(stopwords.map utf16).contains word

def countedWords (text : Utf16) : List Utf16 :=
  (Words.scan (onUnit isLetter) (onUnit isWordMark) none (text.map lowerUnit)).filter isCounted

def frequencyKeywords (texts : List Utf16) : List Utf16 :=
  Words.top (List.map UInt16.toNat) 8 (countedWords ((utf16 "\n").intercalate texts))

/-- The contents of one kind that are not `IsNullOrWhiteSpace`. -/
def contentsOf (kind : ChunkKind) (parts : List ExtractedPart) : List Utf16 :=
  (parts.filter fun p => p.kind = kind && !p.content.all isWhiteSpaceUnit).map (·.content)

/-- `GenerateAsync` without a Gemini key. -/
def generateAsync (title : Utf16) (parts : List ExtractedPart) : EnrichmentPlan :=
  let texts := contentsOf .text parts
  let tables := contentsOf .table parts
  let keywords := frequencyKeywords (texts ++ tables)
  { summary :=
      match texts, tables with
      | text :: _, _ => firstSentences text
      | [], table :: _ => firstSentences table
      | [], [] => title
    keywords
    questions := (keywords.take 3).map fun keyword =>
      utf16 "What does " ++ title ++ utf16 " say about " ++ keyword ++ utf16 "?"
    captions := (parts.zipIdx.filter fun p => p.1.kind = .imageDescription).map fun p =>
      (p.2, utf16 "Image " ++ p.1.imageName.getD [] ++
        utf16 ": chart or photograph extracted from " ++ title ++ utf16 " (demo caption)")
    tablePreambles := (parts.zipIdx.filter fun p => p.1.kind = .table).map fun p =>
      (p.2, utf16 "Table from " ++ title ++ utf16 ".") }

end DotNet

end Docsage
