import Docsage.Chat.Protocol
import Docsage.Frontend.RoundTrip
import Docsage.Library.LineEnds

/-! # The answer stream of OpenAI

`OpenAiChatAnswerProvider` reads a completion as server-sent events: lines of bytes
that the network cuts anywhere, with comments and empty lines between the data. The
turn sends and stores the contents of the chunks up to `[DONE]`, and nothing else.
-/

namespace Docsage.DotNet.OpenAi
open Effects Text LineEnds
open Frontend (TextDecoder)

def valueKind : Json → String
  | .null => "Null"
  | .bool b => if b then "True" else "False"
  | .num _ => "Number"
  | .str _ => "String"
  | .arr _ => "Array"
  | .obj _ => "Object"

def wrongType (expected : String) (found : Json) : Exc where
  message := "The requested operation requires an element of type '" ++ expected ++
    "', but the target element has type '" ++ valueKind found ++ "'."

/-- `TryGetProperty`. Of members with one name the last one counts. -/
def tryGetProperty (name : String) : Json → Except Exc (Option Json)
  | .obj fields => .ok (fields.reverse.lookup name)
  | found => .error (wrongType "Object" found)

def choicesOf (root : Json) : Except Exc (List Json) := do
  match ← tryGetProperty "choices" root with
  | none => .ok []
  | some (.arr items) => .ok items
  | some found => .error (wrongType "Array" found)

/-- The text of the first choice's delta. An empty one is skipped. -/
def contentOf (root : Json) : Except Exc (Option String) := do
  match ← choicesOf root with
  | [] => .ok none
  | choice :: _ =>
    match ← tryGetProperty "delta" choice with
    | none => .ok none
    | some delta =>
      match ← tryGetProperty "content" delta with
      | some (.str text) => .ok (if text = "" then none else some text)
      | _ => .ok none

inductive LineStep where
  | skip
  | finished
  | piece (text : String)

section

-- `JsonDocument.Parse`
variable (parse : String → Except Exc Json)

/-- The body of the loop over the lines. -/
def handleLine (line : List Char) : Except Exc LineStep :=
  match List.dropPrefix? line "data:".toList with
  | none => .ok .skip
  | some rest =>
    if trim (String.ofList rest) = "[DONE]" then .ok .finished
    else do
      match ← contentOf (← parse (trim (String.ofList rest))) with
      | none => .ok .skip
      | some text => .ok (.piece text)

/-- The lines that were read, and how the response goes on. -/
def relayLines : List (List Char) → Generator Exc Utf16 → Generator Exc Utf16
  | [], next => next
  | line :: lines, next =>
    match handleLine parse line with
    | .error exc => .raised exc
    | .ok .skip => relayLines lines next
    | .ok .finished => .stop
    | .ok (.piece text) => .yields (utf16 text) (relayLines lines next)

/-- The loop over `ReadLineAsync`, on the pieces of the body as they arrive. -/
def readBody (decoder : TextDecoder) (reader : Reader) :
    Generator Exc (List UInt8) → Generator Exc Utf16
  | .stop =>
    let read := reader.feed decoder.decode
    relayLines parse (read.1 ++ read.2.finish) .stop
  | .raised exc => .raised exc
  | .yields bytes rest =>
    let text := decoder.decodeStream bytes
    let read := reader.feed text.1
    relayLines parse read.1 (readBody text.2 read.2 rest)

end

def passageText (p : AnswerPassage) : Utf16 :=
  utf16 ("[" ++ toString p.number ++ "] (") ++ p.documentTitle ++
    (p.page.elim [] fun page => utf16 (", page " ++ toString page)) ++ utf16 ")\n" ++ p.content

def userContent (question : Utf16) (passages : List AnswerPassage) : Utf16 :=
  utf16 "Question: " ++ question ++ utf16 "\n\nPassages:\n" ++
    if passages.length = 0 then utf16 "(no passages retrieved)"
    else (utf16 "\n\n").intercalate (passages.map passageText)

/-- What is answered to a request: a status code and a body. -/
abbrev ChatService := Utf16 → Except Exc (ℕ × Generator Exc (List UInt8))

def notSuccessful (status : ℕ) : Exc where
  message := "Response status code does not indicate success: " ++ toString status ++ "."

def streamAnswer (parse : String → Except Exc Json) (service : ChatService) : OpenAiAnswer :=
  fun question passages =>
    match service (userContent question passages) with
    | .error exc => .raised exc
    | .ok (status, body) =>
      if 200 ≤ status ∧ status ≤ 299 then readBody parse {} {} body
      else .raised (notSuccessful status)

/-- A chunk of a completion: any members, and the first choice, whose delta may have content. -/
structure CompletionChunk where
  members : List (String × Json) := []
  choice : Option (Option String)

namespace CompletionChunk

def delta (content : Option String) : Json :=
  .obj (content.toList.map fun text => ("content", .str text))

def json (c : CompletionChunk) : Json :=
  .obj (c.members ++ [("choices", .arr (c.choice.toList.map fun content =>
    .obj [("index", .num 0), ("delta", delta content)]))])

def content (c : CompletionChunk) : Option String := c.choice.join.filter (· ≠ "")

end CompletionChunk

inductive WireLine where
  | other (text : List Char)
  | chunk (blank : Bool) (c : CompletionChunk)
  | done

section Wire

variable (dumps : Json → String)

def WireLine.render : WireLine → List Char
  | .other text => text
  | .chunk blank c =>
    "data:".toList ++ ((if blank then [' '] else []) ++ (dumps c.json).toList)
  | .done => "data:".toList ++ " [DONE]".toList

def rendered (e : LineEnd) (lines : List WireLine) : List Char :=
  (lines.map (·.render dumps)).flatMap (· ++ e.chars)

end Wire

/-- Other lines are no data, and a chunk is the text of an object on one line that reads back. -/
def WireLine.Valid (dumps : Json → String) (parse : String → Except Exc Json) : WireLine → Prop
  | .other text => Plain text ∧ ¬ "data:".toList <+: text ∧ text.head? ≠ some '\ufeff'
  | .chunk _ c => parse (dumps c.json) = .ok c.json ∧ Plain (dumps c.json).toList ∧
      ∃ inner, (dumps c.json).toList = '{' :: (inner ++ ['}'])
  | .done => True

section Reading

variable {dumps : Json → String} {parse : String → Except Exc Json} {lines : List WireLine}
  {e : LineEnd}

def WireLine.step : WireLine → LineStep
  | .other _ => .skip
  | .chunk _ c => c.content.elim .skip .piece
  | .done => .finished

def ending (body : Generator Exc (List UInt8)) : Generator Exc (List UInt8) :=
  match body.failure with
  | none => .stop
  | some exc => .raised exc

/-- The lines that were whole when the bytes had arrived. -/
def arrived (dumps : Json → String) (e : LineEnd) (lines : List WireLine) (bytes : List UInt8) :
    List WireLine :=
  lines.take (e.whole (lines.map (·.render dumps)) (Utf8.decode {} bytes).1.length)

end Reading

section Turn

variable {sessionId messageId : Uuid} {citations : List (Citation Utf16)}
  {deltas : Generator Exc Utf16} {chat chat' : ChatStore Utf16}

end Turn

/-- The outcome of a turn in a session of a chat. -/
abbrev Outcome := Served (ChatStore Utf16) Exc (ChatEvent Utf16)

section Outcomes

variable (calls : TurnCalls) (sessionId : Uuid) (question : String)
  (retrieved : List RetrievedChunk) (chat : ChatStore Utf16)

def asked : ChatMessage Utf16 :=
  ⟨calls.userMessageId, sessionId, .user, utf16 question, [], chat.now⟩

/-- The texts are sent one by one, and stored as one answer with the citations. -/
def Answered (texts : List String) (served : Outcome) : Prop :=
  served = ⟨texts.map (fun text => .delta (utf16 text)) ++
      [.citations (retrieved.map citation), .done calls.assistantMessageId], none,
    { chat with
      messages := chat.messages ++ [asked calls sessionId question chat,
        ⟨calls.assistantMessageId, sessionId, .assistant, utf16 (String.join texts),
          retrieved.map citation, chat.now⟩] }⟩

variable {calls sessionId question retrieved chat} {deltas : Generator Exc Utf16}
  {texts : List String}

end Outcomes

namespace Broken

/-! Two chunks between a comment and `[DONE]`, of which the second one only arrives in part. -/

def hello : CompletionChunk := ⟨[], some (some "Hé")⟩

def world : CompletionChunk := ⟨[], some (some "llo")⟩

def helloText : String :=
  "\x7b\"choices\":[\x7b\"index\":0,\"delta\":\x7b\"content\":\"Hé\"\x7d\x7d]\x7d"

def worldText : String :=
  "\x7b\"choices\":[\x7b\"index\":0,\"delta\":\x7b\"content\":\"llo\"\x7d\x7d]\x7d"

def dumps (json : Json) : String :=
  match contentOf json with
  | .ok (some "Hé") => helloText
  | _ => worldText

def parse (text : String) : Except Exc Json :=
  if text = helloText then .ok hello.json
  else if text = worldText then .ok world.json
  else .error { message := "invalid JSON" }

def lines : List WireLine :=
  [.other ": keep-alive".toList, .other [], .chunk true hello, .other [], .chunk false world, .done]

def bytes : List UInt8 := Utf8.encode (rendered dumps .crlf lines)

def options : ChatOptions := { openAiApiKey := some "key" }

def lost : Exc := { message := "connection reset" }

/-- Two pieces, the first of which ends inside a character, and a lost connection. -/
def body : Generator Exc (List UInt8) :=
  .yields (bytes.take 67) (.yields ((bytes.drop 67).take 41) (.raised lost))

def service : ChatService := fun _ => .ok (200, body)

def calls : TurnCalls := ⟨streamAnswer parse service, 1, 2⟩

def chat : ChatStore Utf16 where
  now := 0
  sessions := [⟨7, 3, .personal⟩]

end Broken

end Docsage.DotNet.OpenAi
