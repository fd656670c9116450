import Docsage.Api.Access
import Docsage.Providers.Embedding

/-! # The upload endpoints

The validations of both backends in their order, and the row each inserts. What
the file system answers and the case mapping of the title are parameters.
-/

namespace Docsage
open Effects Text

def maxUploadBytes : ℕ := 25 * 1024 * 1024

def allowedMimeTypes : List String :=
  ["application/csv", "application/pdf",
    "application/vnd.openxmlformats-officedocument.spreadsheetml.sheet",
    "application/vnd.openxmlformats-officedocument.wordprocessingml.document",
    "image/jpeg", "image/png", "text/csv", "text/markdown", "text/plain"]

/-- `repr` of a list of strings without quotes in them. -/
def reprList (items : List String) : String :=
  "[" ++ ", ".intercalate (items.map fun t => "'" ++ t ++ "'") ++ "]"

def startsWith (signature head : List UInt8) : Bool := signature.isPrefixOf head

def isUtf8 (bytes : List UInt8) : Bool := (ByteArray.mk bytes.toArray).validateUTF8

/-- `verify_magic_bytes`: a mismatch of the first bytes with the declared type. -/
def verifyMagicBytes (declaredMime : String) (data : List UInt8) : Option String :=
  let head := data.take 1024
  if declaredMime = "application/pdf" then
    if startsWith [0x25, 0x50, 0x44, 0x46] head then none else some "file content is not a PDF"
  else if declaredMime = "image/png" then
    if startsWith [0x89, 0x50, 0x4E, 0x47, 0x0D, 0x0A, 0x1A, 0x0A] head then none
    else some "file content is not a PNG image"
  else if declaredMime = "image/jpeg" then
    if startsWith [0xFF, 0xD8, 0xFF] head then none else some "file content is not a JPEG image"
  else if declaredMime ∈
      ["application/vnd.openxmlformats-officedocument.wordprocessingml.document",
        "application/vnd.openxmlformats-officedocument.spreadsheetml.sheet"] then
    if startsWith [0x50, 0x4B] head then none
    else some "file content is not an Office (OOXML) document"
  else if declaredMime ∈ ["text/plain", "text/markdown", "text/csv"] then
    if isUtf8 head then none else some "text upload is not valid UTF-8"
  else none

structure UploadRequest where
  provider : String
  scope : String := "personal"
  title : Option String := none
  topicId : Option Uuid := none
  filename : Option String
  contentType : Option String
  data : List UInt8

/-- What the endpoint gets from outside: `str.title`, `repr`, and the outcome of writing a file. -/
structure UploadCalls where
  titleCase : String → String
  repr : Option String → String
  service : EmbeddingService
  saveUpload : Except Exc Unit

def orString (a b : String) : String := if a.isEmpty then b else a

def storageSafeStem (titleCase : String → String) (filename : String) : String :=
  let stem := beforeLast '.' (afterLast '\\' (afterLast '/' filename))
  orString (titleCase (strip (replaceChar '-' ' ' (replaceChar '_' ' ' stem)))) filename

/-- An exception that no handler of the endpoint turns into an answer. -/
def orInternalError {α : Type} (result : Except Exc α) : Except HttpError α :=
  result.mapError fun _ => internalError

/-- `upload_document` up to the INSERT: the row, or the answer of the first check that fails. -/
def uploadDocument (settings : Settings) (calls : UploadCalls) (s : Store) (user : User)
    (documentId : Uuid) (request : UploadRequest) : Except HttpError Document := do
  let provider ← orRefuse (ProviderName.ofString? request.provider)
    ⟨422, "provider must be one of " ++ reprList ["gemini", "openai", "demo"]⟩
  let scope ← orRefuse (Scope.ofString? request.scope)
    ⟨422, "scope must be 'personal' or 'library'"⟩
  refuse (scope = .library ∧ ¬ user.isAdmin) 403 "Library ingestion is restricted to admins"
  refuse (scope = .library ∧ request.topicId = none) 422
    "topic_id is required for library documents"
  refuse (∀ mime ∈ request.contentType, mime ∉ allowedMimeTypes) 422
    ("unsupported file type " ++ calls.repr request.contentType ++ "; allowed: " ++
      reprList allowedMimeTypes)
  refuse (¬ providerAvailable provider settings) 400
    ("embedding provider '" ++ request.provider ++ "' is unavailable (no API key configured " ++
      "or demo mode is on); use provider='demo' instead")
  refuse (∃ topicId ∈ request.topicId, s.topic? topicId = none) 404 "Topic not found"
  refuse (request.data.length > maxUploadBytes) 413 "file exceeds the 25MB upload limit"
  let mimeType := request.contentType.getD ""
  let mismatch := verifyMagicBytes mimeType request.data
  refuse (mismatch ≠ none) 422
    (mismatch.getD "" ++ " (declared " ++ calls.repr request.contentType ++ ")")
  refuse (request.data = []) 422 "file is empty"
  let filename := orString (request.filename.getD "") "upload"
  let embeddingProvider ← orInternalError (getProvider provider settings calls.service)
  orInternalError calls.saveUpload
  return { id := documentId
           ownerId := user.id
           scope := scope
           title := orString (strip (orString (request.title.getD "")
             (storageSafeStem calls.titleCase filename))) filename
           sourceFilename := filename
           mimeType := mimeType
           sizeBytes := request.data.length
           embeddingProvider := provider
           embeddingModel := embeddingProvider.modelId
           topicId := request.topicId
           createdAt := s.now
           updatedAt := s.now }

namespace DotNet

def extensionMime : List (String × String) :=
  [(".txt", "text/plain"), (".md", "text/markdown"), (".csv", "text/csv"),
    (".pdf", "application/pdf"),
    (".docx", "application/vnd.openxmlformats-officedocument.wordprocessingml.document"),
    (".xlsx", "application/vnd.openxmlformats-officedocument.spreadsheetml.sheet"),
    (".png", "image/png"), (".jpg", "image/jpeg"), (".jpeg", "image/jpeg")]

/-- `VerifyUpload`: its types have the checks of `verify_magic_bytes`. -/
def verifyUpload (mime : String) (head : List UInt8) : Option String :=
  if mime ∉ extensionMime.map (·.2) then
    some ("unsupported file type '" ++ mime ++ "'; allowed: " ++
      ", ".intercalate (allowedMimeTypes.filter (· ∈ extensionMime.map (·.2))))
  else verifyMagicBytes mime head

/-- The `topic_id` field: absent or empty, not a UUID, or a UUID. -/
inductive TopicField where
  | absent
  | invalid
  | id (topicId : Uuid)
deriving DecidableEq

/-- The multipart form as the handler reads it; a missing text field is the empty string. -/
structure UploadRequest where
  file : Option (List UInt8)
  fileName : String
  contentType : Option String
  provider : String
  scope : String
  title : String
  topicId : TopicField

def TopicField.toOption : TopicField → Option Uuid
  | .id topicId => some topicId
  | _ => none

/-- `Path.GetExtension`, the dot included; empty after a final dot. -/
def getExtension (filename : String) : String :=
  if '.' ∈ filename.toList ∧ afterLast '.' filename ≠ "" then "." ++ afterLast '.' filename else ""

/-- The mime type of the row: declared, or derived from the extension. -/
def mimeTypeOf (request : UploadRequest) (filename : String) : String :=
  match request.contentType with
  | some declared =>
    if ¬ isNullOrWhiteSpace (some declared) ∧ declared ≠ "application/octet-stream" then declared
    else (extensionMime.lookup (getExtension filename).toLower).getD "application/octet-stream"
  | none => (extensionMime.lookup (getExtension filename).toLower).getD "application/octet-stream"

/-- The upload handler up to the INSERT. `saveFile` is the outcome of copying the file. -/
def uploadDocument (options : DocsageOptions) (service : EmbeddingService)
    (saveFile : Except Exc Unit) (s : Store) (user : User) (documentId : Uuid)
    (request : UploadRequest) : Except HttpError Document := do
  let data := request.file.getD []
  refuse (data = []) 422 "file is required"
  refuse (data.length > maxUploadBytes) 413 "file exceeds the 25MB upload limit"
  let provider ← orRefuse (ProviderName.ofString? request.provider)
    ⟨422, "provider must be one of 'gemini', 'openai', 'demo'"⟩
  let scope ← orRefuse (Scope.ofString? request.scope)
    ⟨422, "scope must be 'personal' or 'library'"⟩
  refuse (scope = .library ∧ ¬ user.isAdmin) 403 "Only admins can ingest library documents"
  refuse (scope = .library ∧ request.topicId = .absent) 422
    "topic_id is required for library documents"
  refuse (request.topicId = .invalid) 422 "topic_id must be a UUID"
  let topicId := request.topicId.toOption
  refuse (∃ id ∈ topicId, s.topic? id = none) 404 "Topic not found"
  let filename := afterLast '/' request.fileName
  refuse (isNullOrWhiteSpace (some filename)) 422 "file must have a filename"
  orInternalError saveFile
  let mimeType := mimeTypeOf request filename
  let reason := verifyUpload mimeType (data.take 1024)
  refuse (reason ≠ none) 422 (reason.getD "")
  return { id := documentId
           ownerId := user.id
           scope := scope
           title := if isNullOrWhiteSpace (some request.title) then beforeLast '.' filename
             else trim request.title
           sourceFilename := filename
           mimeType := mimeType
           sizeBytes := data.length
           embeddingProvider := provider
           embeddingModel := (resolve options service provider).modelId
           topicId := topicId
           createdAt := s.now
           updatedAt := s.now }

end DotNet

/-- A row as an upload leaves it: queued, unreviewed, without chunks, and with a topic if it is a
library document. -/
structure Uploaded (documentId : Uuid) (row : Document) : Prop where
  id : row.id = documentId
  status : row.status = .queued
  reviewStatus : row.reviewStatus = .notRequired
  chunkCount : row.chunkCount = 0
  topic : row.scope = .library → row.topicId.isSome

theorem uploadDocument_ok {settings : Settings} {calls : UploadCalls} {s : Store} {user : User}
    {documentId : Uuid} {request : UploadRequest} {row : Document}
    (h : uploadDocument settings calls s user documentId request = .ok row) :
    Uploaded documentId row := by
  obtain ⟨provider, -, h⟩ := orRefuse_bind_ok h
  obtain ⟨scope, -, h⟩ := orRefuse_bind_ok h
  obtain ⟨-, h⟩ := refuse_bind_ok h
  obtain ⟨htopic, h⟩ := refuse_bind_ok h
  obtain ⟨-, h⟩ := refuse_bind_ok h
  obtain ⟨-, h⟩ := refuse_bind_ok h
  obtain ⟨-, h⟩ := refuse_bind_ok h
  obtain ⟨-, h⟩ := refuse_bind_ok h
  obtain ⟨-, h⟩ := refuse_bind_ok h
  obtain ⟨-, h⟩ := refuse_bind_ok h
  obtain ⟨embeddingProvider, -, h⟩ := bind_ok h
  obtain ⟨-, -, h⟩ := bind_ok h
  obtain rfl := Except.ok.inj h
  exact ⟨rfl, rfl, rfl, rfl, fun hl => Option.isSome_iff_ne_none.mpr fun hn => htopic ⟨hl, hn⟩⟩

theorem DotNet.uploadDocument_ok {options : DotNet.DocsageOptions}
    {service : DotNet.EmbeddingService} {saveFile : Except Exc Unit} {s : Store} {user : User}
    {documentId : Uuid} {request : DotNet.UploadRequest} {row : Document}
    (h : DotNet.uploadDocument options service saveFile s user documentId request = .ok row) :
    Uploaded documentId row ∧
      ProviderName.ofString? request.provider = some row.embeddingProvider := by
  obtain ⟨-, h⟩ := refuse_bind_ok h
  obtain ⟨-, h⟩ := refuse_bind_ok h
  obtain ⟨provider, hprovider, h⟩ := orRefuse_bind_ok h
  obtain ⟨scope, -, h⟩ := orRefuse_bind_ok h
  obtain ⟨-, h⟩ := refuse_bind_ok h
  obtain ⟨htopic, h⟩ := refuse_bind_ok h
  obtain ⟨hinvalid, h⟩ := refuse_bind_ok h
  obtain ⟨-, h⟩ := refuse_bind_ok h
  obtain ⟨-, h⟩ := refuse_bind_ok h
  obtain ⟨-, -, h⟩ := bind_ok h
  obtain ⟨-, h⟩ := refuse_bind_ok h
  obtain rfl := Except.ok.inj h
  refine ⟨⟨rfl, rfl, rfl, rfl, fun hl => ?_⟩, hprovider⟩
  cases hid : request.topicId with
  | absent => exact absurd ⟨hl, hid⟩ htopic
  | invalid => exact absurd hid hinvalid
  | id topicId => rfl

end Docsage
