import Docsage.Frontend.Strings
import Docsage.Library.Table
import Docsage.Library.Transition

/-! # The upload page

The state of `UploadPage` with the run of `handleUpload` that is going on. The run
goes over the items as they were when it started, while the rows of the list can
still be edited and removed. React renders every change before the next event, and
one action is one turn of the event loop.
-/

namespace Docsage
open Relational Text

namespace UploadPage

structure File where
  name : Utf16
  type : String
  size : ℕ
deriving DecidableEq

structure HealthStatus where
  gemini : Bool
  openai : Bool
deriving DecidableEq

def available (health : Option HealthStatus) : ProviderName → Bool
  | .gemini => health.any (·.gemini)
  | .openai => health.any (·.openai)
  | .demo => true

def acceptedMimeTypes : List String :=
  ["application/pdf",
    "application/vnd.openxmlformats-officedocument.wordprocessingml.document",
    "application/vnd.openxmlformats-officedocument.spreadsheetml.sheet",
    "image/png", "image/jpeg", "text/plain", "text/markdown", "text/csv"]

def acceptedExtensions : List String :=
  [".pdf", ".docx", ".xlsx", ".png", ".jpg", ".jpeg", ".txt", ".md", ".csv"]

def maxUploadBytes : ℕ := 25 * 1024 * 1024

/-- `toLowerCase`, as far as an accepted extension can tell. -/
def toLowerUnit (u : UInt16) : UInt16 := if 0x41 ≤ u ∧ u ≤ 0x5A then u + 0x20 else u

def isDot : UInt16 → Bool := onUnit (· == '.')

def validateUploadFile (file : File) : Option String :=
  let extension := utf16 "." ++ ((file.name.splitOnP isDot).getLast?.getD []).map toLowerUnit
  if file.type ∉ acceptedMimeTypes ∧ acceptedExtensions.all (utf16 · ≠ extension) then
    some "Unsupported type — allowed: PDF, DOCX, XLSX, PNG, JPG, TXT, MD, CSV."
  else if file.size > maxUploadBytes then
    -- `Math.round` of the size in MB
    some ("Too large (" ++ toString ((2 * file.size + 1048576) / 2097152) ++
      " MB) — the limit is 25 MB.")
  else if file.size = 0 then some "This file is empty."
  else none

structure PendingFile where
  /-- The number in `file-${keyCounter.current++}`. -/
  key : ℕ
  file : File
  title : Utf16
  scope : Scope
  topicId : String
  provider : ProviderName
  error : Option String
  uploading : Bool
deriving DecidableEq

def dropExtension (text : Utf16) : Utf16 :=
  match text.reverse.dropWhile (fun u => !isDot u) with
  | [] => text
  | _ :: stem => if text.getLast?.any isDot then text else stem.reverse

/-- `text.replace(/[-_]+/g, " ")`, in or out of a run of dashes. -/
def spaceDashes (inRun : Bool) : Utf16 → Utf16
  | [] => []
  | u :: rest =>
    if onUnit (fun c => c == '-' || c == '_') u then
      if inRun then spaceDashes true rest else 0x20 :: spaceDashes true rest
    else u :: spaceDashes false rest

def defaultTitle (filename : Utf16) : Utf16 :=
  let title := Frontend.trim (spaceDashes false (dropExtension filename))
  if title = [] then filename else title

/-- A patch of `updateItem`, as the controls of a row make it. -/
inductive Patch where
  | title (value : Utf16)
  | scope (value : Scope)
  | topicId (value : String)
  | provider (value : ProviderName)
deriving DecidableEq

def Patch.apply (item : PendingFile) : Patch → PendingFile
  | .title value => { item with title := value }
  | .scope value => { item with scope := value }
  | .topicId value => { item with topicId := value }
  | .provider value => { item with provider := value }

/-- The item as it is shown: an unavailable provider falls back to demo once health is known. -/
def effective (health : Option HealthStatus) (item : PendingFile) : PendingFile :=
  if health.isSome && !available health item.provider then { item with provider := .demo }
  else item

structure UploadBody where
  file : File
  provider : ProviderName
  scope : Scope
  title : Option Utf16
  topicId : Option String
deriving DecidableEq

def uploadBody (item : PendingFile) : UploadBody where
  file := item.file
  provider := item.provider
  scope := item.scope
  title := if Frontend.trim item.title = [] then none else some (Frontend.trim item.title)
  topicId :=
    if item.scope = .library then if item.topicId = "" then none else some item.topicId else none

/-- A request, with what the list showed under the key of its item when it was made. -/
structure Sent where
  key : ℕ
  body : UploadBody
  shown : Option UploadBody
deriving DecidableEq

end UploadPage

open UploadPage in
structure UploadPage where
  isAdmin : Bool
  items : List PendingFile := []
  uploading : Bool := false
  health : Option HealthStatus := none
  keyCounter : ℕ := 0
  /-- The item whose request `handleUpload` awaits, and the items it goes on with. -/
  awaited : Option PendingFile := none
  queue : List PendingFile := []
  /-- Every request so far; history. -/
  requests : List Sent := []
deriving DecidableEq

namespace UploadPage

def defaultProvider (p : UploadPage) : ProviderName :=
  if p.health.any (·.gemini) then .gemini
  else if p.health.any (·.openai) then .openai
  else .demo

def effectiveItems (p : UploadPage) : List PendingFile := p.items.map (effective p.health)

def validItems (p : UploadPage) : List PendingFile :=
  p.effectiveItems.filter fun item => item.error.all (·.isEmpty)

/-- What would be sent for the item that the list shows under a key. -/
def shown (p : UploadPage) (key : ℕ) : Option UploadBody :=
  (lookup PendingFile.key key p.effectiveItems).map uploadBody

def newItem (p : UploadPage) (key : ℕ) (file : File) : PendingFile where
  key := key
  file := file
  title := defaultTitle file.name
  scope := .personal
  topicId := ""
  provider := p.defaultProvider
  error := validateUploadFile file
  uploading := false

def addFiles (p : UploadPage) (files : List File) : UploadPage :=
  { p with
    items := p.items ++ (files.zipIdx p.keyCounter).map fun f => p.newItem f.2 f.1
    keyCounter := p.keyCounter + files.length }

def updateItem (p : UploadPage) (key : ℕ) (patch : PendingFile → PendingFile) : UploadPage :=
  { p with items := update PendingFile.key key patch p.items }

def removeItem (p : UploadPage) (key : ℕ) : UploadPage :=
  { p with items := delete PendingFile.key key p.items }

/-- `handleUpload` from the head of its loop to the next `await`, or to its end. -/
def uploadNext (p : UploadPage) : List PendingFile → UploadPage
  | [] => { p with uploading := false, awaited := none, queue := [] }
  | item :: rest =>
    { p.updateItem item.key fun row => { row with uploading := true } with
      awaited := some item
      queue := rest
      requests := p.requests ++ [⟨item.key, uploadBody item, p.shown item.key⟩] }

def handleUpload (p : UploadPage) : UploadPage :=
  if p.uploading || p.validItems.isEmpty then p
  else { p with uploading := true }.uploadNext p.validItems

def describeError : Frontend.Rejection → String
  | .apiError _ detail => detail
  | .thrown _ => "Could not reach the server. Is the backend running?"

/-- The promise of `uploadDocument` settles: the item goes, or is marked with the error. -/
def settle (p : UploadPage) (item : PendingFile) (outcome : Except Frontend.Rejection Unit) :
    UploadPage :=
  match outcome with
  | .ok () => p.removeItem item.key
  | .error err =>
    p.updateItem item.key fun row =>
      { row with uploading := false, error := some (describeError err) }

inductive Action where
  | addFiles (files : List File)
  /-- A control of a row changes. -/
  | edit (key : ℕ) (patch : Patch)
  | remove (key : ℕ)
  | clearAll
  /-- The health probe answers. -/
  | probed (health : HealthStatus)
  | handleUpload
  | settled (outcome : Except Frontend.Rejection Unit)

/-- The control that makes the patch is there and enabled. -/
def enabled (p : UploadPage) (row : PendingFile) : Patch → Bool
  | .title _ => !row.uploading
  | .scope value => !row.uploading && (value = .personal || p.isAdmin)
  | .topicId _ => !row.uploading && row.scope = .library
  | .provider value => !row.uploading && available p.health value

def step (p : UploadPage) : Action → Option UploadPage
  | .addFiles files => some (p.addFiles files)
  | .edit key patch =>
    (lookup PendingFile.key key p.items).bind fun row =>
      if p.enabled row patch then some (p.updateItem key fun row => patch.apply row) else none
  | .remove key =>
    (lookup PendingFile.key key p.items).bind fun row =>
      if row.uploading then none else some (p.removeItem key)
  | .clearAll => if p.uploading then none else some { p with items := [] }
  | .probed health => if p.health.isSome then none else some { p with health := some health }
  | .handleUpload => some p.handleUpload
  | .settled outcome => p.awaited.map fun item => (p.settle item outcome).uploadNext p.queue

def mounted (isAdmin : Bool) : UploadPage where
  isAdmin := isAdmin

end UploadPage
end Docsage
