import Docsage.Library.FileTree
import Docsage.Library.Program
import Docsage.Store.Schema

/-! # Stored uploads

`storage.py`: the bytes of a document are written to `var/uploads/{id}/{filename}`,
where the filename is what the client called the file. Only its last component is
taken, and a filename of slashes and dots has none.
-/

namespace Docsage.Storage
open FileTree

structure IdNames where
  name : Uuid → String
  injective : ∀ i j, name i = name j → i = j
  notParent : ∀ i, name i ≠ ".."

/-- The parts of `PurePosixPath(text)` behind its root. -/
def pathParts (text : String) : List String :=
  ((text.toList.splitOn '/').map String.ofList).filter fun part => part ≠ "" ∧ part ≠ "."

def pathName (text : String) : String := (pathParts text).getLast?.getD ""

def uploadRoot : List String := ["var", "uploads"]

def uploadDirectory (ids : IdNames) (documentId : Uuid) : List String :=
  uploadRoot ++ [ids.name documentId]

/-- `upload_path`. A path that is joined with the empty name stays as it is. -/
def uploadPath (ids : IdNames) (documentId : Uuid) (sourceFilename : String) : List String :=
  if pathName sourceFilename = "" then uploadDirectory ids documentId
  else uploadDirectory ids documentId ++ [pathName sourceFilename]

/-- The entry that the system finds at a path whose directories exist. -/
def resolve (path : List String) : List String :=
  path.foldl (fun at_ name => if name = ".." then at_.dropLast else at_ ++ [name]) []

/-- `save_upload`. What else the system may refuse, a name too long or a full disk, is up to
`refuses`. -/
def saveUpload (ids : IdNames) (refuses : List String → Bool) (documentId : Uuid)
    (sourceFilename : String) (data : List UInt8) (disk : Tree String (List UInt8)) :
    Except OsError (List String × Tree String (List UInt8)) := do
  let path := uploadPath ids documentId sourceFilename
  let disk ← disk.mkdirs [] path.dropLast
  if refuses path then .error .other
  else
    match (resolve path).getLast? with
    | none => .error .isADirectory
    | some name =>
      let disk ← disk.write (resolve path).dropLast name data
      return (path, disk)

def deleteUpload (ids : IdNames) (documentId : Uuid) (disk : Tree String (List UInt8)) :
    Tree String (List UInt8) :=
  disk.rmtree (uploadDirectory ids documentId)

/-- Whatever is on the disk, an upload that succeeds is a file inside the document's directory. It
is found again under its filename, the documents' other directories are as they were, and a
deletion of the document removes it. -/
def Confined (ids : IdNames) (documentId : Uuid) (sourceFilename : String) : Prop :=
  ∀ refuses data disk path disk',
    saveUpload ids refuses documentId sourceFilename data disk = .ok (path, disk') →
      (∃ name rest, resolve path = uploadDirectory ids documentId ++ name :: rest) ∧
      disk'.entry (resolve (uploadPath ids documentId sourceFilename)) = some (.file data) ∧
      resolve (uploadPath ids documentId sourceFilename) = resolve path ∧
      (∀ other, other ≠ documentId → ∀ p, uploadDirectory ids other <+: p →
        disk'.entry p = disk.entry p) ∧
      (deleteUpload ids documentId disk').entry (resolve path) = none

variable {ids : IdNames} {documentId : Uuid} {sourceFilename : String}

theorem resolve_uploadDirectory :
    resolve (uploadDirectory ids documentId) = uploadDirectory ids documentId := by
  simp [resolve, uploadDirectory, uploadRoot, ids.notParent]

theorem resolve_concat (name : String) : resolve (uploadDirectory ids documentId ++ [name]) =
    if name = ".." then uploadRoot else uploadDirectory ids documentId ++ [name] := by
  rw [resolve, List.foldl_append]
  change (if name = ".." then (resolve (uploadDirectory ids documentId)).dropLast
    else resolve (uploadDirectory ids documentId) ++ [name]) = _
  rw [resolve_uploadDirectory]
  rfl

theorem eq_of_below_uploadDirectory {other : Uuid} {rest : List String}
    (h : uploadDirectory ids other <+: uploadDirectory ids documentId ++ rest) :
    other = documentId := by
  have hprefix := List.prefix_of_prefix_length_le h (List.prefix_append _ rest) (by
    simp [uploadDirectory])
  have heq := hprefix.eq_of_length (by simp [uploadDirectory])
  exact ids.injective _ _ (List.append_inj_right' heq rfl |> List.singleton_inj.mp)

/-- A filename without a name is saved in place of the directory. -/
theorem saveUpload_nameless (h : pathName sourceFilename = "") :
    ∃ disk', saveUpload ids (fun _ => false) documentId sourceFilename [] .empty =
      .ok (uploadDirectory ids documentId, disk') := by
  have hpath : uploadPath ids documentId sourceFilename = uploadDirectory ids documentId :=
    if_pos h
  simp only [saveUpload, hpath, resolve_uploadDirectory]
  exact ⟨_, rfl⟩

/-- With a name that is not `..`, the upload is the file of that name in the directory. -/
theorem saveUpload_named {refuses : List String → Bool} {data : List UInt8}
    {disk disk' : Tree String (List UInt8)} {path : List String} (h : pathName sourceFilename ≠ "")
    (saved : saveUpload ids refuses documentId sourceFilename data disk = .ok (path, disk')) :
    pathName sourceFilename ≠ ".." ∧
      path = uploadDirectory ids documentId ++ [pathName sourceFilename] ∧
      ∃ disk₁, disk.mkdirs [] (uploadDirectory ids documentId) = .ok disk₁ ∧
        disk₁.write (uploadDirectory ids documentId) (pathName sourceFilename) data =
          .ok disk' := by
  have hpath : uploadPath ids documentId sourceFilename =
    uploadDirectory ids documentId ++ [pathName sourceFilename] := if_neg h
  simp only [saveUpload, hpath, List.dropLast_concat] at saved
  obtain ⟨disk₁, hdirs, saved⟩ := Effects.bind_ok saved
  have hdir := Tree.mkdirs_dir hdirs (Tree.isDir_iff.mpr disk.root)
  rw [List.nil_append] at hdir
  split at saved
  · cases saved
  rw [resolve_concat] at saved
  by_cases hup : pathName sourceFilename = ".."
  · -- the directory above is a directory, and none is opened for writing
    have habove : disk₁.isDir (["var"] ++ ["uploads"]) = true :=
      Tree.isDir_iff.mpr (disk₁.parent uploadRoot (ids.name documentId) (by
        rw [Tree.isDir_iff, uploadDirectory] at hdir
        rw [hdir]
        rfl))
    rw [if_pos hup] at saved
    obtain ⟨disk₂, hwrite, -⟩ := Effects.bind_ok saved
    cases (Tree.write_of_dir habove).symm.trans hwrite
  · rw [if_neg hup, List.getLast?_concat, List.dropLast_concat] at saved
    obtain ⟨disk₂, hwrite, saved⟩ := Effects.bind_ok saved
    obtain ⟨rfl, rfl⟩ := Prod.mk.inj (Except.ok.inj saved)
    exact ⟨hup, rfl, disk₁, hdirs, hwrite⟩

theorem confined_of_named (h : pathName sourceFilename ≠ "") :
    Confined ids documentId sourceFilename := by
  intro refuses data disk path disk' saved
  obtain ⟨hup, rfl, disk₁, hdirs, hwrite⟩ := saveUpload_named h saved
  have hresolve : resolve (uploadDirectory ids documentId ++ [pathName sourceFilename]) =
      uploadDirectory ids documentId ++ [pathName sourceFilename] := by
    rw [resolve_concat, if_neg hup]
  have hdir := Tree.mkdirs_dir hdirs (Tree.isDir_iff.mpr disk.root)
  rw [List.nil_append] at hdir
  rw [show uploadPath ids documentId sourceFilename = _ from if_neg h, hresolve]
  refine ⟨⟨_, [], rfl⟩, ?_, rfl, fun other hother p hp => ?_, ?_⟩
  · rw [Tree.write_entry hwrite, if_pos rfl]
  · rw [Tree.write_entry hwrite, if_neg, Tree.mkdirs_entry hdirs]
    · intro hprefix
      rw [List.nil_append, ← List.append_nil (uploadDirectory ids documentId)] at hprefix
      exact hother (eq_of_below_uploadDirectory (hp.trans hprefix))
    · rintro rfl
      exact hother (eq_of_below_uploadDirectory hp)
  · have hdir' : disk'.isDir (uploadDirectory ids documentId) = true := by
      rw [Tree.isDir_iff, Tree.write_entry hwrite, if_neg (by simp), Tree.isDir_iff.mp hdir]
    exact if_pos ⟨by simp [uploadDirectory], hdir', List.prefix_append _ _⟩

theorem not_confined_of_nameless (h : pathName sourceFilename = "") :
    ¬ Confined ids documentId sourceFilename := by
  intro confined
  obtain ⟨disk', saved⟩ := @saveUpload_nameless ids documentId sourceFilename h
  obtain ⟨⟨name, rest, hinside⟩, -⟩ := confined _ _ _ _ _ saved
  rw [resolve_uploadDirectory] at hinside
  simp at hinside

/-- Uploads are confined exactly under the filenames that have a last component. -/
theorem confined_iff (ids : IdNames) (documentId : Uuid) (sourceFilename : String) :
    Confined ids documentId sourceFilename ↔ pathName sourceFilename ≠ "" :=
  ⟨fun confined h => not_confined_of_nameless h confined, confined_of_named⟩

/-- The dot is a filename, and its upload takes the place of the directory. -/
theorem dot_not_confined : ¬ ∀ (ids : IdNames) (documentId : Uuid) (sourceFilename : String),
    sourceFilename ≠ "" → Confined ids documentId sourceFilename := by
  intro h
  let ids : IdNames :=
    { name i := String.ofList (List.replicate i 'f')
      injective i j hij := by simpa using congrArg (·.toList.length) hij
      notParent i hi := by
        have hdots : List.replicate i 'f' = ['.', '.'] := by simpa using congrArg (·.toList) hi
        have hdot : '.' ∈ List.replicate i 'f' := hdots ▸ List.mem_cons_self
        exact absurd (List.eq_of_mem_replicate hdot) (by decide) }
  exact not_confined_of_nameless (by decide) (h ids 7 "." (by decide))

end Docsage.Storage
