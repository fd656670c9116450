import Mathlib.Data.List.Infix

/-! # A tree of files

A path is the list of the names that lead to an entry, and every entry but the root
has a directory above it. The operations keep that, and each changes the entries that
it is about and no others.
-/

namespace FileTree

variable {ν δ : Type}

inductive Entry (δ : Type) where
  | dir
  | file (data : δ)

structure Tree (ν δ : Type) where
  entry : List ν → Option (Entry δ)
  root : entry [] = some .dir
  parent : ∀ path name, (entry (path ++ [name])).isSome → entry path = some .dir

inductive OsError where
  | notFound
  | fileExists
  | notADirectory
  | isADirectory
  | other
deriving DecidableEq

namespace Tree

def empty : Tree ν δ where
  entry
    | [] => some .dir
    | _ => none
  root := rfl
  parent path name h := by
    split at h
    · next hnil => simp at hnil
    · cases h

def isDir (t : Tree ν δ) (path : List ν) : Bool :=
  match t.entry path with
  | some .dir => true
  | _ => false

theorem isDir_iff {t : Tree ν δ} {path : List ν} :
    t.isDir path = true ↔ t.entry path = some .dir := by
  unfold isDir
  split
  · next h => simp [h]
  · next h => simpa using h

variable [DecidableEq ν]

/-- A new entry in a directory, where there is no directory of the name yet. -/
def put (t : Tree ν δ) (path : List ν) (name : ν) (e : Entry δ) (above : t.isDir path = true)
    (free : ¬ t.isDir (path ++ [name]) = true) : Tree ν δ where
  entry p := if p = path ++ [name] then some e else t.entry p
  root := by rw [if_neg (by simp), t.root]
  parent p n h := by
    rw [isDir_iff] at above free
    split at h
    · next heq =>
      obtain ⟨rfl, -⟩ := List.append_inj' heq rfl
      rw [if_neg (by simp), above]
    · have hp := t.parent p n h
      rwa [if_neg]
      rintro rfl
      exact free hp

/-- `mkdir(parents=True, exist_ok=True)`, on the names below a directory. -/
def mkdirs (t : Tree ν δ) (base : List ν) : List ν → Except OsError (Tree ν δ)
  | [] => .ok t
  | name :: names =>
    if t.isDir (base ++ [name]) then t.mkdirs (base ++ [name]) names
    else if (t.entry (base ++ [name])).isSome then
      .error (if names.isEmpty then .fileExists else .notADirectory)
    else if h : t.isDir base = true ∧ ¬ t.isDir (base ++ [name]) = true then
      (t.put base name .dir h.1 h.2).mkdirs (base ++ [name]) names
    else .error .notFound

def write (t : Tree ν δ) (path : List ν) (name : ν) (data : δ) : Except OsError (Tree ν δ) :=
  if t.isDir (path ++ [name]) then .error .isADirectory
  else if h : t.isDir path = true ∧ ¬ t.isDir (path ++ [name]) = true then
    .ok (t.put path name (.file data) h.1 h.2)
  else .error .notFound

/-- `rmtree(path, ignore_errors=True)`: a directory goes with all that is in it, and anything else
stays. -/
def rmtree (t : Tree ν δ) (path : List ν) : Tree ν δ where
  entry p := if path ≠ [] ∧ t.isDir path ∧ path <+: p then none else t.entry p
  root := by
    rw [if_neg, t.root]
    rintro ⟨hne, -, hprefix⟩
    exact hne (List.prefix_nil.mp hprefix)
  parent p n h := by
    split at h
    · cases h
    · next hkept =>
      rw [if_neg, t.parent p n h]
      rintro ⟨hne, hdir, hprefix⟩
      exact hkept ⟨hne, hdir, hprefix.trans (List.prefix_append p [n])⟩

variable {t t' : Tree ν δ} {base path names p : List ν} {name : ν} {data : δ}

theorem put_entry {e : Entry δ} {above : t.isDir path = true}
    {free : ¬ t.isDir (path ++ [name]) = true} :
    (t.put path name e above free).entry p = if p = path ++ [name] then some e else t.entry p := rfl

theorem mkdirs_entry (h : t.mkdirs base names = .ok t') (off : ¬ p <+: base ++ names) :
    t'.entry p = t.entry p := by
  induction names generalizing t base with
  | nil => rw [Except.ok.inj h]
  | cons name names ih =>
    rw [List.append_cons] at off
    unfold mkdirs at h
    split_ifs at h with hdir _ hput
    · exact ih h off
    · rw [ih h off, put_entry, if_neg]
      rintro rfl
      exact off (List.prefix_append _ _)

theorem mkdirs_dir (h : t.mkdirs base names = .ok t') (hbase : t.isDir base = true) :
    t'.isDir (base ++ names) = true := by
  induction names generalizing t base with
  | nil =>
    obtain rfl := Except.ok.inj h
    rwa [List.append_nil]
  | cons name names ih =>
    rw [List.append_cons]
    unfold mkdirs at h
    split_ifs at h with hdir _ hput
    · exact ih h hdir
    · exact ih h (isDir_iff.mpr (by rw [put_entry, if_pos rfl]))

theorem write_entry (h : t.write path name data = .ok t') :
    t'.entry p = if p = path ++ [name] then some (.file data) else t.entry p := by
  unfold write at h
  split at h
  · cases h
  · split at h
    · obtain rfl := Except.ok.inj h
      rfl
    · cases h

theorem write_of_dir (h : t.isDir (path ++ [name]) = true) :
    t.write path name data = .error .isADirectory := if_pos h

end Tree

end FileTree
