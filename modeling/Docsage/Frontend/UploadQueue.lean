import Docsage.Frontend.UploadPage

/-! # The upload queue sends what the list shows

The items that a run of `handleUpload` goes on with are copies from its start. What
is sent is what the list shows as long as the user leaves the rows of these items
as they are, and no answer of the health probe changes their provider.
-/

namespace Docsage
open Relational Transition

namespace UploadPage

/-- Each request was made for an item of the list, with the values that the list showed. -/
def SendsShown (p : UploadPage) : Prop := ∀ r ∈ p.requests, r.shown = some r.body

/-- The item is still to be uploaded by the run that is going on. -/
def Queued (p : UploadPage) (key : ℕ) : Prop := key ∈ p.queue.map (·.key)

/-- The step changes nothing of what would be sent for a queued item: its row is not removed, an
edit of it gives the same body, and its provider is available when health gets known. -/
def LeavesQueue (p : UploadPage) : Action → Prop
  | .edit key patch => p.Queued key → ∀ row ∈ p.items, row.key = key →
      uploadBody (effective p.health (patch.apply row)) = uploadBody (effective p.health row)
  | .remove key => ¬ p.Queued key
  | .probed health => ∀ row ∈ p.items, p.Queued row.key → available (some health) row.provider
  | _ => True

instance Queued.decidable (p : UploadPage) (key : ℕ) : Decidable (p.Queued key) :=
  inferInstanceAs (Decidable (key ∈ p.queue.map (·.key)))

instance LeavesQueue.decidable (p : UploadPage) (a : Action) : Decidable (p.LeavesQueue a) :=
  match a with
  | .edit key patch => inferInstanceAs (Decidable (p.Queued key → ∀ row ∈ p.items, row.key = key →
      uploadBody (effective p.health (patch.apply row)) = uploadBody (effective p.health row)))
  | .remove key => inferInstanceAs (Decidable (¬ p.Queued key))
  | .probed health => inferInstanceAs (Decidable (∀ row ∈ p.items, p.Queued row.key →
      available (some health) row.provider))
  | .addFiles _ | .clearAll | .handleUpload | .settled _ => .isTrue trivial

variable {p p' : UploadPage} {a : Action} {key : ℕ} {item : PendingFile}

@[simp] theorem effective_key (health : Option HealthStatus) (item : PendingFile) :
    (effective health item).key = item.key := by
  unfold effective
  split <;> rfl

theorem shown_eq : p.shown key =
    (lookup PendingFile.key key p.items).map fun row => uploadBody (effective p.health row) := by
  rw [shown, effectiveItems, lookup_map (effective_key p.health), Option.map_map]
  rfl

theorem patch_key (patch : Patch) (row : PendingFile) : (patch.apply row).key = row.key := by
  cases patch <;> rfl

theorem shown_updateItem_ne {patch : PendingFile → PendingFile}
    (keeps : ∀ row, (patch row).key = row.key) {other : ℕ} (h : key ≠ other) :
    (p.updateItem other patch).shown key = p.shown key := by
  rw [shown_eq, shown_eq, updateItem, lookup_update_ne keeps h]

theorem shown_updateItem {patch : PendingFile → PendingFile}
    (keeps : ∀ row, (patch row).key = row.key)
    (same : ∀ row ∈ p.items, row.key = key →
      uploadBody (effective p.health (patch row)) = uploadBody (effective p.health row)) :
    (p.updateItem key patch).shown key = p.shown key := by
  rw [shown_eq, shown_eq, updateItem, lookup_update keeps, Option.map_map]
  refine Option.map_congr fun row hrow => ?_
  obtain ⟨hmem, hkey⟩ := lookup_some hrow
  exact same row hmem hkey

/-- Whether a row is being uploaded, and its error, are not sent. -/
theorem uploadBody_effective_mark (health : Option HealthStatus) (row : PendingFile)
    (uploading : Bool) (error : Option String) :
    uploadBody (effective health { row with uploading, error }) =
      uploadBody (effective health row) := by
  unfold effective
  split <;> rfl

theorem shown_mark {other : ℕ} {uploading : Bool} :
    (p.updateItem other fun row => { row with uploading }).shown key = p.shown key := by
  by_cases h : key = other
  · subst h
    exact shown_updateItem (fun _ => rfl) fun row _ _ =>
      uploadBody_effective_mark p.health row uploading row.error
  · refine shown_updateItem_ne ?_ h
    exact fun _ => rfl

theorem shown_removeItem_ne {other : ℕ} (h : key ≠ other) :
    (p.removeItem other).shown key = p.shown key := by
  rw [shown_eq, shown_eq, removeItem, lookup_delete_ne h]

theorem shown_settle_ne {outcome : Except Frontend.Rejection Unit} (h : key ≠ item.key) :
    (p.settle item outcome).shown key = p.shown key := by
  cases outcome with
  | ok => exact shown_removeItem_ne h
  | error err =>
    refine shown_updateItem_ne ?_ h
    exact fun _ => rfl

theorem shown_addFiles {files : List File} (issued : ∃ row ∈ p.items, row.key = key) :
    (p.addFiles files).shown key = p.shown key := by
  obtain ⟨row, hrow, hkey⟩ := issued
  rw [shown_eq, shown_eq, addFiles, lookup, List.find?_append, lookup]
  have hfound : (p.items.find? fun r => r.key = key).isSome := by
    rw [List.find?_isSome]
    exact ⟨row, hrow, by simpa using hkey⟩
  rw [Option.or_of_isSome hfound]

theorem shown_of_mem (unique : (p.items.map (·.key)).Nodup) (h : item ∈ p.effectiveItems) :
    p.shown item.key = some (uploadBody item) := by
  have hkeys : p.effectiveItems.map (·.key) = p.items.map (·.key) := by
    simp [effectiveItems, Function.comp_def]
  rw [shown, lookup_of_mem (hkeys ▸ unique) h, Option.map_some]

def keys (p : UploadPage) : List ℕ := p.items.map (·.key)

/-- No two rows have one key, and `keyCounter` is ahead of them all. -/
structure Keyed (p : UploadPage) : Prop where
  issued : ∀ key ∈ p.keys, key < p.keyCounter
  unique : p.keys.Nodup

theorem Keyed.of_sublist (keyed : p.Keyed) (fewer : p'.keys.Sublist p.keys)
    (counter : p'.keyCounter = p.keyCounter) : p'.Keyed where
  issued key h := counter ▸ keyed.issued key (fewer.subset h)
  unique := keyed.unique.sublist fewer

theorem Keyed.updateItem (keyed : p.Keyed) {patch : PendingFile → PendingFile}
    (keeps : ∀ row, (patch row).key = row.key) : (p.updateItem key patch).Keyed := by
  have hkeys : (p.updateItem key patch).keys = p.keys := map_key_update keeps
  exact keyed.of_sublist (hkeys ▸ List.Sublist.refl _) rfl

theorem Keyed.removeItem (keyed : p.Keyed) : (p.removeItem key).Keyed :=
  keyed.of_sublist (List.filter_sublist.map _) rfl

theorem Keyed.settle (keyed : p.Keyed) (outcome : Except Frontend.Rejection Unit) :
    (p.settle item outcome).Keyed := by
  cases outcome with
  | ok => exact keyed.removeItem
  | error err =>
    refine keyed.updateItem ?_
    exact fun _ => rfl

theorem keys_addFiles {files : List File} :
    (p.addFiles files).keys = p.keys ++ List.range' p.keyCounter files.length := by
  simp only [keys, addFiles, List.map_append, List.map_map]
  rw [← List.zipIdx_map_snd p.keyCounter files]
  rfl

theorem Keyed.addFiles (keyed : p.Keyed) (files : List File) : (p.addFiles files).Keyed where
  issued key h := by
    rw [keys_addFiles, List.mem_append, List.mem_range'_1] at h
    show key < p.keyCounter + files.length
    rcases h with h | ⟨-, h⟩
    · exact Nat.lt_add_right _ (keyed.issued key h)
    · exact h
  unique := by
    rw [keys_addFiles]
    refine keyed.unique.append List.nodup_range' fun key hold hnew => ?_
    have hlt := keyed.issued key hold
    have hle := (List.mem_range'_1.mp hnew).1
    omega

/-- The queue holds no item twice, and for each the list shows what will be sent. -/
structure Tracks (p : UploadPage) : Prop extends Keyed p where
  idle : p.uploading = false → p.awaited = none ∧ p.queue = []
  apart : ((p.awaited.toList ++ p.queue).map (·.key)).Nodup
  current : ∀ item ∈ p.queue, p.shown item.key = some (uploadBody item)
  sendsShown : p.SendsShown

theorem mounted_tracks (isAdmin : Bool) : (mounted isAdmin).Tracks where
  issued := by simp [mounted, keys]
  unique := by simp [mounted, keys]
  idle _ := ⟨rfl, rfl⟩
  apart := by simp [mounted]
  current := by simp [mounted]
  sendsShown := by simp [mounted, SendsShown]

theorem queued_of_mem (h : item ∈ p.queue) : p.Queued item.key := List.mem_map_of_mem h

theorem Tracks.row (tracks : p.Tracks) (h : item ∈ p.queue) :
    ∃ row ∈ p.items, row.key = item.key := by
  have hshown := tracks.current item h
  rw [shown_eq, Option.map_eq_some_iff] at hshown
  obtain ⟨row, hrow, -⟩ := hshown
  exact ⟨row, lookup_some hrow⟩

/-- A step that leaves the run alone, and what the list shows for its queue. -/
theorem Tracks.of_same (tracks : p.Tracks) (keyed : p'.Keyed)
    (uploading : p'.uploading = p.uploading) (awaited : p'.awaited = p.awaited)
    (queue : p'.queue = p.queue) (requests : p'.requests = p.requests)
    (same : ∀ item ∈ p.queue, p'.shown item.key = p.shown item.key) : p'.Tracks where
  toKeyed := keyed
  idle h := by
    rw [awaited, queue]
    exact tracks.idle (uploading ▸ h)
  apart := by
    rw [awaited, queue]
    exact tracks.apart
  current item h := by
    rw [queue] at h
    rw [same item h, tracks.current item h]
  sendsShown r h := tracks.sendsShown r (requests ▸ h)

theorem Tracks.uploadNext {queue : List PendingFile} (keyed : p.Keyed)
    (uploading : p.uploading = true) (apart : (queue.map (·.key)).Nodup)
    (current : ∀ item ∈ queue, p.shown item.key = some (uploadBody item))
    (sendsShown : p.SendsShown) : (p.uploadNext queue).Tracks := by
  cases queue with
  | nil =>
    exact { toKeyed := keyed.of_sublist (List.Sublist.refl _) rfl
            idle := fun _ => ⟨rfl, rfl⟩
            apart := List.nodup_nil
            current := fun item h => by cases h
            sendsShown := sendsShown }
  | cons item rest =>
    obtain ⟨hitem, hrest⟩ := List.forall_mem_cons.mp current
    have hkeyed : (p.updateItem item.key fun row => { row with uploading := true }).Keyed := by
      refine keyed.updateItem ?_
      exact fun _ => rfl
    refine { toKeyed := ⟨hkeyed.issued, hkeyed.unique⟩
             idle := fun h => absurd (uploading.symm.trans h) (by decide)
             apart := apart
             current := fun other h => ?_
             sendsShown := fun r h => ?_ }
    · exact shown_mark.trans (hrest other h)
    · rcases List.mem_append.mp h with h | h
      · exact sendsShown r h
      · obtain rfl := List.mem_singleton.mp h
        exact hitem

theorem Tracks.edit (tracks : p.Tracks) {patch : Patch}
    (leaves : p.LeavesQueue (.edit key patch)) :
    (p.updateItem key fun row => patch.apply row).Tracks := by
  refine tracks.of_same (tracks.toKeyed.updateItem (patch_key patch)) rfl rfl rfl rfl
    fun item hitem => ?_
  by_cases h : item.key = key
  · subst h
    exact shown_updateItem (patch_key patch) (leaves (queued_of_mem hitem))
  · exact shown_updateItem_ne (patch_key patch) h

theorem Tracks.remove (tracks : p.Tracks) (leaves : p.LeavesQueue (.remove key)) :
    (p.removeItem key).Tracks := by
  refine tracks.of_same tracks.toKeyed.removeItem rfl rfl rfl rfl fun item hitem => ?_
  refine shown_removeItem_ne fun h => leaves ?_
  exact h ▸ queued_of_mem hitem

theorem Tracks.clearAll (tracks : p.Tracks) (idle : p.uploading = false) :
    ({ p with items := [] } : UploadPage).Tracks := by
  refine tracks.of_same (tracks.toKeyed.of_sublist (List.nil_sublist _) rfl) rfl rfl rfl rfl
    fun item hitem => ?_
  rw [(tracks.idle idle).2] at hitem
  cases hitem

/-- Health gets known, and the providers of the queued items are available. -/
theorem Tracks.probed (tracks : p.Tracks) (unknown : p.health = none) {health : HealthStatus}
    (leaves : p.LeavesQueue (.probed health)) :
    ({ p with health := some health } : UploadPage).Tracks := by
  refine tracks.of_same ⟨tracks.issued, tracks.unique⟩ rfl rfl rfl rfl fun item hitem => ?_
  rw [shown_eq, shown_eq]
  refine Option.map_congr fun row hrow => ?_
  obtain ⟨hmem, hkey⟩ := lookup_some hrow
  have havailable := leaves row hmem (hkey ▸ queued_of_mem hitem)
  simp [effective, unknown, havailable]

theorem Tracks.addFiles (tracks : p.Tracks) (files : List File) : (p.addFiles files).Tracks :=
  tracks.of_same (tracks.toKeyed.addFiles files) rfl rfl rfl rfl fun _ hitem =>
    shown_addFiles (tracks.row hitem)

theorem Tracks.handleUpload (tracks : p.Tracks) : p.handleUpload.Tracks := by
  unfold UploadPage.handleUpload
  split
  · exact tracks
  · have hkeys : p.effectiveItems.map (·.key) = p.keys := by
      simp [effectiveItems, keys, Function.comp_def]
    have hsub : p.validItems.Sublist p.effectiveItems := List.filter_sublist
    refine Tracks.uploadNext ⟨tracks.issued, tracks.unique⟩ rfl ?_ (fun item hitem => ?_)
      tracks.sendsShown
    · exact (hkeys ▸ tracks.unique).sublist (hsub.map _)
    · exact shown_of_mem tracks.unique (hsub.subset hitem)

/-- A request is answered, and the run goes on with the rest of its queue. -/
theorem Tracks.settled (tracks : p.Tracks) (awaited : p.awaited = some item)
    (outcome : Except Frontend.Rejection Unit) :
    ((p.settle item outcome).uploadNext p.queue).Tracks := by
  have hbusy : p.uploading = true := by
    by_contra h
    have hnone := (tracks.idle (by simpa using h)).1
    rw [awaited] at hnone
    cases hnone
  have hsame : (p.settle item outcome).uploading = p.uploading ∧
      (p.settle item outcome).requests = p.requests := by
    cases outcome <;> exact ⟨rfl, rfl⟩
  have hapart : item.key ∉ p.queue.map (·.key) ∧ (p.queue.map (·.key)).Nodup := by
    have h := tracks.apart
    rw [awaited] at h
    exact List.nodup_cons.mp h
  refine Tracks.uploadNext (tracks.toKeyed.settle outcome) (hsame.1.trans hbusy) hapart.2
    (fun other hother => ?_) (fun r hr => tracks.sendsShown r (hsame.2 ▸ hr))
  have hne : other.key ≠ item.key := fun h => hapart.1 (h ▸ queued_of_mem hother)
  rw [shown_settle_ne hne, tracks.current other hother]

theorem Tracks.step (tracks : p.Tracks) (leaves : p.LeavesQueue a) (h : p.step a = some p') :
    p'.Tracks := by
  cases a with
  | addFiles files =>
    obtain rfl := Option.some.inj h
    exact tracks.addFiles files
  | edit key patch =>
    obtain ⟨row, -, h⟩ := Option.bind_eq_some_iff.mp h
    obtain ⟨-, h⟩ := Option.ite_none_right_eq_some.mp h
    obtain rfl := Option.some.inj h
    exact tracks.edit leaves
  | remove key =>
    obtain ⟨row, -, h⟩ := Option.bind_eq_some_iff.mp h
    obtain ⟨-, h⟩ := Option.ite_none_left_eq_some.mp h
    obtain rfl := Option.some.inj h
    exact tracks.remove leaves
  | clearAll =>
    obtain ⟨hidle, h⟩ := Option.ite_none_left_eq_some.mp h
    obtain rfl := Option.some.inj h
    exact tracks.clearAll (by simpa using hidle)
  | probed health =>
    obtain ⟨hunknown, h⟩ := Option.ite_none_left_eq_some.mp h
    obtain rfl := Option.some.inj h
    exact tracks.probed (by simpa using hunknown) leaves
  | handleUpload =>
    obtain rfl := Option.some.inj h
    exact tracks.handleUpload
  | settled outcome =>
    obtain ⟨item, hitem, rfl⟩ := Option.map_eq_some_iff.mp h
    exact tracks.settled hitem outcome

/-- While the user and the health probe leave the queued items as they are, every request is made
for an item of the list and carries what the list shows. -/
theorem sendsShown_of_leavesQueue {isAdmin : Bool}
    (run : Run step LeavesQueue (mounted isAdmin) p) : p.SendsShown :=
  (run.invariant (mounted_tracks isAdmin)
    fun _ _ _ tracks leaves taken => tracks.step leaves taken).sendsShown

/-- Three files; while the first is uploaded, the second is given its title again. -/
def carefulRun : List Action :=
  [.addFiles [⟨Text.utf16 "leave.txt", "text/plain", 3⟩, ⟨Text.utf16 "pay.txt", "text/plain", 3⟩,
      ⟨Text.utf16 "sick.txt", "text/plain", 3⟩],
    .probed ⟨false, true⟩, .edit 1 (.title (Text.utf16 "Pay")), .handleUpload,
    .edit 1 (.title (Text.utf16 "Pay ")), .settled (.ok ()),
    .settled (.error (.apiError 413 "file too large")), .settled (.ok ())]

theorem sendsShown_of_leavesQueue_careful : ∃ p, execute step (mounted false) carefulRun = some p ∧
    p.requests.length = 3 ∧ p.SendsShown := by
  have hlast : (execute step (mounted false) carefulRun).map (·.requests.length) = some 3 := by
    decide
  obtain ⟨p, hp, hlength⟩ := Option.map_eq_some_iff.mp hlast
  have hobeys : Obeys step LeavesQueue (mounted false) carefulRun := by decide
  exact ⟨p, hp, hlength, sendsShown_of_leavesQueue (.of_execute hobeys hp)⟩

/-- The second file is removed while the first is uploaded, and is sent nevertheless. -/
theorem removed_file_sent : ¬ ∀ isAdmin p, Run step (fun _ _ => True) (mounted isAdmin) p →
    p.SendsShown := by
  intro h
  let actions : List Action :=
    [.addFiles [⟨Text.utf16 "leave.txt", "text/plain", 3⟩,
        ⟨Text.utf16 "pay.txt", "text/plain", 3⟩],
      .handleUpload, .remove 1, .settled (.ok ())]
  have hlast : (execute step (mounted false) actions).map
      (fun p => p.requests.map (·.shown.isSome)) = some [true, false] := by decide
  obtain ⟨p, hp, hrequests⟩ := Option.map_eq_some_iff.mp hlast
  have hgone : false ∈ p.requests.map (·.shown.isSome) := by simp [hrequests]
  obtain ⟨r, hr, hnone⟩ := List.mem_map.mp hgone
  rw [h false p (.of_execute (obeys_true _ _) hp) r hr] at hnone
  cases hnone

end UploadPage
end Docsage
