import Docsage.Library.Table

/-! # Polling loops

An effect starts a loop for a list of ids: rounds of one request for each of them,
with a timer between two rounds. When the ids change, the loop is cancelled and
another one starts. Exactly one loop listens as long as there are ids, and it is
never stuck.
-/

namespace Polling
open Relational

/-- A loop waits for its timer, or for the requests of a round. -/
structure Loop (ι : Type) where
  ticket : ℕ
  tracked : List ι
  cancelled : Bool := false
  timer : Bool := true
  awaited : List ι := []
deriving DecidableEq

structure Poller (ι : Type) where
  /-- The ids that the effect ran for last. -/
  ids : List ι := []
  /-- The loop that the cleanup of that effect cancels. -/
  current : Option ℕ := none
  tickets : ℕ := 0
  loops : List (Loop ι) := []
deriving DecidableEq

variable {ι : Type}

namespace Loop

def cancel (l : Loop ι) : Loop ι := { l with cancelled := true, timer := false }

def fire (l : Loop ι) : Loop ι := { l with timer := false, awaited := l.tracked }

/-- A request settles. After the last one the timer is set again, unless the loop was cancelled. -/
def settle [DecidableEq ι] (l : Loop ι) (id : ι) : Loop ι :=
  { l with
    awaited := l.awaited.erase id
    timer := l.timer || (!l.cancelled && (l.awaited.erase id).isEmpty) }

end Loop

namespace Poller

def put (p : Poller ι) (ticket : ℕ) (f : Loop ι → Loop ι) : Poller ι :=
  { p with loops := update Loop.ticket ticket f p.loops }

def cleanup (p : Poller ι) : Poller ι :=
  match p.current with
  | none => p
  | some ticket => { p.put ticket Loop.cancel with current := none }

def start (p : Poller ι) (ids : List ι) : Poller ι :=
  if ids = [] then { p with ids }
  else
    { ids
      current := some p.tickets
      tickets := p.tickets + 1
      loops := p.loops ++ [{ ticket := p.tickets, tracked := ids }] }

def effect [DecidableEq ι] (p : Poller ι) (ids : List ι) : Option (Poller ι) :=
  if p.ids = ids then none else some (p.cleanup.start ids)

def fire (p : Poller ι) (ticket : ℕ) : Option (Poller ι) :=
  (lookup Loop.ticket ticket p.loops).bind fun l =>
    if l.timer then some (p.put ticket Loop.fire) else none

/-- One loop listens for the ids, if there are any, and it waits either for its timer or for
answers. -/
def Watches (p : Poller ι) (ids : List ι) : Prop :=
  (∀ l ∈ p.loops, l.cancelled = false →
    l.tracked = ids ∧ l.awaited.Sublist ids ∧ (l.timer = true ↔ l.awaited = [])) ∧
  (p.loops.filter fun l => !l.cancelled).length = if ids = [] then 0 else 1

/-- The loop that listens is that of the last effect. -/
structure Sound (p : Poller ι) : Prop where
  issued : ∀ l ∈ p.loops, l.ticket < p.tickets
  unique : (p.loops.map Loop.ticket).Nodup
  listens : ∀ l ∈ p.loops, l.cancelled = false →
    p.current = some l.ticket ∧ l.tracked = p.ids ∧ l.awaited.Sublist p.ids ∧
      (l.timer = true ↔ l.awaited = [])
  current : ∀ ticket, p.current = some ticket →
    ∃ l ∈ p.loops, l.ticket = ticket ∧ l.cancelled = false
  ids : p.current = none ↔ p.ids = []

variable {p p' : Poller ι} {ids : List ι} {ticket : ℕ} {l : Loop ι}

theorem sound_empty : Sound ({} : Poller ι) where
  issued := by simp
  unique := List.nodup_nil
  listens := by simp
  current := by simp
  ids := by simp

theorem lookup_put {f : Loop ι → Loop ι} (keeps : ∀ l, (f l).ticket = l.ticket)
    (found : lookup Loop.ticket ticket p.loops = some l) :
    lookup Loop.ticket ticket (p.put ticket f).loops = some (f l) := by
  rw [put, lookup_update keeps, found]
  rfl

theorem Sound.put (sound : p.Sound) {f : Loop ι → Loop ι}
    (same : ∀ l, (f l).ticket = l.ticket ∧ (f l).cancelled = l.cancelled)
    (listens : ∀ l ∈ p.loops, l.ticket = ticket → l.cancelled = false →
      (f l).tracked = p.ids ∧ (f l).awaited.Sublist p.ids ∧
        ((f l).timer = true ↔ (f l).awaited = [])) : (p.put ticket f).Sound where
  issued l h := by
    obtain ⟨l₀, hl₀, rfl⟩ := mem_update.mp h
    split
    · rw [(same l₀).1]
      exact sound.issued l₀ hl₀
    · exact sound.issued l₀ hl₀
  unique := by
    have htickets : (p.put ticket f).loops.map Loop.ticket = p.loops.map Loop.ticket :=
      map_key_update fun l => (same l).1
    rw [htickets]
    exact sound.unique
  listens l h hlive := by
    obtain ⟨l₀, hl₀, rfl⟩ := mem_update.mp h
    by_cases hticket : l₀.ticket = ticket
    · rw [if_pos hticket, (same l₀).2] at hlive
      rw [if_pos hticket, (same l₀).1]
      exact ⟨(sound.listens l₀ hl₀ hlive).1, listens l₀ hl₀ hticket hlive⟩
    · rw [if_neg hticket] at hlive ⊢
      exact sound.listens l₀ hl₀ hlive
  current ticket' h := by
    obtain ⟨l₀, hl₀, hticket, hlive⟩ := sound.current ticket' h
    refine ⟨_, mem_update.mpr ⟨l₀, hl₀, rfl⟩, ?_⟩
    split
    · rw [(same l₀).1, (same l₀).2]
      exact ⟨hticket, hlive⟩
    · exact ⟨hticket, hlive⟩
  ids := sound.ids

theorem Sound.fire (sound : p.Sound) (h : p.fire ticket = some p') : p'.Sound := by
  obtain ⟨l, hlookup, h⟩ := Option.bind_eq_some_iff.mp h
  obtain ⟨-, h⟩ := Option.ite_none_right_eq_some.mp h
  obtain rfl := Option.some.inj h
  refine sound.put (fun l => ⟨rfl, rfl⟩) fun l hl _ hlive => ?_
  obtain ⟨hcurrent, htracked, -, -⟩ := sound.listens l hl hlive
  have hids : p.ids ≠ [] := fun hnil => by
    rw [sound.ids.mpr hnil] at hcurrent
    cases hcurrent
  refine ⟨htracked, htracked ▸ List.Sublist.refl _, ?_⟩
  simp [Loop.fire, htracked, hids]

theorem Sound.settle [DecidableEq ι] (sound : p.Sound) (id : ι)
    (awaits : ∀ l ∈ p.loops, l.ticket = ticket → id ∈ l.awaited) :
    (p.put ticket (Loop.settle · id)).Sound := by
  refine sound.put (fun l => ⟨rfl, rfl⟩) fun l hl hticket hlive => ?_
  obtain ⟨-, htracked, hsub, htimer⟩ := sound.listens l hl hlive
  have hwaiting : l.timer = false := by
    rw [← Bool.not_eq_true, htimer]
    exact List.ne_nil_of_mem (awaits l hl hticket)
  refine ⟨htracked, List.erase_sublist.trans hsub, ?_⟩
  simp [Loop.settle, hwaiting, hlive]

theorem Sound.settle_found [DecidableEq ι] (sound : p.Sound) {id : ι} (found : l ∈ p.loops)
    (awaited : id ∈ l.awaited) : (p.put l.ticket (Loop.settle · id)).Sound := by
  refine sound.settle id fun other hother hticket => ?_
  rw [List.inj_on_of_nodup_map sound.unique hother found hticket]
  exact awaited

theorem Sound.cleanup (sound : p.Sound) :
    (∀ l ∈ p.cleanup.loops, l.ticket < p.tickets ∧ l.cancelled = true) ∧
      (p.cleanup.loops.map Loop.ticket).Nodup ∧ p.cleanup.current = none ∧
      p.cleanup.tickets = p.tickets := by
  unfold Poller.cleanup
  split
  · next hnone =>
    refine ⟨fun l hl => ⟨sound.issued l hl, ?_⟩, sound.unique, hnone, rfl⟩
    by_contra hlive
    have hcurrent := (sound.listens l hl (by simpa using hlive)).1
    rw [hnone] at hcurrent
    cases hcurrent
  · next ticket hticket =>
    refine ⟨fun l hl => ?_, ?_, rfl, rfl⟩
    · obtain ⟨l₀, hl₀, rfl⟩ := mem_update.mp hl
      split
      · exact ⟨sound.issued l₀ hl₀, rfl⟩
      · next hne =>
        refine ⟨sound.issued l₀ hl₀, ?_⟩
        by_contra hlive
        have hcurrent := (sound.listens l₀ hl₀ (by simpa using hlive)).1
        rw [hticket] at hcurrent
        exact hne (Option.some.inj hcurrent).symm
    · have htickets : (update Loop.ticket ticket Loop.cancel p.loops).map Loop.ticket =
          p.loops.map Loop.ticket := map_key_update fun _ => rfl
      exact htickets ▸ sound.unique

/-- The effect runs: whatever listened before does not any more. -/
theorem Sound.effect [DecidableEq ι] (sound : p.Sound) (h : p.effect ids = some p') :
    p'.Sound ∧ p'.ids = ids := by
  obtain ⟨-, h⟩ := Option.ite_none_left_eq_some.mp h
  obtain rfl := Option.some.inj h
  obtain ⟨hsilent, hunique, hcurrent, htickets⟩ := sound.cleanup
  have hnone : ∀ l ∈ p.cleanup.loops, l.cancelled ≠ false := fun l hl => by
    rw [(hsilent l hl).2]
    decide
  unfold start
  split
  · next hids =>
    refine ⟨⟨fun l hl => htickets ▸ (hsilent l hl).1, hunique,
      fun l hl hlive => absurd hlive (hnone l hl), fun ticket ht => ?_,
      iff_of_true hcurrent hids⟩, rfl⟩
    rw [hcurrent] at ht
    cases ht
  · next hids =>
    refine ⟨⟨fun l hl => ?_, ?_, fun l hl hlive => ?_, fun ticket ht => ?_,
      iff_of_false (by simp) hids⟩, rfl⟩
    · rcases List.mem_append.mp hl with hl | hl
      · exact Nat.lt_succ_of_lt (htickets ▸ (hsilent l hl).1)
      · obtain rfl := List.mem_singleton.mp hl
        exact Nat.lt_succ_self _
    · rw [List.map_append, List.map_singleton]
      refine hunique.append (List.nodup_singleton _) fun ticket hold hnew => ?_
      obtain ⟨l, hl, rfl⟩ := List.mem_map.mp hold
      have hlt := (hsilent l hl).1
      rw [List.mem_singleton.mp hnew, htickets] at hlt
      exact Nat.lt_irrefl _ hlt
    · rcases List.mem_append.mp hl with hl | hl
      · exact absurd hlive (hnone l hl)
      · obtain rfl := List.mem_singleton.mp hl
        exact ⟨rfl, rfl, List.nil_sublist _, by simp⟩
    · obtain rfl := Option.some.inj ht
      exact ⟨_, List.mem_append_right _ (List.mem_singleton_self _), rfl, rfl⟩

theorem Sound.watches (sound : p.Sound) : p.Watches p.ids := by
  refine ⟨fun l hl hlive => (sound.listens l hl hlive).2, ?_⟩
  cases hcurrent : p.current with
  | none =>
    rw [if_pos (sound.ids.mp hcurrent), List.length_eq_zero_iff, List.filter_eq_nil_iff]
    intro l hl hlive
    have h := (sound.listens l hl (by simpa using hlive)).1
    rw [hcurrent] at h
    cases h
  | some ticket =>
    have hids : p.ids ≠ [] := fun hnil => by
      rw [sound.ids.mpr hnil] at hcurrent
      cases hcurrent
    obtain ⟨l, hl, rfl, hlive⟩ := sound.current ticket hcurrent
    have hsame : (p.loops.filter fun l => !l.cancelled) = [l] := by
      refine List.perm_singleton.mp ((List.perm_ext_iff_of_nodup ?_ (List.nodup_singleton l)).mpr
        fun other => ?_)
      · exact sound.unique.of_map.filter _
      · rw [List.mem_filter, List.mem_singleton]
        constructor
        · rintro ⟨hother, h⟩
          have hticket := (sound.listens other hother (by simpa using h)).1
          rw [hcurrent] at hticket
          exact List.inj_on_of_nodup_map sound.unique hother hl (Option.some.inj hticket).symm
        · rintro rfl
          exact ⟨hl, by simp [hlive]⟩
    rw [hsame, if_neg hids, List.length_singleton]

end Poller

end Polling
