import Mathlib.Algebra.Group.Hom.Basic
import Mathlib.Algebra.Order.Group.Basic
import Mathlib.Data.List.Induction
import Mathlib.Data.List.TakeWhile
import Mathlib.Data.Set.Finite.Lattice
import Mathlib.Data.Set.Finite.List
import Mathlib.Logic.Function.Basic

/-! # Sliding windows

A limiter answers timed calls on keys. Its log says what a window holds: the times at
which calls were allowed since the key was last cleared. The queue of a pruning
limiter loses old entries from the front only, and still counts every window exactly.
-/

namespace SlidingWindow

inductive Call (κ T : Type) where
  | check (key : κ) (now : T)
  | clear (key : κ)

inductive Event (κ T α : Type) where
  | check (key : κ) (now : T) (answer : α)
  | clear (key : κ)

def Call.time? {κ T : Type} : Call κ T → Option T
  | .check _ now => some now
  | .clear _ => none

def InOrder {κ T : Type} [LE T] (calls : List (Call κ T)) : Prop :=
  (calls.filterMap Call.time?).Pairwise (· ≤ ·)

instance {κ T : Type} [LE T] [DecidableLE T] (calls : List (Call κ T)) :
    Decidable (InOrder calls) :=
  inferInstanceAs (Decidable (List.Pairwise _ _))

theorem InOrder.before {κ T : Type} [LE T] {before after : List (Call κ T)} {key : κ} {now : T}
    (ordered : InOrder (before ++ .check key now :: after)) :
    InOrder before ∧ ∀ t ∈ before.filterMap Call.time?, t ≤ now := by
  rw [InOrder, List.filterMap_append] at ordered
  obtain ⟨hbefore, -, hcross⟩ := List.pairwise_append.mp ordered
  exact ⟨hbefore, fun t ht => hcross t ht now (by simp [Call.time?])⟩

theorem InOrder.between {κ T : Type} [LE T] {before between : List (Call κ T)} {key key' : κ}
    {now now' : T}
    (ordered : InOrder (before ++ .check key now :: (between ++ [.check key' now']))) :
    InOrder between ∧ (∀ t ∈ between.filterMap Call.time?, now ≤ t ∧ t ≤ now') ∧ now ≤ now' := by
  have hafter : InOrder (.check key now :: (between ++ [.check key' now'])) := by
    rw [InOrder, List.filterMap_append] at ordered
    exact (List.pairwise_append.mp ordered).2.1
  obtain ⟨hfirst, hrest⟩ := List.pairwise_cons.mp hafter
  obtain ⟨hbetween, hlast⟩ := InOrder.before hrest
  rw [List.filterMap_append] at hfirst
  exact ⟨hbetween, fun t ht => ⟨hfirst t (List.mem_append_left _ ht), hlast t ht⟩,
    hfirst now' (by simp [Call.time?])⟩

def Call.map {κ T T' : Type} (τ : T → T') : Call κ T → Call κ T'
  | .check key now => .check key (τ now)
  | .clear key => .clear key

def Event.map {κ T T' α β : Type} (τ : T → T') (f : α → β) : Event κ T α → Event κ T' β
  | .check key now answer => .check key (τ now) (f answer)
  | .clear key => .clear key

@[simp] theorem Call.map_id {κ T : Type} : (Call.map id : Call κ T → Call κ T) = id := by
  funext call
  cases call <;> rfl

section Logs

variable {κ T : Type} [DecidableEq κ]

def remember (key : κ) (hits : List T) : Event κ T Bool → List T
  | .check key' now allowed => if key' = key ∧ allowed then hits ++ [now] else hits
  | .clear key' => if key' = key then [] else hits

/-- The times at which calls on a key were allowed since it was last cleared. -/
def allowedSince (key : κ) (log : List (Event κ T Bool)) : List T := log.foldl (remember key) []

@[simp] theorem allowedSince_concat (key : κ) (log : List (Event κ T Bool)) (e : Event κ T Bool) :
    allowedSince key (log ++ [e]) = remember key (allowedSince key log) e := by
  rw [allowedSince, List.foldl_append]
  rfl

/-- Without an allowed call in between, at most a clear changes the allowed times. -/
theorem allowedSince_append (key : κ) (log between : List (Event κ T Bool))
    (none_allowed : ∀ now, Event.check key now true ∉ between) :
    allowedSince key (log ++ between) = allowedSince key log ∨
      allowedSince key (log ++ between) = [] := by
  induction between using List.reverseRecOn with
  | nil => exact .inl (by rw [List.append_nil])
  | append_singleton between e ih =>
    obtain ⟨hbefore, he⟩ : (∀ now, Event.check key now true ∉ between) ∧
        ∀ now, Event.check key now true ≠ e :=
      ⟨fun now h => none_allowed now (List.mem_append_left _ h),
        fun now h => none_allowed now (by simp [h])⟩
    have ih := ih hbefore
    rw [← List.append_assoc, allowedSince_concat]
    cases e with
    | check key' now allowed =>
      have hother : ¬ (key' = key ∧ allowed = true) := by
        rintro ⟨rfl, rfl⟩
        exact he now rfl
      rw [remember, if_neg hother]
      exact ih
    | clear key' =>
      by_cases hkey : key' = key
      · exact .inr (if_pos hkey)
      · rw [remember, if_neg hkey]
        exact ih

variable [LinearOrder T]

def countIn (start stop : T) (hits : List T) : ℕ := hits.countP fun t => start ≤ t ∧ t ≤ stop

variable {hits : List T} {now : T}

theorem dropWhile_sorted (sorted : hits.Pairwise (· ≤ ·)) (start : T) :
    hits.dropWhile (fun t => t < start) = hits.filter fun t => start ≤ t := by
  induction hits with
  | nil => rfl
  | cons t hits ih =>
    obtain ⟨hhead, htail⟩ := List.pairwise_cons.mp sorted
    by_cases ht : t < start
    · rw [List.dropWhile_cons_of_pos (by simpa using ht),
        List.filter_cons_of_neg (by simpa using ht), ih htail]
    · have hall : ∀ u ∈ t :: hits, decide (start ≤ u) = true := by
        intro u hu
        rcases List.mem_cons.mp hu with rfl | hu
        · simpa using ht
        · simpa using (not_lt.mp ht).trans (hhead u hu)
      rw [List.dropWhile_cons_of_neg (by simpa using ht), List.filter_eq_self.mpr hall]

theorem countIn_eq_length (past : ∀ t ∈ hits, t ≤ now) (start : T) :
    countIn start now hits = (hits.filter fun t => start ≤ t).length := by
  rw [countIn, List.countP_eq_length_filter]
  refine congrArg List.length (List.filter_congr fun t ht => ?_)
  simp [past t ht]

variable [AddCommGroup T]

/-- A check is allowed where fewer than the limit were allowed in the window that ends with it. -/
def Exact (window : T) (limit : κ → ℕ) (log : List (Event κ T Bool)) : Prop :=
  ∀ earlier key now allowed later, log = earlier ++ .check key now allowed :: later →
    (allowed = true ↔ countIn (now - window) now (allowedSince key earlier) < limit key)

/-- No closed window between two clears of a key holds more allowed calls than the limit. -/
def Bounded (window : T) (limit : κ → ℕ) (log : List (Event κ T Bool)) : Prop :=
  ∀ earlier later, log = earlier ++ later →
    ∀ key start, countIn start (start + window) (allowedSince key earlier) ≤ limit key

variable {window : T} {limit : κ → ℕ} {log : List (Event κ T Bool)}

theorem Exact.nil (window : T) (limit : κ → ℕ) : Exact window limit [] := by
  intro earlier key now allowed later hlog
  cases earlier <;> cases hlog

theorem Exact.check (exact : Exact window limit log) {key : κ} {now : T} {allowed : Bool}
    (decided : allowed = true ↔
      countIn (now - window) now (allowedSince key log) < limit key) :
    Exact window limit (log ++ [.check key now allowed]) := by
  intro earlier key' now' allowed' later hlog
  rcases List.eq_nil_or_concat later with rfl | ⟨later, e, rfl⟩
  · obtain ⟨rfl, hlast⟩ := List.append_inj' hlog rfl
    obtain ⟨rfl, rfl, rfl⟩ := Event.check.inj (List.cons.inj hlast).1
    exact decided
  · rw [List.concat_eq_append, ← List.cons_append, ← List.append_assoc] at hlog
    exact exact earlier key' now' allowed' later (List.append_inj' hlog rfl).1

theorem Exact.clear (exact : Exact window limit log) (key : κ) :
    Exact window limit (log ++ [.clear key]) := by
  intro earlier key' now' allowed' later hlog
  rcases List.eq_nil_or_concat later with rfl | ⟨later, e, rfl⟩
  · cases (List.cons.inj (List.append_inj' hlog rfl).2).1
  · rw [List.concat_eq_append, ← List.cons_append, ← List.append_assoc] at hlog
    exact exact earlier key' now' allowed' later (List.append_inj' hlog rfl).1

end Logs

structure Limiter (σ κ T α : Type) where
  check : σ → κ → T → α × σ
  clear : σ → κ → σ

namespace Limiter

variable {σ σ' κ T T' α β : Type}

def step (L : Limiter σ κ T α) (s : σ) : Call κ T → Event κ T α × σ
  | .check key now => (.check key now (L.check s key now).1, (L.check s key now).2)
  | .clear key => (.clear key, L.clear s key)

/-- The log of some calls, and the state after them. -/
def run (L : Limiter σ κ T α) (s : σ) : List (Call κ T) → List (Event κ T α) × σ
  | [] => ([], s)
  | call :: calls =>
    ((L.step s call).1 :: (L.run (L.step s call).2 calls).1, (L.run (L.step s call).2 calls).2)

theorem run_split {L : Limiter σ κ T α} {s : σ} {calls : List (Call κ T)}
    {earlier later : List (Event κ T α)} (h : (L.run s calls).1 = earlier ++ later) :
    ∃ before after, calls = before ++ after ∧ (L.run s before).1 = earlier ∧
      (L.run (L.run s before).2 after).1 = later := by
  induction earlier generalizing s calls with
  | nil => exact ⟨[], calls, rfl, rfl, h⟩
  | cons e earlier ih =>
    cases calls with
    | nil => cases h
    | cons call calls =>
      obtain ⟨he, hrest⟩ := List.cons.inj h
      obtain ⟨before, after, rfl, hearlier, hlater⟩ := ih hrest
      exact ⟨call :: before, after, rfl, by rw [run, he, hearlier], hlater⟩

/-- Every step of one limiter is a step of the other, on translated times and answers. -/
structure Simulates (L : Limiter σ κ T α) (L' : Limiter σ' κ T' β) (R : σ → σ' → Prop) (τ : T → T')
    (f : α → β) : Prop where
  check : ∀ s s' key now, R s s' →
    (L'.check s' key (τ now)).1 = f (L.check s key now).1 ∧
      R (L.check s key now).2 (L'.check s' key (τ now)).2
  clear : ∀ s s' key, R s s' → R (L.clear s key) (L'.clear s' key)

theorem Simulates.run {L : Limiter σ κ T α} {L' : Limiter σ' κ T' β} {R : σ → σ' → Prop}
    {τ : T → T'} {f : α → β} (h : L.Simulates L' R τ f) {s : σ} {s' : σ'} (start : R s s')
    (calls : List (Call κ T)) :
    (L'.run s' (calls.map (Call.map τ))).1 = (L.run s calls).1.map (Event.map τ f) ∧
      R (L.run s calls).2 (L'.run s' (calls.map (Call.map τ))).2 := by
  induction calls generalizing s s' with
  | nil => exact ⟨rfl, start⟩
  | cons call calls ih =>
    have hstep : (L'.step s' (call.map τ)).1 = (L.step s call).1.map τ f ∧
        R (L.step s call).2 (L'.step s' (call.map τ)).2 := by
      cases call with
      | check key now =>
        obtain ⟨hanswer, hrel⟩ := h.check s s' key now start
        exact ⟨congrArg (Event.check key (τ now)) hanswer, hrel⟩
      | clear key => exact ⟨rfl, h.clear s s' key start⟩
    obtain ⟨hlog, hrel⟩ := ih hstep.2
    refine ⟨?_, hrel⟩
    simp only [List.map_cons, Limiter.run, hstep.1, hlog]

end Limiter

section Pruning

variable {κ T : Type} [DecidableEq κ] [LinearOrder T] [AddCommGroup T]

/-- Entries are dropped from the front while they are older than the window. -/
def prune (window now : T) (bucket : List T) : List T := bucket.dropWhile fun t => t < now - window

/-- One check on a bucket. A refusal records nothing, but what was pruned is gone. -/
def grant (window : T) (limit : ℕ) (bucket : List T) (now : T) : Bool × List T :=
  if limit ≤ (prune window now bucket).length then (false, prune window now bucket)
  else (true, prune window now bucket ++ [now])

def pruning (window : T) (limit : κ → ℕ) : Limiter (κ → List T) κ T Bool where
  check s key now :=
    ((grant window (limit key) (s key) now).1,
      Function.update s key (grant window (limit key) (s key) now).2)
  clear s key := Function.update s key []

theorem pruning_answer (window : T) (limit : κ → ℕ) (s : κ → List T) (key : κ) (now : T) :
    ((pruning window limit).check s key now).1 = true ↔
      ¬ limit key ≤ (prune window now (s key)).length := by
  by_cases hfull : limit key ≤ (prune window now (s key)).length <;> simp [pruning, grant, hfull]

/-- A bucket at some time against all the hits of its key: it lost some of the oldest, which no
window from now on reaches. -/
structure Tracks (window now : T) (bucket hits : List T) : Prop where
  sorted : hits.Pairwise (· ≤ ·)
  past : ∀ t ∈ hits, t ≤ now
  dropped : ∃ lost, hits = lost ++ bucket ∧ ∀ t ∈ lost, t < now - window

structure Invariant (window : T) (limit : κ → ℕ) (now : T) (log : List (Event κ T Bool))
    (s : κ → List T) : Prop where
  tracks : ∀ key, Tracks window now (s key) (allowedSince key log)
  short : ∀ key, (s key).length ≤ limit key
  within : ∀ key start, countIn start (start + window) (allowedSince key log) ≤ limit key

variable {window now now' : T} {limit : κ → ℕ} {bucket hits : List T}
  {log : List (Event κ T Bool)} {s : κ → List T}

theorem prune_oldest {oldest : T} {rest : List T} (h : prune window now bucket = oldest :: rest) :
    now - window ≤ oldest := by
  rw [prune] at h
  have hne : bucket.dropWhile (fun t => t < now - window) ≠ [] := h ▸ List.cons_ne_nil _ _
  have hhead := List.head_dropWhile_not (fun t => decide (t < now - window)) hne
  simpa only [h, List.head_cons, decide_eq_false_iff_not, not_lt] using hhead

theorem Tracks.nil (window now : T) : Tracks window now ([] : List T) [] where
  sorted := .nil
  past := List.forall_mem_nil _
  dropped := ⟨[], rfl, List.forall_mem_nil _⟩

theorem Tracks.push (h : Tracks window now bucket hits) :
    Tracks window now (bucket ++ [now]) (hits ++ [now]) where
  sorted := List.pairwise_append.mpr
    ⟨h.sorted, List.pairwise_singleton _ _, fun t ht u hu => by
      rw [List.mem_singleton.mp hu]
      exact h.past t ht⟩
  past := List.forall_mem_append.mpr ⟨h.past, by simp⟩
  dropped := by
    obtain ⟨lost, hhits, hlost⟩ := h.dropped
    exact ⟨lost, by rw [hhits, List.append_assoc], hlost⟩

/-- Pruning leaves what a scan of all the hits would find. -/
theorem Tracks.prune_eq (h : Tracks window now bucket hits) :
    prune window now bucket = hits.filter fun t => now - window ≤ t := by
  obtain ⟨lost, rfl, hlost⟩ := h.dropped
  have hbucket := (List.pairwise_append.mp h.sorted).2.1
  have hnone : lost.filter (fun t => now - window ≤ t) = [] :=
    List.filter_eq_nil_iff.mpr fun t ht => by
      simpa only [decide_eq_true_eq, not_le] using hlost t ht
  rw [prune, dropWhile_sorted hbucket, List.filter_append, hnone, List.nil_append]

theorem Tracks.length_prune (h : Tracks window now bucket hits) :
    (prune window now bucket).length = countIn (now - window) now hits := by
  rw [h.prune_eq, countIn_eq_length h.past]

theorem Tracks.prune (h : Tracks window now bucket hits) :
    Tracks window now (prune window now bucket) hits where
  sorted := h.sorted
  past := h.past
  dropped := by
    obtain ⟨lost, hhits, hlost⟩ := h.dropped
    refine ⟨lost ++ bucket.takeWhile fun t => t < now - window, ?_, fun t ht => ?_⟩
    · rw [List.append_assoc, SlidingWindow.prune, List.takeWhile_append_dropWhile, hhits]
    · rcases List.mem_append.mp ht with ht | ht
      · exact hlost t ht
      · simpa using List.mem_takeWhile_imp ht

theorem Invariant.nil (window now : T) (limit : κ → ℕ) :
    Invariant window limit now [] fun _ => [] where
  tracks _ := .nil window now
  short _ := Nat.zero_le _
  within _ _ := Nat.zero_le _

theorem Invariant.clear (h : Invariant window limit now log s) (key : κ) :
    Invariant window limit now (log ++ [.clear key]) ((pruning window limit).clear s key) := by
  refine ⟨fun key' => ?_, fun key' => ?_, fun key' => ?_⟩
  all_goals
    rcases eq_or_ne key' key with rfl | hkey
  · simpa [pruning, remember] using Tracks.nil window now
  · simpa [pruning, remember, hkey, hkey.symm] using h.tracks key'
  · simp [pruning]
  · simpa [pruning, hkey] using h.short key'
  · simp [remember, countIn]
  · simpa [remember, hkey.symm] using h.within key'

variable [IsOrderedAddMonoid T]

theorem Tracks.later (h : Tracks window now bucket hits) (le : now ≤ now') :
    Tracks window now' bucket hits where
  sorted := h.sorted
  past t ht := (h.past t ht).trans le
  dropped := by
    obtain ⟨lost, hhits, hlost⟩ := h.dropped
    exact ⟨lost, hhits, fun t ht => (hlost t ht).trans_le (sub_le_sub_right le window)⟩

/-- A window around an allowed call holds that call and what was counted when it was allowed. -/
theorem countIn_push (past : ∀ t ∈ hits, t ≤ now) {n : ℕ}
    (room : countIn (now - window) now hits < n)
    (within : ∀ start, countIn start (start + window) hits ≤ n) (start : T) :
    countIn start (start + window) (hits ++ [now]) ≤ n := by
  by_cases hnow : start ≤ now ∧ now ≤ start + window
  · have hfew : countIn start (start + window) hits ≤ countIn (now - window) now hits := by
      refine List.countP_mono_left fun t ht hin => ?_
      have hin : start ≤ t ∧ t ≤ start + window := by simpa using hin
      have hstart : now - window ≤ start := sub_le_iff_le_add.mpr hnow.2
      simpa using And.intro (hstart.trans hin.1) (past t ht)
    have hone : countIn start (start + window) (hits ++ [now]) =
        countIn start (start + window) hits + 1 := by
      simp [countIn, List.countP_append, hnow]
    omega
  · have hsame : countIn start (start + window) (hits ++ [now]) =
        countIn start (start + window) hits := by
      simp [countIn, List.countP_append, hnow]
    exact hsame.trans_le (within start)

theorem Tracks.grant {n : ℕ} (h : Tracks window now bucket hits)
    (within : ∀ start, countIn start (start + window) hits ≤ n) :
    ((grant window n bucket now).1 = true ↔ countIn (now - window) now hits < n) ∧
      (grant window n bucket now).2.length ≤ n ∧
      Tracks window now (grant window n bucket now).2
        (if (grant window n bucket now).1 = true then hits ++ [now] else hits) ∧
      ∀ start, countIn start (start + window)
        (if (grant window n bucket now).1 = true then hits ++ [now] else hits) ≤ n := by
  have hlength : (SlidingWindow.prune window now bucket).length = countIn (now - window) now hits :=
    h.length_prune
  by_cases hfull : n ≤ (SlidingWindow.prune window now bucket).length
  · have hrefused : SlidingWindow.grant window n bucket now =
        (false, SlidingWindow.prune window now bucket) := if_pos hfull
    have hwindow := within (now - window)
    rw [sub_add_cancel, ← hlength] at hwindow
    rw [hrefused, ← hlength]
    exact ⟨by simpa using hfull, hwindow, h.prune, within⟩
  · have hallowed : SlidingWindow.grant window n bucket now =
        (true, SlidingWindow.prune window now bucket ++ [now]) := if_neg hfull
    have hroom : countIn (now - window) now hits < n := hlength ▸ not_le.mp hfull
    rw [hallowed]
    refine ⟨iff_of_true rfl hroom, ?_, h.prune.push, countIn_push h.past hroom within⟩
    rw [List.length_append, List.length_singleton, hlength]
    exact hroom

theorem Invariant.later (h : Invariant window limit now log s) (le : now ≤ now') :
    Invariant window limit now' log s where
  tracks key := (h.tracks key).later le
  short := h.short
  within := h.within

/-- A check keeps the invariant, and is allowed where the window before it has room. -/
theorem Invariant.check (h : Invariant window limit now log s) (key : κ) :
    (((pruning window limit).check s key now).1 = true ↔
        countIn (now - window) now (allowedSince key log) < limit key) ∧
      Invariant window limit now
        (log ++ [.check key now ((pruning window limit).check s key now).1])
        ((pruning window limit).check s key now).2 := by
  obtain ⟨hiff, hshort, htracks, hwithin⟩ := (h.tracks key).grant (h.within key)
  refine ⟨hiff, fun key' => ?_, fun key' => ?_, fun key' => ?_⟩
  all_goals
    rcases eq_or_ne key' key with rfl | hkey
  · simpa [pruning, remember] using htracks
  · simpa [pruning, remember, hkey, hkey.symm] using h.tracks key'
  · simpa [pruning] using hshort
  · simpa [pruning, hkey] using h.short key'
  · simpa [pruning, remember] using hwithin
  · simpa [remember, hkey.symm] using h.within key'

theorem Invariant.run (h : Invariant window limit now log s) {calls : List (Call κ T)}
    (ordered : InOrder calls) (between : ∀ t ∈ calls.filterMap Call.time?, now ≤ t ∧ t ≤ now')
    (le : now ≤ now') :
    Invariant window limit now' (log ++ ((pruning window limit).run s calls).1)
      ((pruning window limit).run s calls).2 := by
  induction calls generalizing now log s with
  | nil => simpa [Limiter.run] using h.later le
  | cons call calls ih =>
    rw [Limiter.run, List.append_cons]
    cases call with
    | check key t =>
      obtain ⟨hfirst, hrest⟩ := List.pairwise_cons.mp ordered
      obtain ⟨⟨hnow, hnow'⟩, hbetween⟩ := List.forall_mem_cons.mp between
      exact ih ((h.later hnow).check key).2 hrest
        (fun u hu => ⟨hfirst u hu, (hbetween u hu).2⟩) hnow'
    | clear key => exact ih (h.clear key) ordered between le

theorem Invariant.reached (window : T) (limit : κ → ℕ) {calls : List (Call κ T)}
    (ordered : InOrder calls) (past : ∀ t ∈ calls.filterMap Call.time?, t ≤ now) :
    Invariant window limit now ((pruning window limit).run (fun _ => []) calls).1
      ((pruning window limit).run (fun _ => []) calls).2 := by
  cases htimes : calls.filterMap Call.time? with
  | nil => exact (Invariant.nil window now limit).run ordered (by simp [htimes]) le_rfl
  | cons t times =>
    have hsorted : (t :: times).Pairwise (· ≤ ·) := htimes ▸ ordered
    have hfirst : ∀ u ∈ calls.filterMap Call.time?, t ≤ u ∧ u ≤ now := by
      intro u hu
      refine ⟨?_, past u hu⟩
      rcases List.mem_cons.mp (htimes ▸ hu) with rfl | hu
      · exact le_rfl
      · exact (List.pairwise_cons.mp hsorted).1 u hu
    exact (Invariant.nil window t limit).run ordered hfirst (past t (by simp [htimes]))

/-- The decisions of the pruning limiter are those of the window. -/
theorem pruning_exact (window : T) (limit : κ → ℕ) {calls : List (Call κ T)}
    (ordered : InOrder calls) :
    Exact window limit ((pruning window limit).run (fun _ => []) calls).1 := by
  intro earlier key now allowed later hlog
  obtain ⟨before, after, rfl, rfl, hafter⟩ := Limiter.run_split hlog
  cases after with
  | nil => cases hafter
  | cons call after =>
    obtain ⟨hevent, -⟩ := List.cons.inj hafter
    cases call with
    | clear key => cases hevent
    | check key' now' =>
      obtain ⟨rfl, rfl, rfl⟩ := Event.check.inj hevent
      obtain ⟨hordered, hpast⟩ := ordered.before
      exact ((Invariant.reached window limit hordered hpast).check _).1

theorem pruning_bounded (window : T) (limit : κ → ℕ) {calls : List (Call κ T)}
    (ordered : InOrder calls) :
    Bounded window limit ((pruning window limit).run (fun _ => []) calls).1 := by
  intro earlier later hlog key start
  obtain ⟨before, after, rfl, rfl, -⟩ := Limiter.run_split hlog
  have hordered : InOrder before := by
    rw [InOrder, List.filterMap_append] at ordered
    exact (List.pairwise_append.mp ordered).1
  obtain ⟨now, hnow⟩ := (before.filterMap Call.time?).finite_toSet.bddAbove
  exact (Invariant.reached window limit hordered fun t ht => hnow ht).within key start

/-- A refused key has room again once its oldest counted hit has left the window. -/
theorem Invariant.admits_again (h : Invariant window limit now log s) {key : κ} {oldest : T}
    {rest : List T} (bucket : prune window now (s key) = oldest :: rest)
    (full : limit key ≤ (oldest :: rest).length) (positive : 0 < limit key)
    {between : List (Call κ T)} (ordered : InOrder between)
    (times : ∀ t ∈ between.filterMap Call.time?, now ≤ t ∧ t ≤ now') (le : now ≤ now')
    (none_allowed : ∀ t, Event.check key t true ∉
      ((pruning window limit).run ((pruning window limit).check s key now).2 between).1)
    (left : oldest < now' - window) :
    ((pruning window limit).check
      ((pruning window limit).run ((pruning window limit).check s key now).2 between).2
        key now').1 = true := by
  have hrefused : ((pruning window limit).check s key now).1 = false :=
    Bool.eq_false_iff.mpr fun hanswer =>
      (pruning_answer window limit s key now).mp hanswer (by rwa [bucket])
  have hthen := (h.check key).2.run ordered times le
  refine (hthen.check key).1.mpr ?_
  have hsame : allowedSince key
      (log ++ [.check key now ((pruning window limit).check s key now).1]) =
        allowedSince key log := by
    rw [hrefused, allowedSince_concat, remember, if_neg (by simp)]
  rcases allowedSince_append key _ _ none_allowed with hkept | hcleared
  · -- one of the hits counted at `now` is no longer counted, and none is new
    have hcounted : (allowedSince key log).filter (fun t => now - window ≤ t) = oldest :: rest := by
      rw [← (h.tracks key).prune_eq, bucket]
    have hfits : (oldest :: rest).length ≤ limit key := by
      have hwindow := h.within key (now - window)
      rwa [sub_add_cancel, countIn_eq_length (h.tracks key).past, hcounted] at hwindow
    have hpast := (hthen.tracks key).past
    rw [hkept, hsame] at hpast ⊢
    have hdrop : (allowedSince key log).filter (fun t => now' - window ≤ t) =
        (oldest :: rest).filter fun t => now' - window ≤ t := by
      rw [← hcounted, List.filter_filter]
      refine List.filter_congr fun t _ => ?_
      have hstart : now - window ≤ now' - window := sub_le_sub_right le window
      by_cases ht : now' - window ≤ t
      · simp [ht, hstart.trans ht]
      · simp [ht]
    have hrest : (rest.filter fun t => now' - window ≤ t).length ≤ rest.length :=
      List.length_filter_le _ _
    rw [countIn_eq_length hpast, hdrop, List.filter_cons_of_neg (by
      simpa only [decide_eq_true_eq, not_le] using left)]
    rw [List.length_cons] at hfits
    omega
  · rw [hcleared]
    exact positive

end Pruning

section Clocks

variable {κ T T' : Type} [DecidableEq κ] [LinearOrder T] [AddCommGroup T] [LinearOrder T']
  [AddCommGroup T']

theorem admit_map (τ : T →+ T') (strict : StrictMono τ) (window now : T) (limit : ℕ)
    (bucket : List T) :
    grant (τ window) limit (bucket.map τ) (τ now) =
      ((grant window limit bucket now).1, (grant window limit bucket now).2.map τ) := by
  have hprune : prune (τ window) (τ now) (bucket.map τ) = (prune window now bucket).map τ := by
    have htest : ((fun t => decide (t < τ now - τ window)) ∘ τ) =
        fun t => decide (t < now - window) := by
      funext t
      simp only [Function.comp_apply, ← map_sub, strict.lt_iff_lt]
    rw [prune, List.dropWhile_map, htest, prune]
  simp only [grant, hprune, List.length_map]
  split <;> simp

theorem pruning_simulates (τ : T →+ T') (strict : StrictMono τ) (window : T) (limit : κ → ℕ) :
    (pruning window limit).Simulates (pruning (τ window) limit)
      (fun s s' => s' = fun key => (s key).map τ) τ id where
  check := by
    rintro s _ key now rfl
    simp only [pruning, admit_map τ strict]
    refine ⟨rfl, funext fun key' => ?_⟩
    rcases eq_or_ne key' key with rfl | hkey
    · simp
    · simp [hkey]
  clear := by
    rintro s _ key rfl
    refine funext fun key' => ?_
    rcases eq_or_ne key' key with rfl | hkey
    · simp [pruning]
    · simp [pruning, hkey]

end Clocks

end SlidingWindow
