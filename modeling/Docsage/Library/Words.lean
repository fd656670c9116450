import Docsage.Library.Ranking
import Docsage.Library.Recoding
import Mathlib.Data.List.Lex
import Mathlib.Data.Prod.Lex
import Mathlib.Algebra.Order.Group.Int

/-! # Counted words

A word is a letter and the run of letters and further symbols behind it. Words
are tallied in the order they first occur and ranked by count, then by spelling.
-/

namespace Words
open Ranking Recoding

variable {α β γ : Type}

/-- All words of a text, left to right. The word that is being read comes first. -/
def scan (letter further : α → Bool) : Option (List α) → List α → List (List α)
  | none, [] => []
  | some word, [] => [word]
  | none, c :: rest =>
    if letter c then scan letter further (some [c]) rest else scan letter further none rest
  | some word, c :: rest =>
    if letter c || further c then scan letter further (some (word ++ [c])) rest
    else word :: scan letter further none rest

/-- Count one more occurrence; a new word goes to the end. -/
def bump [DecidableEq β] (word : β) : List (β × ℕ) → List (β × ℕ)
  | [] => [(word, 1)]
  | (other, n) :: rest =>
    if other = word then (other, n + 1) :: rest else (other, n) :: bump word rest

def tally [DecidableEq β] (words : List β) : List (β × ℕ) :=
  words.foldl (fun counts word => bump word counts) []

/-- Most frequent first, ties in the order of the spelling. -/
def rankKey (spelling : β → List ℕ) (entry : β × ℕ) : ℤ ×ₗ List ℕ :=
  toLex (-(entry.2 : ℤ), spelling entry.1)

def top [DecidableEq β] (spelling : β → List ℕ) (limit : ℕ) (words : List β) : List β :=
  ((OrderBy.stable.sort (rankKey spelling) (tally words)).take limit).map (·.1)

def ranking [DecidableEq β] (spelling : β → List ℕ) (words : List β) : List β :=
  (OrderBy.stable.sort (rankKey spelling) (tally words)).map (·.1)

/-- Python's `l[:limit]`, which counts a negative limit from the end. -/
def upTo (limit : ℤ) (l : List β) : List β :=
  l.take (if 0 ≤ limit then limit.toNat else (l.length + limit).toNat)

variable {letter further : α → Bool} {text : List α}

theorem scan_append (open_ : Option (List α)) {separator : α}
    (h : (letter separator || further separator) = false) (rest : List α) :
    scan letter further open_ (text ++ separator :: rest) =
      scan letter further open_ text ++ scan letter further none rest := by
  obtain ⟨hletter, hfurther⟩ := Bool.or_eq_false_iff.mp h
  induction text generalizing open_ with
  | nil => cases open_ <;> simp [scan, hletter, hfurther]
  | cons c text ih =>
    cases open_ with
    | none =>
      rw [List.cons_append, scan, scan, ih, ih]
      split_ifs <;> rfl
    | some word =>
      rw [List.cons_append, scan, scan, ih, ih]
      split_ifs <;> rfl

theorem scan_intercalate {separator : α} (h : (letter separator || further separator) = false)
    (texts : List (List α)) : scan letter further none ([separator].intercalate texts) =
      texts.flatMap (scan letter further none) := by
  induction texts with
  | nil => rfl
  | cons text texts ih =>
    cases texts with
    | nil => simp
    | cons next texts =>
      rw [List.intercalate_cons_cons, List.append_assoc, List.singleton_append, scan_append none h,
        ih]
      rfl

theorem scan_of_no_letter (h : ∀ c ∈ text, letter c = false) :
    scan letter further none text = [] := by
  induction text with
  | nil => rfl
  | cons c text ih =>
    obtain ⟨hc, htext⟩ := List.forall_mem_cons.mp h
    rw [scan, hc, if_neg Bool.false_ne_true, ih htext]

theorem mem_scan {open_ : Option (List α)}
    (hopen : ∀ word ∈ open_, ∀ c ∈ word, (letter c || further c) = true) {word : List α}
    (h : word ∈ scan letter further open_ text) : ∀ c ∈ word, (letter c || further c) = true := by
  induction text generalizing open_ with
  | nil =>
    cases open_ with
    | none => cases h
    | some w =>
      rw [scan, List.mem_singleton] at h
      exact h ▸ hopen w rfl
  | cons c text ih =>
    cases open_ with
    | none =>
      rw [scan] at h
      split_ifs at h with hc
      · exact ih (by simp [hc]) h
      · exact ih (by simp) h
    | some w =>
      rw [scan] at h
      split_ifs at h with hc
      · refine ih ?_ h
        simp only [Option.mem_def, Option.some.injEq, forall_eq', List.forall_mem_append]
        exact ⟨hopen w rfl, by simpa using hc⟩
      · rcases List.mem_cons.mp h with rfl | h
        · exact hopen word rfl
        · exact ih (by simp) h

section

variable {f : α → List β} {letter' further' : β → Bool}

theorem scan_none_plain {units : List β} (h : ∀ u ∈ units, letter' u = false) (rest : List β) :
    scan letter' further' none (units ++ rest) = scan letter' further' none rest := by
  induction units with
  | nil => rfl
  | cons u units ih =>
    obtain ⟨hu, hunits⟩ := List.forall_mem_cons.mp h
    rw [List.cons_append, scan, hu, if_neg Bool.false_ne_true, ih hunits]

theorem scan_flatMap (code : ∀ c, f c ≠ []) (hletter : Reads f letter letter')
    (hfurther : Reads f further further') (open_ : Option (List α)) :
    scan letter' further' (open_.map fun word => word.flatMap f) (text.flatMap f) =
      (scan letter further open_ text).map fun word => word.flatMap f := by
  induction text generalizing open_ with
  | nil => cases open_ <;> rfl
  | cons c text ih =>
    have hword := hletter.or hfurther
    cases open_ with
    | none =>
      rw [List.flatMap_cons, scan]
      cases hc : letter c with
      | true =>
        obtain ⟨u, hu, hu'⟩ := hletter.1 c hc
        have hrest := ih (some [c])
        rw [Option.map_some, List.flatMap_singleton, hu] at hrest
        rw [hu, List.singleton_append, Option.map_none, scan, if_pos hu', if_pos rfl, hrest]
      | false =>
        rw [Option.map_none, scan_none_plain (hletter.2 c hc), if_neg Bool.false_ne_true, ← ih none]
        rfl
    | some word =>
      rw [List.flatMap_cons, scan]
      cases hc : letter c || further c with
      | true =>
        obtain ⟨u, hu, hu' : (letter' u || further' u) = true⟩ := hword.1 c hc
        have hrest := ih (some (word ++ [c]))
        rw [Option.map_some, List.flatMap_append, List.flatMap_singleton, hu] at hrest
        rw [hu, List.singleton_append, Option.map_some, scan, if_pos hu', if_pos rfl, hrest]
      | false =>
        obtain ⟨u, units, hu⟩ := List.exists_cons_of_ne_nil (code c)
        have hplain : ∀ v ∈ f c, (letter' v || further' v) = false := hword.2 c hc
        have hskip := hletter.2 c (Bool.or_eq_false_iff.mp hc).1
        have hrest := ih none
        rw [hu] at hplain hskip ⊢
        rw [List.cons_append, Option.map_some, scan, hplain u List.mem_cons_self,
          if_neg Bool.false_ne_true, if_neg Bool.false_ne_true, List.map_cons, ← hrest,
          scan_none_plain fun v hv => hskip v (List.mem_cons_of_mem u hv)]
        rfl

end

section

variable [DecidableEq β] [DecidableEq γ] {g : β → γ}

theorem bump_map (hg : Function.Injective g) (word : β) (counts : List (β × ℕ)) :
    bump (g word) (counts.map (Prod.map g id)) = (bump word counts).map (Prod.map g id) := by
  induction counts with
  | nil => rfl
  | cons entry counts ih =>
    obtain ⟨other, n⟩ := entry
    simp only [List.map_cons, Prod.map_apply, id, bump, hg.eq_iff]
    split_ifs with h
    · rfl
    · rw [ih]
      rfl

theorem tally_map (hg : Function.Injective g) (words : List β) :
    tally (words.map g) = (tally words).map (Prod.map g id) := by
  induction words using List.reverseRecOn with
  | nil => rfl
  | append_singleton words word ih =>
    rw [tally] at ih
    rw [tally, tally, List.map_append, List.foldl_append, ih, List.foldl_append]
    exact bump_map hg word _

theorem mem_bump {entry : β × ℕ} {word : β} {counts : List (β × ℕ)} (h : entry ∈ bump word counts) :
    entry.1 = word ∨ ∃ other ∈ counts, other.1 = entry.1 := by
  induction counts with
  | nil =>
    rw [bump, List.mem_singleton] at h
    exact .inl (congrArg Prod.fst h)
  | cons first counts ih =>
    rw [bump] at h
    split_ifs at h with heq
    · rcases List.mem_cons.mp h with rfl | h
      · exact .inl heq
      · exact .inr ⟨entry, List.mem_cons_of_mem _ h, rfl⟩
    · rcases List.mem_cons.mp h with rfl | h
      · exact .inr ⟨_, List.mem_cons_self, rfl⟩
      · exact (ih h).imp_right fun ⟨other, hmem, heq⟩ => ⟨other, List.mem_cons_of_mem _ hmem, heq⟩

theorem mem_of_mem_tally {entry : β × ℕ} {words : List β} (h : entry ∈ tally words) :
    entry.1 ∈ words := by
  induction words using List.reverseRecOn generalizing entry with
  | nil => cases h
  | append_singleton words word ih =>
    rw [tally, List.foldl_append] at h
    rcases mem_bump h with heq | ⟨other, hmem, heq⟩
    · simp [heq]
    · exact List.mem_append_left _ (heq ▸ ih hmem)

theorem bump_ne_nil (word : β) (counts : List (β × ℕ)) : bump word counts ≠ [] := by
  cases counts with
  | nil => exact List.cons_ne_nil _ _
  | cons first counts =>
    rw [bump]
    split_ifs <;> exact List.cons_ne_nil _ _

theorem tally_eq_nil {words : List β} : tally words = [] ↔ words = [] := by
  refine ⟨fun h => ?_, fun h => h ▸ rfl⟩
  cases words using List.reverseRecOn with
  | nil => rfl
  | append_singleton words word =>
    rw [tally, List.foldl_append] at h
    exact absurd h (bump_ne_nil word _)

/-- Renaming the words without changing how they compare renames the ranking. -/
theorem ranking_map (hg : Function.Injective g) {spelling : β → List ℕ} {spelling' : γ → List ℕ}
    {words : List β} (h : ∀ word ∈ words, spelling' (g word) = spelling word) :
    ranking spelling' (words.map g) = (ranking spelling words).map g := by
  have hkey (e : β × ℕ) (he : e ∈ tally words) :
      rankKey spelling' (Prod.map g id e) = rankKey spelling e := by
    rw [rankKey, rankKey, Prod.map_fst, Prod.map_snd, id, h e.1 (mem_of_mem_tally he)]
  have hsort : ((tally words).map (Prod.map g id)).insertionSort
        (fun a b => rankKey spelling' a ≤ rankKey spelling' b) =
      ((tally words).insertionSort fun a b => rankKey spelling a ≤ rankKey spelling b).map
        (Prod.map g id) := by
    symm
    apply List.map_insertionSort
    intro a ha b hb
    rw [hkey a ha, hkey b hb]
  rw [ranking, ranking, tally_map hg, OrderBy.stable]
  simp only
  rw [hsort, List.map_map, List.map_map]
  rfl

theorem top_eq_take (spelling : β → List ℕ) (limit : ℕ) (words : List β) :
    top spelling limit words = (ranking spelling words).take limit := List.map_take

theorem top_map (hg : Function.Injective g) {spelling : β → List ℕ} {spelling' : γ → List ℕ}
    {words : List β} (h : ∀ word ∈ words, spelling' (g word) = spelling word) (limit : ℕ) :
    top spelling' limit (words.map g) = (top spelling limit words).map g := by
  rw [top_eq_take, top_eq_take, ranking_map hg h, List.map_take]

theorem top_eq_nil {spelling : β → List ℕ} {limit : ℕ} {words : List β} (h : 0 < limit) :
    top spelling limit words = [] ↔ words = [] := by
  rw [top, List.map_eq_nil_iff, List.take_eq_nil_iff, or_iff_right h.ne',
    ← @tally_eq_nil β _ words, ← List.length_eq_zero_iff, (OrderBy.perm _ _ _).length_eq,
    List.length_eq_zero_iff]

end

section Top

variable [DecidableEq β] {spelling : β → List ℕ} {words words' keys : List β} {v w : β}

/-- More frequent, or as frequent and earlier in the order of the spelling. -/
def RanksBefore (spelling : β → List ℕ) (words : List β) (v w : β) : Prop :=
  words.count w < words.count v ∨ words.count v = words.count w ∧ spelling v < spelling w

/-- Words of a list that rank in this order, and before every word that is not among them. -/
structure IsTop (spelling : β → List ℕ) (words answer : List β) : Prop where
  distinct : answer.Nodup
  occurs : ∀ w ∈ answer, w ∈ words
  ordered : answer.Pairwise (RanksBefore spelling words)
  best : ∀ w ∈ words, w ∉ answer → ∀ v ∈ answer, RanksBefore spelling words v w

theorem bump_of_mem {f : β → ℕ} (once : keys.Nodup) (h : w ∈ keys) :
    bump w (keys.map fun v => (v, f v)) = keys.map fun v => (v, f v + if w = v then 1 else 0) := by
  induction keys with
  | nil => cases h
  | cons key keys ih =>
    obtain ⟨hkey, honce⟩ := List.nodup_cons.mp once
    rw [List.map_cons, List.map_cons, bump]
    by_cases heq : key = w
    · have hrest : keys.map (fun v => (v, f v + if w = v then 1 else 0)) =
          keys.map fun v => (v, f v) := by
        refine List.map_congr_left fun v hv => ?_
        rw [if_neg (fun hwv => hkey (heq.trans hwv ▸ hv)), Nat.add_zero]
      rw [if_pos heq, if_pos heq.symm, hrest]
    · have hw : w ∈ keys := (List.mem_cons.mp h).resolve_left (Ne.symm heq)
      rw [if_neg heq, if_neg (Ne.symm heq), ih honce hw, Nat.add_zero]

theorem bump_of_not_mem {f : β → ℕ} (h : w ∉ keys) :
    bump w (keys.map fun v => (v, f v)) = (keys.map fun v => (v, f v)) ++ [(w, 1)] := by
  induction keys with
  | nil => rfl
  | cons key keys ih =>
    obtain ⟨hkey, hkeys⟩ := List.ne_and_not_mem_of_not_mem_cons h
    rw [List.map_cons, bump, if_neg (Ne.symm hkey), ih hkeys, List.cons_append]

/-- A tally holds each word once, with the number of its occurrences. -/
theorem tally_eq (words : List β) : ∃ keys : List β, keys.Nodup ∧ (∀ w, w ∈ keys ↔ w ∈ words) ∧
    tally words = keys.map fun w => (w, words.count w) := by
  induction words using List.reverseRecOn with
  | nil => exact ⟨[], List.nodup_nil, fun _ => Iff.rfl, rfl⟩
  | append_singleton words word ih =>
    obtain ⟨keys, honce, hmem, htally⟩ := ih
    have hbump : tally (words ++ [word]) = bump word (keys.map fun w => (w, words.count w)) := by
      rw [← htally, tally, List.foldl_append]
      rfl
    have hcount (w : β) :
        (words ++ [word]).count w = words.count w + if word = w then 1 else 0 := by
      rw [List.count_append, List.count_singleton]
      simp
    by_cases hword : word ∈ keys
    · refine ⟨keys, honce, fun w => ?_, ?_⟩
      · rw [hmem, List.mem_append, List.mem_singleton, or_iff_left_of_imp]
        rintro rfl
        exact (hmem w).mp hword
      · rw [hbump, bump_of_mem honce hword]
        exact List.map_congr_left fun w _ => by rw [hcount]
    · refine ⟨keys ++ [word], ?_, fun w => ?_, ?_⟩
      · refine List.nodup_append.mpr ⟨honce, List.nodup_singleton word, fun w hw v hv => ?_⟩
        rintro rfl
        exact hword (List.mem_singleton.mp hv ▸ hw)
      · rw [List.mem_append, List.mem_append, hmem]
      · have hnone : words.count word = 0 :=
          List.count_eq_zero.mpr fun h => hword ((hmem word).mpr h)
        rw [hbump, bump_of_not_mem hword, List.map_append, List.map_singleton, hcount, hnone,
          if_pos rfl]
        refine congrArg (· ++ [(word, 1)]) (List.map_congr_left fun w hw => ?_)
        rw [hcount, if_neg (fun h : word = w => hword (h ▸ hw)), Nat.add_zero]

theorem ranking_perm (spelling : β → List ℕ) (words : List β) : ∃ keys : List β, keys.Nodup ∧
    (∀ w, w ∈ keys ↔ w ∈ words) ∧ (ranking spelling words).Perm keys := by
  obtain ⟨keys, honce, hmem, htally⟩ := tally_eq words
  refine ⟨keys, honce, hmem, ?_⟩
  have hfirst : (tally words).map (·.1) = keys := by
    rw [htally, List.map_map]
    exact List.map_id keys
  have hperm := (OrderBy.stable.perm (rankKey spelling) (tally words)).map Prod.fst
  rwa [hfirst] at hperm

theorem ranking_nodup (spelling : β → List ℕ) (words : List β) :
    (ranking spelling words).Nodup := by
  obtain ⟨keys, honce, -, hperm⟩ := ranking_perm spelling words
  exact hperm.nodup_iff.mpr honce

theorem mem_ranking : w ∈ ranking spelling words ↔ w ∈ words := by
  obtain ⟨keys, -, hmem, hperm⟩ := ranking_perm spelling words
  rw [hperm.mem_iff, hmem]

theorem ranking_pairwise (injective : Function.Injective spelling) (words : List β) :
    (ranking spelling words).Pairwise (RanksBefore spelling words) := by
  obtain ⟨keys, -, -, htally⟩ := tally_eq words
  have hcount : ∀ e ∈ OrderBy.stable.sort (rankKey spelling) (tally words),
      e.2 = words.count e.1 := by
    intro e he
    rw [(OrderBy.stable.perm (rankKey spelling) (tally words)).mem_iff, htally] at he
    obtain ⟨w, -, rfl⟩ := List.mem_map.mp he
    rfl
  have honce := List.pairwise_map.mp (ranking_nodup spelling words)
  have hsorted := OrderBy.stable.sorted (rankKey spelling) (tally words)
  refine List.pairwise_map.mpr ((hsorted.and honce).imp_of_mem fun {e e'} he he' ⟨hle, hne⟩ => ?_)
  rw [rankKey, rankKey, Prod.Lex.toLex_le_toLex] at hle
  unfold RanksBefore
  rw [← hcount e he, ← hcount e' he']
  rcases hle with hlt | ⟨heq, hspelling⟩
  · exact .inl (by omega)
  · refine .inr ⟨by omega, lt_of_le_of_ne hspelling fun h => hne (injective h)⟩

theorem isTop_take (injective : Function.Injective spelling) (words : List β) (k : ℕ) :
    IsTop spelling words ((ranking spelling words).take k) where
  distinct := (ranking_nodup spelling words).sublist (List.take_sublist _ _)
  occurs w hw := mem_ranking.mp (List.mem_of_mem_take hw)
  ordered := (ranking_pairwise injective words).sublist (List.take_sublist _ _)
  best w hw hout v hv := by
    have hdrop := (mem_take_or_drop (mem_ranking.mpr hw)).resolve_left hout
    exact rel_of_take_drop (ranking_pairwise injective words) hv hdrop

theorem mem_take_of_short {k : ℕ} (short : ((ranking spelling words).take k).length < k)
    (h : w ∈ words) : w ∈ (ranking spelling words).take k := by
  by_contra hout
  have hmem : w ∈ ranking spelling words := mem_ranking.mpr h
  have hdrop := (mem_take_or_drop hmem).resolve_left hout
  exact absurd (length_take_of_mem_drop hdrop) short.ne

theorem isTop_upTo (injective : Function.Injective spelling) (words : List β) (limit : ℤ) :
    IsTop spelling words (upTo limit (ranking spelling words)) :=
  isTop_take injective words _

theorem mem_upTo_of_short {limit : ℤ}
    (short : ((upTo limit (ranking spelling words)).length : ℤ) < limit) (h : w ∈ words) :
    w ∈ upTo limit (ranking spelling words) := by
  have hlimit : 0 ≤ limit := by omega
  rw [upTo, if_pos hlimit] at short ⊢
  exact mem_take_of_short (by omega) h

/-- The order in which the words occur does not matter. -/
theorem ranking_eq_of_perm (injective : Function.Injective spelling) (h : words.Perm words') :
    ranking spelling words = ranking spelling words' := by
  have hsame : RanksBefore spelling words' = RanksBefore spelling words := by
    funext v w
    rw [RanksBefore, RanksBefore, h.count_eq, h.count_eq]
  have hordered := ranking_pairwise injective words'
  rw [hsame] at hordered
  refine List.Perm.eq_of_pairwise (fun v w _ _ hvw hwv => ?_) (ranking_pairwise injective words)
    hordered ?_
  · rcases hvw with hlt | ⟨heq, hspelling⟩ <;> rcases hwv with hlt' | ⟨heq', hspelling'⟩
    · omega
    · omega
    · omega
    · exact absurd hspelling hspelling'.asymm
  · refine (List.perm_ext_iff_of_nodup (ranking_nodup spelling words)
      (ranking_nodup spelling words')).mpr fun w => ?_
    rw [mem_ranking, mem_ranking, h.mem_iff]

end Top

end Words
