import Docsage.Library.Fields
import Docsage.Library.Windows

/-! # Recoded sequences

A code replaces every symbol by one or more units. A class of symbols that take
one unit each is read through the code. Windows are cut by position, so cutting
the units agrees with cutting the symbols only where no symbol before a cut takes
more than one unit.
-/

namespace Recoding

variable {α β : Type} {f : α → List β} {p : α → Bool} {p' : β → Bool}

/-- A class of symbols is read through a code: its members are single units of the class, and no
unit of any other symbol is in it. -/
def Reads (f : α → List β) (p : α → Bool) (p' : β → Bool) : Prop :=
  (∀ c, p c = true → ∃ u, f c = [u] ∧ p' u = true) ∧ ∀ c, p c = false → ∀ u ∈ f c, p' u = false

theorem Reads.all (reads : Reads f p p') (code : ∀ c, f c ≠ []) (text : List α) :
    (text.flatMap f).all p' = text.all p := by
  induction text with
  | nil => rfl
  | cons c rest ih =>
    rw [List.flatMap_cons, List.all_append, List.all_cons, ih]
    cases hc : p c with
    | true =>
      obtain ⟨u, hu, hp⟩ := reads.1 c hc
      simp [hu, hp]
    | false =>
      obtain ⟨u, hu⟩ := List.exists_mem_of_ne_nil _ (code c)
      have hall : (f c).all p' = false :=
        List.all_eq_false.mpr ⟨u, hu, by simp [reads.2 c hc u hu]⟩
      rw [hall, Bool.false_and]

theorem Reads.unit (reads : Reads f p p') {c : α} {u : β} (hu : u ∈ f c) : p' u = p c := by
  cases hc : p c with
  | true =>
    obtain ⟨v, hv, hp⟩ := reads.1 c hc
    rw [hv, List.mem_singleton] at hu
    rw [hu, hp]
  | false => exact reads.2 c hc u hu

theorem Reads.mem_iff (reads : Reads f p p') (code : ∀ c, f c ≠ []) {text : List α} :
    (∀ u ∈ text.flatMap f, p' u = false) ↔ ∀ c ∈ text, p c = false := by
  constructor
  · intro h c hc
    obtain ⟨u, hu⟩ := List.exists_mem_of_ne_nil _ (code c)
    rw [← reads.unit hu]
    exact h u (List.mem_flatMap_of_mem hc hu)
  · intro h u hu
    obtain ⟨c, hc, hu⟩ := List.mem_flatMap.mp hu
    rw [reads.unit hu]
    exact h c hc

theorem Reads.head? (reads : Reads f p p') (code : ∀ c, f c ≠ []) (text : List α) :
    (text.flatMap f).head?.any p' = text.head?.any p := by
  cases text with
  | nil => rfl
  | cons c rest =>
    obtain ⟨u, units, hunits⟩ := List.exists_cons_of_ne_nil (code c)
    have hu : p' u = p c := reads.unit (by rw [hunits]; exact List.mem_cons_self)
    simp [hunits, hu]

theorem Reads.getLast? (reads : Reads f p p') (code : ∀ c, f c ≠ []) (text : List α) :
    (text.flatMap f).getLast?.any p' = text.getLast?.any p := by
  obtain rfl | ⟨before, c, rfl⟩ := List.eq_nil_or_concat text
  · rfl
  · have hlast : (f c).getLast? = some ((f c).getLast (code c)) := List.getLast?_eq_some_getLast _
    have hu := reads.unit (List.getLast_mem (code c))
    simp [hlast, hu]

theorem Reads.dropWhile (reads : Reads f p p') (code : ∀ c, f c ≠ []) (text : List α) :
    (text.flatMap f).dropWhile p' = (text.dropWhile p).flatMap f := by
  induction text with
  | nil => rfl
  | cons c rest ih =>
    cases hc : p c with
    | true =>
      obtain ⟨u, hu, hp⟩ := reads.1 c hc
      rw [List.dropWhile_cons_of_pos hc, List.flatMap_cons, hu, List.singleton_append,
        List.dropWhile_cons_of_pos hp, ih]
    | false =>
      obtain ⟨u, units, hunits⟩ := List.exists_cons_of_ne_nil (code c)
      have hu : p' u = false := reads.2 c hc u (by rw [hunits]; exact List.mem_cons_self)
      rw [List.dropWhile_cons_of_neg (by simp [hc]), List.flatMap_cons, hunits, List.cons_append,
        List.dropWhile_cons_of_neg (by simp [hu])]

theorem Reads.splitOnP (reads : Reads f p p') (text : List α) :
    (text.flatMap f).splitOnP p' = (text.splitOnP p).map (List.flatMap f) := by
  induction text with
  | nil => rfl
  | cons c rest ih =>
    rw [List.flatMap_cons, List.splitOnP_cons_eq_if_modifyHead]
    cases hc : p c with
    | true =>
      obtain ⟨u, hu, hp⟩ := reads.1 c hc
      rw [hu, List.singleton_append, List.splitOnP_cons_eq_if_modifyHead, if_pos hp, ih, if_pos rfl]
      rfl
    | false =>
      obtain ⟨first, fields, hsplit⟩ := List.exists_cons_of_ne_nil (List.splitOnP_ne_nil p rest)
      rw [Fields.splitOnP_append (reads.2 c hc), ih, if_neg (by simp), hsplit]
      rfl

theorem Reads.or {q : α → Bool} {q' : β → Bool} (hp : Reads f p p') (hq : Reads f q q') :
    Reads f (fun c => p c || q c) fun u => p' u || q' u := by
  constructor
  · intro c h
    rcases Bool.or_eq_true_iff.mp h with hc | hc
    · obtain ⟨u, hu, hclass⟩ := hp.1 c hc
      exact ⟨u, hu, Bool.or_eq_true_iff.mpr (.inl hclass)⟩
    · obtain ⟨u, hu, hclass⟩ := hq.1 c hc
      exact ⟨u, hu, Bool.or_eq_true_iff.mpr (.inr hclass)⟩
  · intro c h u hu
    obtain ⟨hc, hc'⟩ := Bool.or_eq_false_iff.mp h
    exact Bool.or_eq_false_iff.mpr ⟨hp.2 c hc u hu, hq.2 c hc' u hu⟩

theorem flatMap_intercalate (separator : List α) (texts : List (List α)) :
    (separator.intercalate texts).flatMap f =
      (separator.flatMap f).intercalate (texts.map (List.flatMap f)) := by
  induction texts with
  | nil => rfl
  | cons text texts ih =>
    cases texts with
    | nil => simp
    | cons next texts =>
      rw [List.intercalate_cons_cons, List.flatMap_append, List.flatMap_append, ih]
      simp only [List.map_cons, List.intercalate_cons_cons]

end Recoding

namespace Windows

variable {α β : Type} {f : α → List β} {step width : ℕ} {l : List α}

def Narrow (f : α → List β) (l : List α) : Prop := (l.flatMap f).length = l.length

theorem length_le_flatMap (code : ∀ a, f a ≠ []) (l : List α) :
    l.length ≤ (l.flatMap f).length := by
  induction l with
  | nil => exact Nat.le_refl 0
  | cons a l ih =>
    have ha := List.length_pos_iff.mpr (code a)
    rw [List.flatMap_cons, List.length_append, List.length_cons]
    omega

theorem narrow_append (code : ∀ a, f a ≠ []) {l l' : List α} :
    Narrow f (l ++ l') ↔ Narrow f l ∧ Narrow f l' := by
  have hl := length_le_flatMap code l
  have hl' := length_le_flatMap code l'
  simp only [Narrow, List.flatMap_append, List.length_append]
  omega

theorem narrow_take_add (code : ∀ a, f a ≠ []) (m n : ℕ) :
    Narrow f (l.take (m + n)) ↔ Narrow f (l.take m) ∧ Narrow f ((l.drop m).take n) := by
  rw [List.take_add, narrow_append code]

theorem Narrow.take (code : ∀ a, f a ≠ []) {m n : ℕ} (h : Narrow f (l.take m)) (hn : n ≤ m) :
    Narrow f (l.take n) := by
  obtain ⟨k, rfl⟩ := Nat.exists_eq_add_of_le hn
  exact ((narrow_take_add code n k).mp h).1

/-- Behind symbols of one unit each, dropping units is dropping symbols. -/
theorem drop_flatMap {n : ℕ} (h : Narrow f (l.take n)) (hn : n ≤ l.length) :
    (l.flatMap f).drop n = (l.drop n).flatMap f := by
  have hlength : ((l.take n).flatMap f).length = n := by
    rw [h, List.length_take, Nat.min_eq_left hn]
  conv_lhs => rw [← List.take_append_drop n l, List.flatMap_append]
  exact List.drop_left' hlength

theorem take_flatMap_iff (code : ∀ a, f a ≠ []) (n : ℕ) :
    (l.flatMap f).take n = (l.take n).flatMap f ↔
      (l.flatMap f).length ≤ n ∨ Narrow f (l.take n) := by
  have hle := length_le_flatMap code l
  constructor
  · intro h
    by_cases hlong : (l.flatMap f).length ≤ n
    · exact .inl hlong
    · right
      have hlength := congrArg List.length h
      rw [List.length_take, Nat.min_eq_left (by omega)] at hlength
      have htake := length_le_flatMap code (l.take n)
      by_cases hn : n ≤ l.length
      · rw [Narrow, ← hlength, List.length_take, Nat.min_eq_left hn]
      · rw [List.take_of_length_le (by omega)] at hlength
        omega
  · rintro (h | h)
    · rw [List.take_of_length_le h, List.take_of_length_le (by omega)]
    · by_cases hn : n ≤ l.length
      · have hlength : ((l.take n).flatMap f).length = n := by
          rw [h, List.length_take, Nat.min_eq_left hn]
        conv_lhs => rw [← List.take_append_drop n l, List.flatMap_append]
        exact List.take_left' hlength
      · have htake : l.take n = l := List.take_of_length_le (by omega)
        rw [htake] at h ⊢
        exact List.take_of_length_le (by rw [h]; omega)

/-- Cutting the units agrees with cutting the symbols. -/
def Aligned (f : α → List β) (step width : ℕ) (l : List α) : Prop :=
  ∀ start ∈ starts (l.flatMap f).length step, Narrow f (l.take start) ∧
    ((l.flatMap f).length ≤ start + width ∨ Narrow f (l.take (start + width)))

/-- More units than one step, after symbols of one unit each, are more symbols than one step. -/
theorem length_of_narrow (h : step < (l.flatMap f).length) (hnarrow : Narrow f (l.take step)) :
    step < l.length := by
  by_contra hshort
  rw [List.take_of_length_le (by omega)] at hnarrow
  rw [hnarrow] at h
  omega

theorem aligned_iff_of_short (h : (l.flatMap f).length ≤ step) (hwidth : step ≤ width) :
    Aligned f step width l := by
  intro start hstart
  have hzero : start = 0 := by
    rcases Nat.eq_zero_or_pos (l.flatMap f).length with hempty | hpos
    · rw [hempty, starts_zero] at hstart
      cases hstart
    · rw [starts_succ (by omega) hpos, Nat.sub_eq_zero_of_le h, starts_zero] at hstart
      simpa using hstart
  subst hzero
  exact ⟨rfl, .inl (by omega)⟩

/-- A sequence of more units than one step is aligned when its first window and the step agree, and
what follows the step is aligned. -/
theorem aligned_iff_of_long (code : ∀ a, f a ≠ []) (hstep : 0 < step)
    (h : step < (l.flatMap f).length) :
    Aligned f step width l ↔ ((l.flatMap f).length ≤ width ∨ Narrow f (l.take width)) ∧
      Narrow f (l.take step) ∧ Aligned f step width (l.drop step) := by
  have hdrop (hnarrow : Narrow f (l.take step)) :
      ((l.drop step).flatMap f).length = (l.flatMap f).length - step := by
    rw [← drop_flatMap hnarrow (length_of_narrow h hnarrow).le, List.length_drop]
  have hsecond : 0 ∈ starts ((l.flatMap f).length - step) step := by
    rw [starts_succ hstep (by omega)]
    exact List.mem_cons_self
  unfold Aligned
  rw [starts_succ hstep (by omega)]
  simp only [List.forall_mem_cons, List.mem_map, forall_exists_index, and_imp,
    forall_apply_eq_imp_iff₂, Nat.zero_add, List.take_zero]
  constructor
  · rintro ⟨⟨-, hfirst⟩, hrest⟩
    have hnarrow : Narrow f (l.take step) := by simpa using (hrest 0 hsecond).1
    refine ⟨hfirst, hnarrow, fun start hstart => ?_⟩
    rw [hdrop hnarrow] at hstart ⊢
    obtain ⟨hbefore, hinside⟩ := hrest start hstart
    rw [Nat.add_comm start step, narrow_take_add code] at hbefore
    refine ⟨hbefore.2, hinside.imp (by omega) fun h => ?_⟩
    rw [show start + step + width = step + (start + width) by omega, narrow_take_add code] at h
    exact h.2
  · rintro ⟨hfirst, hnarrow, hrest⟩
    refine ⟨⟨rfl, hfirst⟩, fun start hstart => ?_⟩
    rw [hdrop hnarrow] at hrest
    obtain ⟨hbefore, hinside⟩ := hrest start hstart
    rw [Nat.add_comm start step, narrow_take_add code]
    refine ⟨⟨hnarrow, hbefore⟩, hinside.imp (by omega) fun h => ?_⟩
    rw [show step + start + width = step + (start + width) by omega, narrow_take_add code]
    exact ⟨hnarrow, h⟩

/-- Behind a step with a wide symbol in it there are too many units left. -/
theorem windows_drop_ne (code : ∀ a, f a ≠ []) (hstep : 0 < step)
    (h : step < (l.flatMap f).length) (hfirst : (l.flatMap f).length ≤ width)
    (hwide : ¬ Narrow f (l.take step)) :
    windows step width ((l.flatMap f).drop step) ≠
      (windows step width (l.drop step)).map (·.flatMap f) := by
  intro heq
  have hle := length_le_flatMap code l
  have hunits : (l.flatMap f).drop step ≠ [] :=
    List.length_pos_iff.mp (by rw [List.length_drop]; omega)
  rw [windows_of_ne_nil hstep width hunits] at heq
  by_cases hrest : l.drop step = []
  · rw [hrest] at heq
    simp at heq
  · rw [windows_of_ne_nil hstep width hrest, List.map_cons] at heq
    have hpos := List.length_pos_iff.mpr hrest
    rw [List.length_drop] at hpos
    have hsplit : (l.flatMap f).length =
        ((l.take step).flatMap f).length + ((l.drop step).flatMap f).length := by
      rw [← List.length_append, ← List.flatMap_append, List.take_append_drop]
    have hbefore : step < ((l.take step).flatMap f).length := by
      have htake := length_le_flatMap code (l.take step)
      have hlength : (l.take step).length = step := by rw [List.length_take]; omega
      have hne : ((l.take step).flatMap f).length ≠ (l.take step).length := hwide
      omega
    have hlengths := congrArg List.length (List.cons.inj heq).1
    rw [List.length_take, List.length_drop, Nat.min_eq_right (by omega),
      List.take_of_length_le (by rw [List.length_drop]; omega)] at hlengths
    omega

/-- The windows of the units are those of the symbols exactly when the symbols before every window
take one unit each, and so do those in it unless it is cut off by the end. -/
theorem windows_flatMap_iff (code : ∀ a, f a ≠ []) (hstep : 0 < step) (hwidth : step ≤ width) :
    windows step width (l.flatMap f) = (windows step width l).map (·.flatMap f) ↔
      Aligned f step width l := by
  -- on the length; the tail of the equation is the equation for what follows one step
  induction hn : l.length using Nat.strong_induction_on generalizing l with
  | _ n ih =>
    by_cases hl : l = []
    · subst hl
      simp [Aligned]
    · have hpos := List.length_pos_iff.mpr hl
      have hle := length_le_flatMap code l
      have hunits : l.flatMap f ≠ [] := List.length_pos_iff.mp (by omega)
      rw [windows_of_ne_nil hstep width hunits, windows_of_ne_nil hstep width hl, List.map_cons,
        List.cons.injEq, take_flatMap_iff code]
      by_cases hshort : (l.flatMap f).length ≤ step
      · refine iff_of_true ⟨.inl (by omega), ?_⟩ (aligned_iff_of_short hshort hwidth)
        rw [List.drop_of_length_le hshort, List.drop_of_length_le (by omega)]
        simp
      · rw [aligned_iff_of_long code hstep (by omega)]
        refine and_congr_right fun hfirst => ?_
        by_cases hnarrow : Narrow f (l.take step)
        · have hlength := length_of_narrow (by omega) hnarrow
          rw [drop_flatMap hnarrow hlength.le, and_iff_right hnarrow]
          exact ih (l.drop step).length (by rw [List.length_drop]; omega) rfl
        · have hwhole := hfirst.resolve_right fun h => hnarrow (h.take code hwidth)
          exact iff_of_false (windows_drop_ne code hstep (by omega) hwhole hnarrow)
            fun h => hnarrow h.1

theorem length_starts (stop step : ℕ) : (starts stop step).length = (stop + step - 1) / step := by
  simp [starts]

theorem length_windows (step width : ℕ) (l : List α) :
    (windows step width l).length = (l.length + step - 1) / step := by
  simp [windows, length_starts]

theorem length_windows_le (code : ∀ a, f a ≠ []) (step width : ℕ) (l : List α) :
    (windows step width l).length ≤ (windows step width (l.flatMap f)).length := by
  have hle := length_le_flatMap code l
  rw [length_windows, length_windows]
  exact Nat.div_le_div_right (by omega)

theorem two_le_length_windows {l : List β} (hstep : 0 < step) (h : step < l.length) (width : ℕ) :
    2 ≤ (windows step width l).length := by
  rw [length_windows]
  exact (Nat.le_div_iff_mul_le hstep).mpr (by omega)

/-- Something put before every window of the units makes the last one too long, if there are not
fewer units than the symbols take. -/
theorem windows_prefixed_ne (code : ∀ a, f a ≠ []) (hstep : 0 < step) (hwidth : step ≤ width)
    {e units : List β} (he : e ≠ []) (hl : l ≠ []) (h : (l.flatMap f).length ≤ units.length) :
    (windows step width l).map (·.flatMap f) ≠ (windows step width units).map (e ++ ·) := by
  induction hn : l.length using Nat.strong_induction_on generalizing l units with
  | _ n ih =>
    intro heq
    have hpos := List.length_pos_iff.mpr hl
    have hle := length_le_flatMap code l
    have hunits : units ≠ [] := List.length_pos_iff.mp (by omega)
    rw [windows_of_ne_nil hstep width hunits, windows_of_ne_nil hstep width hl, List.map_cons,
      List.map_cons] at heq
    obtain ⟨hhead, htail⟩ := List.cons.inj heq
    by_cases hrest : l.drop step = []
    · have hshort := List.drop_eq_nil_iff.mp hrest
      rw [hrest, windows_nil, List.map_nil] at htail
      have hwhole : units.length ≤ step := by
        by_contra hlong
        have hwindows := congrArg List.length htail
        rw [List.length_map, length_windows, List.length_drop, List.length_nil] at hwindows
        have := (Nat.div_eq_zero_iff.mp hwindows.symm).resolve_left (by omega)
        omega
      have hlengths := congrArg List.length hhead
      have hprefix := List.length_pos_iff.mpr he
      rw [List.take_of_length_le (by omega), List.take_of_length_le (by omega),
        List.length_append] at hlengths
      omega
    · refine ih (l.drop step).length ?_ hrest ?_ rfl htail
      · rw [List.length_drop]; omega
      · have hsplit : (l.flatMap f).length =
            ((l.take step).flatMap f).length + ((l.drop step).flatMap f).length := by
          rw [← List.length_append, ← List.flatMap_append, List.take_append_drop]
        have hbefore := length_le_flatMap code (l.take step)
        have hlong := List.length_pos_iff.mpr hrest
        rw [List.length_drop] at hlong
        rw [List.length_take] at hbefore
        rw [List.length_drop]
        omega

theorem length_flatMap_le {γ : Type} {g h : α → List γ}
    (hle : ∀ a ∈ l, (g a).length ≤ (h a).length) :
    (l.flatMap g).length ≤ (l.flatMap h).length := by
  induction l with
  | nil => exact Nat.le_refl 0
  | cons a l ih =>
    obtain ⟨ha, hl⟩ := List.forall_mem_cons.mp hle
    rw [List.flatMap_cons, List.flatMap_cons, List.length_append, List.length_append]
    exact Nat.add_le_add ha (ih hl)

/-- Where every piece of one sequence is at most as long as that of the other, the sequences are
equal only piece by piece. -/
theorem flatMap_eq_flatMap_iff {γ : Type} {g h : α → List γ}
    (hle : ∀ a ∈ l, (g a).length ≤ (h a).length) :
    l.flatMap g = l.flatMap h ↔ ∀ a ∈ l, g a = h a := by
  induction l with
  | nil => simp
  | cons a l ih =>
    obtain ⟨ha, hl⟩ := List.forall_mem_cons.mp hle
    have hrest := length_flatMap_le hl
    rw [List.flatMap_cons, List.flatMap_cons, List.forall_mem_cons]
    constructor
    · intro heq
      have hlengths := congrArg List.length heq
      rw [List.length_append, List.length_append] at hlengths
      obtain ⟨hhead, htail⟩ := List.append_inj heq (by omega)
      exact ⟨hhead, (ih hl).mp htail⟩
    · rintro ⟨hhead, htail⟩
      rw [hhead, (ih hl).mpr htail]

end Windows
