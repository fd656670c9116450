import Docsage.Library.JsonScan
import Mathlib.Data.List.DropRight
import Mathlib.Data.List.Infix
import Mathlib.Order.Lattice

/-! # The JSON object in a model's answer

`_parse_json_object` tries the slices from the first brace of an answer to each of
its closing braces, the longest first. So it finds the first object of the answer
only when the first brace begins one.
-/

namespace Docsage
open JsonScan

abbrev JsonObject := List (Text × Value)

/-- The loop over `end`, with `n` ends left, over the text from its first brace on. -/
def scanEnds (limits : Limits) (tail : Text) : ℕ → Except Fault (Option JsonObject)
  | 0 => .ok none
  | n + 1 =>
    if tail[n]? ≠ some 0x7D then scanEnds limits tail n
    else
      match loads limits (tail.take (n + 1)) with
      | .ok (.object members) => .ok (some members)
      | .ok _ | .error .malformed => scanEnds limits tail n
      | .error fault => .error fault

/-- `_parse_json_object`. Only `json.JSONDecodeError` is caught, and the two limits of the decoder
raise others. -/
def parseJsonObject (limits : Limits) (text : Text) : Except Fault (Option JsonObject) :=
  let tail := text.dropWhile (· ≠ 0x7B)
  scanEnds limits tail tail.length

/-- A JSON object, from its opening to its closing brace. Whether a text is one has nothing to do
with limits. -/
def IsObject (s : Text) (members : JsonObject) : Prop :=
  s.head? = some 0x7B ∧ Closed s ∧ ∃ limits, loads limits s = .ok (.object members)

def ObjectAt (text : Text) (i : ℕ) (members : JsonObject) : Prop :=
  ∃ s, s <+: text.drop i ∧ IsObject s members

/-- The outcome is the object that begins first, and nothing where no object does. -/
def FirstFound (text : Text) : Except Fault (Option JsonObject) → Prop
  | .ok (some members) =>
    ∃ i, ObjectAt text i members ∧ ∀ j < i, ∀ members', ¬ ObjectAt text j members'
  | .ok none => ∀ i members, ¬ ObjectAt text i members
  | .error _ => False

/-- The text from its first opening to its last closing brace. -/
def spanned (text : Text) : Text := (text.dropWhile (· ≠ 0x7B)).rdropWhile (· ≠ 0x7D)

def firstBrace (text : Text) : ℕ := text.findIdx (· = 0x7B)

/-- The decoder gives the text up, although it need not be malformed. -/
def ExceedsLimits (limits : Limits) (s : Text) : Prop :=
  ∃ fault : Fault, fault.Exceeds ∧ loads limits s = .error fault

variable {limits : Limits} {text tail s : Text} {members : JsonObject} {n : ℕ} {fault : Fault}

theorem closed_take (hn : n < tail.length) :
    Closed (tail.take (n + 1)) ↔ tail[n]? = some 0x7D := by
  rw [Closed, List.getLast?_take, if_neg (by omega), Nat.add_sub_cancel,
    List.getElem?_eq_getElem hn, Option.some_or]

theorem take_of_prefix (h : s <+: tail) : tail.take s.length = s :=
  (List.prefix_iff_eq_take.mp h).symm

theorem scanEnds_skip (h : tail[n]? ≠ some 0x7D) :
    scanEnds limits tail (n + 1) = scanEnds limits tail n := if_pos h

theorem scanEnds_malformed (h : loads limits (tail.take (n + 1)) = .error .malformed) :
    scanEnds limits tail (n + 1) = scanEnds limits tail n := by
  rw [scanEnds, h]
  exact ite_self _

theorem not_blank_of_closed {t : Text} (closed : Closed (s ++ t)) (hne : t ≠ []) :
    ¬ t.all isBlank := by
  rw [Closed, List.getLast?_append_of_ne_nil _ hne] at closed
  intro hblank
  exact absurd (List.all_eq_true.mp hblank _ (List.mem_of_getLast? closed)) (by decide)

theorem scanEnds_descend {m : ℕ} (hmn : m ≤ n) (hn : n ≤ tail.length)
    (h : ∀ t, t <+: tail → Closed t → m < t.length → loads limits t = .error .malformed) :
    scanEnds limits tail n = scanEnds limits tail m := by
  induction n, hmn using Nat.le_induction with
  | base => rfl
  | succ n hmn ih =>
    rw [← ih (by omega)]
    by_cases hbrace : tail[n]? = some 0x7D
    · have hlength : (tail.take (n + 1)).length = n + 1 := List.length_take_of_le hn
      exact scanEnds_malformed
        (h _ (List.take_prefix _ _) ((closed_take hn).mpr hbrace) (by omega))
    · exact scanEnds_skip hbrace

theorem last_of_closed (hs : s <+: tail) (closed : Closed s) :
    ∃ m, s.length = m + 1 ∧ tail[m]? = some 0x7D := by
  obtain ⟨m, hm⟩ : ∃ m, s.length = m + 1 := by
    refine Nat.exists_eq_succ_of_ne_zero fun hzero => ?_
    rw [List.length_eq_zero_iff.mp hzero] at closed
    cases closed
  have hle : m < tail.length := by
    have := hs.length_le
    omega
  refine ⟨m, hm, ?_⟩
  rw [← closed_take hle, ← hm, take_of_prefix hs]
  exact closed

/-- Behind an object that begins the text, every longer slice is malformed. -/
theorem scanEnds_found (hs : s <+: tail) (closed : Closed s)
    (h : loads limits s = .ok (.object members)) :
    scanEnds limits tail tail.length = .ok (some members) := by
  rw [scanEnds_descend hs.length_le le_rfl fun t ht hclosed hlt => ?_]
  · obtain ⟨m, hm, hbrace⟩ := last_of_closed hs closed
    rw [hm, scanEnds, if_neg (not_not.mpr hbrace), ← hm, take_of_prefix hs, h]
  · obtain ⟨r, rfl⟩ := List.prefix_of_prefix_length_le hs ht hlt.le
    have hne : r ≠ [] := by
      rintro rfl
      rw [List.append_nil] at hlt
      exact lt_irrefl _ hlt
    rw [loads_append_of_ok closed h, if_neg (not_blank_of_closed hclosed hne)]

theorem scanEnds_none
    (h : ∀ s, s <+: tail → Closed s → loads limits s = .error .malformed) :
    scanEnds limits tail tail.length = .ok none :=
  scanEnds_descend (Nat.zero_le _) le_rfl fun t ht hclosed _ => h t ht hclosed

theorem scanEnds_exceeds (hs : s <+: tail) (closed : Closed s)
    (longest : ∀ t, t <+: tail → Closed t → t.length ≤ s.length) (hf : fault.Exceeds)
    (h : loads limits s = .error fault) :
    scanEnds limits tail tail.length = .error fault := by
  rw [scanEnds_descend hs.length_le le_rfl fun t ht hclosed hlt =>
    absurd (longest t ht hclosed) hlt.not_ge]
  obtain ⟨m, hm, hbrace⟩ := last_of_closed hs closed
  rw [hm, scanEnds, if_neg (not_not.mpr hbrace), ← hm, take_of_prefix hs, h]
  cases fault with
  | malformed => exact absurd rfl hf
  | digits | nesting => rfl

theorem drop_firstBrace : text.drop (firstBrace text) = text.dropWhile (· ≠ 0x7B) := by
  rw [List.dropWhile_eq_drop_findIdx_not, firstBrace]
  simp

theorem spanned_prefix : spanned text <+: text.dropWhile (· ≠ 0x7B) := List.rdropWhile_prefix _ _

theorem head?_of_prefix (hs : s <+: text.dropWhile (· ≠ 0x7B)) (closed : Closed s) :
    s.head? = some 0x7B := by
  obtain ⟨r, hr⟩ := hs
  cases s with
  | nil => cases closed
  | cons c s =>
    have hhead := List.head?_dropWhile_not (· ≠ 0x7B) text
    rw [← hr] at hhead
    simpa using hhead

theorem spanned_closed (hne : spanned text ≠ []) : Closed (spanned text) := by
  have hlast : ¬ decide ((spanned text).getLast hne ≠ 0x7D) = true :=
    List.rdropWhile_last_not _ _ hne
  rw [Closed, List.getLast?_eq_some_getLast hne]
  simpa using hlast

theorem length_le_spanned (hs : s <+: text.dropWhile (· ≠ 0x7B)) (closed : Closed s) :
    s.length ≤ (spanned text).length := by
  by_contra hlonger
  obtain ⟨u, rfl⟩ := List.prefix_of_prefix_length_le spanned_prefix hs (by omega)
  obtain ⟨r, hr⟩ := hs
  have hne : u ≠ [] := by
    rintro rfl
    simp at hlonger
  rw [Closed, List.getLast?_append_of_ne_nil _ hne] at closed
  have htail : u ++ r = (text.dropWhile (· ≠ 0x7B)).rtakeWhile (· ≠ 0x7D) := by
    rw [List.append_assoc] at hr
    exact List.append_cancel_left (hr.trans List.rdropWhile_append_rtakeWhile.symm)
  have hmem : 0x7D ∈ u ++ r := List.mem_append_left r (List.mem_of_getLast? closed)
  rw [htail] at hmem
  simpa using List.mem_rtakeWhile_imp hmem

theorem firstBrace_le {i : ℕ} (h : ObjectAt text i members) : firstBrace text ≤ i := by
  obtain ⟨s, ⟨r, hr⟩, hbrace, -⟩ := h
  by_contra hlt
  have hget : text[i]? = some 0x7B := by
    rw [← List.head?_drop, ← hr, List.head?_append, hbrace, Option.some_or]
  obtain ⟨hi, hc⟩ := List.getElem?_eq_some_iff.mp hget
  have hnot := List.not_of_lt_findIdx (Nat.not_le.mp hlt)
  rw [hc] at hnot
  exact absurd hnot (by decide)

theorem loads_of_isObject (h : IsObject s members) (fits : ¬ ExceedsLimits limits s) :
    loads limits s = .ok (.object members) := by
  obtain ⟨-, -, limits', h⟩ := h
  obtain ⟨both, hleft, hright⟩ := limits.exists_within limits'
  have hboth : loads both s = .ok (.object members) := loads_of_within hright h
  rcases loads_agree hleft s with hexceeds | heq
  · exact absurd hexceeds fits
  · rw [← heq, hboth]

/-- What the decoder makes of a slice, it makes of the longest one too if that is over a limit. -/
theorem loads_spanned (hs : s <+: text.dropWhile (· ≠ 0x7B)) (closed : Closed s)
    (hf : fault.Exceeds) (h : loads limits s = .error fault) :
    loads limits (spanned text) = .error fault := by
  obtain ⟨t, ht⟩ := List.prefix_of_prefix_length_le hs spanned_prefix
    (length_le_spanned hs closed)
  exact ht ▸ loads_append_of_exceeds closed hf h

theorem exceeds_spanned (hs : s <+: text.dropWhile (· ≠ 0x7B)) (closed : Closed s)
    (h : ExceedsLimits limits s) : ExceedsLimits limits (spanned text) := by
  obtain ⟨f, hf, hloads⟩ := h
  exact ⟨f, hf, loads_spanned hs closed hf hloads⟩

theorem parseJsonObject_error (hf : fault.Exceeds)
    (h : loads limits (spanned text) = .error fault) :
    parseJsonObject limits text = .error fault := by
  have hne : spanned text ≠ [] := by
    intro hnil
    rw [hnil] at h
    exact hf (Except.error.inj h).symm
  exact scanEnds_exceeds spanned_prefix (spanned_closed hne) (fun t => length_le_spanned) hf h

theorem parseJsonObject_exceeds (h : ExceedsLimits limits (spanned text)) :
    ∃ fault, parseJsonObject limits text = .error fault := by
  obtain ⟨f, hf, hloads⟩ := h
  exact ⟨f, parseJsonObject_error hf hloads⟩

theorem parseJsonObject_found (fits : ¬ ExceedsLimits limits (spanned text))
    (h : ObjectAt text (firstBrace text) members) :
    parseJsonObject limits text = .ok (some members) := by
  obtain ⟨s, hs, hobject⟩ := h
  rw [drop_firstBrace] at hs
  have closed := hobject.2.1
  have hloads := loads_of_isObject hobject fun h => fits (exceeds_spanned hs closed h)
  exact scanEnds_found hs closed hloads

theorem parseJsonObject_none (fits : ¬ ExceedsLimits limits (spanned text))
    (h : ∀ members, ¬ ObjectAt text (firstBrace text) members) :
    parseJsonObject limits text = .ok none := by
  refine scanEnds_none fun s hs closed => ?_
  cases hloads : loads limits s with
  | ok v =>
    have hbrace := head?_of_prefix hs closed
    obtain ⟨members, rfl⟩ := loads_brace closed hbrace hloads
    exact absurd ⟨s, drop_firstBrace ▸ hs, hbrace, closed, limits, hloads⟩ (h members)
  | error f =>
    by_contra hf
    exact fits (exceeds_spanned hs closed ⟨f, fun heq => hf (heq ▸ rfl), hloads⟩)

/-- The parser raises exactly when the longest slice is over a limit. -/
theorem parseJsonObject_ok : (∃ parsed, parseJsonObject limits text = .ok parsed) ↔
    ¬ ExceedsLimits limits (spanned text) := by
  constructor
  · rintro ⟨parsed, h⟩ hexceeds
    obtain ⟨f, hf⟩ := parseJsonObject_exceeds hexceeds
    rw [h] at hf
    cases hf
  · intro fits
    by_cases hobject : ∃ members, ObjectAt text (firstBrace text) members
    · obtain ⟨members, hobject⟩ := hobject
      exact ⟨_, parseJsonObject_found fits hobject⟩
    · exact ⟨_, parseJsonObject_none fits (not_exists.mp hobject)⟩

/-- The parser answers with the object that the first brace begins, and only with that. -/
theorem parseJsonObject_ok_iff : parseJsonObject limits text = .ok (some members) ↔
    ¬ ExceedsLimits limits (spanned text) ∧ ObjectAt text (firstBrace text) members := by
  refine ⟨fun h => ?_, fun h => parseJsonObject_found h.1 h.2⟩
  have fits : ¬ ExceedsLimits limits (spanned text) := parseJsonObject_ok.mp ⟨_, h⟩
  by_cases hobject : ∃ members, ObjectAt text (firstBrace text) members
  · obtain ⟨members', hobject⟩ := hobject
    have hfound := parseJsonObject_found fits hobject
    obtain rfl := Option.some.inj (Except.ok.inj (h.symm.trans hfound))
    exact ⟨fits, hobject⟩
  · rw [parseJsonObject_none fits (not_exists.mp hobject)] at h
    cases Except.ok.inj h

/-- The first object is found exactly when no limit is in the way and, if there is an object at
all, the first brace begins one. -/
theorem parseJsonObject_firstFound_iff (limits : Limits) (text : Text) :
    FirstFound text (parseJsonObject limits text) ↔
      ¬ ExceedsLimits limits (spanned text) ∧
        ((∃ i members, ObjectAt text i members) →
          ∃ members, ObjectAt text (firstBrace text) members) := by
  by_cases hexceeds : ExceedsLimits limits (spanned text)
  · obtain ⟨f, hf⟩ := parseJsonObject_exceeds hexceeds
    rw [hf]
    exact ⟨False.elim, fun h => absurd hexceeds h.1⟩
  · by_cases hobject : ∃ members, ObjectAt text (firstBrace text) members
    · obtain ⟨members, h⟩ := hobject
      rw [parseJsonObject_found hexceeds h]
      refine ⟨fun _ => ⟨hexceeds, fun _ => ⟨members, h⟩⟩, fun _ => ⟨firstBrace text, h, ?_⟩⟩
      exact fun j hj members' hj' => absurd (firstBrace_le hj') (Nat.not_le.mpr hj)
    · rw [parseJsonObject_none hexceeds (not_exists.mp hobject)]
      refine ⟨fun h => ⟨hexceeds, fun ⟨i, members, hi⟩ => absurd hi (h i members)⟩, ?_⟩
      exact fun h i members hi => hobject (h.2 ⟨i, members, hi⟩)

def strayBrace : Text := points "use \x7bbraces\x7d: \x7b\"a\":1\x7d"

/-- A brace in the prose, and the object behind it is not found. -/
theorem parseJsonObject_strayBrace :
    ¬ ∀ (limits : Limits) (text : Text), FirstFound text (parseJsonObject limits text) := by
  intro h
  have hnone : parseJsonObject ⟨4300, 1000⟩ strayBrace = .ok none := rfl
  have hfirst := h ⟨4300, 1000⟩ strayBrace
  rw [hnone] at hfirst
  exact hfirst 14 [(points "a", .int 1)]
    ⟨points "\x7b\"a\":1\x7d", ⟨[], rfl⟩, rfl, rfl, ⟨4300, 1000⟩, rfl⟩

end Docsage
