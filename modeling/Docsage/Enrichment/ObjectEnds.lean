import Docsage.Enrichment.JsonObject
import Mathlib.Order.Minimal

/-! # Where an object ends

An object that begins at a position ends at one place only, so it does not matter in
which order the ends are tried, or what comes behind the object.
-/

namespace Docsage
open JsonScan

def slice (text : Text) (start stop : ℕ) : Text := (text.take stop).drop start

/-- The loop with the shortest slice first: `n` ends are left behind the first `taken`. -/
def scanEndsUp (limits : Limits) (tail : Text) (taken : ℕ) : ℕ → Except Fault (Option JsonObject)
  | 0 => .ok none
  | n + 1 =>
    if tail[taken]? ≠ some 0x7D then scanEndsUp limits tail (taken + 1) n
    else
      match loads limits (tail.take (taken + 1)) with
      | .ok (.object members) => .ok (some members)
      | .ok _ | .error .malformed => scanEndsUp limits tail (taken + 1) n
      | .error fault => .error fault

/-- `_parse_json_object`, but for the order of the ends. -/
def parseShortestFirst (limits : Limits) (text : Text) : Except Fault (Option JsonObject) :=
  let tail := text.dropWhile (· ≠ 0x7B)
  scanEndsUp limits tail 0 tail.length

variable {limits : Limits} {text tail s s' : Text} {members members' : JsonObject} {fault : Fault}

/-- Of two objects with the same beginning one is not longer. -/
theorem isObject_unique (hs : s <+: tail) (hs' : s' <+: tail) (h : IsObject s members)
    (h' : IsObject s' members') (hle : s.length ≤ s'.length) : s = s' := by
  obtain ⟨t, rfl⟩ := List.prefix_of_prefix_length_le hs hs' hle
  obtain ⟨-, closed, limits, hloads⟩ := h
  obtain ⟨-, closed', limits', hloads'⟩ := h'
  obtain ⟨both, hleft, hright⟩ := limits.exists_within limits'
  have hboth : loads both s = .ok (.object members) := loads_of_within hleft hloads
  have hboth' : loads both (s ++ t) = .ok (.object members') := loads_of_within hright hloads'
  by_cases hne : t = []
  · rw [hne, List.append_nil]
  · rw [loads_append_of_ok closed hboth, if_neg (not_blank_of_closed closed' hne)] at hboth'
    cases hboth'

theorem slice_isPrefix (text : Text) (start stop : ℕ) :
    slice text start stop <+: text.drop start := by
  rw [slice, List.drop_take]
  exact List.take_prefix _ _

theorem length_slice {start stop : ℕ} (h : stop ≤ text.length) :
    (slice text start stop).length = stop - start := by
  rw [slice, List.length_drop, List.length_take_of_le h]

theorem slice_stop_unique {start stop stop' : ℕ} (hle : stop ≤ text.length)
    (hle' : stop' ≤ text.length) (h : IsObject (slice text start stop) members)
    (h' : IsObject (slice text start stop') members') : stop = stop' := by
  have hpos {stop : ℕ} {members : JsonObject} (hle : stop ≤ text.length)
      (h : IsObject (slice text start stop) members) : start < stop := by
    by_contra hge
    have hnil : slice text start stop = [] := by
      rw [← List.length_eq_zero_iff, length_slice hle]
      omega
    rw [hnil] at h
    cases h.1
  have hstart := hpos hle h
  have hstart' := hpos hle' h'
  have heq : slice text start stop = slice text start stop' := by
    rcases le_total stop stop' with hord | hord
    · refine isObject_unique (slice_isPrefix text start stop) (slice_isPrefix text start stop')
        h h' ?_
      rw [length_slice hle, length_slice hle']
      omega
    · refine (isObject_unique (slice_isPrefix text start stop') (slice_isPrefix text start stop)
        h' h ?_).symm
      rw [length_slice hle, length_slice hle']
      omega
  have hlength := congrArg List.length heq
  rw [length_slice hle, length_slice hle'] at hlength
  omega

theorem scanEndsUp_ascend (taken k n : ℕ) (hle : taken + k + n ≤ tail.length)
    (h : ∀ t, t <+: tail → Closed t → t.length ≤ taken + k → loads limits t = .error .malformed) :
    scanEndsUp limits tail taken (k + n) = scanEndsUp limits tail (taken + k) n := by
  induction k generalizing taken with
  | zero => rw [Nat.zero_add, Nat.add_zero]
  | succ k ih =>
    have hrest : scanEndsUp limits tail (taken + 1) (k + n) =
        scanEndsUp limits tail (taken + (k + 1)) n := by
      rw [ih (taken + 1) (by omega) fun t ht closed hlength => h t ht closed (by omega)]
      congr 1
      omega
    have hcount : k + 1 + n = k + n + 1 := by omega
    rw [hcount, scanEndsUp, hrest]
    split
    · rfl
    · next hbrace =>
      have hlt : taken < tail.length := by omega
      have hlength : (tail.take (taken + 1)).length = taken + 1 := List.length_take_of_le hlt
      have closed := (closed_take hlt).mpr (not_not.mp hbrace)
      rw [h _ (List.take_prefix _ _) closed (by omega)]

theorem scanEndsUp_none
    (h : ∀ t, t <+: tail → Closed t → loads limits t = .error .malformed) :
    scanEndsUp limits tail 0 tail.length = .ok none := by
  have hascend := scanEndsUp_ascend 0 tail.length 0 (Nat.zero_add _).le
    fun t ht closed _ => h t ht closed
  exact hascend

theorem scanEndsUp_reach (hs : s <+: tail) (closed : Closed s)
    (before : ∀ t, t <+: tail → Closed t → t.length < s.length →
      loads limits t = .error .malformed) :
    ∃ n, scanEndsUp limits tail 0 tail.length =
      match loads limits s with
      | .ok (.object members) => .ok (some members)
      | .ok _ | .error .malformed => scanEndsUp limits tail s.length n
      | .error fault => .error fault := by
  obtain ⟨m, hm, hbrace⟩ := last_of_closed hs closed
  obtain ⟨n, hn⟩ : ∃ n, tail.length = m + (n + 1) := by
    have := hs.length_le
    exact ⟨tail.length - (m + 1), by omega⟩
  have hascend := scanEndsUp_ascend 0 m (n + 1) (by omega)
    fun t ht hclosed hlength => before t ht hclosed (by omega)
  refine ⟨n, ?_⟩
  rw [hn, hascend, Nat.zero_add, scanEndsUp, if_neg (not_not.mpr hbrace), ← hm, take_of_prefix hs]

/-- A slice over a limit is decisive for the longest one too. -/
theorem parseJsonObject_of_exceeds (hs : s <+: text.dropWhile (· ≠ 0x7B)) (closed : Closed s)
    (hf : fault.Exceeds) (h : loads limits s = .error fault) :
    parseJsonObject limits text = .error fault :=
  parseJsonObject_error hf (loads_spanned hs closed hf h)

theorem parseShortestFirst_eq (limits : Limits) (text : Text) :
    parseShortestFirst limits text = parseJsonObject limits text := by
  by_cases hall : ∀ s, s <+: text.dropWhile (· ≠ 0x7B) → Closed s →
      loads limits s = .error .malformed
  · rw [parseShortestFirst, parseJsonObject, scanEndsUp_none hall, scanEnds_none hall]
  · -- the shortest slice that is not malformed
    push Not at hall
    obtain ⟨s, ⟨hs, closed, hloads⟩, hmin⟩ := exists_minimalFor_of_wellFoundedLT
      (fun s => s <+: text.dropWhile (· ≠ 0x7B) ∧ Closed s ∧ loads limits s ≠ .error .malformed)
      List.length hall
    obtain ⟨n, hup⟩ := scanEndsUp_reach hs closed fun t ht hclosed hlt => by
      by_contra hbad
      exact absurd (hmin ⟨ht, hclosed, hbad⟩ hlt.le) hlt.not_ge
    cases houtcome : loads limits s with
    | ok v =>
      have hbrace := head?_of_prefix hs closed
      obtain ⟨members, rfl⟩ := loads_brace closed hbrace houtcome
      rw [houtcome] at hup
      exact hup.trans (scanEnds_found hs closed houtcome).symm
    | error fault =>
      have hf : fault.Exceeds := fun heq => hloads (heq ▸ houtcome)
      have hlong := parseJsonObject_of_exceeds hs closed hf houtcome
      rw [houtcome] at hup
      cases fault with
      | malformed => exact absurd rfl hf
      | digits | nesting => exact hup.trans hlong.symm

theorem parseJsonObject_append (h : ObjectAt text (firstBrace text) members) (more : Text) :
    parseJsonObject limits (text ++ more) = parseJsonObject limits text := by
  obtain ⟨s, hs, hobject⟩ := h
  rw [drop_firstBrace] at hs
  have closed := hobject.2.1
  have hlonger : s <+: (text ++ more).dropWhile (· ≠ 0x7B) := by
    have hne : ¬ (text.dropWhile (· ≠ 0x7B)).isEmpty := by
      intro hempty
      rw [List.isEmpty_iff.mp hempty, List.prefix_nil] at hs
      rw [hs] at closed
      cases closed
    rw [List.dropWhile_append, if_neg hne]
    exact hs.trans (List.prefix_append _ _)
  by_cases hexceeds : ExceedsLimits limits s
  · obtain ⟨fault, hf, hloads⟩ := hexceeds
    rw [parseJsonObject_of_exceeds hs closed hf hloads,
      parseJsonObject_of_exceeds hlonger closed hf hloads]
  · have hloads := loads_of_isObject hobject hexceeds
    exact (scanEnds_found hlonger closed hloads).trans (scanEnds_found hs closed hloads).symm

/-- An object that the first brace begins has one end, is found whichever way the ends are tried,
and hides what comes behind it. -/
theorem objectEnd_unique (limits : Limits) (text : Text) :
    (∀ stop stop' members members', stop ≤ text.length → stop' ≤ text.length →
      IsObject (slice text (firstBrace text) stop) members →
      IsObject (slice text (firstBrace text) stop') members' → stop = stop') ∧
    parseJsonObject limits text = parseShortestFirst limits text ∧
    ∀ members, ObjectAt text (firstBrace text) members →
      ∀ more, parseJsonObject limits (text ++ more) = parseJsonObject limits text :=
  ⟨fun _ _ _ _ hle hle' h h' => slice_stop_unique hle hle' h h',
    (parseShortestFirst_eq limits text).symm, fun _ h more => parseJsonObject_append h more⟩

theorem objectEnd_unique_braces :
    parseJsonObject ⟨4300, 1000⟩ (points "ok \x7b\"a\":\"\x7d\"\x7d" ++ points " or \x7d") =
      parseJsonObject ⟨4300, 1000⟩ (points "ok \x7b\"a\":\"\x7d\"\x7d") :=
  (objectEnd_unique ⟨4300, 1000⟩ (points "ok \x7b\"a\":\"\x7d\"\x7d")).2.2
    [(points "a", .string (points "\x7d"))]
    ⟨points "\x7b\"a\":\"\x7d\"\x7d", ⟨[], rfl⟩, rfl, rfl, ⟨4300, 1000⟩, rfl⟩ _

end Docsage
