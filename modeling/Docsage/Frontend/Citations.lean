import Docsage.Chat.Turn
import Docsage.Frontend.MarkdownLite
import Mathlib.Data.Bool.AllAny

/-! # The citations of a demo answer

The composer numbers the passages it excerpts, and `build_citations` lists all of
them in the same order. But whatever looks like a citation in the question, in a
title or in an excerpt is rendered as one too. Every rendered citation resolves
exactly when nothing of that kind is there but references of a passage to itself.
-/

namespace Docsage
open Effects Text Patterns

namespace MarkdownLite

/-- What a reader of the stream has collected in the end. -/
def collected (events : List (ChatEvent String)) : StreamState :=
  events.foldl StreamState.observe {}

/-- The passage that a delta of the answer excerpts: the first one is the heading. -/
def passageOf (retrieved : List RetrievedChunk) : ℕ → Option RetrievedChunk
  | 0 => none
  | k + 1 => retrieved[k]?

/-- The passage whose excerpt a citation at this position labels: that of the delta it is in. -/
def labelled (retrieved : List RetrievedChunk) (deltas : List Utf16) (position : ℕ) :
    Option RetrievedChunk :=
  passageOf retrieved (pieceAt deltas position)

/-- A number is one of the citations array, and the excerpt that it labels comes from the chunk of
that citation. -/
structure Resolves (citations : List (Citation String)) (label : Option RetrievedChunk) (n : ℕ) :
    Prop where
  inRange : 1 ≤ n ∧ n ≤ citations.length
  fromChunk : ∃ chunk citation, label = some chunk ∧ citations[n - 1]? = some citation ∧
    citation.chunkId = chunk.chunkId

def PointsTo (retrieved : List RetrievedChunk) (chunk : RetrievedChunk) (n : ℕ) : Prop :=
  1 ≤ n ∧ ∃ other, retrieved[n - 1]? = some other ∧ other.chunkId = chunk.chunkId

theorem resolves_iff {retrieved : List RetrievedChunk} {chunk : RetrievedChunk} {n : ℕ} :
    Resolves (buildCitations retrieved) (some chunk) n ↔ PointsTo retrieved chunk n := by
  constructor
  · rintro ⟨⟨hone, -⟩, _, citation, hlabel, hcitation, hchunk⟩
    obtain rfl := Option.some.inj hlabel
    rw [buildCitations, List.getElem?_map, Option.map_eq_some_iff] at hcitation
    obtain ⟨other, hother, rfl⟩ := hcitation
    exact ⟨hone, other, hother, hchunk⟩
  · rintro ⟨hone, other, hother, hchunk⟩
    have hlt := (List.getElem?_eq_some_iff.mp hother).1
    obtain ⟨citation, hcitation, hid⟩ : ∃ citation,
        (buildCitations retrieved)[n - 1]? = some citation ∧ citation.chunkId = other.chunkId := by
      rw [buildCitations, List.getElem?_map, hother]
      exact ⟨_, rfl, rfl⟩
    refine ⟨⟨hone, ?_⟩, chunk, citation, rfl, hcitation, hid.trans hchunk⟩
    rw [buildCitations, List.length_map]
    omega

theorem items_relayAnswer {retrieved : List RetrievedChunk} {messageId : Uuid}
    (texts : List String) : (relayAnswer retrieved messageId (.ofList texts)).items =
      texts.map .delta ++ [.citations (buildCitations retrieved), .done messageId] := by
  induction texts with
  | nil => rfl
  | cons text texts ih => rw [Generator.ofList, relayAnswer, Generator.items, ih]; rfl

theorem collected_deltas {citations : List (Citation String)} {messageId : Uuid}
    (texts : List String) (state : StreamState) :
    (texts.map ChatEvent.delta ++ [ChatEvent.citations citations, .done messageId]).foldl
        StreamState.observe state =
      { textParts := state.textParts ++ texts, citations, completed := true } := by
  induction texts generalizing state with
  | nil => simp [StreamState.observe]
  | cons text texts ih => simp [StreamState.observe, ih]

def heading (retrieved : List RetrievedChunk) : String :=
  "Demo mode — extractive answer from " ++ toString retrieved.length ++ " retrieved passage" ++
    (if retrieved.length ≠ 1 then "s" else "") ++ ". No language model is configured; " ++
    "the excerpts below are the top retrieved passages, clearly labeled.\n\n"

def entryText (chunk : RetrievedChunk) : String :=
  chunk.documentTitle ++ ": " ++ excerpt demoExcerptChars chunk.content

def entry (k : ℕ) (chunk : RetrievedChunk) : String :=
  "[" ++ toString (k + 1) ++ "] " ++ entryText chunk ++ "\n\n"

def demoDeltas (question : String) (retrieved : List RetrievedChunk) : List String :=
  heading retrieved ::
    if retrieved = [] then ["No passages were retrieved for: " ++ question]
    else (retrieved.take demoExcerpts).zipIdx.map fun p => entry p.2 p.1

theorem streamDemo_eq (question : String) (retrieved : List RetrievedChunk) :
    streamDemo question retrieved = .ofList (demoDeltas question retrieved) := by
  have hentry : (fun p : RetrievedChunk × ℕ => "[" ++ toString (p.2 + 1) ++ "] " ++
      p.1.documentTitle ++ ": " ++ excerpt demoExcerptChars p.1.content ++ "\n\n") =
        fun p => entry p.2 p.1 := by
    funext p
    simp only [entry, entryText, String.append_assoc]
  unfold streamDemo
  rw [hentry]
  unfold demoDeltas heading
  rfl

theorem collected_demo {settings : Settings} (openai : settings.openaiEnabled = false)
    (gemini : settings.geminiEnabled = false) (service : AnswerService) (question : String)
    (retrieved : List RetrievedChunk) (messageId : Uuid) :
    collected (service.stream settings question retrieved messageId).items =
      { textParts := demoDeltas question retrieved
        citations := buildCitations retrieved
        completed := true } := by
  rw [AnswerService.stream, answerDeltas, openai, gemini, if_neg (by simp), if_neg (by simp),
    streamDemo_eq, items_relayAnswer, collected, collected_deltas, List.nil_append]

/-- If a token is a citation, its number is as said. -/
def Cites (P : ℕ → Prop) (token : Utf16) : Prop :=
  ∀ digits, citationDigits? token = some digits → P (number digits)

theorem forall_references {P : ℕ → ℕ → Prop} (content : Utf16) :
    (∀ reference ∈ references content, P reference.1 (number reference.2)) ↔
      ∀ m ∈ found inlineToken 0 0 content, Cites (P m.1) m.2 := by
  rw [references_eq]
  simp only [citationsIn, List.mem_filterMap, Option.map_eq_some_iff, Cites]
  constructor
  · intro h m hm digits hdigits
    exact h (m.1, digits) ⟨m, hm, digits, hdigits, rfl⟩
  · rintro h _ ⟨m, hm, digits, hdigits, rfl⟩
    exact h m hm digits hdigits

theorem toString_units (n : ℕ) : ∀ u ∈ utf16 (toString n), onUnit Char.isDigit u = true := by
  intro u hu
  obtain ⟨c, hc, hu⟩ := List.mem_flatMap.mp hu
  rw [Frontend.reads_isDigit.unit hu]
  exact Nat.isDigit_of_mem_toDigits (b := 10) (by decide) (by decide) (n := n) (by simpa using hc)

theorem found_heading (retrieved : List RetrievedChunk) :
    found inlineToken 0 0 (utf16 (heading retrieved)) = [] := by
  have hcount : ∀ u ∈ utf16 (toString retrieved.length), u ≠ 0x2A ∧ u ≠ 0x60 ∧ u ≠ 0x5B := by
    intro u hu
    have hdigit := toString_units _ u hu
    refine ⟨?_, ?_, ?_⟩ <;>
    · rintro rfl
      revert hdigit
      decide
  have hplural : ∀ u ∈ utf16 (if retrieved.length ≠ 1 then "s" else ""),
      u ≠ 0x2A ∧ u ≠ 0x60 ∧ u ≠ 0x5B := by
    split <;> exact List.all_iff_forall_prop.mp (by decide)
  have hbefore : ∀ u ∈ utf16 "Demo mode — extractive answer from ",
      u ≠ 0x2A ∧ u ≠ 0x60 ∧ u ≠ 0x5B := List.all_iff_forall_prop.mp (by decide)
  have hpassage : ∀ u ∈ utf16 " retrieved passage", u ≠ 0x2A ∧ u ≠ 0x60 ∧ u ≠ 0x5B :=
    List.all_iff_forall_prop.mp (by decide)
  have hmodel : ∀ u ∈ utf16 ". No language model is configured; ",
      u ≠ 0x2A ∧ u ≠ 0x60 ∧ u ≠ 0x5B := List.all_iff_forall_prop.mp (by decide)
  have hafter : ∀ u ∈ utf16
      "the excerpts below are the top retrieved passages, clearly labeled.\n\n",
      u ≠ 0x2A ∧ u ≠ 0x60 ∧ u ≠ 0x5B := List.all_iff_forall_prop.mp (by decide)
  refine found_eq_nil ?_ 0
  unfold heading
  simp only [utf16_append, List.forall_mem_append]
  exact ⟨⟨⟨⟨⟨hbefore, hcount⟩, hpassage⟩, hplural⟩, hmodel⟩, hafter⟩

theorem label_digits {k : ℕ} (hk : k < demoExcerpts) : ∃ u, utf16 (toString (k + 1)) = [u] ∧
    onUnit Char.isDigit u = true ∧ number [u] = k + 1 := by
  have hcases : k = 0 ∨ k = 1 ∨ k = 2 := by
    change k < 3 at hk
    omega
  rcases hcases with rfl | rfl | rfl
  · exact ⟨0x31, by decide, by decide, by decide⟩
  · exact ⟨0x32, by decide, by decide, by decide⟩
  · exact ⟨0x33, by decide, by decide, by decide⟩

section Label
variable {u : UInt16} (hu : onUnit Char.isDigit u = true)
include hu

theorem citationToken_label (rest : Utf16) :
    citationToken (utf16 "[" ++ [u] ++ utf16 "]" ++ rest) = some (utf16 "[" ++ [u] ++ utf16 "]") :=
  enclosed_run (by simpa using hu) rfl (by decide) _ _ _

theorem citationDigits?_label : citationDigits? (utf16 "[" ++ [u] ++ utf16 "]") = some [u] := by
  have hwhole := citationToken_label hu []
  rw [List.append_nil] at hwhole
  exact if_pos hwhole

/-- The label of an entry is one citation, and what follows is searched by itself. -/
theorem found_label (rest : Utf16) :
    found inlineToken 0 0 (utf16 "[" ++ [u] ++ utf16 "]" ++ rest) =
      (0, utf16 "[" ++ [u] ++ utf16 "]") :: found inlineToken 0 3 rest := by
  have hbold : boldToken (utf16 "[" ++ [u] ++ utf16 "]" ++ rest) = none :=
    enclosed_cons_of_ne (by decide) _ _
  have hcode : codeToken (utf16 "[" ++ [u] ++ utf16 "]" ++ rest) = none :=
    enclosed_cons_of_ne (by decide) _ _
  have htoken : inlineToken (utf16 "[" ++ [u] ++ utf16 "]" ++ rest) =
      some (utf16 "[" ++ [u] ++ utf16 "]") := by
    rw [inlineToken, hbold, hcode, citationToken_label hu]
    rfl
  change inlineToken (0x5B :: u :: 0x5D :: rest) = some [0x5B, u, 0x5D] at htoken
  change found inlineToken 0 0 (0x5B :: u :: 0x5D :: rest) = _
  rw [found, htoken]
  rfl

end Label

theorem forall_found_entry {k : ℕ} (hk : k < demoExcerpts) (chunk : RetrievedChunk)
    {P : ℕ → Prop} : (∀ m ∈ found inlineToken 0 0 (utf16 (entry k chunk)), Cites P m.2) ↔
      P (k + 1) ∧ ∀ reference ∈ references (utf16 (entryText chunk)), P (number reference.2) := by
  obtain ⟨u, hdigits, hu, hnumber⟩ := label_digits hk
  have hentry : utf16 (entry k chunk) = utf16 "[" ++ [u] ++ utf16 "]" ++
      (utf16 " " ++ (utf16 (entryText chunk) ++ newline :: [newline])) := by
    have hlabel : utf16 "] " = utf16 "]" ++ utf16 " " := by decide
    have hend : utf16 "\n\n" = newline :: [newline] := by decide
    simp only [entry, utf16_append, hdigits, hlabel, hend, List.append_assoc]
  have hspace : ∀ v ∈ utf16 " ", ∀ rest, inlineToken (v :: rest) = none := by
    intro v hv rest
    obtain rfl : v = 0x20 := by simpa using (show v ∈ [0x20] from hv)
    exact inlineToken_eq_none (by decide) (by decide) (by decide) rest
  have hlast : found inlineToken 0 (3 + (utf16 " ").length + (utf16 (entryText chunk)).length + 1)
      [newline] = [] := by
    rw [inlineToken_confined.found_stop, found]
  have hcites : Cites P (utf16 "[" ++ [u] ++ utf16 "]") ↔ P (k + 1) := by
    rw [Cites, citationDigits?_label hu]
    simp [hnumber]
  rw [hentry, found_label hu, List.forall_mem_cons, found_append_free hspace,
    inlineToken_confined.found_append _ _ (Nat.zero_le _), hlast, List.append_nil,
    forall_found_start, @forall_references fun _ n => P n, hcites]

section Answer
variable {question : String} {retrieved : List RetrievedChunk}

theorem heading_ended : ∃ body, utf16 (heading retrieved) = body ++ [newline] := by
  have hlast : (utf16
      "the excerpts below are the top retrieved passages, clearly labeled.\n\n").getLast? =
      some newline := by decide
  refine List.getLast?_eq_some_iff.mp ?_
  unfold heading
  rw [utf16_append, List.getLast?_append, hlast, Option.some_or]

theorem entry_ended (k : ℕ) (chunk : RetrievedChunk) :
    ∃ body, utf16 (entry k chunk) = body ++ [newline] := by
  have hlast : (utf16 "\n\n").getLast? = some newline := by decide
  refine List.getLast?_eq_some_iff.mp ?_
  rw [entry, utf16_append, List.getLast?_append, hlast, Option.some_or]

theorem demoDeltas_ended : ∀ piece ∈ ((demoDeltas question retrieved).map utf16).dropLast,
    ∃ body, piece = body ++ [newline] := by
  intro piece hpiece
  rw [demoDeltas, List.map_cons] at hpiece
  by_cases hempty : retrieved = []
  · rw [if_pos hempty, List.map_singleton, List.dropLast_cons_cons, List.dropLast_singleton,
      List.mem_singleton] at hpiece
    rw [hpiece]
    exact heading_ended
  · rw [if_neg hempty, List.map_map] at hpiece
    rcases List.mem_cons.mp (List.mem_of_mem_dropLast hpiece) with hpiece | hpiece
    · rw [hpiece]
      exact heading_ended
    · obtain ⟨p, -, rfl⟩ := List.mem_map.mp hpiece
      rw [Function.comp_apply]
      exact entry_ended p.2 p.1

theorem forall_found_echo {P : ℕ → Prop} :
    (∀ m ∈ found inlineToken 0 0 (utf16 ("No passages were retrieved for: " ++ question)),
      Cites P m.2) ↔ ∀ reference ∈ references (utf16 question), P (number reference.2) := by
  have hfree : ∀ u ∈ utf16 "No passages were retrieved for: ",
      u ≠ 0x2A ∧ u ≠ 0x60 ∧ u ≠ 0x5B := List.all_iff_forall_prop.mp (by decide)
  rw [utf16_append, found_append_free fun u hu rest =>
    inlineToken_eq_none (hfree u hu).1 (hfree u hu).2.1 (hfree u hu).2.2 rest, forall_found_start,
    @forall_references fun _ n => P n]

theorem forall_answer {P : ℕ → ℕ → Prop} :
    (∀ reference ∈ references (utf16 (String.join (demoDeltas question retrieved))),
      P (pieceAt ((demoDeltas question retrieved).map utf16) reference.1) (number reference.2)) ↔
    (retrieved = [] → ∀ reference ∈ references (utf16 question), P 1 (number reference.2)) ∧
      ∀ k chunk, (retrieved.take demoExcerpts)[k]? = some chunk → P (k + 1) (k + 1) ∧
        ∀ reference ∈ references (utf16 (entryText chunk)), P (k + 1) (number reference.2) := by
  rw [@forall_references fun position n =>
      P (pieceAt ((demoDeltas question retrieved).map utf16) position) n, utf16_join,
    @Confined.forall_found_flatten _ _ _ inlineToken_confined _ demoDeltas_ended
      fun k token => Cites (P k) token]
  rw [demoDeltas, List.map_cons, forall_getElem?_cons, found_heading,
    and_iff_right (List.forall_mem_nil _)]
  by_cases hempty : retrieved = []
  · subst hempty
    rw [if_pos rfl, List.map_singleton, forall_getElem?_cons, forall_found_echo]
    simp
  · have hlt (k : ℕ) (chunk : RetrievedChunk)
        (hchunk : (retrieved.take demoExcerpts)[k]? = some chunk) : k < demoExcerpts := by
      have hlt := (List.getElem?_eq_some_iff.mp hchunk).1
      rw [List.length_take] at hlt
      omega
    have hentries (k : ℕ) : (((retrieved.take demoExcerpts).zipIdx.map fun p =>
        entry p.2 p.1).map utf16)[k]? =
          (retrieved.take demoExcerpts)[k]?.map fun chunk => utf16 (entry k chunk) := by
      simp [List.getElem?_zipIdx, Function.comp_def]
    rw [if_neg hempty, and_iff_right fun hnil => absurd hnil hempty]
    simp only [hentries, Option.map_eq_some_iff]
    constructor
    · intro h k chunk hchunk
      exact (forall_found_entry (hlt k chunk hchunk) chunk).mp (h k _ ⟨chunk, hchunk, rfl⟩)
    · rintro h k _ ⟨chunk, hchunk, rfl⟩
      exact (forall_found_entry (hlt k chunk hchunk) chunk).mpr (h k chunk hchunk)

end Answer

/-- In a demo answer, which is always completed, every rendered citation resolves exactly when no
citation is found in the question, where nothing was retrieved, and none but references to the
passage itself in the title and excerpt of each passage that is shown. -/
theorem citations_resolve_iff {settings : Settings} (openai : settings.openaiEnabled = false)
    (gemini : settings.geminiEnabled = false) (service : AnswerService) (question : String)
    (retrieved : List RetrievedChunk) (messageId : Uuid) :
    let message := collected (service.stream settings question retrieved messageId).items
    message.completed = true ∧
    ((∀ reference ∈ references (utf16 (String.join message.textParts)),
        Resolves message.citations
          (labelled retrieved (message.textParts.map utf16) reference.1) (number reference.2)) ↔
      (retrieved = [] → references (utf16 question) = []) ∧
        ∀ (k : ℕ) (chunk : RetrievedChunk), (retrieved.take demoExcerpts)[k]? = some chunk →
          ∀ reference ∈ references (utf16 (entryText chunk)),
            PointsTo retrieved chunk (number reference.2)) := by
  intro message
  have hmessage : message = _ := collected_demo openai gemini service question retrieved messageId
  rw [hmessage]
  refine ⟨rfl, ?_⟩
  refine (@forall_answer question retrieved fun k n =>
    Resolves (buildCitations retrieved) (passageOf retrieved k) n).trans (and_congr ?_ ?_)
  · refine forall_congr' fun hempty => ?_
    subst hempty
    rw [List.eq_nil_iff_forall_not_mem]
    refine forall₂_congr fun reference _ => ?_
    simp only [iff_false]
    rintro ⟨-, chunk, -, hlabel, -⟩
    cases hlabel
  · refine forall₂_congr fun k chunk => forall_congr' fun hchunk => ?_
    have hpassage : passageOf retrieved (k + 1) = some chunk := by
      rw [List.getElem?_take] at hchunk
      split at hchunk
      · exact hchunk
      · cases hchunk
    have hself : PointsTo retrieved chunk (k + 1) := ⟨by omega, chunk, hpassage, rfl⟩
    simp only [hpassage, resolves_iff, hself, true_and]

section Examples

def noModel : AnswerService where
  openai _ _ := .raised { message := "no key" }
  gemini _ _ := .raised { message := "no key" }

def drillLog : RetrievedChunk where
  chunkId := 3
  documentId := 5
  documentTitle := "Drills"
  content := "Logs are kept [1] in the office."
  page := none
  similarity := 0
  provider := .demo

theorem citations_resolve_iff_drills :
    (collected (noModel.stream {} "Where?" [drillLog] 9).items).completed = true ∧
    ∀ reference ∈ references (utf16 (String.join
      (collected (noModel.stream {} "Where?" [drillLog] 9).items).textParts)),
        Resolves (collected (noModel.stream {} "Where?" [drillLog] 9).items).citations
          (labelled [drillLog]
            ((collected (noModel.stream {} "Where?" [drillLog] 9).items).textParts.map utf16)
            reference.1) (number reference.2) := by
  have hfound : references (utf16 (entryText drillLog)) = [(22, [0x31])] := by decide
  obtain ⟨hcompleted, hresolve⟩ :=
    @citations_resolve_iff {} rfl rfl noModel "Where?" [drillLog] 9
  refine ⟨hcompleted, hresolve.mpr ⟨fun hnil => (List.cons_ne_nil _ _ hnil).elim, ?_⟩⟩
  intro k chunk hchunk
  rcases k with _ | k
  · obtain rfl : drillLog = chunk := Option.some.inj hchunk
    rw [hfound, List.forall_mem_singleton]
    exact ⟨by decide, drillLog, rfl, rfl⟩
  · cases k <;> cases hchunk

/-- The number in the question is rendered as a citation, and there is none to resolve it to. -/
theorem question_rendered_as_citation :
    ¬ ∀ (question : String) (retrieved : List RetrievedChunk) (messageId : Uuid),
      let message := collected (noModel.stream {} question retrieved messageId).items
      ∀ reference ∈ references (utf16 (String.join message.textParts)),
        Resolves message.citations
          (labelled retrieved (message.textParts.map utf16) reference.1) (number reference.2) := by
  intro h
  have hfound : references (utf16 "What does [7] say?") = [(10, [0x37])] := by decide
  have hanswer := h "What does [7] say?" [] 9
  rw [collected_demo rfl rfl] at hanswer
  have hquestion := ((@forall_answer _ [] fun k n =>
    Resolves (buildCitations []) (passageOf [] k) n).mp hanswer).1 rfl
  rw [hfound, List.forall_mem_singleton] at hquestion
  exact absurd hquestion.inRange.2 (by decide)

end Examples

end MarkdownLite

end Docsage
