import Docsage.Ingestion.Chunks
import Docsage.Ingestion.DotNet
import Docsage.Library.Recoding

/-! # The two chunkers

Both window a text by length and count its tokens by length, one in code points
and the other in UTF-16 code units. They store the same chunks where the two
lengths lead to the same cuts and to the same quotients.
-/

namespace Docsage
open Text Windows

def PartKind.chunkKind : PartKind → ChunkKind
  | .text => .text
  | .table => .table
  | .image => .imageDescription

/-- What is stored of a chunk beside its ordinal; no content where it does not decode. -/
structure ChunkBody where
  kind : ChunkKind
  page : Option ℕ
  content : Option String
  tokenCount : ℕ
deriving DecidableEq

structure ChunkView extends ChunkBody where
  ordinal : ℕ
deriving DecidableEq

def ChunkBody.at (p : ChunkBody × ℕ) : ChunkView := { p.1 with ordinal := p.2 }

def Chunk.view (c : Chunk) : ChunkView :=
  { ordinal := c.ordinal, kind := c.kind, page := c.page, content := some c.content
    tokenCount := c.tokenCount }

def DotNet.ChunkPlan.view (p : DotNet.ChunkPlan) : ChunkView :=
  { ordinal := p.ordinal, kind := p.kind, page := p.page, content := decode? p.content
    tokenCount := p.tokenCount }

def imageContent (enrichment : EnrichmentResult) (part : ExtractedPart) (index : ℕ) : String :=
  orElse (enrichment.captions.lookup index)
    ("Image " ++ orElse (some part.filename) "attachment" ++ " extracted from the document.")

/-- The part as the .NET chunker is given it: an image part carries the text it is embedded by. -/
def DotNet.partOf (enrichment : EnrichmentResult) (p : Docsage.ExtractedPart × ℕ) :
    DotNet.ExtractedPart where
  kind := p.1.kind.chunkKind
  content := utf16 (if p.1.kind = .image then imageContent enrichment p.1 p.2 else p.1.content)
  page := p.1.page

def DotNet.preamblesOf (preambles : List (ℕ × String)) : List (ℕ × Utf16) :=
  preambles.map fun e => (e.1, utf16 e.2)

/-- The chunks that the two backends store of the same parts and preambles are the same. -/
def ChunkersAgree (documentId : Uuid) (rowIds : ℕ → Uuid) (parts : List ExtractedPart)
    (enrichment : EnrichmentResult) : Prop :=
  (bareRows documentId rowIds parts enrichment).map Chunk.view =
    (DotNet.chunk (parts.zipIdx.map (DotNet.partOf enrichment))
      (DotNet.preamblesOf enrichment.tablePreambles)).map DotNet.ChunkPlan.view

/-- A quarter of the code points is a quarter of the code units. -/
def TokensAgree (text : String) : Prop := (utf16 text).length / 4 = text.length / 4

instance (text : String) : Decidable (TokensAgree text) := inferInstanceAs (Decidable (_ = _))

/-- The content passes through whole in both, or no character before a window or in it takes two
code units, but in a window that the end cuts off. -/
def WindowsAgree (content : String) : Prop :=
  (utf16 content).length ≤ 4000 ∨ Aligned unitsOfChar 3400 4000 content.toList

def windowStarts (content : String) : List ℕ :=
  if content.length ≤ 4000 then [0] else starts content.length 3400

def tablePrefix (preamble : Option String) : String :=
  match preamble with
  | some preamble => preamble ++ "\n\n"
  | none => ""

def PartAgrees (enrichment : EnrichmentResult) (part : ExtractedPart) (index : ℕ) : Prop :=
  match part.kind with
  | .image => TokensAgree (imageContent enrichment part index)
  | .text => WindowsAgree part.content ∧ ∀ start ∈ windowStarts part.content,
      TokensAgree (String.ofList ((part.content.toList.drop start).take 4000))
  | .table => enrichment.tablePreambles.lookup index ≠ some "" ∧ WindowsAgree part.content ∧
      ∀ start ∈ windowStarts part.content,
        TokensAgree (tablePrefix (enrichment.tablePreambles.lookup index) ++
          String.ofList ((part.content.toList.drop start).take 4000))

section

variable {content preamble : String} {kind : ChunkKind} {page : Option ℕ}

theorem length_le_utf16 (content : String) : content.length ≤ (utf16 content).length := by
  rw [← String.length_toList]
  exact length_le_flatMap unitsOfChar_ne_nil _

theorem chunkText_of_short (h : content.length ≤ 4000) : chunkText content = [content] := if_pos h

theorem chunkText_of_long (h : ¬ content.length ≤ 4000) :
    chunkText content = (windows 3400 4000 content.toList).map String.ofList := if_neg h

theorem DotNet.chunkText_of_short {units : Utf16} (h : units.length ≤ 4000) :
    DotNet.chunkText units = [units] := if_pos h

theorem DotNet.chunkText_of_long {units : Utf16} (h : ¬ units.length ≤ 4000) :
    DotNet.chunkText units = windows 3400 4000 units := if_neg h

theorem map_utf16_windows (cs : List Char) :
    ((windows 3400 4000 cs).map String.ofList).map utf16 =
      (windows 3400 4000 cs).map (·.flatMap unitsOfChar) := by
  rw [List.map_map]
  exact List.map_congr_left fun w _ => utf16_ofList w

theorem chunkText_utf16_iff : DotNet.chunkText (utf16 content) = (chunkText content).map utf16 ↔
    WindowsAgree content := by
  have hle := length_le_utf16 content
  unfold WindowsAgree
  by_cases hunits : (utf16 content).length ≤ 4000
  · rw [DotNet.chunkText_of_short hunits, chunkText_of_short (hle.trans hunits)]
    exact iff_of_true rfl (.inl hunits)
  · rw [DotNet.chunkText_of_long hunits]
    by_cases hshort : content.length ≤ 4000
    · rw [chunkText_of_short hshort]
      refine iff_of_false (fun heq => ?_) ?_
      · have htwo : 2 ≤ (windows 3400 4000 (utf16 content)).length :=
          two_le_length_windows (by omega) (by omega) 4000
        rw [heq] at htwo
        simp at htwo
      · rintro (h | h)
        · exact hunits h
        · have hlong : ¬ (content.toList.flatMap unitsOfChar).length ≤ 4000 := hunits
          have hstart : 0 ∈ starts (content.toList.flatMap unitsOfChar).length 3400 := by
            rw [starts_succ (by omega) (by omega)]
            exact List.mem_cons_self
          have hnarrow := (h 0 hstart).2.resolve_left (by omega)
          rw [List.take_of_length_le (by rw [String.length_toList]; omega), Narrow,
            String.length_toList] at hnarrow
          omega
    · rw [chunkText_of_long hshort, map_utf16_windows, or_iff_right hunits]
      exact windows_flatMap_iff unitsOfChar_ne_nil (by omega) (by omega)

theorem length_chunkText_le :
    (chunkText content).length ≤ (DotNet.chunkText (utf16 content)).length := by
  by_cases hshort : content.length ≤ 4000
  · rw [chunkText_of_short hshort]
    by_cases hunits : (utf16 content).length ≤ 4000
    · rw [DotNet.chunkText_of_short hunits]
      exact Nat.le_refl 1
    · have htwo : 2 ≤ (windows 3400 4000 (utf16 content)).length :=
        two_le_length_windows (by omega) (by omega) 4000
      rw [DotNet.chunkText_of_long hunits]
      exact (Nat.le_succ 1).trans htwo
  · have hle := length_le_utf16 content
    rw [chunkText_of_long hshort, DotNet.chunkText_of_long (by omega), List.length_map]
    exact length_windows_le unitsOfChar_ne_nil 3400 4000 _

/-- An empty preamble is no preamble in FastAPI and a blank line in .NET. -/
theorem chunkText_prefixed_ne :
    (DotNet.chunkText (utf16 content)).map (utf16 "\n\n" ++ ·) ≠ (chunkText content).map utf16 := by
  intro heq
  have hle := length_le_utf16 content
  by_cases hunits : (utf16 content).length ≤ 4000
  · rw [DotNet.chunkText_of_short hunits, chunkText_of_short (hle.trans hunits)] at heq
    have hlengths := congrArg List.length (List.cons.inj heq).1
    rw [List.length_append] at hlengths
    have hblank : (utf16 "\n\n").length = 2 := rfl
    omega
  · rw [DotNet.chunkText_of_long hunits] at heq
    by_cases hshort : content.length ≤ 4000
    · have htwo : 2 ≤ (windows 3400 4000 (utf16 content)).length :=
        two_le_length_windows (by omega) (by omega) 4000
      have hlengths := congrArg List.length heq
      rw [chunkText_of_short hshort, List.length_map, List.length_map, List.length_singleton]
        at hlengths
      omega
    · rw [chunkText_of_long hshort, map_utf16_windows] at heq
      refine windows_prefixed_ne unitsOfChar_ne_nil (by omega) (by omega) ?_ ?_ (Nat.le_refl _)
        heq.symm
      · exact List.cons_ne_nil _ _
      · intro hempty
        rw [← String.length_toList, hempty] at hshort
        exact hshort (Nat.zero_le _)

def ChunkDraft.body (d : ChunkDraft) : ChunkBody :=
  ⟨d.kind, d.page, some d.content, d.content.length / 4⟩

def DotNet.bodyOf (part : DotNet.ExtractedPart) (body : Utf16) : ChunkBody :=
  ⟨part.kind, part.page, decode? body, body.length / 4⟩

theorem bodies_eq_iff (part : DotNet.ExtractedPart) {texts : List String} {units : List Utf16} :
    texts.map (fun t => (⟨part.kind, part.page, some t, t.length / 4⟩ : ChunkBody)) =
        units.map (DotNet.bodyOf part) ↔
      units = texts.map utf16 ∧ ∀ t ∈ texts, TokensAgree t := by
  induction texts generalizing units with
  | nil => cases units <;> simp
  | cons t texts ih =>
    cases units with
    | nil => simp
    | cons u units =>
      have hhead : (⟨part.kind, part.page, some t, t.length / 4⟩ : ChunkBody) =
          DotNet.bodyOf part u ↔ u = utf16 t ∧ TokensAgree t := by
        simp only [DotNet.bodyOf, ChunkBody.mk.injEq, true_and]
        rw [eq_comm, decode?_eq_some]
        refine and_congr_right fun hu => ?_
        rw [TokensAgree, hu, eq_comm]
      rw [List.map_cons, List.map_cons, List.map_cons, List.cons.injEq, List.cons.injEq, hhead, ih,
        List.forall_mem_cons]
      tauto

theorem chunkText_eq_starts : chunkText content = (windowStarts content).map fun start =>
    String.ofList ((content.toList.drop start).take 4000) := by
  unfold windowStarts
  split
  · next h =>
    rw [chunkText_of_short h, List.map_singleton, List.drop_zero,
      List.take_of_length_le (by rw [String.length_toList]; exact h), String.ofList_toList]
  · next h =>
    rw [chunkText_of_long h, windows, List.map_map, String.length_toList]
    rfl

variable {enrichment : EnrichmentResult} {part : ExtractedPart} {index : ℕ}

/-- A part that is cut, with the same text before every piece. -/
theorem cut_agrees_iff {dotnet : DotNet.ExtractedPart} (before : String) :
    ((chunkText content).map (before ++ ·)).map
          (fun t => (⟨dotnet.kind, dotnet.page, some t, t.length / 4⟩ : ChunkBody)) =
        ((DotNet.chunkText (utf16 content)).map (utf16 before ++ ·)).map (DotNet.bodyOf dotnet) ↔
      WindowsAgree content ∧ ∀ start ∈ windowStarts content,
        TokensAgree (before ++ String.ofList ((content.toList.drop start).take 4000)) := by
  have hunits : (DotNet.chunkText (utf16 content)).map (utf16 before ++ ·) =
      ((chunkText content).map (before ++ ·)).map utf16 ↔ WindowsAgree content := by
    rw [← chunkText_utf16_iff, List.map_map]
    have hcomp : utf16 ∘ (before ++ ·) = (utf16 before ++ ·) ∘ utf16 :=
      funext fun t => utf16_append before t
    rw [hcomp, ← List.map_map]
    exact (List.map_injective_iff.mpr (List.append_right_injective (utf16 before))).eq_iff
  rw [bodies_eq_iff dotnet, hunits, chunkText_eq_starts]
  simp only [List.map_map, List.forall_mem_map, Function.comp_apply]

theorem lookup_preamblesOf (preambles : List (ℕ × String)) (index : ℕ) :
    (DotNet.preamblesOf preambles).lookup index = (preambles.lookup index).map utf16 := by
  induction preambles with
  | nil => rfl
  | cons e preambles ih =>
    obtain ⟨i, preamble⟩ := e
    simp only [DotNet.preamblesOf, List.map_cons, List.lookup_cons]
    cases index == i
    · exact ih
    · rfl

def DotNet.bodies (enrichment : EnrichmentResult) (part : Docsage.ExtractedPart) (index : ℕ) :
    List ChunkBody :=
  (DotNet.partBodies (DotNet.preamblesOf enrichment.tablePreambles)
    (DotNet.partOf enrichment (part, index)) index).map
      (DotNet.bodyOf (DotNet.partOf enrichment (part, index)))

/-- A part is cut when what FastAPI and .NET put before its pieces is the same. -/
theorem part_agrees_of_cut (before : String)
    (fastApi : (partChunks enrichment part index).map ChunkDraft.body =
      (chunkText part.content).map fun t =>
        ⟨part.kind.chunkKind, part.page, some (before ++ t), (before ++ t).length / 4⟩)
    (dotNet : DotNet.partBodies (DotNet.preamblesOf enrichment.tablePreambles)
        (DotNet.partOf enrichment (part, index)) index =
      (DotNet.chunkText (utf16 part.content)).map (utf16 before ++ ·)) :
    (partChunks enrichment part index).map ChunkDraft.body = DotNet.bodies enrichment part index ↔
      WindowsAgree part.content ∧ ∀ start ∈ windowStarts part.content,
        TokensAgree (before ++ String.ofList ((part.content.toList.drop start).take 4000)) := by
  have hcut := @cut_agrees_iff part.content (DotNet.partOf enrichment (part, index)) before
  rw [List.map_map] at hcut
  rw [fastApi, DotNet.bodies, dotNet]
  exact hcut

theorem bodies_empty_preamble_ne (kind : part.kind = .table)
    (empty : enrichment.tablePreambles.lookup index = some "") :
    (partChunks enrichment part index).map ChunkDraft.body ≠
      DotNet.bodies enrichment part index := by
  intro heq
  have hfastApi : (partChunks enrichment part index).map ChunkDraft.body =
      (chunkText part.content).map fun t =>
        ⟨part.kind.chunkKind, part.page, some t, t.length / 4⟩ := by
    simp only [partChunks, kind, empty, List.map_map]
    rfl
  have hdotNet : DotNet.partBodies (DotNet.preamblesOf enrichment.tablePreambles)
      (DotNet.partOf enrichment (part, index)) index =
      (DotNet.chunkText (utf16 part.content)).map (utf16 "\n\n" ++ ·) := by
    simp only [DotNet.partBodies, DotNet.partOf, kind, PartKind.chunkKind, lookup_preamblesOf,
      empty]
    rfl
  rw [hfastApi, DotNet.bodies, hdotNet] at heq
  exact chunkText_prefixed_ne ((bodies_eq_iff (DotNet.partOf enrichment (part, index))).mp heq).1

theorem part_agrees_iff : (partChunks enrichment part index).map ChunkDraft.body =
    DotNet.bodies enrichment part index ↔ PartAgrees enrichment part index := by
  cases hkind : part.kind with
  | image =>
    have hdotNet : DotNet.bodies enrichment part index =
        [utf16 (imageContent enrichment part index)].map
          (DotNet.bodyOf (DotNet.partOf enrichment (part, index))) := by
      simp only [DotNet.bodies, DotNet.partBodies, DotNet.partOf, hkind, PartKind.chunkKind,
        if_true]
    have hfastApi : (partChunks enrichment part index).map ChunkDraft.body =
        [imageContent enrichment part index].map fun t =>
          ⟨part.kind.chunkKind, part.page, some t, t.length / 4⟩ := by
      simp only [partChunks, hkind]
      rfl
    rw [hfastApi, hdotNet]
    refine (bodies_eq_iff (DotNet.partOf enrichment (part, index))).trans ?_
    simp [PartAgrees, hkind]
  | text =>
    have hcut := @part_agrees_of_cut enrichment part index "" ?_ ?_
    · rw [hcut]
      simp [PartAgrees, hkind]
    · simp [partChunks, hkind, ChunkDraft.body, PartKind.chunkKind]
    · simp [DotNet.partBodies, DotNet.partOf, hkind, PartKind.chunkKind, utf16]
  | table =>
    cases hpreamble : enrichment.tablePreambles.lookup index with
    | none =>
      have hcut := @part_agrees_of_cut enrichment part index "" ?_ ?_
      · rw [hcut]
        simp [PartAgrees, hkind, hpreamble, tablePrefix]
      · simp [partChunks, hkind, ChunkDraft.body, PartKind.chunkKind, hpreamble]
      · simp [DotNet.partBodies, DotNet.partOf, hkind, PartKind.chunkKind, utf16,
          lookup_preamblesOf, hpreamble]
    | some preamble =>
      by_cases hempty : preamble = ""
      · subst hempty
        refine iff_of_false (bodies_empty_preamble_ne hkind hpreamble) ?_
        simp [PartAgrees, hkind, hpreamble]
      · have hcut := @part_agrees_of_cut enrichment part index (preamble ++ "\n\n") ?_ ?_
        · rw [hcut]
          simp [PartAgrees, hkind, hpreamble, tablePrefix, hempty]
        · simp [partChunks, hkind, ChunkDraft.body, PartKind.chunkKind, hpreamble, hempty]
        · simp [DotNet.partBodies, DotNet.partOf, hkind, PartKind.chunkKind,
            lookup_preamblesOf, hpreamble]

theorem length_partChunks_le :
    ((partChunks enrichment part index).map ChunkDraft.body).length ≤
      (DotNet.bodies enrichment part index).length := by
  rw [List.length_map, DotNet.bodies, List.length_map]
  have hle := @length_chunkText_le part.content
  cases hkind : part.kind with
  | image => simp [partChunks, DotNet.partBodies, DotNet.partOf, hkind, PartKind.chunkKind]
  | text =>
    simpa [partChunks, DotNet.partBodies, DotNet.partOf, hkind, PartKind.chunkKind] using hle
  | table =>
    simpa [partChunks, DotNet.partBodies, DotNet.partOf, hkind, PartKind.chunkKind] using hle

theorem view_bareRows (documentId : Uuid) (rowIds : ℕ → Uuid) (parts : List ExtractedPart) :
    (bareRows documentId rowIds parts enrichment).map Chunk.view =
      ((parts.zipIdx.flatMap fun p =>
        (partChunks enrichment p.1 p.2).map ChunkDraft.body).zipIdx).map ChunkBody.at := by
  rw [← List.map_flatMap, List.zipIdx_map, bareRows, List.map_map, List.map_map]
  rfl

theorem zipIdx_zipIdx {α : Type} (l : List α) (k : ℕ) :
    (l.zipIdx k).zipIdx k = (l.zipIdx k).map fun p => (p, p.2) := by
  induction l generalizing k with
  | nil => rfl
  | cons a l ih => rw [List.zipIdx_cons, List.zipIdx_cons, ih, List.map_cons]

theorem view_chunk (parts : List ExtractedPart) :
    (DotNet.chunk (parts.zipIdx.map (DotNet.partOf enrichment))
        (DotNet.preamblesOf enrichment.tablePreambles)).map DotNet.ChunkPlan.view =
      ((parts.zipIdx.flatMap fun p =>
        DotNet.bodies enrichment p.1 p.2).zipIdx).map ChunkBody.at := by
  have hbodies : (parts.zipIdx.flatMap fun p => DotNet.bodies enrichment p.1 p.2) =
      (((parts.zipIdx.map (DotNet.partOf enrichment)).zipIdx).flatMap fun p =>
        (DotNet.partBodies (DotNet.preamblesOf enrichment.tablePreambles) p.1 p.2).map
          fun body => (p.1, body)).map fun q => DotNet.bodyOf q.1 q.2 := by
    rw [List.zipIdx_map, zipIdx_zipIdx, List.map_map, List.flatMap_map, List.map_flatMap]
    refine congrArg (List.flatMap · parts.zipIdx) (funext fun p => ?_)
    rw [List.map_map]
    rfl
  rw [hbodies, List.zipIdx_map, List.map_map, DotNet.chunk, List.map_map]
  rfl

theorem numbered_injective : Function.Injective ChunkBody.at := by
  rintro ⟨⟨kind, page, content, tokens⟩, i⟩ ⟨⟨kind', page', content', tokens'⟩, i'⟩ h
  simpa [ChunkBody.at] using h

end

/-- The two chunkers store the same chunks of the same parts and preambles exactly when every part
is cut and counted alike. -/
theorem chunkers_agree_iff (documentId : Uuid) (rowIds : ℕ → Uuid) (parts : List ExtractedPart)
    (enrichment : EnrichmentResult) :
    ChunkersAgree documentId rowIds parts enrichment ↔
      ∀ p ∈ parts.zipIdx, PartAgrees enrichment p.1 p.2 := by
  have hbodies (bodies bodies' : List ChunkBody) :
      bodies.zipIdx.map ChunkBody.at = bodies'.zipIdx.map ChunkBody.at ↔ bodies = bodies' := by
    rw [(List.map_injective_iff.mpr numbered_injective).eq_iff]
    refine ⟨fun h => ?_, fun h => h ▸ rfl⟩
    have hfst := congrArg (List.map Prod.fst) h
    rwa [List.zipIdx_map_fst, List.zipIdx_map_fst] at hfst
  rw [ChunkersAgree, view_bareRows, view_chunk, hbodies,
    flatMap_eq_flatMap_iff fun p _ => length_partChunks_le]
  exact forall₂_congr fun p _ => part_agrees_iff

/-- Two characters of two code units each are no token in FastAPI and one in .NET. -/
theorem chunkers_disagree :
    ¬ ∀ (documentId : Uuid) (rowIds : ℕ → Uuid) (parts : List ExtractedPart)
      (enrichment : EnrichmentResult), ChunkersAgree documentId rowIds parts enrichment := by
  intro h
  have hviews := h 0 (fun _ => 0) [{ kind := .text, content := "😀😀" }] {}
  have htokens := congrArg (List.map (·.tokenCount)) hviews
  exact absurd htokens (by decide)

end Docsage
