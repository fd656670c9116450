import Docsage.Enrichment.Demo
import Docsage.Ingestion.Contents

/-! # The length and the overlap of chunks

The cap holds for the pieces of a part, and a preamble comes on top of it. The last
piece is all overlap where the text ends soon behind the start of a window.
-/

namespace Docsage
open Text Windows

variable {enrichment : EnrichmentResult}

/-- No chunk of a text or a table is longer than the cap. -/
def ChunksFit (parts : List ExtractedPart) (enrichment : EnrichmentResult) : Prop :=
  ∀ chunk ∈ buildChunks parts enrichment, chunk.kind ≠ .imageDescription →
    chunk.content.length ≤ chunkMaxChars

/-- A preamble leaves room for the longest piece of the part behind it. -/
def PreambleFits (enrichment : EnrichmentResult) (part : ExtractedPart) (index : ℕ) : Prop :=
  ∀ preamble, enrichment.tablePreambles.lookup index = some preamble → preamble ≠ "" →
    preamble.length + 2 + min part.content.length chunkMaxChars ≤ chunkMaxChars

theorem longest_piece (content : String) :
    (∃ piece ∈ chunkText content, piece.length = min content.length chunkMaxChars) ∧
      ∀ piece ∈ chunkText content, piece.length ≤ min content.length chunkMaxChars := by
  by_cases hshort : content.length ≤ chunkMaxChars
  · have hwhole : chunkText content = [content] := if_pos hshort
    rw [hwhole, min_eq_left hshort]
    exact ⟨⟨content, List.mem_singleton_self _, rfl⟩, List.forall_mem_singleton.mpr le_rfl⟩
  · have hlong : chunkMaxChars ≤ content.length := (not_le.mp hshort).le
    rw [min_eq_right hlong]
    refine ⟨?_, fun _ => length_le_of_mem_chunkText⟩
    have hne : content.toList ≠ [] := by
      rw [← List.length_pos_iff, String.length_toList]
      exact lt_of_lt_of_le (by decide) hlong
    rw [chunkText_of_long hshort, windows_of_ne_nil (by decide) _ hne, List.map_cons]
    refine ⟨_, List.mem_cons_self, ?_⟩
    rw [String.length_ofList]
    exact List.length_take_of_le (by rwa [String.length_toList])

theorem withPreamble_of_some {preamble : String} (hne : preamble ≠ "") (piece : String) :
    (withPreamble (some preamble) piece).length = preamble.length + 2 + piece.length := by
  rw [withPreamble, Option.filter_some_pos (by simpa using hne)]
  exact (String.length_append _ _).trans (congrArg (· + piece.length) (String.length_append _ _))

theorem withPreamble_of_none {preamble : Option String} (h : ∀ p ∈ preamble, p = "")
    (piece : String) : withPreamble preamble piece = piece := by
  have hnone : preamble.filter (· ≠ "") = none :=
    Option.filter_eq_none_iff.mpr fun p hp => by simpa using h p hp
  rw [withPreamble, hnone]

theorem partContents_fit_iff (part : ExtractedPart) (index : ℕ) :
    (part.kind ≠ .image → ∀ content ∈ partContents enrichment part index,
      content.length ≤ chunkMaxChars) ↔
        (part.kind = .table → PreambleFits enrichment part index) := by
  obtain ⟨⟨longest, hmem, hlongest⟩, hpieces⟩ := longest_piece part.content
  have hcap : min part.content.length chunkMaxChars ≤ chunkMaxChars := min_le_right _ _
  unfold partContents PreambleFits
  cases part.kind with
  | image => simp
  | text => exact iff_of_true (fun _ piece hpiece => (hpieces piece hpiece).trans hcap) nofun
  | table =>
    rw [imp_iff_right (by simp), imp_iff_right rfl, List.forall_mem_map]
    by_cases hnone : ∀ p ∈ enrichment.tablePreambles.lookup index, p = ""
    · refine iff_of_true (fun piece hpiece => ?_) fun p hp hne => absurd (hnone p hp) hne
      rw [withPreamble_of_none hnone]
      exact (hpieces piece hpiece).trans hcap
    · obtain ⟨p, hp, hne⟩ : ∃ p ∈ enrichment.tablePreambles.lookup index, p ≠ "" := by
        simpa using hnone
      rw [Option.mem_def] at hp
      simp only [hp, withPreamble_of_some hne, Option.some.injEq, forall_eq', ← hlongest]
      refine ⟨fun h _ => h longest hmem, fun h piece hpiece => ?_⟩
      exact (Nat.add_le_add_left (hlongest ▸ hpieces piece hpiece) _).trans (h hne)

theorem partChunks_fit_iff (part : ExtractedPart) (index : ℕ) :
    (∀ chunk ∈ partChunks enrichment part index, chunk.kind ≠ .imageDescription →
      chunk.content.length ≤ chunkMaxChars) ↔
        (part.kind = .table → PreambleFits enrichment part index) := by
  have hkind : part.kind.chunkKind ≠ .imageDescription ↔ part.kind ≠ .image := by
    cases part.kind <;> simp [PartKind.chunkKind]
  rw [partChunks_eq, List.forall_mem_map, ← partContents_fit_iff, ← hkind]
  have hrow (content : String) := partDraft_row part content
  constructor
  · intro h himage content hc
    rw [← (hrow content).2.1]
    exact h content hc ((hrow content).1 ▸ himage)
  · intro h content hc himage
    rw [(hrow content).2.1]
    exact h ((hrow content).1 ▸ himage) content hc

/-- The chunks of texts and tables respect the ceiling exactly when every preamble leaves room for
its table. -/
theorem chunksFit_iff (parts : List ExtractedPart) (enrichment : EnrichmentResult) :
    ChunksFit parts enrichment ↔
      ∀ part index, (part, index) ∈ parts.zipIdx → part.kind = .table →
        PreambleFits enrichment part index := by
  unfold ChunksFit buildChunks
  constructor
  · intro h part index hmem
    exact (partChunks_fit_iff part index).mp fun chunk hchunk =>
      h chunk (List.mem_flatMap.mpr ⟨(part, index), hmem, hchunk⟩)
  · intro h chunk hchunk
    obtain ⟨⟨part, index⟩, hmem, hin⟩ := List.mem_flatMap.mp hchunk
    exact (partChunks_fit_iff part index).mpr (h part index hmem) chunk hin

def fullTable : ExtractedPart :=
  { kind := .table, content := String.ofList (List.replicate chunkMaxChars 'x') }

/-- The demo preamble comes on top of the full piece. -/
theorem table_chunk_over_cap : ¬ ∀ parts enrichment, ChunksFit parts enrichment := by
  intro h
  have hlength : fullTable.content.length = chunkMaxChars := by
    rw [fullTable, String.length_ofList, List.length_replicate]
  have hlookup : (demo "Handbook" [fullTable]).tablePreambles.lookup 0 =
      some "Table from Handbook." := rfl
  have hchunks : ∀ chunk ∈ partChunks (demo "Handbook" [fullTable]) fullTable 0,
      chunk.kind ≠ .imageDescription → chunk.content.length ≤ chunkMaxChars := fun chunk hchunk =>
    h [fullTable] (demo "Handbook" [fullTable]) chunk
      (List.mem_flatMap.mpr ⟨(fullTable, 0), List.mem_singleton_self _, hchunk⟩)
  have hfits := (partChunks_fit_iff fullTable 0).mp hchunks rfl _ hlookup (by decide)
  rw [hlength, min_self] at hfits
  exact absurd hfits (by decide)

/-- The positions that each piece of a text of some length covers. They are cut as the text is. -/
def coveredPositions (length : ℕ) : List (List ℕ) :=
  if length ≤ chunkMaxChars then [List.range length]
  else windows (chunkMaxChars - chunkOverlapChars) chunkMaxChars (List.range length)

/-- Every piece after the first covers a position that the one before it does not. -/
def NoRedundantPiece (content : String) : Prop := EachAdds (coveredPositions content.length)

/-- The pieces are what the text holds at the covered positions. -/
theorem chunkText_positions (content : String) :
    chunkText content =
      (coveredPositions content.length).map fun positions =>
        String.ofList (atPositions content.toList positions) := by
  unfold chunkText coveredPositions
  split
  · rw [List.map_singleton, ← String.length_toList, atPositions_range, String.ofList_toList]
  · rw [windows_atPositions, List.map_map, String.length_toList]
    rfl

theorem DotNet.chunkText_positions (units : Utf16) :
    DotNet.chunkText units = (coveredPositions units.length).map (atPositions units) := by
  by_cases hshort : units.length ≤ 4000
  · have hwhole : coveredPositions units.length = [List.range units.length] := if_pos hshort
    rw [DotNet.chunkText_of_short hshort, hwhole, List.map_singleton, atPositions_range]
  · have hcut : coveredPositions units.length = windows 3400 4000 (List.range units.length) :=
      if_neg hshort
    rw [DotNet.chunkText_of_long hshort, hcut]
    exact windows_atPositions 3400 4000 units

theorem eachAdds_coveredPositions_iff (length : ℕ) : EachAdds (coveredPositions length) ↔
    length ≤ chunkMaxChars ∨
      chunkOverlapChars ≤ (length - 1) % (chunkMaxChars - chunkOverlapChars) := by
  unfold coveredPositions
  split
  · next hshort => exact iff_of_true (eachAdds_singleton _) (.inl hshort)
  · next hlong =>
    rw [or_iff_right hlong]
    exact eachAdds_windows_iff (by decide) (by decide) (not_le.mp hlong)

/-- The pieces are the text at the covered positions, and one is redundant exactly when a window
starts within the overlap from the end. -/
theorem noRedundantPiece_iff (content : String) :
    chunkText content = (coveredPositions content.length).map (fun positions =>
      String.ofList (atPositions content.toList positions)) ∧
    (NoRedundantPiece content ↔ content.length ≤ chunkMaxChars ∨
      chunkOverlapChars ≤ (content.length - 1) % (chunkMaxChars - chunkOverlapChars)) :=
  ⟨chunkText_positions content, eachAdds_coveredPositions_iff content.length⟩

/-- The .NET chunker cuts code units at the same positions. -/
theorem DotNet.noRedundantPiece_iff_units (units : Utf16) :
    DotNet.chunkText units = (coveredPositions units.length).map (atPositions units) ∧
    (EachAdds (coveredPositions units.length) ↔ units.length ≤ maxChars ∨
      overlapChars ≤ (units.length - 1) % (maxChars - overlapChars)) :=
  ⟨chunkText_positions units, eachAdds_coveredPositions_iff units.length⟩

/-- The third piece of 6900 characters is the end of the second. -/
theorem tail_piece_redundant : ¬ ∀ content : String, chunkMaxChars < content.length →
    NoRedundantPiece content := by
  intro h
  have hlength : (String.ofList (List.replicate 6900 'x')).length = 6900 := by
    rw [String.length_ofList, List.length_replicate]
  have hadds := h (String.ofList (List.replicate 6900 'x')) (by rw [hlength]; decide)
  rw [NoRedundantPiece, hlength, eachAdds_coveredPositions_iff] at hadds
  exact absurd hadds (by decide)

end Docsage
