import Docsage.Enrichment.Parity

/-! # The chunks that the two pipelines plan

Both give an image its caption before they cut the parts, and differ in what stands
for an empty text.
-/

namespace Docsage
open Effects Text Windows

/-- The plan of the chunks that .NET makes of a document. -/
def DotNet.planned (parts : List Docsage.ExtractedPart) (enrichment : EnrichmentResult) :
    List ChunkPlan :=
  chunk (fillCaptions (planOf enrichment) (parts.map extracted))
    (preamblesOf enrichment.tablePreambles)

/-- The part is cut alike. Of an image the caption is not empty, nor the name that stands for a
missing one. -/
def IngestsAlike (enrichment : EnrichmentResult) (part : ExtractedPart) (index : ℕ) : Prop :=
  PartAgrees enrichment part index ∧ (part.kind = .image →
    (enrichment.captions.lookup index).getD part.filename ≠ "")

section

variable {enrichment : EnrichmentResult} {part : ExtractedPart} {index : ℕ}

def DotNet.captionOf (enrichment : EnrichmentResult) (part : Docsage.ExtractedPart) (index : ℕ) :
    String :=
  (enrichment.captions.lookup index).getD
    ("Image " ++ part.filename ++ " extracted from the document.")

def DotNet.captionedOf (enrichment : EnrichmentResult) (p : Docsage.ExtractedPart × ℕ) :
    DotNet.ExtractedPart :=
  { extracted p.1 with
    content := utf16 (if p.1.kind = .image then captionOf enrichment p.1 p.2 else p.1.content) }

def DotNet.captionedBodies (enrichment : EnrichmentResult) (part : Docsage.ExtractedPart)
    (index : ℕ) : List ChunkBody :=
  (partBodies (preamblesOf enrichment.tablePreambles)
    (captionedOf enrichment (part, index)) index).map
      (bodyOf (captionedOf enrichment (part, index)))

theorem fillCaptions_extracted (parts : List ExtractedPart) :
    DotNet.fillCaptions (DotNet.planOf enrichment) (parts.map DotNet.extracted) =
      parts.zipIdx.map (DotNet.captionedOf enrichment) := by
  rw [DotNet.fillCaptions, List.zipIdx_map, List.map_map]
  refine List.map_congr_left fun ⟨part, index⟩ _ => ?_
  have hlookup : (DotNet.planOf enrichment).captions.lookup index =
      (enrichment.captions.lookup index).map utf16 := lookup_preamblesOf enrichment.captions index
  have hkind : part.kind.chunkKind = .imageDescription ↔ part.kind = .image :=
    @chunkKind_inj part.kind .image
  simp only [Function.comp_apply, Prod.map_apply, id_eq, hlookup, DotNet.captionedOf,
    DotNet.extracted, hkind]
  by_cases himage : part.kind = .image
  · simp only [himage, if_true, Option.getD_some, DotNet.captionOf]
    cases enrichment.captions.lookup index <;> simp
  · simp only [himage, if_false]

/-- The texts of an image differ in what stands for an empty text. -/
theorem imageContent_eq_iff : imageContent enrichment part index =
    DotNet.captionOf enrichment part index ↔
      (enrichment.captions.lookup index).getD part.filename ≠ "" := by
  unfold imageContent DotNet.captionOf
  cases hcaption : enrichment.captions.lookup index with
  | none =>
    by_cases hname : part.filename = ""
    · simp [orElse, hname]
    · simp [orElse, hname]
  | some caption =>
    by_cases hempty : caption = ""
    · refine iff_of_false (fun heq => ?_) (by simp [hempty])
      have hlength := congrArg String.length heq
      simp [orElse, hempty] at hlength
    · simp [orElse, hempty]

theorem captionedBodies_image (himage : part.kind = .image) :
    DotNet.captionedBodies enrichment part index =
      [utf16 (DotNet.captionOf enrichment part index)].map
        (DotNet.bodyOf (DotNet.partOf enrichment (part, index))) := by
  simp only [DotNet.captionedBodies, DotNet.partBodies, DotNet.captionedOf, DotNet.extracted,
    DotNet.partOf, DotNet.bodyOf, himage, PartKind.chunkKind, if_true, List.map_singleton]

/-- What is no image is cut as the chunkers are compared on it. -/
theorem captionedBodies_of_ne (himage : part.kind ≠ .image) :
    DotNet.captionedBodies enrichment part index = DotNet.bodies enrichment part index := by
  simp only [DotNet.captionedBodies, DotNet.bodies, DotNet.captionedOf, DotNet.partOf,
    DotNet.extracted, himage, if_false]

theorem ingestsAlike_iff : (partChunks enrichment part index).map ChunkDraft.body =
    DotNet.captionedBodies enrichment part index ↔ IngestsAlike enrichment part index := by
  by_cases himage : part.kind = .image
  · have hbodies : (partChunks enrichment part index).map ChunkDraft.body =
        [imageContent enrichment part index].map fun t =>
          ⟨(DotNet.partOf enrichment (part, index)).kind,
            (DotNet.partOf enrichment (part, index)).page, some t, t.length / 4⟩ := by
      simp only [partChunks, himage, DotNet.partOf]
      rfl
    rw [hbodies, captionedBodies_image himage, bodies_eq_iff, IngestsAlike, PartAgrees, himage,
      ← imageContent_eq_iff]
    simp [utf16_injective.eq_iff, and_comm, eq_comm]
  · simp [captionedBodies_of_ne himage, part_agrees_iff, IngestsAlike, himage]

theorem length_partChunks_le_captioned :
    ((partChunks enrichment part index).map ChunkDraft.body).length ≤
      (DotNet.captionedBodies enrichment part index).length := by
  by_cases himage : part.kind = .image
  · simp [captionedBodies_image himage, partChunks, himage]
  · rw [captionedBodies_of_ne himage]
    exact length_partChunks_le

theorem view_planned (parts : List ExtractedPart) :
    (DotNet.planned parts enrichment).map DotNet.ChunkPlan.view =
      ((parts.zipIdx.flatMap fun p =>
        DotNet.captionedBodies enrichment p.1 p.2).zipIdx).map ChunkBody.at := by
  have hbodies : (parts.zipIdx.flatMap fun p => DotNet.captionedBodies enrichment p.1 p.2) =
      (((parts.zipIdx.map (DotNet.captionedOf enrichment)).zipIdx).flatMap fun p =>
        (DotNet.partBodies (DotNet.preamblesOf enrichment.tablePreambles) p.1 p.2).map
          fun body => (p.1, body)).map fun q => DotNet.bodyOf q.1 q.2 := by
    rw [List.zipIdx_map, zipIdx_zipIdx, List.map_map, List.flatMap_map, List.map_flatMap]
    refine congrArg (List.flatMap · parts.zipIdx) (funext fun p => ?_)
    rw [List.map_map]
    rfl
  rw [hbodies, List.zipIdx_map, List.map_map, DotNet.planned, fillCaptions_extracted,
    DotNet.chunk, List.map_map]
  rfl

theorem numbered_eq_iff {bodies bodies' : List ChunkBody} :
    bodies.zipIdx.map ChunkBody.at = bodies'.zipIdx.map ChunkBody.at ↔ bodies = bodies' := by
  rw [(List.map_injective_iff.mpr numbered_injective).eq_iff]
  refine ⟨fun h => ?_, fun h => h ▸ rfl⟩
  have hbodies := congrArg (List.map Prod.fst) h
  rwa [List.zipIdx_map_fst, List.zipIdx_map_fst] at hbodies

/-- The chunks of the two backends are the same exactly when every part is ingested alike. -/
theorem planned_iff (documentId : Uuid) (rowIds : ℕ → Uuid) (parts : List ExtractedPart) :
    (bareRows documentId rowIds parts enrichment).map Chunk.view =
        (DotNet.planned parts enrichment).map DotNet.ChunkPlan.view ↔
      ∀ p ∈ parts.zipIdx, IngestsAlike enrichment p.1 p.2 := by
  rw [view_bareRows, view_planned, numbered_eq_iff,
    flatMap_eq_flatMap_iff fun p _ => length_partChunks_le_captioned]
  exact forall₂_congr fun p _ => ingestsAlike_iff

end

end Docsage
