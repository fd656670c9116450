import Docsage.Enrichment.Passes
import Docsage.Library.Fields

/-! # The document excerpt

The loop stops once its samples alone reach the limit, and the blank lines between
them only make the excerpt longer: what it leaves out is behind the cut.
-/

namespace Docsage
open Fields

def sample (part : ExtractedPart) : String :=
  if part.kind = .text then firstChars 8000 part.content
  else "[table]\n" ++ firstChars 8000 part.content

def samples (parts : List ExtractedPart) : List String :=
  (parts.filter (·.kind ≠ .image)).map sample

/-- The loop takes the first samples: all of them, or enough to reach the limit. -/
theorem excerptChunks_samples (limit taken : ℕ) (parts : List ExtractedPart) :
    ∃ rest, samples parts = excerptChunks limit taken parts ++ rest ∧
      (rest = [] ∨ limit ≤ taken + ((excerptChunks limit taken parts).map String.length).sum) := by
  induction parts generalizing taken with
  | nil => exact ⟨[], rfl, .inl rfl⟩
  | cons part parts ih =>
    by_cases himage : part.kind = .image
    · have hskip : samples (part :: parts) = samples parts := by
        simp [samples, himage]
      rw [excerptChunks, if_pos himage, hskip]
      exact ih taken
    · have hcons : samples (part :: parts) = sample part :: samples parts := by
        simp [samples, himage]
      have hstep : (excerptChunks limit taken (part :: parts)) =
          sample part :: if limit ≤ taken + (sample part).length then []
            else excerptChunks limit (taken + (sample part).length) parts := by
        rw [excerptChunks, if_neg himage]
        rfl
      rw [hcons, hstep]
      by_cases hfull : limit ≤ taken + (sample part).length
      · rw [if_pos hfull]
        exact ⟨samples parts, rfl, .inr (by simpa using hfull)⟩
      · obtain ⟨rest, hrest, henough⟩ := ih (taken + (sample part).length)
        rw [if_neg hfull, hrest]
        refine ⟨rest, rfl, henough.imp_right fun h => ?_⟩
        rw [List.map_cons, List.sum_cons, ← Nat.add_assoc]
        exact h

/-- Stopping early does not change the excerpt. -/
theorem documentExcerpt_exact (parts : List ExtractedPart) (limit : ℕ) :
    documentExcerpt parts limit = firstChars limit ("\n\n".intercalate (samples parts)) := by
  obtain ⟨rest, hsamples, hrest⟩ := excerptChunks_samples limit 0 parts
  rw [documentExcerpt, hsamples]
  rcases hrest with rfl | hlimit
  · rw [List.append_nil]
  · have hlengths : (excerptChunks limit 0 parts).map String.length =
        ((excerptChunks limit 0 parts).map String.toList).map List.length := by
      rw [List.map_map]
      exact List.map_congr_left fun chunk _ => String.length_toList.symm
    rw [Nat.zero_add, hlengths] at hlimit
    rw [firstChars, firstChars, String.toList_intercalate, String.toList_intercalate,
      List.map_append, take_intercalate_append hlimit]

end Docsage
