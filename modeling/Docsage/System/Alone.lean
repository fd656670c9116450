import Docsage.System.Refinement

/-! # A run that is left alone

The world lets other accesses come between two accesses of a run. When none
does, the run reaches the store that its program computes when it is executed
from beginning to end, and it changes nothing else.
-/

namespace Docsage
open Effects Relational Transition

def OnlyAdvances (documentId : Uuid) (_ : World) (a : Action) : Prop :=
  ∃ fault, a = .advance documentId fault

/-- The world once the run of the document has ended with this store. -/
def World.leave (w : World) (documentId : Uuid) (s : Store) : World :=
  { w with store := s, jobs := delete Job.documentId documentId w.jobs }

variable {w : World} {j : Job} {p' : IngestionProgram} {s' : Store}

theorem resumed_of_ended (h : p'.ended = true) : w.resumed j p' s' = w.leave j.documentId s' := by
  rw [World.resumed, h]
  rfl

/-- The run is still there after an access that is not its last. -/
theorem lookup_resumed {r : Job} (hj : lookup Job.documentId j.documentId w.jobs = some r)
    (h : p'.ended = false) :
    lookup Job.documentId j.documentId (w.resumed j p' s').jobs =
      some { j with program := p' } := by
  rw [World.resumed, h]
  exact lookup_update_const hj rfl

theorem leave_resumed (h : p'.ended = false) (s : Store) :
    (w.resumed j p' s').leave j.documentId s = w.leave j.documentId s := by
  have hkey : Job.documentId { j with program := p' } = j.documentId := rfl
  simp [World.leave, World.resumed, h, delete_update_const hkey]

theorem advance_alone {fault : Option Exc}
    (hj : lookup Job.documentId j.documentId w.jobs = some j)
    (h : j.program.resume fault w.store = some (p', s')) :
    Run World.step (OnlyAdvances j.documentId) w (w.resumed j p' s') := by
  refine .tail (.advance j.documentId fault) (.refl w) ⟨fault, rfl⟩ ?_
  change w.advance j.documentId fault = _
  rw [World.advance, hj, Option.bind_some, h]
  rfl

/-- Scheduled alone under the faults of a sequential run, the run of a document ends with the
store of the sequential run. -/
theorem exec_alone (fault : CommitPoint → Option Exc)
    (hj : lookup Job.documentId j.documentId w.jobs = some j) (unended : j.program.ended = false) :
    Run World.step (OnlyAdvances j.documentId) w
      (w.leave j.documentId (j.program.exec fault w.store).2) := by
  -- The induction is along the sequential run; the world changes with it, the document stays.
  refine Program.exec_induction fault (motive := fun p s => ∀ w : World, w.store = s →
    lookup Job.documentId j.documentId w.jobs = some { j with program := p } →
      Run World.step (OnlyAdvances j.documentId) w (w.leave j.documentId (p.exec fault s).2))
    (fun p s p' s' h ih w hs hj => ?_) j.program w.store unended w rfl hj
  subst hs
  rw [Program.exec_resume fault h]
  have haccess := advance_alone (j := { j with program := p }) hj h
  cases hend : p'.ended with
  | true =>
    rw [resumed_of_ended hend] at haccess
    rwa [Program.exec_of_ended fault hend]
  | false =>
    have hrest := ih hend (w.resumed { j with program := p } p' s') rfl (lookup_resumed hj hend)
    rw [leave_resumed (j := { j with program := p }) hend] at hrest
    exact haccess.trans hrest

end Docsage
