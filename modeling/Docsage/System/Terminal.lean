import Docsage.System.Review

/-! # Terminal statuses

A sweep takes a document for stranded when its row has been quiet for fifteen
minutes, although its run may only be slow. As long as no sweep meets such a
document, `ready` and `failed` are final.
-/

namespace Docsage
open Transition

/-- No sweep is taken while the document of a live run is stale. -/
def SparesLiveRuns (w : World) (a : Action) : Prop :=
  ∀ b, a = .sweep b → ∀ j ∈ w.jobs, ∀ row, w.store.document? j.documentId = some row →
    row.stale w.store.now = false

namespace Life

/-- A lawful event that is not a sweep of a live and stale document. -/
def Spared (l : Life) (ev : LifeEvent) : Prop :=
  l.Lawful ev ∧ ∀ now, ev = .sweep now → l.phase = .live →
    ∀ row, l.row = some row → row.stale now = false

/-- While its run is live the document is in a transient status. -/
def LiveTransient (l : Life) : Prop :=
  l.phase = .live → ∀ row, l.row = some row → row.status.transient = true

/-- Nothing comes back: an id stays taken, a deleted row stays away, a terminal status stays. -/
def Final (l l' : Life) : Prop :=
  l.issued = true → l'.issued = true ∧ (l.row = none → l'.row = none) ∧
    ∀ row row', l.row = some row → row.status.terminal = true → l'.row = some row' →
      row'.status = row.status

variable {l l' : Life} {ev : LifeEvent}

theorem sweep_eq_self {row : Document} {now : Timestamp} (h : row.stale now = false) :
    row.sweep now = row := by
  rw [Document.sweep, h]
  rfl

theorem terminal_not_stale {row : Document} (now : Timestamp) (h : row.status.terminal = true) :
    row.stale now = false := by
  have ht : row.status.transient = false := by simpa [Status.terminal] using h
  simp [Document.stale, ht]

theorem LiveTransient.step (quiet : l.LiveTransient) (spared : l.Spared ev)
    (h : l.step ev = some l') : l'.LiveTransient := by
  intro hlive row' hrow'
  cases ev with
  | create row space =>
    obtain rfl := Option.some.inj h
    obtain rfl := Option.some.inj hrow'
    rw [spared.1.2.status]
    rfl
  | run e next =>
    obtain rfl := Option.some.inj h
    obtain ⟨row, hrow, rfl⟩ := Option.map_eq_some_iff.mp hrow'
    obtain ⟨hphase, -, ⟨-, adv⟩ | ⟨rfl, -⟩⟩ := spared.1
    · rcases adv.status row with hs | hs
      · rw [hs]; exact quiet hphase row hrow
      · exact hs
    · cases hlive
  | halt =>
    obtain rfl := Option.some.inj h
    cases hlive
  | sweep now =>
    obtain rfl := Option.some.inj h
    obtain ⟨row, hrow, rfl⟩ := Option.map_eq_some_iff.mp hrow'
    rw [sweep_eq_self (spared.2 now rfl hlive row hrow)]
    exact quiet hlive row hrow
  | delete =>
    obtain rfl := Option.some.inj h
    cases hrow'
  | pass r | insert r now =>
    obtain rfl := Option.some.inj h
    exact quiet hlive row' hrow'
  | commit r | update r now =>
    obtain rfl := Option.some.inj h
    obtain ⟨row, hrow, rfl⟩ := Option.map_eq_some_iff.mp hrow'
    exact quiet hlive row hrow

theorem terminal_step (quiet : l.LiveTransient) (spared : l.Spared ev) (hissued : l.issued = true)
    (h : l.step ev = some l') :
    l'.issued = true ∧ (l.row = none → l'.row = none) ∧
      ∀ row row', l.row = some row → row.status.terminal = true → l'.row = some row' →
        row'.status = row.status := by
  cases ev with
  | create row space =>
    rw [spared.1.1] at hissued
    cases hissued
  | run e next =>
    obtain rfl := Option.some.inj h
    refine ⟨hissued, fun hn => by simp [hn], fun row row' hrow hterminal hrow' => ?_⟩
    have ht := quiet spared.1.1 row hrow
    simp [Status.terminal, ht] at hterminal
  | sweep now =>
    obtain rfl := Option.some.inj h
    refine ⟨hissued, fun hn => by simp [hn], fun row row' hrow hterminal hrow' => ?_⟩
    rw [hrow, Option.map_some, sweep_eq_self (terminal_not_stale now hterminal)] at hrow'
    rw [Option.some.inj hrow']
  | delete =>
    obtain rfl := Option.some.inj h
    exact ⟨hissued, fun _ => rfl, fun _ _ _ _ hrow' => by cases hrow'⟩
  | halt | pass r | insert r now =>
    obtain rfl := Option.some.inj h
    refine ⟨hissued, id, fun row row' hrow _ hrow' => ?_⟩
    rw [Option.some.inj (hrow.symm.trans hrow')]
  | commit r | update r now =>
    obtain rfl := Option.some.inj h
    refine ⟨hissued, fun hn => by simp [addApproval, hn], fun row row' hrow _ hrow' => ?_⟩
    obtain ⟨row₀, hrow₀, rfl⟩ := Option.map_eq_some_iff.mp hrow'
    rw [Option.some.inj (hrow.symm.trans hrow₀)]
    rfl

/-- Terminal statuses are final in every spared life. -/
theorem Final.run (run : Run Life.step Spared l l') (quiet : l.LiveTransient) : Final l l' := by
  refine run.relation quiet (fun l ev l' quiet spared taken => quiet.step spared taken)
    (fun l hissued => ⟨hissued, id, fun row row' hrow _ hrow' => ?_⟩)
    fun l₁ l₂ l₃ ev final quiet spared taken hissued => ?_
  · rw [Option.some.inj (hrow.symm.trans hrow')]
  · obtain ⟨hissued₂, hnone, hstatus⟩ := final hissued
    obtain ⟨hissued₃, hnone₃, hstatus₃⟩ := terminal_step quiet spared hissued₂ taken
    refine ⟨hissued₃, fun h => hnone₃ (hnone h), fun row row' hrow hterminal hrow' => ?_⟩
    cases hrow₂ : l₂.row with
    | none => rw [hnone₃ hrow₂] at hrow'; cases hrow'
    | some row₂ =>
      have hkept := hstatus row row₂ hrow hterminal hrow₂
      exact (hstatus₃ row₂ row' hrow₂ (by rw [hkept]; exact hterminal) hrow').trans hkept

end Life

variable {w₀ w w' : World} {d : Uuid} {l : Life} {row row' : Document}

/-- A sweep that spares the live runs spares the life of each document. -/
theorem spared_of_matched {a : Action} {l₁ : Life} {ev : LifeEvent} (rep : Represents d w l)
    (spares : SparesLiveRuns w a) (matched : Matched w a l l₁ ev) : l₁.Spared ev := by
  refine ⟨matched.1, fun now hev hlive row hrow => ?_⟩
  subst hev
  obtain ⟨⟨b, hb⟩, rfl, rfl⟩ := matched.2
  obtain ⟨j, hj, hd⟩ := rep.live hlive
  exact spares b hb j hj row (by rw [hd, rep.row, hrow])

/-- What the world does to a document under the condition on its sweeps is a spared life. -/
theorem World.spared_life (sound : w.Sound) (rep : Represents d w l) (good : l.Good)
    (run : Run World.step SparesLiveRuns w w') :
    ∃ l', Run Life.step Life.Spared l l' ∧ Represents d w' l' ∧ l'.Good := by
  have hmatched : ∀ w a w' (l : Life), (w.Sound ∧ Represents d w l ∧ l.Good) →
      SparesLiveRuns w a → w.step a = some w' →
      ∃ l', Run Life.step Life.Spared l l' ∧ (w'.Sound ∧ Represents d w' l' ∧ l'.Good) := by
    rintro w a w' l ⟨sound, rep, good⟩ spares taken
    obtain ⟨l', hrun, rep'⟩ := World.step_matches sound rep good taken
    exact ⟨l', hrun.mono fun _ _ matched => spared_of_matched rep spares matched,
      World.Sound.step sound taken, rep', good.run (hrun.mono fun _ _ matched => matched.1)⟩
  obtain ⟨l', hrun, -, rep', good'⟩ := run.simulate ⟨sound, rep, good⟩ hmatched
  exact ⟨l', hrun, rep', good'⟩

/-- In every run whose sweeps spare the live runs, a document that is once ready or failed keeps
that status. -/
theorem terminal_status_final (initial : w₀.Initial) (before : Run World.step SparesLiveRuns w₀ w)
    (after : Run World.step SparesLiveRuns w w') (hrow : w.store.document? d = some row)
    (terminal : row.status.terminal = true) (hrow' : w'.store.document? d = some row') :
    row'.status = row.status := by
  obtain ⟨l₀, rep₀, good₀⟩ := initial.sound d
  have hquiet₀ : l₀.LiveTransient := by
    intro hlive
    obtain ⟨j, hj, -⟩ := rep₀.live hlive
    rw [initial.jobs] at hj
    cases hj
  obtain ⟨l, hbefore, rep, good⟩ := World.spared_life initial.sound rep₀ good₀ before
  have hquiet : l.LiveTransient :=
    hbefore.invariant hquiet₀ fun _ _ _ quiet spared taken => quiet.step spared taken
  obtain ⟨l', hafter, rep', -⟩ :=
    World.spared_life (initial.sound.run before) rep good after
  have hlrow : l.row = some row := rep.row.symm.trans hrow
  have hissued : l.issued = true := by
    by_contra h
    rw [good.unissued (Bool.eq_false_iff.mpr h)] at hlrow
    cases hlrow
  exact (Life.Final.run hafter hquiet hissued).2.2 row row' hlrow terminal
    (rep'.row.symm.trans hrow')

/-- Only sweeps are restricted. -/
theorem sparesLiveRuns_of_not_sweep {a : Action} (h : ∀ b, a ≠ .sweep b) : SparesLiveRuns w a :=
  fun b hb => absurd hb (h b)

theorem sparesLiveRuns_of_idle (h : w.jobs = []) (a : Action) : SparesLiveRuns w a := by
  intro b _ j hj
  rw [h] at hj
  cases hj

namespace Agency

def sweepLater : List Action := [.tick 960000000, .sweep .dotNet]

theorem report_stays_ready : ∃ w w' row row',
    execute World.step start ingestReport = some w ∧ execute World.step w sweepLater = some w' ∧
    w.store.document? 7 = some row ∧ w'.store.document? 7 = some row' ∧
    row.status = .ready ∧ row'.status = row.status := by
  have hready : ((execute World.step start ingestReport).bind fun w =>
      (execute World.step w sweepLater).bind fun w' =>
        (w.store.document? 7).bind fun row => (w'.store.document? 7).map fun _ =>
          (w.jobs.isEmpty, row.status)) = some (true, .ready) := by decide
  obtain ⟨w, hw, hready⟩ := Option.bind_eq_some_iff.mp hready
  obtain ⟨w', hw', hready⟩ := Option.bind_eq_some_iff.mp hready
  obtain ⟨row, hrow, hready⟩ := Option.bind_eq_some_iff.mp hready
  obtain ⟨row', hrow', hready⟩ := Option.map_eq_some_iff.mp hready
  obtain ⟨hidle, hstatus⟩ := Prod.mk.inj hready
  have before : Run World.step SparesLiveRuns start w := by
    refine .of_execute (obeys_of_forall (fun a ha s => ?_) _) hw
    refine sparesLiveRuns_of_not_sweep fun b hb => ?_
    rcases List.mem_cons.mp ha with rfl | ha
    · cases hb
    · rw [List.eq_of_mem_replicate ha] at hb
      cases hb
  have after : Run World.step SparesLiveRuns w w' := by
    have hjobs : w.jobs = [] := List.isEmpty_iff.mp hidle
    have obeys : Obeys World.step SparesLiveRuns w sweepLater := by
      refine ⟨sparesLiveRuns_of_idle hjobs _, fun t ht => ⟨?_, fun _ _ => trivial⟩⟩
      obtain rfl := Option.some.inj ht
      exact sparesLiveRuns_of_idle (by exact hjobs) _
    exact .of_execute obeys hw'
  exact ⟨w, w', row, row', hw, hw', hrow, hrow', hstatus,
    terminal_status_final start_initial before after hrow (by rw [hstatus]; rfl) hrow'⟩

/-- The report has been extracting for sixteen minutes when the other backend sweeps. -/
def sweepSlowReport : List Action :=
  uploadReport :: List.replicate 2 (.advance 7 none) ++ sweepLater

end Agency

theorem terminal_status_lost :
    ¬ ∀ (w₀ w w' : World) (d : Uuid) (row row' : Document), w₀.Initial →
      Run World.step anyAction w₀ w → Run World.step anyAction w w' →
      w.store.document? d = some row → row.status.terminal = true →
      w'.store.document? d = some row' → row'.status = row.status := by
  intro h
  have hlost : ((execute World.step Agency.start Agency.sweepSlowReport).bind fun w =>
      (execute World.step w [.advance 7 none]).bind fun w' =>
        (w.store.document? 7).bind fun row => (w'.store.document? 7).map fun row' =>
          (row.status, row'.status)) = some (.failed, .enriching) := by decide
  obtain ⟨w, hw, hlost⟩ := Option.bind_eq_some_iff.mp hlost
  obtain ⟨w', hw', hlost⟩ := Option.bind_eq_some_iff.mp hlost
  obtain ⟨row, hrow, hlost⟩ := Option.bind_eq_some_iff.mp hlost
  obtain ⟨row', hrow', hlost⟩ := Option.map_eq_some_iff.mp hlost
  obtain ⟨hfailed, henriching⟩ := Prod.mk.inj hlost
  have hkept := h _ w w' 7 row row' Agency.start_initial (Agency.reaches hw)
    (.of_execute (obeys_true _ _) hw') hrow (by rw [hfailed]; rfl) hrow'
  rw [hfailed, henriching] at hkept
  cases hkept

end Docsage
