import PipelineGraph.Proofs.Simulation.Orderly

/-!
# How futures end

An ending stays. A gathering ends as a child of it has, or as it was asked to; a request to cancel
ends nothing but sleeps. So a visit of a run that ends well has all that follows it behind it, and
a run that comes to a fault has made a walk that is one edge too long.
-/

namespace PipelineGraph.Simulation

namespace Scheduler

variable {P A : Type} {s : Scheduler P A} {i j c id : FutureId} {e : Ending}

/-- A future that is ended has the new ending only if it had none. -/
theorem ending?_complete_cases (ending : Ending) : (s.complete i ending).ending? j = s.ending? j ∨
    j = i ∧ s.ending? j = none ∧ (s.complete i ending).ending? j = some ending := by
  rw [ending?_complete]
  split
  · next heq =>
    cases hf : s.future? j with
    | none => exact Or.inl (by simp [ending?, hf])
    | some f =>
      cases hended : f.ending with
      | none => exact Or.inr ⟨heq.symm, by simp [ending?, hf, hended], by simp [hended]⟩
      | some e => exact Or.inl (by simp [ending?, hf, hended])
  · exact Or.inl rfl

/-- Whether a gathering was asked to cancel. -/
def isAsked (s : Scheduler P A) (id : FutureId) : Prop :=
  ∃ g, s.kind? id = some (.gathering g) ∧ g.cancelRequested = true

/-- A gathering that ends as a child is counted ends as the child has, or as it was asked to. -/
theorem ending?_countChild : (s.countChild i c).ending? j = s.ending? j ∨
    j = i ∧ s.ending? i = none ∧
      ((∃ x, s.ending? c = some (.error x) ∧ (s.countChild i c).ending? i = some (.error x)) ∨
        s.isAsked i ∧ (s.countChild i c).ending? i = some (.error .cancelled) ∨
        (s.countChild i c).ending? i = some (.ok ())) := by
  have hcomplete : ∀ ending : Ending,
      ((∃ x, s.ending? c = some (.error x) ∧ ending = .error x) ∨
        s.isAsked i ∧ ending = .error .cancelled ∨ ending = .ok ()) →
      let s' := (s.modifyGathering i fun g => { g with counted := g.counted + 1 }).complete i ending
      s'.ending? j = s.ending? j ∨ j = i ∧ s.ending? i = none ∧
        ((∃ x, s.ending? c = some (.error x) ∧ s'.ending? i = some (.error x)) ∨
          s.isAsked i ∧ s'.ending? i = some (.error .cancelled) ∨ s'.ending? i = some (.ok ())) := by
    intro ending hreason
    have hsame : ∀ id, (s.modifyGathering i fun g => { g with counted := g.counted + 1 }).ending? id =
        s.ending? id := fun _ => ending?_modifyGathering _
    dsimp only
    generalize (s.modifyGathering i fun g => { g with counted := g.counted + 1 }) = s₁ at hsame ⊢
    rcases ending?_complete_cases (s := s₁) (i := i) (j := j) ending with hold | ⟨rfl, hnone, hend⟩
    · exact Or.inl (hold.trans (hsame j))
    · refine Or.inr ⟨rfl, (hsame j).symm.trans hnone, ?_⟩
      rw [hend]
      rcases hreason with ⟨x, hc, rfl⟩ | ⟨hasked, rfl⟩ | rfl
      · exact Or.inl ⟨x, hc, rfl⟩
      · exact Or.inr (Or.inl ⟨hasked, rfl⟩)
      · exact Or.inr (Or.inr rfl)
  unfold countChild
  dsimp only
  split
  · next x hkind hc =>
    rw [ending?_modifyGathering] at hc
    exact hcomplete _ (Or.inl ⟨x, hc, rfl⟩)
  · next g hkind hc =>
    split
    · refine hcomplete _ (Or.inr ?_)
      split
      · next hasked =>
        refine Or.inl ⟨?_, rfl⟩
        simp only [kind?, future?_modifyGathering, if_true] at hkind
        cases hf : s.future? i with
        | none => simp [hf] at hkind
        | some f =>
          cases hk : f.kind with
          | sleep | task => simp [hf, Future.mapGathering, hk] at hkind
          | gathering g₀ =>
            simp only [hf, Future.mapGathering, hk, Option.map_some, Option.some.injEq,
              FutureKind.gathering.injEq] at hkind
            exact ⟨g₀, kind?_eq_some_iff.2 ⟨f, hf, hk⟩, by rw [← hkind] at hasked; exact hasked⟩
      · exact Or.inr rfl
    · exact Or.inl (ending?_modifyGathering _)
  · exact Or.inl (ending?_modifyGathering _)

/-- To count a child sets no timer and does not move the clock. -/
theorem timers_countChild :
    (s.countChild i c).timers = s.timers ∧ (s.countChild i c).now = s.now := by
  rcases countChild_cases s i c with heq | ⟨ending, heq⟩ <;> rw [heq]
  · exact ⟨rfl, rfl⟩
  · exact ⟨timers_complete ending, now_complete ending⟩

/-- A gathering that ends as a child is counted queues the jobs behind its end. -/
theorem ready_countChild : (s.countChild i c).ready = s.ready ∨
    (s.countChild i c).ready = s.ready ++ s.callbacks i := by
  rcases countChild_cases s i c with heq | ⟨ending, heq⟩ <;> rw [heq]
  · exact Or.inl rfl
  · rw [ready_complete, callbacks_modifyGathering]
    split
    · exact Or.inl rfl
    · exact Or.inr rfl

/-- The clock ends nothing. -/
theorem ending?_advance {s' : Scheduler P A} (h : s.advance? = some s') : s'.ending? j = s.ending? j := by
  obtain ⟨time, -, rfl⟩ := Option.map_eq_some_iff.1 h
  rfl

end Scheduler

/-! ## What ends in a move -/

/-- Why a future of a session ends in a move. -/
inductive Ends (p : Plan) (s : Scheduler Program Action) (id : FutureId) : Ending → Prop
  | slept (hsleep : s.bareKind? id = some .sleep) : Ends p s id (.ok ())
  | child {c x} (hcount : .count id c ∈ s.jobs) (hc : s.ending? c = some (.error x)) :
    Ends p s id (.error x)
  | asked {c} (hcount : .count id c ∈ s.jobs) (hasked : s.isAsked id) : Ends p s id (.error .cancelled)
  | gathered {c} (hcount : .count id c ∈ s.jobs) : Ends p s id (.ok ())
  | leaf {v} (hpr : s.program? id = some (.leave v)) (hleaf : v.graph.targets v.node.id = []) :
    Ends p s id (.ok ())
  | join {job v children} (hjob : job ∈ s.ready) (htask : job.task? = some id)
    (hpr : s.program? id = some (.join v children)) (hcalm : s.interrupt? id job = none) :
    Ends p s id (.ok ())
  | caller {job rest caller} (hready : s.ready = job :: rest) (htask : job.task? = some id)
    (hpr : s.program? id = some (.conclude caller)) : Ends p s id (.ok ())
  | deep {job rest v} (hready : s.ready = job :: rest) (htask : job.task? = some id)
    (hpr : s.program? id = some (.enter v)) (hdepth : p.maxDepth < v.depth) :
    Ends p s id (.error (.fault (.depth v.node.id p.maxDepth)))
  | interruption {job pr v i} (hjob : job ∈ s.ready) (htask : job.task? = some id)
    (hpr : s.program? id = some pr) (hvisit : pr.visit? = some v) (hinterrupt : s.interrupt? id job = some i) :
    Ends p s id (.error i)

section Interrupt

open Scheduler

variable {s : Scheduler Program Action} {id : FutureId} {job : Job Action} {i : Interrupt}

/-- A turn that is not interrupted comes to a task that was not asked to cancel, behind a future that
has not ended in an interruption. -/
theorem Scheduler.uninterrupted_of_interrupt? (h : s.interrupt? id job = none) : s.mustCancel id = false ∧
    ∀ source i, job.source? = some source → s.ending? source ≠ some (.error i) := by
  unfold interrupt? at h
  split at h
  · cases h
  · next hmust =>
    refine ⟨by simpa using hmust, fun source i hsource hend => ?_⟩
    rw [hsource, Option.bind_some, hend] at h
    cases h

/-- A turn that is interrupted comes to a task that was asked to cancel, or behind a future that has
ended in that interruption. -/
theorem Scheduler.interruption_of_interrupt? (h : s.interrupt? id job = some i) :
    s.mustCancel id = true ∧ i = .cancelled ∨
      ∃ source, job.source? = some source ∧ s.ending? source = some (.error i) := by
  unfold interrupt? at h
  split at h
  · next hmust =>
    cases h
    exact Or.inl ⟨hmust, rfl⟩
  · obtain ⟨e, he, hi⟩ := Option.bind_eq_some_iff.1 h
    obtain ⟨source, hsource, hend⟩ := Option.bind_eq_some_iff.1 he
    cases e with
    | ok => cases hi
    | error x =>
      cases hi
      exact Or.inr ⟨source, hsource, hend⟩

end Interrupt

open Scheduler

variable {r : Run} {s s' : Session} {id : FutureId} {e : Ending}

/-- A move ends a future for one of the reasons, or not at all. -/
theorem Move.ending?_cases {p : Plan} (h : Move p s s') {b : FutureId}
    (hs : s.scheduler.Sound b fun _ => False) (id : FutureId) :
    s'.scheduler.ending? id = s.scheduler.ending? id ∨
    s.scheduler.ending? id = none ∧ s'.scheduler.program? id = s.scheduler.program? id ∧
      ∃ e, s'.scheduler.ending? id = some e ∧ Ends p s.scheduler id e := by
  have hend : ∀ {job rest i e}, s.scheduler.ready = job :: rest → job.task? = some i →
      Ends p s.scheduler i e →
      ((s.awaken rest i).scheduler.complete i e).ending? id = s.scheduler.ending? id ∨
      s.scheduler.ending? id = none ∧
        ((s.awaken rest i).scheduler.complete i e).program? id = s.scheduler.program? id ∧
        ∃ e', ((s.awaken rest i).scheduler.complete i e).ending? id = some e' ∧ Ends p s.scheduler id e' := by
    intro job rest i e hready htask hreason
    have hawake : (s.awaken rest i).scheduler.ending? id = s.scheduler.ending? id := ending?_modifyTask _
    have hprogram : ((s.awaken rest i).scheduler.complete i e).program? id = s.scheduler.program? id :=
      program?_congr (((keeps_complete i e).bareKind id).trans ((shrinks_awaken hready htask).bareKind id))
    rcases ending?_complete_cases (s := (s.awaken rest i).scheduler) (i := i) (j := id) e with
      hsame | ⟨rfl, hnone, hnew⟩
    · exact Or.inl (hsame.trans hawake)
    · exact Or.inr ⟨hawake.symm.trans hnone, hprogram, e, hnew, hreason⟩
  have hawake : ∀ {rest i}, (s.awaken rest i).scheduler.ending? id = s.scheduler.ending? id :=
    ending?_modifyTask _
  have hmem : ∀ {job rest}, s.scheduler.ready = job :: rest → job ∈ s.scheduler.ready := by
    intro job rest hready
    rw [hready]
    exact List.mem_cons_self
  have hjobs : ∀ {job rest}, s.scheduler.ready = job :: rest → job ∈ s.scheduler.jobs :=
    fun hready => mem_jobs_of_ready hready
  cases h with
  | advance _ hadvance => exact Or.inl (ending?_advance hadvance)
  | @elapse x rest hready =>
    have hsleep : s.scheduler.bareKind? x = some .sleep :=
      bareKind?_eq_sleep_iff.2 (hs.elapse_sleep (hjobs hready))
    rcases ending?_complete_cases (s := s.scheduler.drop rest) (i := x) (j := id) (.ok ()) with
      hsame | ⟨rfl, hnone, hnew⟩
    · exact Or.inl hsame
    · exact Or.inr ⟨hnone, program?_congr ((keeps_complete _ _).bareKind _), _, hnew,
        .slept hsleep⟩
  | @count g c rest hready =>
    have hcount := hjobs hready
    rcases ending?_countChild (s := s.scheduler.drop rest) (i := g) (c := c) (j := id) with
      hsame | ⟨rfl, hnone, hreason⟩
    · exact Or.inl hsame
    · refine Or.inr ⟨hnone, program?_congr ((keeps_countChild _ _).bareKind _), ?_⟩
      rcases hreason with ⟨x, hc, hnew⟩ | ⟨hasked, hnew⟩ | hnew
      · exact ⟨_, hnew, .child hcount hc⟩
      · exact ⟨_, hnew, .asked hcount hasked⟩
      · exact ⟨_, hnew, .gathered hcount⟩
  | enter hready htask hpr _ _ hgoes | leave hready htask hpr _ _ hgoes =>
    refine Or.inl ((hgoes.ending? ?_ ?_).trans hawake)
    · rw [Session.awaken, mustCancel_awaken, if_pos rfl]
    · exact lt_of_program? ((program?_congr bareKind?_awaken).trans hpr)
  | fork hready htask hpr =>
    refine Or.inl ((ending?_branch ?_ ?_).trans hawake)
    · rw [Session.awaken, mustCancel_awaken, if_pos rfl]
    · exact lt_of_program? ((program?_congr bareKind?_awaken).trans hpr)
  | leaf hready htask hpr _ hleaf =>
    exact hend hready htask (.leaf hpr hleaf)
  | join hready htask hpr hcalm =>
    exact hend hready htask (.join (hmem hready) htask hpr hcalm)
  | deep hready htask hpr _ hdepth =>
    exact hend hready htask (.deep hready htask hpr hdepth)
  | conclude hready htask hpr =>
    exact hend hready htask (.caller hready htask hpr)
  | @halt job rest i v pr x hready htask hpr hvisit hinterrupt =>
    have hv : ∃ v, pr.visit? = some v := by
      rcases hvisit with rfl | rfl | rfl <;> exact ⟨v, rfl⟩
    obtain ⟨v', hv'⟩ := hv
    exact hend hready htask (.interruption (hmem hready) htask hpr hv' hinterrupt)
  | @abandon job rest i v children x hready htask hpr hinterrupt =>
    exact hend hready htask (.interruption (hmem hready) htask hpr rfl hinterrupt)

/-- An ending stays. -/
theorem Move.ending?_stays {p : Plan} (h : Move p s s') {b : FutureId}
    (hs : s.scheduler.Sound b fun _ => False) (he : s.scheduler.ending? id = some e) :
    s'.scheduler.ending? id = some e := by
  rcases h.ending?_cases hs id with hsame | ⟨hnone, -⟩
  · exact hsame.trans he
  · rw [hnone] at he
    cases he

end PipelineGraph.Simulation
