import PipelineGraph.Proofs.Simulation.CancellingRuns

/-!
# Cancellations that are granted

A run whose cancellation was granted is cancelling unless something of it has failed. So a session in which
no visit of the run has failed honours what it has granted.
-/

namespace PipelineGraph.Simulation

open Relation Scheduler

variable {p : Plan} {s s' : Session} {R t x : FutureId} {e : Ending} {job : Job Action} {rest : List (Job Action)}
  {id : FutureId}

/-! ## When a cancellation is granted -/

/-- Where the cancellation of the run under way was granted, something of that has failed or it is cancelling. -/
def Session.CancelsIfGranted (s : Session) : Prop :=
  ∀ R, s.run = some R → s.cancelRequested = true → s.scheduler.HasFailed R ∨ s.scheduler.IsCancelling R

/-- A run under way whose root has taken a request is cancelling if nothing of it has failed. -/
theorem Session.IsRegular.isCancelling (hs : s.IsRegular p) (hrun : s.run = some R)
    (h : s.scheduler.HasTakenRequest R) :
    s.scheduler.HasFailed R ∨ s.scheduler.IsCancelling R := by
  have hg := hs.wellFormed_run hrun
  rcases hs.regular.phase with hstopped | ⟨R', slot, due, hrun', hl⟩
  · refine or_iff_not_imp_left.2 fun hunharmed => ⟨?_, hunharmed, h⟩
    exact (hstopped.stopped R hrun).resolve_left hunharmed
  · cases hrun.symm.trans hrun'
    exact absurd h (hl.not_hasTakenRequest hg.fitting (hg.awaited.root R rfl).1)

/-- The root of the run has taken a request if one was granted in a turn. -/
theorem Session.Tells.hasTakenRequest {status : RunStatus} {entries : List (Nat × Entry)} {s₁ : Session}
    (h : (s.awaken rest id).Tells status entries s₁) (hs : s.IsRegular p) (hready : s.scheduler.ready = job :: rest)
    (htask : job.task? = some id) (hrun : s.run = some R) (hnot : s.cancelRequested = false)
    (hgranted : s₁.cancelRequested = true) : s₁.scheduler.HasTakenRequest R := by
  rcases h.granted hgranted with hcontra | ⟨R', xs, hrun', hlive, hmem, hscheduler⟩
  · cases hnot.symm.trans hcontra
  · cases hrun.symm.trans hrun'
    obtain ⟨pr, v, hpr, -⟩ := isVisit_iff.1 ((hs.wellFormed_run hrun).awaited.root R rfl).1
    rw [hscheduler]
    exact hasTakenRequest_cancelAll (hs.isWellFormed.fitting_awaken hready htask) hs.regular.shallow hmem
      ((program?_congr bareKind?_awaken).trans hpr) hlive

/-- The root of the run has taken a request if one was granted as something was asked for. -/
theorem Engine.hasTakenRequest_act (hg : s.scheduler.WellFormed p (some R) s.callers fun _ => False)
    (hp : p.IsShallow) (hrun : s.run = some R)
    (hnot : s.cancelRequested = false) (a : Action) (hgranted : (act s a).cancelRequested = true) :
    (act s a).scheduler.HasTakenRequest R := by
  by_cases ha : ∀ graph, a ≠ .simulate graph
  · rcases (Session.tells_act (s := s) ha).granted hgranted with hcontra | ⟨R', xs, hrun', hlive, hmem, hscheduler⟩
    · cases hnot.symm.trans hcontra
    · cases hrun.symm.trans hrun'
      obtain ⟨pr, v, hpr, -⟩ := isVisit_iff.1 (hg.awaited.root R rfl).1
      rw [hscheduler]
      exact hasTakenRequest_cancelAll hg.fitting hp hmem hpr hlive
  · obtain ⟨graph, rfl⟩ := not_forall_not.1 ha
    cases hnot.symm.trans hgranted

/-- When a cancellation is granted in a regular step the root of the run takes the request, unless a visit fails in
the same turn. -/
theorem RegularStep.granted (h : RegularStep p s s') (hs : s.IsRegular p) (hrun : s.run = some R)
    (hnot : s.cancelRequested = false) (hrun' : s'.run = some R) (hgranted : s'.cancelRequested = true) :
    s'.scheduler.HasFailed R ∨ s'.scheduler.HasTakenRequest R := by
  have hwellFormed := hs.isWellFormed
  have hrunning := hs.running_run hrun
  cases h with
  | advance | elapse | count | join | deep | halt | abandon => cases hnot.symm.trans hgranted
  | @act a rest hready =>
    exact Or.inr (Engine.hasTakenRequest_act (s := { s with scheduler := s.scheduler.drop rest })
      ((hs.wellFormed_run hrun).drop hready) hs.regular.shallow hrun hnot a hgranted)
  | goes hready htask hpr _ _ htells hgoes =>
    obtain ⟨hpr', hwaiter, -⟩ := htells.turn hwellFormed hready htask hpr
    exact Or.inr ((htells.hasTakenRequest hs hready htask hrun hnot hgranted).goes hpr' hwaiter hgoes)
  | unusable hready htask hpr hcalm hnext _ htells =>
    obtain ⟨hpr', -, hlive⟩ := htells.turn hwellFormed hready htask hpr
    obtain ⟨R', -, -, hR', hle, -⟩ := hs.regular.at_work hready htask hpr hnext.at_work.1 hcalm hnext.at_work.2
    cases hrun.symm.trans hR'
    exact Or.inl (hasFailed_complete hle (isVisit_of_isActive hpr' hnext.at_work.1) hlive)
  | leaf hready htask hpr _ htells =>
    obtain ⟨hpr', hwaiter, hlive⟩ := htells.turn hwellFormed hready htask hpr
    exact Or.inr ((htells.hasTakenRequest hs hready htask hrun hnot hgranted).endTask hpr' hwaiter hlive)
  | @fork _ _ _ v _ hready htask hpr _ htells =>
    obtain ⟨hpr', hwaiter, -⟩ := htells.turn hwellFormed hready htask hpr
    obtain ⟨xs, -, hscheduler⟩ := htells.asks
    have hne : Engine.followers v ≠ [] := by
      have htargets := (hwellFormed.wellFormed.fitting.proper hpr).2.1
      intro hcontra
      refine htargets ?_
      rw [← Engine.map_id_followers, hcontra, List.map_nil]
    exact Or.inr ((htells.hasTakenRequest hs hready htask hrun hnot hgranted).branch hwaiter hs.regular.shallow hpr' hne
      (hwellFormed.wellFormed.fork hready htask hscheduler hpr).fitting)
  | reject hready htask hpr htells =>
    obtain ⟨hpr', hwaiter, hlive⟩ := htells.turn hwellFormed hready htask hpr
    exact Or.inr ((htells.hasTakenRequest hs hready htask hrun hnot hgranted).endTask hpr' hwaiter hlive)
  | answer _ _ _ hidle => exact absurd hrunning hidle
  | launch _ _ _ hidle => exact absurd hrunning hidle
  | conclude => cases hrun'

/-- A regular step leaves a session whose granted cancellations are honoured. -/
theorem RegularStep.cancelsIfGranted (h : RegularStep p s s') (hs : s.IsRegular p)
    (hcancelsIfGranted : s.CancelsIfGranted) : s'.CancelsIfGranted := by
  intro R hrun' hgranted
  have hs' := h.isRegular hs
  by_cases hrun : s.run = some R
  · cases hrequested : s.cancelRequested with
    | true =>
      refine (hcancelsIfGranted R hrun hrequested).imp
        (fun hfailed => hfailed.of_ended (h.ended hs.isWellFormed)) fun hd => ?_
      rcases h.isCancelling hs hrun hd hrequested with ⟨-, hcancelling, -⟩ | hcancels
      · exact hcancelling
      · cases hcancels.run.symm.trans hrun'
    | false => exact (h.granted hs hrun hrequested hrun' hgranted).elim Or.inl (hs'.isCancelling hrun')
  · -- No request is granted in a regular step in which a run begins.
    have hkept : s'.run = s.run → False := fun hsame => hrun (hsame.symm.trans hrun')
    cases h with
    | advance | elapse | count | join | deep | halt | abandon => exact (hkept rfl).elim
    | @act a rest => exact (hkept (Engine.run_act a)).elim
    | goes _ _ _ _ _ htells => exact (hkept htells.run).elim
    | unusable _ _ _ _ _ _ htells => exact (hkept htells.run).elim
    | leaf _ _ _ _ htells => exact (hkept htells.run).elim
    | fork _ _ _ _ htells => exact (hkept htells.run).elim
    | reject _ _ _ htells => exact (hkept htells.run).elim
    | answer _ _ _ _ _ htells => exact (hkept htells.run).elim
    | launch _ _ _ _ _ _ _ _ hfresh => cases hfresh.symm.trans hgranted
    | conclude => cases hrun'

/-- What is asked for leaves a session whose granted cancellations are honoured. -/
theorem Session.CancelsIfGranted.act (h : s.CancelsIfGranted) (hs : s.IsRegular p) (a : Action) :
    (Engine.act s a).CancelsIfGranted := by
  intro R hrun' hgranted
  have hrun : s.run = some R := (Engine.run_act a).symm.trans hrun'
  have hg := hs.wellFormed_run hrun
  cases hrequested : s.cancelRequested with
  | true =>
    exact (h R hrun hrequested).imp (fun hfailed => hfailed.of_ended (Engine.ended_act a)) fun hd =>
      (Engine.isCancelling_act hg hd a).1
  | false =>
    exact (hs.act a).isCancelling hrun' (Engine.hasTakenRequest_act hg hs.regular.shallow hrun
      hrequested a hgranted)

/-! ## Whole sessions -/

/-- The listener has failed in the turn of a visit. -/
def Session.HasFailedInVisit (s : Session) : Prop :=
  ∃ t, s.scheduler.IsVisit t ∧ s.scheduler.ending? t = some (.error (.fault .listener))

/-- The listener has still failed in the turn of a visit if all stays as it is that has ended. -/
theorem Session.HasFailedInVisit.of_ended (h : s.HasFailedInVisit)
    (hended : ∀ {x e}, s.scheduler.ending? x = some e →
      s'.scheduler.ending? x = some e ∧ s'.scheduler.bareKind? x = s.scheduler.bareKind? x) : s'.HasFailedInVisit := by
  obtain ⟨t, hvisit, hend⟩ := h
  obtain ⟨hend', hbare⟩ := hended hend
  exact ⟨t, (isVisit_congr (program?_congr hbare)).2 hvisit, hend'⟩

/-- After a failing step a session with a shallow plan is stuck, or the listener has failed in the turn of a
visit. -/
theorem FailingStep.hasFailedInVisit (h : FailingStep p s s') (hs : s.IsWellFormed p) (hp : p.IsShallow) :
    s'.HasFailedInVisit ∨ s'.IsStuck := by
  cases h with
  | visitFails hready htask hpr hactive _ _ hfails htells =>
    obtain ⟨hpr', -, hlive⟩ := htells.turn hs hready htask hpr
    rcases hfails with ⟨-, rfl⟩ | ⟨-, x, -, hdeep⟩
    · refine Or.inl ⟨_, ?_, ending?_complete_of_live (lt_of_program? hpr') hlive _⟩
      exact isVisit_of_isActive (((keeps_complete _ _).program _).trans hpr') hactive
    · exact absurd hdeep ((hs.fitting_awaken hready htask).cancel_ne_tooDeep hp)
  | childrenTooDeep hready htask _ _ hdeep =>
    exact absurd hdeep
      ((hs.fitting_awaken hready htask).cancelEach_ne_tooDeep hp)
  | openingFails _ _ _ hidle _ htells => exact Or.inr ⟨htells.status, htells.run.trans (hs.run_none hidle)⟩

/-- A session that is stuck stays so in a failing step. -/
theorem FailingStep.stuck (h : FailingStep p s s') (hstuck : s.IsStuck) : s'.IsStuck := by
  cases h with
  | visitFails _ _ _ _ _ _ _ htells => exact ⟨htells.status.trans hstuck.1, htells.run.trans hstuck.2⟩
  | childrenTooDeep => exact hstuck
  | openingFails _ _ _ hidle => exact absurd hstuck.1 hidle

/-- As long as the listener fails in no turn of a visit a session is regular and its granted
cancellations are honoured, if it is not stuck. -/
theorem cancelsIfGranted_of_sessionSteps (h : ReflTransGen (SessionStep p) s s') (hs : s.IsRegular p)
    (hcancelsIfGranted : s.CancelsIfGranted) :
    s'.HasFailedInVisit ∨ s'.IsStuck ∨ s'.IsRegular p ∧ s'.CancelsIfGranted := by
  induction h with
  | refl => exact Or.inr (Or.inr ⟨hs, hcancelsIfGranted⟩)
  | @tail s₁ s₂ hbefore hsessionStep ih =>
    have hwellFormed := isWellFormed_of_sessionSteps hbefore hs.isWellFormed
    cases hsessionStep with
    | step h =>
      rcases hwellFormed.regularStep_or_failingStep h with hregularStep | hfailingStep
      · refine ih.imp (fun hfailedInVisit => hfailedInVisit.of_ended (hregularStep.ended hwellFormed)) fun hrest => ?_
        refine hrest.imp (hregularStep.isWellFormed hwellFormed).2.2 fun ⟨hregular, hcancelsIfGranted⟩ => ?_
        exact ⟨hregularStep.isRegular hregular, hregularStep.cancelsIfGranted hregular hcancelsIfGranted⟩
      · rcases ih with hfailedInVisit | hstuck | -
        · exact Or.inl (hfailedInVisit.of_ended hfailingStep.ended)
        · exact Or.inr (Or.inl (hfailingStep.stuck hstuck))
        · exact (hfailingStep.hasFailedInVisit hwellFormed hs.regular.shallow).imp_right Or.inl
    | act a =>
      refine ih.imp (fun hfailedInVisit => hfailedInVisit.of_ended (Engine.ended_act a)) fun hrest => ?_
      exact hrest.imp (hwellFormed.act a).2.2 fun ⟨hregular, hcancelsIfGranted⟩ =>
        ⟨hregular.act a, hcancelsIfGranted.act hregular a⟩

/-- A run that is over does not come back. -/
theorem SessionStep.run_ne (h : SessionStep p s s') (hs : s.IsWellFormed p) (hvisit : s.scheduler.IsVisit R)
    (hrun : s.run ≠ some R) : s'.scheduler.IsVisit R ∧ s'.run ≠ some R := by
  cases h with
  | step h =>
    rcases hs.regularStep_or_failingStep h with hregularStep | hfailingStep
    · refine ⟨hregularStep.isVisit hvisit, fun hrun' => ?_⟩
      rcases hregularStep.run_cases with hsame | hnone | hnew
      · exact hrun (hsame.symm.trans hrun')
      · cases hnone.symm.trans hrun'
      · exact absurd hvisit.lt (Nat.not_lt_of_le (Nat.le_of_eq (Option.some.inj (hnew.symm.trans hrun'))))
    · refine ⟨by rw [IsVisit, hfailingStep.visit?_eq]; exact hvisit, fun hrun' => hrun (Eq.trans ?_ hrun')⟩
      cases hfailingStep with
      | visitFails _ _ _ _ _ _ _ htells => exact htells.run.symm
      | childrenTooDeep => rfl
      | openingFails _ _ _ _ _ htells => exact htells.run.symm
  | act a =>
    exact ⟨by rw [IsVisit, Engine.visit?_act]; exact hvisit, fun hrun' =>
      hrun ((Engine.run_act a).symm.trans hrun')⟩

/-- A session with a cancelling run takes no failing step. -/
theorem Session.IsRegular.regularStep_of_isCancelling (hs : s.IsRegular p) (hrun : s.run = some R)
    (hd : s.scheduler.IsCancelling R)
    (h : Engine.step? p s = some s') : RegularStep p s s' := by
  refine (hs.isWellFormed.regularStep_or_failingStep h).resolve_right fun hfailingStep => ?_
  cases hfailingStep with
  | visitFails hready htask hpr hactive hnot hcalm =>
      exact hnot (hs.not_uninterrupted hrun hd hready htask hpr hactive hcalm).1
  | childrenTooDeep hready htask _ _ hdeep =>
    exact (hs.isWellFormed.fitting_awaken hready htask).cancelEach_ne_tooDeep hs.regular.shallow hdeep
  | openingFails _ _ _ hidle => exact hidle (hs.running_run hrun)

/-- As long as a cancelling run is under way it stays cancelling and nothing is recorded, whatever comes next. -/
theorem isCancelling_of_sessionSteps (h : ReflTransGen (SessionStep p) s s') (hs : s.IsRegular p)
    (hrun : s.run = some R)
    (hd : s.scheduler.IsCancelling R) (hrequested : s.cancelRequested = true) : s'.scheduler.IsVisit R ∧
    (s'.run = some R → s'.IsRegular p ∧ s'.scheduler.IsCancelling R ∧ s'.cancelRequested = true ∧
      s'.records = s.records) := by
  induction h with
  | refl => exact ⟨(hs.wellFormed_run hrun).awaited.root R rfl |>.1, fun _ => ⟨hs, hd, hrequested, rfl⟩⟩
  | @tail s₁ s₂ hbefore hsessionStep ih =>
    obtain ⟨hvisit, hcancelling⟩ := ih
    have hwellFormed := isWellFormed_of_sessionSteps hbefore hs.isWellFormed
    by_cases hrun₁ : s₁.run = some R
    · obtain ⟨hs₁, hd₁, hrequested₁, hrecords⟩ := hcancelling hrun₁
      cases hsessionStep with
      | step h =>
        have hregularStep := hs₁.regularStep_of_isCancelling hrun₁ hd₁ h
        refine ⟨hregularStep.isVisit hvisit, fun hrun₂ => ⟨hregularStep.isRegular hs₁, ?_⟩⟩
        rcases hregularStep.isCancelling hs₁ hrun₁ hd₁ hrequested₁ with ⟨-, hd₂, hrequested₂, hsame⟩ | hcancels
        · exact ⟨hd₂, hrequested₂, hsame.trans hrecords⟩
        · cases hcancels.run.symm.trans hrun₂
      | act a =>
        obtain ⟨hd₂, hsame, hkept⟩ := Engine.isCancelling_act (hs₁.wellFormed_run hrun₁) hd₁ a
        refine ⟨by rw [IsVisit, Engine.visit?_act]; exact hvisit, fun _ => ⟨hs₁.act a, hd₂, ?_, hsame.trans hrecords⟩⟩
        exact hkept (by rw [hrun₁]; rfl) hrequested₁
    · obtain ⟨hvisit₂, hover⟩ := hsessionStep.run_ne hwellFormed hvisit hrun₁
      exact ⟨hvisit₂, fun hrun₂ => absurd hrun₂ hover⟩

/-- Where the cancellation of the run under way was granted in a shallow plan it is honoured, unless something
of the run has failed, or the listener has in the turn of some visit. Whatever is asked of the session, nothing
is recorded as long as the run is under way, and the step with which it ends cancels it: that is its last event,
no node is active, and its caller is given a return, except if the listener fails at that last event. A session
that is left to itself comes to that step. -/
theorem sessions_honour_cancellation (hp : p.IsShallow) (table : Timetable)
    (hs : ReflTransGen (SessionStep p) table.begin s)
    (hrun : s.run = some R) (hrequested : s.cancelRequested = true) : s.HasFailedInVisit ∨ s.scheduler.HasFailed R ∨
    (∀ {s'}, ReflTransGen (SessionStep p) s s' → s'.run = some R → s'.records = s.records ∧
      ∀ {s''}, Engine.step? p s' = some s'' → s''.run = some R ∨ s'.Cancels p s'') ∧
    ∃ n, (Engine.run p n s).run ≠ some R := by
  have hbegin : table.begin.IsRegular p := Session.isRegular_begin table hp
  have hwellFormed := isWellFormed_of_sessionSteps hs hbegin.isWellFormed
  rcases cancelsIfGranted_of_sessionSteps hs hbegin (fun R hcontra => by cases hcontra) with hfailedInVisit |
    hstuck | ⟨hregular, hcancelsIfGranted⟩
  · exact Or.inl hfailedInVisit
  · cases hstuck.2.symm.trans hrun
  · refine Or.inr ((hcancelsIfGranted R hrun hrequested).imp_right fun hd => ⟨fun hlater hrun' => ?_, ?_⟩)
    · obtain ⟨hs', hd', hrequested', hrecords⟩ := (isCancelling_of_sessionSteps hlater hregular hrun hd
        hrequested).2 hrun'
      refine ⟨hrecords, fun hstep => ?_⟩
      exact ((hs'.regularStep_of_isCancelling hrun' hd' hstep).isCancelling hs' hrun' hd' hrequested').imp_left And.left
    · obtain ⟨-, hover⟩ := hwellFormed.rests (isFinite_of_sessionSteps hs hbegin.isWellFormed
        (isFinite_begin table)) (Nat.le_refl _)
      exact ⟨s.scheduler.stepBound, fun hcontra => by cases hover.symm.trans hcontra⟩

example : (Engine.run ⟨.pause, .timer 5, 4, [(4, .cancel)], true⟩ 40
    (Timetable.begin [(0, .simulate (.ok .demo))])).machine.status = .cancelled := by
  decide +kernel

end PipelineGraph.Simulation
