import PipelineGraph.Proofs.Simulation.WellFormedSchedulers

/-!
# Well-formed sessions

The scheduler of a session is well-formed after every step, and its machine runs while a run is under way.
A session is stuck if its machine runs and no run is under way.
-/

namespace PipelineGraph.Simulation

open Relation Scheduler

namespace Session

/-- The machine of a session runs while no run is under way. -/
def IsStuck (s : Session) : Prop :=
  s.machine.status = .running ∧ s.run = none

/-- The scheduler of a session is well-formed, and the machine runs while a run is under way. -/
structure IsWellFormed (p : Plan) (s : Session) : Prop where
  wellFormed : s.scheduler.WellFormed p s.run s.callers fun _ => False
  running : s.run.isSome = true → s.machine.status = .running

variable {p : Plan} {s s' : Session} {job : Job Action} {rest : List (Job Action)} {id : FutureId}

/-- A session stays well-formed when it records something without coming to another status. -/
theorem IsWellFormed.tells {entries : List (Nat × Entry)} (hs : s.IsWellFormed p)
    (h : s.Tells s.machine.status entries s') : s'.IsWellFormed p ∧ (s'.IsStuck ↔ s.IsStuck) := by
  obtain ⟨xs, -, hscheduler⟩ := h.asks
  refine ⟨⟨?_, ?_⟩, ?_⟩
  · rw [h.run, h.callers, hscheduler]
    exact hs.wellFormed.cancelAll xs
  · rw [h.status, h.run]
    exact hs.running
  · rw [IsStuck, IsStuck, h.run, h.status]

/-- A session stays well-formed when something is asked of it. -/
theorem IsWellFormed.act (hs : s.IsWellFormed p) (a : Action) :
    (Engine.act s a).IsWellFormed p ∧ ((Engine.act s a).IsStuck ↔ s.IsStuck) := by
  by_cases ha : ∀ graph, a ≠ .simulate graph
  · exact hs.tells (tells_act ha)
  · obtain ⟨graph, rfl⟩ := not_forall_not.1 ha
    exact ⟨⟨hs.wellFormed.spawn _ _, hs.running⟩, Iff.rfl⟩

/-- A session stays well-formed when a task takes its turn, for what is told in that changes nothing else than
its scheduler. -/
theorem IsWellFormed.turn {entries : List (Nat × Entry)} {s₁ : Session} (hs : s.IsWellFormed p)
    (htells : (s.awaken rest id).Tells s.machine.status entries s₁) (hmachine : s'.machine = s₁.machine)
    (hrun : s'.run = s₁.run) (hcallers : s'.callers = s₁.callers)
    (hwellFormed : s'.scheduler.WellFormed p s.run s.callers fun _ => False) : s'.IsWellFormed p ∧
    (s'.IsStuck ↔ s.IsStuck) := by
  have hrun' : s'.run = s.run := hrun.trans htells.run
  have hcallers' : s'.callers = s.callers := hcallers.trans htells.callers
  have hstatus : s'.machine.status = s.machine.status := hmachine ▸ htells.status
  refine ⟨⟨?_, ?_⟩, ?_⟩
  · rw [hrun', hcallers']
    exact hwellFormed
  · rw [hrun', hstatus]
    exact hs.running
  · rw [IsStuck, IsStuck, hrun', hstatus]

/-- A session in whose machine no run is running has none under way. -/
theorem IsWellFormed.run_none (hs : s.IsWellFormed p) (hstatus : s.machine.status ≠ .running) : s.run = none := by
  cases hrun : s.run with
  | none => rfl
  | some R => exact absurd (hs.running (by rw [hrun]; rfl)) hstatus

/-- The machine of a session runs when the turn of a caller comes that concludes its run. -/
theorem IsWellFormed.running_of_conclude (hs : s.IsWellFormed p) (hready : s.scheduler.ready = job :: rest)
    (htask : job.task? = some id) {caller : Nat} (hpr : s.scheduler.program? id = some (.conclude caller)) :
    s.machine.status = .running := by
  obtain ⟨R, hrun, -⟩ := hs.wellFormed.wake_of_conclude hready htask hpr
  exact hs.running (by rw [hrun]; rfl)

/-- Requests to cancel go no further than the run and the callers in the turn of the only caller that awaits
its run, once the run has ended. -/
theorem IsWellFormed.isUnlinked (hs : s.IsWellFormed p) (hrun : ∀ R, s.run = some R → s.scheduler.ending? R ≠ none)
    (hawaits : ∀ t, s.scheduler.AwaitsRun t → t = id) : (s.awaken rest id).IsUnlinked := by
  intro x hx
  have hwaiter : (s.awaken rest id).scheduler.waiter? x = if id = x then none else s.scheduler.waiter? x :=
    waiter?_awaken
  rw [Engine.ending?_awaken, show (s.awaken rest id).scheduler.program? x = s.scheduler.program? x from
    program?_congr bareKind?_awaken, hwaiter]
  refine or_iff_not_imp_left.2 fun hlive => ?_
  obtain ⟨pr, hpr, hcaller⟩ := hs.wellFormed.callers x (hx.resolve_left fun hR => hlive (hrun x hR))
  refine ⟨⟨pr, hpr⟩, ?_⟩
  split
  · rfl
  · next hne =>
    cases pr with
    | call => exact hs.wellFormed.fitting.waiter?_of_call hpr
    | conclude caller => exact absurd (hawaits x ⟨caller, hpr, not_not.1 hlive⟩).symm hne
    | enter | leave | fanOut | join => cases hcaller

/-- Requests go no further in the turn of a caller that concludes its run. -/
theorem IsWellFormed.isUnlinked_of_conclude (hs : s.IsWellFormed p) (hready : s.scheduler.ready = job :: rest)
    (htask : job.task? = some id) {caller : Nat} (hpr : s.scheduler.program? id = some (.conclude caller)) :
    (s.awaken rest id).IsUnlinked := by
  obtain ⟨R, hrun, -, hended⟩ := hs.wellFormed.wake_of_conclude hready htask hpr
  obtain ⟨-, K, -, -, hunique⟩ := hs.wellFormed.awaited.root R hrun
  have hawaits : s.scheduler.AwaitsRun id :=
    ⟨caller, hpr, (hs.wellFormed.sound.live_of_mem (mem_jobs_of_ready hready) htask).2.2.1⟩
  refine hs.isUnlinked (fun R' hR' => ?_) fun t ht => (hunique t ht).trans (hunique id hawaits).symm
  cases hrun.symm.trans hR'
  exact hended

/-- Every step of a well-formed session is a regular or a failing step. -/
theorem IsWellFormed.regularStep_or_failingStep (hs : s.IsWellFormed p) (h : Engine.step? p s = some s') :
    RegularStep p s s' ∨ FailingStep p s s' := by
  refine Engine.regularStep_or_failingStep hs.wellFormed.fitting (fun _ _ _ _ hready htask hpr => ?_)
    (fun _ _ _ _ _ hready htask hpr hidle => ?_) h
  · exact ⟨hs.running_of_conclude hready htask hpr, hs.isUnlinked_of_conclude hready htask hpr⟩
  · have hrun := hs.run_none hidle
    refine ⟨hrun, hs.isUnlinked (fun R hR => ?_) fun t ht => absurd ht (hs.wellFormed.awaited.idle hrun t)⟩
    cases hrun.symm.trans hR

/-- The tasks of a well-formed session are fitting in every turn. -/
theorem IsWellFormed.fitting_awaken (hs : s.IsWellFormed p) (hready : s.scheduler.ready = job :: rest)
    (htask : job.task? = some id) : (s.awaken rest id).scheduler.Fitting p :=
  hs.wellFormed.fitting.takes hs.wellFormed.sound ⟨job, rest, hready, htask, rfl⟩

/-- Every step of a well-formed session is a regular step if its plan is shallow and its listener does not fail. -/
theorem IsWellFormed.regularStep (hs : s.IsWellFormed p) (hp : p.IsShallow)
    (hhooks : ∀ n, p.hooks.lookup n ≠ some .fail)
    (h : Engine.step? p s = some s') : RegularStep p s s' := by
  refine (hs.regularStep_or_failingStep h).resolve_right fun hfailingStep => ?_
  cases hfailingStep with
  | visitFails hready htask _ _ _ _ hfails =>
    rcases hfails with ⟨hfails, -⟩ | ⟨-, x, -, hdeep⟩
    · exact hhooks _ hfails.2
    · exact (hs.fitting_awaken hready htask).cancel_ne_tooDeep hp hdeep
  | childrenTooDeep hready htask _ _ hdeep => exact (hs.fitting_awaken hready htask).cancelEach_ne_tooDeep hp hdeep
  | openingFails _ _ _ _ hfails => exact hfails.elim (fun h => hhooks _ h.2.2) fun h => hhooks _ h.2.2

end Session

open Session

variable {p : Plan} {s s' : Session}

/-- A regular step leaves a session well-formed, and stuck exactly if it was. -/
theorem RegularStep.isWellFormed (h : RegularStep p s s') (hs : s.IsWellFormed p) : s'.IsWellFormed p ∧
    (s'.IsStuck ↔ s.IsStuck) := by
  have hg := hs.wellFormed
  have hkept : ∀ {sch : Scheduler Program Action}, sch.WellFormed p s.run s.callers (fun _ => False) →
      ({ s with scheduler := sch } : Session).IsWellFormed p ∧
        (({ s with scheduler := sch } : Session).IsStuck ↔ s.IsStuck) :=
    fun hwellFormed => ⟨⟨hwellFormed, hs.running⟩, Iff.rfl⟩
  cases h with
  | advance hready hadvance => exact hkept (hg.advance hadvance)
  | elapse hready => exact hkept (hg.elapse hready)
  | count hready => exact hkept (hg.countChild hready)
  | @act a rest hready =>
    exact IsWellFormed.act (s := { s with scheduler := s.scheduler.drop rest }) ⟨hg.drop hready, hs.running⟩ a
  | goes hready htask hpr hcalm hnext htells hgoes =>
    obtain ⟨xs, -, hscheduler⟩ := htells.asks
    exact hs.turn htells rfl rfl rfl (hg.goes hready htask hscheduler hpr hnext hgoes)
  | unusable hready htask hpr hcalm hnext hd htells =>
    obtain ⟨xs, -, hscheduler⟩ := htells.asks
    exact hs.turn htells rfl rfl rfl (hg.ends hready htask hpr (fun caller heq => by subst heq; cases hnext) _
      hscheduler _)
  | leaf hready htask hpr hcalm htells =>
    obtain ⟨xs, -, hscheduler⟩ := htells.asks
    exact hs.turn htells rfl rfl rfl (hg.ends hready htask hpr (fun caller heq => by cases heq) _ hscheduler _)
  | fork hready htask hpr hcalm htells =>
    obtain ⟨xs, -, hscheduler⟩ := htells.asks
    exact hs.turn htells rfl rfl rfl (hg.fork hready htask hscheduler hpr)
  | join hready htask hpr hcalm =>
    exact hkept (hg.ends hready htask hpr (fun caller heq => by cases heq) [] rfl _)
  | deep hready htask hpr _ hdepth =>
    exact hkept (hg.ends hready htask hpr (fun caller heq => by cases heq) [] rfl _)
  | halt hready htask hpr hqueued hinterrupt =>
    exact hkept (hg.ends hready htask hpr (fun caller heq => by subst heq; cases hqueued) [] rfl _)
  | abandon hready htask hpr hinterrupt =>
    exact hkept (hg.ends hready htask hpr (fun caller heq => by cases heq) _ rfl _)
  | reject hready htask hpr htells =>
    obtain ⟨xs, -, hscheduler⟩ := htells.asks
    exact hs.turn htells rfl rfl rfl (hg.ends hready htask hpr (fun caller heq => by cases heq) _ hscheduler _)
  | answer hready htask hpr hidle hmiddle htells =>
    obtain ⟨xs, -, hscheduler⟩ := htells.asks
    have hrun := htells.run.trans (hs.run_none hidle)
    have hstatus := htells.status.trans_ne (Verdict.status_ne_running _)
    refine ⟨⟨?_, fun hcontra => ?_⟩, iff_of_false (fun hcontra => hstatus hcontra.1) fun hcontra => hidle hcontra.1⟩
    · have hcallers := htells.callers
      have hwellFormed := hg.ends hready htask hpr (fun caller heq => by cases heq) _ hscheduler
      exact hrun.symm ▸ hcallers.symm ▸ hs.run_none hidle ▸ hwellFormed _
    · cases (congrArg Option.isSome hrun).symm.trans hcontra
  | @launch _ _ _ _ snapshot start _ hready htask hpr hidle hstart hcycle htells =>
    obtain ⟨xs, -, hscheduler⟩ := htells.asks
    refine ⟨⟨?_, fun _ => htells.status⟩, iff_of_false (fun hcontra => by cases hcontra.2) fun hcontra =>
      hidle hcontra.1⟩
    have hcallers := htells.callers
    exact hcallers.symm ▸ hg.launch hready htask hscheduler (hs.run_none hidle) hpr ⟨snapshot.flow, start, 0⟩
  | @conclude _ _ id _ s₁ _ _ hready htask hpr hrunning htells =>
    obtain ⟨xs, -, hscheduler⟩ := htells.asks
    have hstatus := htells.status.trans_ne (Verdict.status_ne_running _)
    obtain ⟨R, hrun, -⟩ := hg.wake_of_conclude hready htask hpr
    refine ⟨⟨?_, fun hcontra => by cases hcontra⟩, iff_of_false (fun hcontra => hstatus hcontra.1) fun hcontra => ?_⟩
    · have hcallers := htells.callers
      have hwellFormed : (s₁.scheduler.endTask id).WellFormed p none s.callers fun _ => False := by
        rw [Scheduler.endTask, hscheduler]
        exact hg.conclude hready htask hpr xs _
      exact hcallers.symm ▸ hwellFormed
    · cases hrun.symm.trans hcontra.2

/-- A failing step leaves a session well-formed. -/
theorem FailingStep.isWellFormed (h : FailingStep p s s') (hs : s.IsWellFormed p) : s'.IsWellFormed p := by
  have hg := hs.wellFormed
  cases h with
  | visitFails hready htask hpr hactive hnot hcalm hfails htells =>
    obtain ⟨xs, -, hscheduler⟩ := htells.asks
    exact And.left <| hs.turn htells rfl rfl rfl <|
      hg.ends hready htask hpr (fun caller heq => by subst heq; cases hactive) _ hscheduler _
  | @childrenTooDeep _ rest id _ children _ hready htask hpr =>
    obtain ⟨asked, -, hstate, -⟩ := exists_cancelEach (s.awaken rest id).scheduler children
    rw [hstate]
    exact ⟨hg.ends hready htask hpr (fun caller heq => by cases heq) asked rfl _, hs.running⟩
  | openingFails hready htask hpr hidle hfails htells =>
    obtain ⟨xs, -, hscheduler⟩ := htells.asks
    have hrun := htells.run.trans (hs.run_none hidle)
    have hcallers := htells.callers
    have hwellFormed := hg.ends hready htask hpr (fun caller heq => by cases heq) _ hscheduler
    exact ⟨hrun.symm ▸ hcallers.symm ▸ hs.run_none hidle ▸ hwellFormed _, fun _ => htells.status⟩

end PipelineGraph.Simulation
