import PipelineGraph.Proofs.Simulation.TakenRequests
import PipelineGraph.Proofs.Simulation.ListenerFailures

/-!
# Cancelling runs

A run is cancelling when its root has taken a request to cancel, all its visits are interrupted and nothing
of it has failed. Nothing of a cancelling run goes on and nothing of it fails any more, so it records nothing
until it ends, and then it is cancelled.
-/

namespace PipelineGraph.Simulation

open Relation

namespace Scheduler

/-- A run has taken a request to cancel, and nothing of it has failed. -/
structure IsCancelling (R : FutureId) (s : Scheduler Program Action) : Prop where
  interrupted : s.IsInterrupted R
  unharmed : ¬ s.HasFailed R
  hasTakenRequest : s.HasTakenRequest R

variable {p : Plan} {s s' awake : Scheduler Program Action} {id t x y g c R : FutureId} {job : Job Action}
  {rest : List (Job Action)} {held : FutureId → Prop} {run : Option FutureId} {callers : List FutureId}
  {slot due : Nat} {e : Ending} {i : Interrupt}

/-- Requests stay on one side of a number as they are passed on, and come to no callers. -/
theorem SplitsAt.links (h : s.SplitsAt R) (hfits : s.Fitting p) (hlink : s.Links x y) (hx : R ≤ x ∧ ¬ s.IsCaller x) :
    R ≤ y ∧ ¬ s.IsCaller y := by
  obtain ⟨-, hwaiter | ⟨children, hg, hy⟩⟩ := hlink
  · have hwake := hfits.waiter hwaiter
    obtain ⟨-, -, pr, -, hexpects⟩ := hfits.jobs hwake
    have hside := (h.wake hwake).resolve_left hx.2
    exact ⟨by lia, not_isCaller_of_expects hexpects⟩
  · have hside := h.gathering hg y hy
    exact ⟨by lia, (hfits.isVisit_of_mem hg hy).not_isCaller⟩

/-- The visits of an interrupted run are interrupted. -/
theorem IsInterrupted.interrupt? (h : s.IsInterrupted R) (hjob : job ∈ s.jobs) (htask : job.task? = some t) (ht : R ≤ t)
    {pr : Program} (hpr : s.program? t = some pr) (hactive : pr.isActive = true) :
    ∃ i, s.interrupt? t job = some i := by
  obtain ⟨v, hv⟩ : ∃ v, pr.visit? = some v := by
    cases pr with
    | enter v | leave v | fanOut v => exact ⟨v, rfl⟩
    | join | call | conclude => cases hactive
  -- For a greatest depth that is that of the visit it is not too deep.
  refine (h.isStopped t ht ⟨.pause, .pause, v.depth, [], false⟩ job hjob htask pr hpr hactive).resolve_left
    fun hdeep => ?_
  cases pr with
  | enter v' =>
    cases hv
    exact Int.lt_irrefl _ hdeep
  | leave | fanOut => exact hdeep
  | join | call | conclude => cases hactive

/-- No request has come to the root of a run at work. -/
theorem IsAtWork.not_hasTakenRequest (h : s.IsAtWork p R slot due) (hfits : s.Fitting p) (hroot : s.IsVisit R) :
    ¬ s.HasTakenRequest R := by
  have hall : ∀ {x}, s.HasTakenRequest x → R ≤ x ∧ ¬ s.IsCaller x → False := by
    intro x htaken hx
    induction htaken with
    | ended hend => exact hx.2 (h.ending hx.1 hend)
    | @marked y _ hmust =>
      obtain ⟨pr, hpr⟩ := exists_program?_of_mustCancel hmust
      have hvisit : s.IsVisit y := by
        cases pr with
        | enter v | leave v | fanOut v => exact isVisit_iff.2 ⟨_, v, hpr, rfl⟩
        | join v children => exact isVisit_iff.2 ⟨_, v, hpr, rfl⟩
        | call | conclude => exact absurd ⟨_, hpr, rfl⟩ hx.2
      cases hmust.symm.trans (h.must hx.1 hvisit)
    | passed hlink _ ih => exact ih (h.splitsAt.links hfits hlink hx)
  exact fun htaken => hall htaken ⟨Nat.le_refl R, hroot.not_isCaller⟩

/-! ## Steps of a cancelling run -/

/-- A run stays cancelling in a scheduler that adds no turn, if nothing of it fails and its root has still taken the
request. -/
theorem IsCancelling.addsNoTurn (h : s.IsCancelling R) (hs : s.AddsNoTurn s') (htaken : s'.HasTakenRequest R)
    (hfault : ∀ x f, R ≤ x → ¬ s.IsCaller x → s'.ending? x = some (.error (.fault f)) →
      s.ending? x = some (.error (.fault f))) : s'.IsCancelling R where
  interrupted := h.interrupted.addsNoTurn hs
  unharmed := by
    rintro ⟨x, f, hx, hcaller, hend⟩
    have hcaller' : ¬ s.IsCaller x := fun hcontra =>
      hcaller ((isCaller_congr (program?_congr (hs.shrinks.bareKind x))).2 hcontra)
    exact h.unharmed ⟨x, f, hx, hcaller', hfault x f hx hcaller' hend⟩
  hasTakenRequest := htaken

/-- The root of a cancelling run has still taken the request when a single future is dealt with, if that one still
has in case it is of the run. -/
theorem IsCancelling.changesOnly (h : s.IsCancelling R) (hg : s.WellFormed p (some R) callers held)
    (hchangesOnly : ChangesOnly id s s')
    (hid : R ≤ id → ¬ s.IsCaller id → s.ending? id = none →
      (s.mustCancel id = true ∨ ∃ y, s.Links id y ∧ s.HasTakenRequest y ∧ s'.HasTakenRequest y) →
        s'.HasTakenRequest id) :
    s'.HasTakenRequest R :=
  h.hasTakenRequest.changesOnly hchangesOnly (D := fun y => R ≤ y ∧ ¬ s.IsCaller y)
    ⟨Nat.le_refl R, (hg.awaited.root R rfl).1.not_isCaller⟩
    (fun _ _ hy hlink => h.interrupted.splitsAt.links hg.fitting hlink hy) fun hD => hid hD.1 hD.2

/-- The clock keeps a run cancelling. -/
theorem IsCancelling.advance (h : s.IsCancelling R) (hadvance : s.advance? = some s') : s'.IsCancelling R :=
  h.addsNoTurn (addsNoTurn_advance hadvance) (h.hasTakenRequest.changesOnly_all
    (changesOnly_advance hadvance s.futures.length))
    fun _ _ _ _ hend => (ending?_advance hadvance).symm.trans hend

/-- A run stays cancelling as a job that is no task's turn is taken from the queue. -/
theorem IsCancelling.drop (h : s.IsCancelling R) (hready : s.ready = job :: rest) (htask : job.task? = none) :
    (s.drop rest).IsCancelling R :=
  h.addsNoTurn (addsNoTurn_drop hready htask) (h.hasTakenRequest.changesOnly_all
    (changesOnly_drop rest s.futures.length))
    fun _ _ _ _ hend => hend

/-- The end of a sleep keeps a run cancelling. -/
theorem IsCancelling.elapse (h : s.IsCancelling R) (hg : s.WellFormed p (some R) callers fun _ => False)
    (hready : s.ready = .elapse x :: rest) : ((s.drop rest).complete x (.ok ())).IsCancelling R := by
  have hsleep : s.bareKind? x = some .sleep :=
    bareKind?_eq_sleep_iff.2 (hg.sound.elapse_sleep (mem_jobs_of_ready hready))
  have hchangesOnly := (changesOnly_drop rest x).trans (changesOnly_complete x (.ok ())) (Nat.le_refl s.futures.length)
  refine h.addsNoTurn ((addsNoTurn_drop hready rfl).trans (addsNoTurn_complete x _))
    (h.changesOnly hg hchangesOnly fun _ _ hlive hcause => ?_) fun y f _ _ hend => ?_
  · cases hlive.symm.trans ((hasTakenRequest_of_cause hlive hcause).ended_of_sleep hsleep)
  · rcases ending?_complete_cases (s := s.drop rest) (i := x) (j := y) (.ok ()) with hsame | ⟨rfl, -, hnew⟩
    · exact hsame.symm.trans hend
    · cases hnew.symm.trans hend

/-- A child that is counted keeps a run cancelling. -/
theorem IsCancelling.countChild (h : s.IsCancelling R) (hg : s.WellFormed p (some R) callers fun _ => False)
    (hready : s.ready = .count g c :: rest) : ((s.drop rest).countChild g c).IsCancelling R := by
  obtain ⟨-, gs, hkind, hc⟩ := hg.sound.count_child (mem_jobs_of_ready hready)
  have hgathering : s.bareKind? g = some (.gathering gs.children) := bareKind?_eq_gathering_iff.2 ⟨gs, hkind, rfl⟩
  have hkeeps := keeps_countChild (s := s.drop rest) g c
  have hsound := hg.sound.countChild hready
  have hcases := fun j => ending?_countChild (s := s.drop rest) (i := g) (c := c) (j := j)
  -- No child of a gathering of the run has failed.
  have hchild : R ≤ g → ∀ f, s.ending? c ≠ some (.error (.fault f)) := fun hle f hend =>
    h.unharmed ⟨c, f, Nat.le_of_not_lt fun hlt => absurd ((h.interrupted.splitsAt.gathering hgathering c hc).2 hlt)
      (Nat.not_lt_of_le hle), (hg.fitting.isVisit_of_mem hgathering hc).not_isCaller, hend⟩
  have hchangesOnly := (changesOnly_drop rest g).trans (changesOnly_countChild g c) (Nat.le_refl s.futures.length)
  refine h.addsNoTurn ((addsNoTurn_drop hready rfl).trans (addsNoTurn_countChild g c))
    (h.changesOnly hg hchangesOnly fun hle _ hlive hcause => ?_) fun x f hx _ hend => ?_
  · obtain ⟨z, ⟨-, hway⟩, -, hz⟩ := hcause.resolve_left fun hmust => by
      obtain ⟨pr, hpr⟩ := exists_program?_of_mustCancel hmust
      cases (bareKind?_eq_task_iff.2 hpr).symm.trans hgathering
    have hzc : z ∈ gs.children := by
      rcases hway with hwaiter | ⟨children, hg', hz'⟩
      · obtain ⟨pr, hpr⟩ := exists_program?_of_waiter? hwaiter
        cases (bareKind?_eq_task_iff.2 hpr).symm.trans hgathering
      · cases hgathering.symm.trans hg'
        exact hz'
    rcases hcases g with hsame | ⟨-, -, ⟨i, hi, hend⟩ | ⟨-, hend⟩ | hend⟩
    · exact .passed ⟨hsame.trans hlive, Or.inr ⟨gs.children, (hkeeps.bareKind g).trans hgathering, hzc⟩⟩ hz
    · cases i with
      | cancelled => exact .ended hend
      | fault f => exact absurd hi (hchild hle f)
    · exact .ended hend
    · -- All children have ended well then, so none of them has taken the request.
      obtain ⟨f, hf, hfend⟩ := ending?_eq_some_iff.1 hend
      obtain ⟨gs', hk, hchildren⟩ := bareKind?_eq_gathering_iff.1 ((hkeeps.bareKind g).trans hgathering)
      obtain ⟨f', hf', hk'⟩ := kind?_eq_some_iff.1 hk
      cases hf.symm.trans hf'
      have hok := hsound.children_ok (Nat.zero_le g) hf hk' hfend z (hchildren ▸ hzc)
      cases hz.eq_cancelled hok
  · rcases hcases x with hsame | ⟨rfl, -, ⟨i, hi, hnew⟩ | ⟨-, hnew⟩ | hnew⟩
    · exact hsame.symm.trans hend
    · cases hnew.symm.trans hend
      exact absurd hi (hchild hx f)
    · cases hnew.symm.trans hend
    · cases hnew.symm.trans hend

/-- Requests to cancel keep a run cancelling. -/
theorem IsCancelling.cancelAll (h : s.IsCancelling R) (xs : List FutureId) : (s.cancelAll xs).IsCancelling R := by
  have hasks := asks_cancelAll (s := s) xs
  refine h.addsNoTurn hasks.addsNoTurn (h.hasTakenRequest.asks hasks) fun x f _ _ hend => ?_
  rcases hasks.ending x with hsame | ⟨-, -, hnew⟩
  · exact hsame.symm.trans hend
  · cases hnew.symm.trans hend

/-- A turn in which a task ends keeps a run cancelling, if no visit of the run fails in it and one that has taken the
request ends by that. -/
theorem IsCancelling.ends (h : s.IsCancelling R) (hg : s.WellFormed p (some R) callers fun _ => False)
    (hready : s.ready = job :: rest)
    (htask : job.task? = some id) {pr : Program} (hpr : s.program? id = some pr) {xs : List FutureId}
    (hawake : awake = ((s.drop rest).awaken id).cancelAll xs)
    (hfault : R ≤ id → ¬ s.IsCaller id → ∀ f, e ≠ .error (.fault f))
    (hcancelled : R ≤ id → ¬ s.IsCaller id → s.HasTakenRequest id → e = .error .cancelled) :
    (awake.complete id e).IsCancelling R := by
  have htakes : s.Takes id ((s.drop rest).awaken id) := ⟨job, rest, hready, htask, rfl⟩
  obtain ⟨hpr', -, hlive, -⟩ := hg.sound.asked_turn hready htask hpr hawake
  have hasks := asks_cancelAll (s := (s.drop rest).awaken id) xs
  rw [← hawake] at hasks
  have hends : (awake.complete id e).ending? id = some e := ending?_complete_of_live (lt_of_program? hpr') hlive e
  have hchangesOnly : ChangesOnly id s awake := htakes.changesOnly.trans (hasks.changesOnly id)
    (Nat.le_of_eq htakes.shrinks.length.symm)
  have hlength : s.futures.length = awake.futures.length := by
    rw [hasks.keeps.length, htakes.shrinks.length]
  refine h.addsNoTurn (((htakes.addsNoTurn hg.sound).trans hasks.addsNoTurn).trans (addsNoTurn_complete id e))
    (h.changesOnly hg (hchangesOnly.trans (changesOnly_complete id e) (Nat.le_of_eq hlength))
      fun hle hcaller hlive hcause => ?_)
    fun x f hx hcaller hend => ?_
  · exact .ended (hends.trans (congrArg some (hcancelled hle hcaller (hasTakenRequest_of_cause hlive hcause))))
  · rcases ending?_complete_cases (s := awake) (i := id) (j := x) e with hsame | ⟨rfl, -, hnew⟩
    · rcases hasks.ending x with hsame' | ⟨-, -, hnew⟩
      · exact ((hsame.trans hsame').trans (htakes.ending? x)).symm.trans hend
      · cases (hsame.trans hnew).symm.trans hend
    · exact absurd (Option.some.inj (hnew.symm.trans hend)) (hfault hx hcaller f)

/-- A caller that asks for another simulation keeps a run cancelling. -/
theorem IsCancelling.spawn (h : s.IsCancelling R) (hg : s.WellFormed p (some R) callers held) (caller : Nat)
    (graph : Except LoadError Snapshot) : (s.spawn (.call caller graph)).2.IsCancelling R where
  interrupted := h.interrupted.spawn hg.fitting caller graph
  unharmed := by
    rintro ⟨x, f, hx, hcaller, hend⟩
    have hold := ending?_spawn.symm.trans hend
    refine h.unharmed ⟨x, f, hx, fun hcontra => hcaller ?_, hold⟩
    exact (isCaller_congr ((goesOnAlone_spawn _).program (Nat.ne_of_lt hcontra.lt) hcontra.lt)).2 hcontra
  hasTakenRequest := h.hasTakenRequest.changesOnly_all (goesOnAlone_spawn _).changesOnly

/-- What interrupts a visit of a cancelling run is no fault. -/
theorem IsCancelling.interrupt? (h : s.IsCancelling R) (hg : s.WellFormed p (some R) callers fun _ => False)
    (hready : s.ready = job :: rest) (htask : job.task? = some id) (hid : R ≤ id) (hcaller : ¬ s.IsCaller id)
    (hinterrupt : s.interrupt? id job = some i) : i = .cancelled := by
  have hjob : job ∈ s.jobs := mem_jobs_of_ready hready
  rcases interruption_of_interrupt? hinterrupt with ⟨-, hi⟩ | ⟨x, hsource, hend⟩
  · exact hi
  · cases i with
    | cancelled => rfl
    | fault f =>
      obtain rfl := Job.eq_wake htask hsource
      obtain ⟨-, -, pr, -, hexpects⟩ := hg.fitting.jobs hjob
      have hside := (h.interrupted.splitsAt.wake hjob).resolve_left hcaller
      exact absurd ⟨x, f, by lia, not_isCaller_of_expects hexpects, hend⟩ h.unharmed

/-- What has ended stays as it is in a scheduler that adds no turn. -/
theorem AddsNoTurn.ended (h : s.AddsNoTurn s') (he : s.ending? x = some e) :
    s'.ending? x = some e ∧ s'.bareKind? x = s.bareKind? x :=
  ⟨h.ending he, h.shrinks.bareKind x⟩

/-- What has ended stays as it is when a task that has not goes on. -/
theorem GoesOnAlone.ended (h : GoesOnAlone id s s') (hlive : s.ending? id = none) (he : s.ending? x = some e) :
    s'.ending? x = some e ∧ s'.bareKind? x = s.bareKind? x := by
  obtain ⟨f, hf, -⟩ := ending?_eq_some_iff.1 he
  refine ⟨h.ending he, h.bareKind (fun heq => ?_) (lt_of_future? hf)⟩
  subst heq
  cases hlive.symm.trans he

/-- What has failed stays so if all stays as it is that has ended. -/
theorem HasFailed.of_ended (h : s.HasFailed R)
    (hended : ∀ {x e}, s.ending? x = some e → s'.ending? x = some e ∧ s'.bareKind? x = s.bareKind? x) :
    s'.HasFailed R := by
  obtain ⟨x, f, hx, hcaller, hend⟩ := h
  obtain ⟨hend', hbare⟩ := hended hend
  exact ⟨x, f, hx, fun hcontra => hcaller ((isCaller_congr (program?_congr hbare)).1 hcontra), hend'⟩

end Scheduler

open Scheduler

variable {p : Plan} {s s' : Session} {R t x : FutureId} {e : Ending} {job : Job Action} {rest : List (Job Action)}
  {id : FutureId}

/-! ## What has ended -/

/-- What has ended stays as it is when something is asked for. -/
theorem Engine.ended_act (a : Action) (he : s.scheduler.ending? x = some e) :
    (act s a).scheduler.ending? x = some e ∧ (act s a).scheduler.bareKind? x = s.scheduler.bareKind? x := by
  by_cases ha : ∀ graph, a ≠ .simulate graph
  · obtain ⟨xs, -, hscheduler⟩ := (Session.tells_act (s := s) ha).asks
    rw [hscheduler]
    exact (asks_cancelAll xs).addsNoTurn.ended he
  · obtain ⟨graph, rfl⟩ := not_forall_not.1 ha
    obtain ⟨f, hf, -⟩ := ending?_eq_some_iff.1 he
    exact ⟨ending?_spawn.trans he, bareKind?_spawn.trans (if_neg (Nat.ne_of_lt (lt_of_future? hf)))⟩

/-- What has ended stays as it is in a turn, whatever is told in that. -/
theorem Session.Tells.ended {status : RunStatus} {entries : List (Nat × Entry)} {s₁ : Session}
    (h : (s.awaken rest id).Tells status entries s₁) (he : s.scheduler.ending? x = some e) :
    s₁.scheduler.ending? x = some e ∧ s₁.scheduler.bareKind? x = s.scheduler.bareKind? x := by
  obtain ⟨xs, -, hscheduler⟩ := h.asks
  have hasks := asks_cancelAll (s := (s.scheduler.drop rest).awaken id) xs
  rw [hscheduler]
  refine ⟨hasks.ending_stays ?_, (hasks.keeps.bareKind x).trans bareKind?_awaken⟩
  exact (ending?_modifyTask _).trans he

/-- A task whose turn it is has not ended, whatever is told in that. -/
theorem Session.Tells.turn {status : RunStatus} {entries : List (Nat × Entry)} {s₁ : Session}
    (h : (s.awaken rest id).Tells status entries s₁) (hs : s.IsWellFormed p) (hready : s.scheduler.ready = job :: rest)
    (htask : job.task? = some id) {pr : Program} (hpr : s.scheduler.program? id = some pr) :
    s₁.scheduler.program? id = some pr ∧ s₁.scheduler.waiter? id = none ∧ s₁.scheduler.ending? id = none := by
  obtain ⟨xs, -, hscheduler⟩ := h.asks
  obtain ⟨hpr', hwaiter, hlive, -⟩ := hs.wellFormed.sound.asked_turn hready htask hpr hscheduler
  exact ⟨hpr', hwaiter, hlive⟩

/-- What has ended stays as it is in a regular step. -/
theorem RegularStep.ended (h : RegularStep p s s') (hs : s.IsWellFormed p) (he : s.scheduler.ending? x = some e) :
    s'.scheduler.ending? x = some e ∧ s'.scheduler.bareKind? x = s.scheduler.bareKind? x := by
  have hthen : ∀ {s₁ s₂ : Scheduler Program Action},
      s₁.ending? x = some e ∧ s₁.bareKind? x = s.scheduler.bareKind? x →
      (s₁.ending? x = some e → s₂.ending? x = some e ∧ s₂.bareKind? x = s₁.bareKind? x) →
      s₂.ending? x = some e ∧ s₂.bareKind? x = s.scheduler.bareKind? x := fun hold hnext =>
    ⟨(hnext hold.1).1, (hnext hold.1).2.trans hold.2⟩
  have hawake : ∀ rest id, ((s.scheduler.drop rest).awaken id).ending? x = some e ∧
      ((s.scheduler.drop rest).awaken id).bareKind? x = s.scheduler.bareKind? x := fun rest id =>
    (Session.tells_refl (s.awaken rest id)).ended he
  cases h with
  | advance _ hadvance => exact (addsNoTurn_advance hadvance).ended he
  | elapse => exact (addsNoTurn_complete _ _).ended (s := s.scheduler.drop _) he
  | count => exact (addsNoTurn_countChild _ _).ended (s := s.scheduler.drop _) he
  | @act a rest => exact Engine.ended_act (s := { s with scheduler := s.scheduler.drop rest }) a he
  | goes hready htask hpr _ _ htells hgoes =>
    obtain ⟨hpr', -, hlive⟩ := htells.turn hs hready htask hpr
    exact hthen (htells.ended he) ((hgoes.goesOnAlone hpr').ended hlive)
  | unusable _ _ _ _ _ _ htells => exact hthen (htells.ended he) (addsNoTurn_complete _ _).ended
  | leaf _ _ _ _ htells => exact hthen (htells.ended he) (addsNoTurn_complete _ _).ended
  | fork hready htask hpr _ htells =>
    obtain ⟨hpr', -, hlive⟩ := htells.turn hs hready htask hpr
    exact hthen (htells.ended he) ((goesOnAlone_branch hpr' _ _).ended hlive)
  | join | deep | halt => exact hthen (hawake _ _) (addsNoTurn_complete _ _).ended
  | abandon =>
    exact hthen (hthen (hawake _ _) (asks_cancelAll _).addsNoTurn.ended) (addsNoTurn_complete _ _).ended
  | reject _ _ _ htells => exact hthen (htells.ended he) (addsNoTurn_complete _ _).ended
  | answer _ _ _ _ _ htells => exact hthen (htells.ended he) (addsNoTurn_complete _ _).ended
  | @launch _ _ id caller snapshot start s₁ hready htask hpr _ _ _ htells =>
    obtain ⟨hpr', -, hlive⟩ := htells.turn hs hready htask hpr
    have hlt := lt_of_program? hpr'
    have hpr'' : (s₁.scheduler.spawn (.enter ⟨snapshot.flow, start, 0⟩)).2.program? id = _ :=
      program?_spawn.trans ((if_neg (Nat.ne_of_lt hlt)).trans hpr')
    refine hthen (hthen (htells.ended he) fun he => ?_)
      ((goesOnAlone_defer hpr'' _ (Nat.lt_of_lt_of_eq (Nat.lt_succ_self _) length_spawn.symm)).ended
        (ending?_spawn.trans hlive))
    exact (goesOnAlone_spawn _).ended (ending?_of_length_le (Nat.le_refl _)) he
  | conclude _ _ _ _ htells => exact hthen (htells.ended he) (addsNoTurn_complete _ _).ended

/-- What has ended stays as it is in a failing step. -/
theorem FailingStep.ended (h : FailingStep p s s') (he : s.scheduler.ending? x = some e) :
    s'.scheduler.ending? x = some e ∧ s'.scheduler.bareKind? x = s.scheduler.bareKind? x := by
  have hcomplete : ∀ {rest id status entries} {s₁ : Session} (e' : Ending),
      (s.awaken rest id).Tells status entries s₁ → (s₁.scheduler.complete id e').ending? x = some e ∧
        (s₁.scheduler.complete id e').bareKind? x = s.scheduler.bareKind? x :=
          fun {rest id status entries s₁} e' htells => by
    obtain ⟨hend, hbare⟩ := htells.ended he
    obtain ⟨hend', hbare'⟩ := (addsNoTurn_complete id e').ended hend
    exact ⟨hend', hbare'.trans hbare⟩
  cases h with
  | visitFails _ _ _ _ _ _ _ htells => exact hcomplete _ htells
  | @childrenTooDeep _ rest id v children =>
    obtain ⟨hend, hbare⟩ := (Session.tells_refl (s.awaken rest id)).ended he
    have hasks := asks_askEach (s := (s.awaken rest id).scheduler) maxRequestDepth children
    obtain ⟨hend', hbare'⟩ := (hasks.addsNoTurn.trans (addsNoTurn_complete id (.error (.fault .tooDeep)))).ended hend
    exact ⟨hend', hbare'.trans hbare⟩
  | openingFails _ _ _ _ _ htells => exact hcomplete _ htells

/-! ## The end of a cancelling run -/

/-- A run under way ends cancelled: that is the last of its events, no node is active, its caller gets its
result and the visits that are left are stopped. -/
structure Session.Cancels (p : Plan) (s s' : Session) : Prop where
  run : s'.run = none
  status : s'.machine.status = .cancelled
  active : s'.machine.active = none
  told : s'.told = s.told ++ if p.listens then [.ended .cancelled] else []
  result : ∃ caller res, s'.results = s.results ++ [(caller, res)] ∧ (¬ p.Fails s.emitted → res = .returned)
  allStopped : s'.scheduler.AllStopped p

section IsCancelling

variable (hs : s.IsRegular p) (hrun : s.run = some R)

include hs hrun

/-- The scheduler of a session with a run under way. -/
theorem Session.IsRegular.wellFormed_run : s.scheduler.WellFormed p (some R) s.callers fun _ => False :=
  hrun ▸ hs.regular.wellFormed

/-- The machine of a session runs with a run under way. -/
theorem Session.IsRegular.running_run : s.machine.status = .running :=
  hs.running.2 (by rw [hrun]; rfl)

/-- The caller of a cancelling run concludes it as cancelled. -/
theorem Session.IsRegular.cancelled_of_conclude (hd : s.scheduler.IsCancelling R)
    (hready : s.scheduler.ready = job :: rest)
    (htask : job.task? = some id) {caller : Nat} (hpr : s.scheduler.program? id = some (.conclude caller)) :
    s.scheduler.interrupt? id job = some .cancelled := by
  obtain ⟨R', hR', rfl, hended⟩ := (hs.wellFormed_run hrun).wake_of_conclude hready htask hpr
  cases hR'
  obtain ⟨e, he⟩ := Option.ne_none_iff_exists'.1 hended
  rw [hd.hasTakenRequest.eq_cancelled he] at he
  unfold Scheduler.interrupt?
  split
  · rfl
  · rw [Job.source?, Option.bind_some, he]
    rfl

/-- No visit of a session with a cancelling run goes on. -/
theorem Session.IsRegular.not_uninterrupted (hd : s.scheduler.IsCancelling R) (hready : s.scheduler.ready = job :: rest)
    (htask : job.task? = some id) {pr : Program} (hpr : s.scheduler.program? id = some pr)
    (hactive : pr.isActive = true)
    (hcalm : s.scheduler.interrupt? id job = none) : pr.IsDeep p ∧ id < R := by
  have hlt : id < R := by
    refine Nat.lt_of_not_le fun hle => ?_
    obtain ⟨i, hi⟩ := hd.interrupted.interrupt? (mem_jobs_of_ready hready) htask hle hpr hactive
    cases hcalm.symm.trans hi
  refine ⟨by_contra fun hnot => ?_, hlt⟩
  obtain ⟨R', -, -, hR', hle, -⟩ := hs.regular.at_work hready htask hpr hactive hcalm hnot
  cases hrun.symm.trans hR'
  exact absurd hlt (Nat.not_lt_of_le hle)

end IsCancelling

/-- What is asked for from outside keeps a run cancelling, and it records nothing. -/
theorem Engine.isCancelling_act (hg : s.scheduler.WellFormed p (some R) s.callers fun _ => False)
    (hd : s.scheduler.IsCancelling R)
    (a : Action) : (act s a).scheduler.IsCancelling R ∧ (act s a).records = s.records ∧
      (s.run.isSome = true → s.cancelRequested = true → (act s a).cancelRequested = true) := by
  by_cases ha : ∀ graph, a ≠ .simulate graph
  · have htells := Session.tells_act (s := s) ha
    obtain ⟨xs, -, hscheduler⟩ := htells.asks
    refine ⟨?_, htells.records.trans (List.append_nil _), htells.requested⟩
    rw [hscheduler]
    exact hd.cancelAll xs
  · obtain ⟨graph, rfl⟩ := not_forall_not.1 ha
    exact ⟨hd.spawn hg _ _, rfl, fun _ hrequested => hrequested⟩

/-- In a regular step a cancelling run stays under way and cancelling, and nothing is recorded, or it ends cancelled. -/
theorem RegularStep.isCancelling (h : RegularStep p s s') (hs : s.IsRegular p) (hrun : s.run = some R)
    (hd : s.scheduler.IsCancelling R)
    (hrequested : s.cancelRequested = true) :
    (s'.run = some R ∧ s'.scheduler.IsCancelling R ∧ s'.cancelRequested = true ∧ s'.records = s.records) ∨
      s.Cancels p s' := by
  have hs' := h.isRegular hs
  have hg := hs.wellFormed_run hrun
  have hrunning := hs.running_run hrun
  have hawake : ∀ rest id, (s.awaken rest id).scheduler = ((s.scheduler.drop rest).awaken id).cancelAll [] :=
    fun _ _ => rfl
  cases h with
  | advance _ hadvance => exact Or.inl ⟨hrun, hd.advance hadvance, hrequested, rfl⟩
  | elapse hready => exact Or.inl ⟨hrun, hd.elapse hg hready, hrequested, rfl⟩
  | count hready => exact Or.inl ⟨hrun, hd.countChild hg hready, hrequested, rfl⟩
  | @act a rest hready =>
    have hdrop := hd.drop hready rfl
    obtain ⟨hcancelling, hrecords, hkept⟩ :=
      Engine.isCancelling_act (s := { s with scheduler := s.scheduler.drop rest }) (hg.drop hready) hdrop a
    exact Or.inl ⟨(Engine.run_act a).trans hrun, hcancelling, hkept (by rw [hrun]; rfl) hrequested, hrecords⟩
  | goes hready htask hpr hcalm hnext =>
    exact absurd (hs.not_uninterrupted hrun hd hready htask hpr hnext.at_work.1 hcalm).1 hnext.at_work.2
  | unusable hready htask hpr hcalm hnext =>
    exact absurd (hs.not_uninterrupted hrun hd hready htask hpr hnext.at_work.1 hcalm).1 hnext.at_work.2
  | leaf hready htask hpr hcalm => exact (hs.not_uninterrupted hrun hd hready htask hpr rfl hcalm).1.elim
  | fork hready htask hpr hcalm => exact (hs.not_uninterrupted hrun hd hready htask hpr rfl hcalm).1.elim
  | join hready htask hpr hcalm =>
    refine Or.inl ⟨hrun, hd.ends hg hready htask hpr (hawake _ _) (fun _ _ f hcontra => by cases hcontra) ?_,
      hrequested, rfl⟩
    intro _ _ htaken
    cases hcalm.symm.trans (htaken.interrupt? hg.fitting hg.sound hready htask)
  | deep hready htask hpr hcalm _ =>
    have hold := Nat.not_le_of_lt (hs.not_uninterrupted hrun hd hready htask hpr rfl hcalm).2
    exact Or.inl ⟨hrun, hd.ends hg hready htask hpr (hawake _ _) (fun hle => absurd hle hold)
      (fun hle => absurd hle hold),
      hrequested, rfl⟩
  | halt hready htask hpr _ hinterrupt =>
    refine Or.inl ⟨hrun, hd.ends hg hready htask hpr (hawake _ _) (fun hle hcaller f hcontra => ?_)
      (fun hle hcaller _ => ?_), hrequested, rfl⟩
    · cases (hd.interrupt? hg hready htask hle hcaller hinterrupt).symm.trans (Except.error.inj hcontra)
    · rw [hd.interrupt? hg hready htask hle hcaller hinterrupt]
  | abandon hready htask hpr hinterrupt =>
    refine Or.inl ⟨hrun, hd.ends hg hready htask hpr rfl (fun hle hcaller f hcontra => ?_)
      (fun hle hcaller _ => ?_), hrequested, rfl⟩
    · cases (hd.interrupt? hg hready htask hle hcaller hinterrupt).symm.trans (Except.error.inj hcontra)
    · rw [hd.interrupt? hg hready htask hle hcaller hinterrupt]
  | reject hready htask hpr htells =>
    obtain ⟨xs, -, hscheduler⟩ := htells.asks
    have hcaller : s.scheduler.IsCaller _ := ⟨_, hpr, rfl⟩
    refine Or.inl ⟨htells.run.trans hrun, hd.ends hg hready htask hpr hscheduler
      (fun _ hcontra => absurd hcaller hcontra)
      (fun _ hcontra => absurd hcaller hcontra), htells.requested (congrArg Option.isSome hrun) hrequested, ?_⟩
    exact (Session.records_note _).trans ((List.append_nil _).trans (htells.records.trans (List.append_nil _)))
  | answer _ _ _ hidle => exact absurd hrunning hidle
  | launch _ _ _ hidle => exact absurd hrunning hidle
  | @conclude _ _ id caller s₁ res verdict hready htask hpr _ htells hverdict hreturned =>
    have hinterrupt := hs.cancelled_of_conclude hrun hd hready htask hpr
    rw [hinterrupt] at hverdict
    subst hverdict
    refine Or.inr ⟨rfl, htells.status, htells.active.trans (Plan.active_closing _ _ _), ?_, ⟨caller, res, ?_, ?_⟩, ?_⟩
    · have hhears := (htells.hears_awaken.note caller res).told
      rw [Plan.events_closing] at hhears
      exact hhears
    · have hresults := Session.results_note (s := s₁) (.result caller res)
      rw [htells.results] at hresults
      exact hresults
    · exact hreturned hinterrupt hrequested
    · exact (hs'.regular.phase.resolve_right fun ⟨R', _, _, hcontra, _⟩ => by cases hcontra).allStopped

end PipelineGraph.Simulation
