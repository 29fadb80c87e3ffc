import PipelineGraph.Proofs.Simulation.SessionSteps

/-!
# What a session has ahead

What a session has ahead is bounded by its jobs and timers, the walks below its visits, and the walks of
the simulations that it is asked for. Every step leaves less of that, so a session comes to rest unless
it is asked for more and more; and a session at rest has no run under way.
-/

namespace PipelineGraph.Simulation

open Relation Scheduler Finset

namespace Visit

/-- The number of the visits below a visit. -/
def below (v : Visit) : Nat :=
  ((v.graph.targets v.node.id).map (v.graph.walkSum (fun _ => 1) (v.graph.nodes.length - v.depth - 1))).sum

/-- A visit is one of a run that has an end. -/
def IsFinite (p : Plan) (v : Visit) : Prop :=
  ∃ r : Run, r.plan = p ∧ r.IsFinite ∧ v.Fits r

variable {p : Plan} {v v' : Visit} {r : Run}

/-- What is ahead of a visit, counted once each, is what is below it. -/
theorem Fits.ahead_eq (h : v.Fits r) : v.ahead r (fun _ => 1) = v.below := by
  rw [ahead, below, h.graph]

/-- What follows a visit is of the same run. -/
theorem IsFinite.follower (h : v.IsFinite p) (hdepth : ¬ p.maxDepth < v.depth) (hv' : v' ∈ Engine.followers v) :
    v'.IsFinite p := by
  obtain ⟨r, rfl, hr, hfits⟩ := h
  exact ⟨r, rfl, hr, Engine.fits_of_mem_followers hfits hdepth hv'⟩

/-- The visits below a visit are those that follow it and those below them. -/
theorem IsFinite.sum_followers (h : v.IsFinite p) (hdepth : ¬ p.maxDepth < v.depth) :
    ((Engine.followers v).map fun v' => 1 + v'.below).sum = v.below := by
  obtain ⟨r, rfl, hr, hfits⟩ := h
  rw [← hfits.ahead_eq, ← hfits.sum_followers hr hdepth]
  refine congrArg List.sum (List.map_congr_left fun v' hv' => ?_)
  rw [(Engine.fits_of_mem_followers hfits hdepth hv').ahead_eq]

/-- The root of a run of a graph without a cycle in reach is one of a run that has an end, with no more
visits than the bound tells. -/
theorem isFinite_root {snapshot : Snapshot} {start : Node} (hstart : snapshot.flow.start? = some start)
    (hcycle : snapshot.flow.findCycle? (some start.id) = none) :
    IsFinite p ⟨snapshot.flow, start, 0⟩ ∧
      below ⟨snapshot.flow, start, 0⟩ + 1 ≤ (Action.simulate (.ok snapshot)).visitBound := by
  have hnode := FlowGraph.mem_of_start? hstart
  have hid : start.id ∈ snapshot.flow.ids := List.mem_map_of_mem hnode
  have hr : Run.IsFinite ⟨p, snapshot.flow, start, 0, 0⟩ := ⟨hid, (FlowGraph.findCycle?_eq_none_iff hid).1 hcycle⟩
  have hfits : Fits ⟨p, snapshot.flow, start, 0, 0⟩ ⟨snapshot.flow, start, 0⟩ :=
    ⟨rfl, FlowGraph.node?_of_mem hnode, ⟨[], rfl, rfl⟩, Or.inl rfl⟩
  refine ⟨⟨_, rfl, hr, hfits⟩, ?_⟩
  have hsum := hfits.walkSum_eq (f := fun _ => 1) hr
  rw [hfits.ahead_eq] at hsum
  rw [Nat.add_comm, ← hsum]
  exact Engine.walkSum_le_visitBound snapshot start.id

end Visit

/-- A bound on what a program has ahead. -/
def Program.stepBound : Program → Nat
  | enter v => 9 * v.below + 7
  | leave v => 9 * v.below + 4
  | fanOut v => 9 * v.below + 1
  | call _ graph => 9 * (Action.simulate graph).visitBound
  | _ => 0

/-- A bound on what comes of a job by itself. -/
def Job.stepBound : Job Action → Nat
  | act a => 9 * a.visitBound + 2
  | _ => 1

/-- A job takes one step at least. -/
theorem Job.stepBound_pos (job : Job Action) : 0 < job.stepBound := by
  cases job <;> exact Nat.succ_pos _

namespace Scheduler

variable {s s' : Scheduler Program Action} {id : FutureId} {pr next : Program}

/-- A bound on what the tasks of a scheduler have ahead. -/
def taskStepBound (s : Scheduler Program Action) : Nat :=
  ∑ j ∈ range s.futures.length, (s.program? j).elim 0 Program.stepBound

/-- A bound on what a scheduler has ahead. -/
def stepBound (s : Scheduler Program Action) : Nat :=
  (s.jobs.map Job.stepBound).sum + s.timers.length + s.taskStepBound

/-- Tasks with the same programs have as much ahead. -/
theorem taskStepBound_congr (hlength : s'.futures.length = s.futures.length)
    (hprogram : ∀ j, s'.program? j = s.program? j) : s'.taskStepBound = s.taskStepBound := by
  simp only [taskStepBound, hlength, hprogram]

/-- When a task goes on and others come, what tasks have ahead changes by what these have. -/
theorem GoesOnAlone.taskStepBound (h : GoesOnAlone id s s') (hpr : s.program? id = some pr)
    (hnext : s'.program? id = some next)
    {k : Nat} (hlength : s'.futures.length = s.futures.length + k) : s'.taskStepBound + pr.stepBound =
      s.taskStepBound + next.stepBound + ∑ j ∈ range k,
        (s'.program? (s.futures.length + j)).elim 0 Program.stepBound := by
  have hsum := sum_add_of_eq_off (f := fun j => (s.program? j).elim 0 Program.stepBound)
    (g := fun j => (s'.program? j).elim 0 Program.stepBound) (mem_range.2 (lt_of_program? hpr)) fun j hj hne => by
      rw [h.program hne (mem_range.1 hj)]
  rw [hpr, hnext] at hsum
  simp only [Option.elim_some] at hsum
  rw [Scheduler.taskStepBound, Scheduler.taskStepBound, hlength, sum_range_add]
  lia

/-- What is kept has as much ahead. -/
theorem Keeps.stepBound (h : s.Keeps s') (htimers : s'.timers = s.timers) : s'.stepBound = s.stepBound := by
  rw [Scheduler.stepBound, Scheduler.stepBound, (h.jobs.map _).sum_eq, htimers, taskStepBound_congr h.length h.program]

/-- A job that is taken from the queue leaves less ahead. -/
theorem stepBound_drop {job : Job Action} {rest : List (Job Action)} (hready : s.ready = job :: rest) :
    (s.drop rest).stepBound + job.stepBound = s.stepBound := by
  have htasks : (s.drop rest).taskStepBound = s.taskStepBound := taskStepBound_congr rfl fun _ => rfl
  rw [stepBound, stepBound, jobs_drop hready, List.map_cons, List.sum_cons, htasks]
  change _ + s.timers.length + _ + _ = _
  lia

/-- A task that takes its turn has as much ahead. -/
theorem stepBound_awaken : (s.awaken id).stepBound = s.stepBound := by
  have htasks : (s.awaken id).taskStepBound = s.taskStepBound :=
    taskStepBound_congr (length_modifyFuture _) fun _ => program?_congr bareKind?_awaken
  rw [stepBound, stepBound, (jobs_awaken.map _).sum_eq, htasks]
  rfl

/-- The clock leaves less ahead. -/
theorem stepBound_advance (h : s.advance? = some s') : s'.stepBound < s.stepBound := by
  have hkeeps := keeps_advance h
  have htimers : s'.timers.length < s.timers.length := by
    obtain ⟨time, htime, rfl⟩ := Option.map_eq_some_iff.1 h
    obtain ⟨t, ht, rfl⟩ := List.mem_map.1 (List.min?_mem htime)
    exact List.length_filter_lt_length_iff_exists.2 ⟨t, ht, by simp⟩
  rw [stepBound, stepBound, (hkeeps.jobs.map _).sum_eq, taskStepBound_congr hkeeps.length hkeeps.program]
  lia

/-- A new task has its first turn and its program ahead. -/
theorem stepBound_spawn (pr : Program) : (s.spawn pr).2.stepBound = s.stepBound + pr.stepBound + 1 := by
  have hold : ∀ j ∈ range s.futures.length, ((s.spawn pr).2.program? j).elim 0 Program.stepBound =
      (s.program? j).elim 0 Program.stepBound := fun j hj => by
    rw [program?_spawn, if_neg (Nat.ne_of_lt (mem_range.1 hj))]
  have htasks : (s.spawn pr).2.taskStepBound = s.taskStepBound + pr.stepBound := by
    rw [taskStepBound, length_spawn, sum_range_succ, sum_congr rfl hold, program?_spawn, if_pos rfl]
    rfl
  have hjobs : ((s.spawn pr).2.jobs.map Job.stepBound).sum = 1 + (s.jobs.map Job.stepBound).sum := by
    rw [(jobs_spawn.map _).sum_eq]
    rfl
  rw [stepBound, stepBound, hjobs, htasks]
  change _ + s.timers.length + _ = _
  lia

/-- A task that waits for a future has one more job and its new program ahead. -/
theorem stepBound_defer {x : FutureId} (hpr : s.program? id = some pr) (hx : x < s.futures.length) :
    (s.defer id next x).stepBound + pr.stepBound = s.stepBound + next.stepBound + 1 := by
  have hnext : (s.defer id next x).program? id = some next := by
    rw [program?_eq_bind, bareKind?_defer hpr, if_pos rfl]
    rfl
  have htasks := (goesOnAlone_defer hpr next hx).taskStepBound (k := 0) hpr hnext length_defer
  have hjobs : ((s.defer id next x).jobs.map Job.stepBound).sum = 1 + (s.jobs.map Job.stepBound).sum := by
    rw [((jobs_defer hx).map _).sum_eq]
    rfl
  rw [range_zero, sum_empty] at htasks
  rw [stepBound, stepBound, hjobs, timers_defer.1]
  lia

/-- A visit that goes on behind a delay has less ahead. -/
theorem Goes.stepBound {p : Plan} {d d' : Delay} (hgoes : s.Goes id next d s') (hpr : s.program? id = some pr)
    (hcontinues : pr.Continues p next d') : s'.stepBound ≤ s.stepBound := by
  have hless : next.stepBound + 3 ≤ pr.stepBound := by
    cases hcontinues <;> exact Nat.le_refl _
  have halone := hgoes.goesOnAlone hpr
  have hnext := (hgoes.program? hpr id).trans (if_pos rfl)
  cases hgoes with
  | pause =>
    have htasks := halone.taskStepBound (k := 0) hpr hnext (length_modifyFuture _)
    rw [range_zero, sum_empty] at htasks
    rw [stepBound, stepBound, ((jobs_pause next).map _).sum_eq, List.map_cons, List.sum_cons]
    change 1 + _ + s.timers.length + _ ≤ _
    lia
  | sleep microseconds =>
    have hlt := lt_of_program? hpr
    have htasks := halone.taskStepBound (k := 1) hpr hnext length_doze
    have hsleep : (s.doze id next microseconds).program? s.futures.length = none := by
      rw [program?_doze hpr, if_neg (Nat.ne_of_gt hlt), program?_of_length_le (Nat.le_refl _)]
    rw [range_one, sum_singleton, Nat.add_zero, hsleep, Option.elim_none] at htasks
    rw [stepBound, stepBound, (jobs_doze.map _).sum_eq, timers_doze]
    simp only [List.map_cons, List.sum_cons, List.length_append, List.length_cons, List.length_nil, Job.stepBound]
    lia

/-- A visit that branches has less ahead. -/
theorem stepBound_branch {p : Plan} {v : Visit} (hpr : s.program? id = some (.fanOut v)) (hv : v.IsFinite p)
    (hdepth : ¬ p.maxDepth < v.depth) :
    (s.branch id ((Engine.followers v).map .enter) (.join v)).stepBound ≤ s.stepBound := by
  have hlt := lt_of_program? hpr
  have hsum := hv.sum_followers hdepth
  have hchildren : ((Engine.followers v).map fun v' => (Program.enter v').stepBound).sum +
      2 * (Engine.followers v).length = 9 * v.below := by
    rw [← hsum]
    generalize Engine.followers v = vs
    induction vs with
    | nil => rfl
    | cons v' rest ih =>
      simp only [List.map_cons, List.sum_cons, List.length_cons, Program.stepBound] at ih ⊢
      lia
  generalize hprograms : (Engine.followers v).map Program.enter = programs
  have hlength : programs.length = (Engine.followers v).length := by rw [← hprograms, List.length_map]
  have hprogram := fun j => program?_branch (j := j) programs (.join v) hpr
  have htasks := (goesOnAlone_branch hpr programs (.join v)).taskStepBound (k := programs.length + 1) hpr
    ((hprogram id).trans (if_pos rfl)) length_branch
  have hnew : ∑ j ∈ range (programs.length + 1), ((s.branch id programs (.join v)).program?
      (s.futures.length + j)).elim 0 Program.stepBound = (programs.map Program.stepBound).sum := by
    have hplace : ∀ j, (s.branch id programs (.join v)).program? (s.futures.length + j) = programs[j]? := fun j => by
      rw [hprogram, if_neg (by lia), if_neg (by lia), Nat.add_sub_cancel_left]
    simp only [hplace]
    rw [sum_range_succ, List.getElem?_eq_none (Nat.le_refl _)]
    exact sum_range_getElem? (fun pr => pr.elim 0 Program.stepBound) programs
  have hjobs : ((s.branch id programs (.join v)).jobs.map Job.stepBound).sum =
      2 * programs.length + 1 + (s.jobs.map Job.stepBound).sum := by
    rw [((jobs_branch programs (.join v)).map _).sum_eq]
    simp only [List.map_cons, List.map_append, List.map_map, List.sum_cons, List.sum_append, Function.comp_def,
      Job.stepBound, List.map_const', List.sum_replicate, fresh, List.length_range', nsmul_eq_mul, Nat.cast_id]
    lia
  have hweights : (programs.map Program.stepBound).sum + 2 * programs.length = 9 * v.below := by
    rw [hlength, ← hchildren, ← hprograms, List.map_map]
    rfl
  have hself : (Program.fanOut v).stepBound = 9 * v.below + 1 := rfl
  have hjoin : (Program.join v (s.fresh programs.length)).stepBound = 0 := rfl
  rw [hnew, hself, hjoin] at htasks
  rw [stepBound, stepBound, hjobs, (timers_branch programs (.join v)).1]
  lia

end Scheduler

open Session

variable {p : Plan} {s s' : Session} {id : FutureId} {job : Job Action} {rest : List (Job Action)}

/-- What is told in the turn of a task leaves less ahead. -/
theorem Session.Tells.stepBound {status : RunStatus} {entries : List (Nat × Entry)} {s₁ : Session}
    (h : (s.awaken rest id).Tells status entries s₁) (hready : s.scheduler.ready = job :: rest) :
    s₁.scheduler.stepBound < s.scheduler.stepBound := by
  have hawaken : (s.awaken rest id).scheduler.stepBound = (s.scheduler.drop rest).stepBound := stepBound_awaken
  obtain ⟨xs, -, hscheduler⟩ := h.asks
  have hkeeps := h.keeps.stepBound (by rw [hscheduler, (timers_cancelAll xs).1])
  have hdrop := stepBound_drop hready
  have hpos := job.stepBound_pos
  lia

/-- What is asked for leaves less ahead than its action had. -/
theorem Engine.stepBound_act (a : Action) : (act s a).scheduler.stepBound < s.scheduler.stepBound +
    (Job.act a).stepBound := by
  by_cases ha : ∀ graph, a ≠ .simulate graph
  · have htells := tells_act (s := s) ha
    obtain ⟨xs, -, hscheduler⟩ := htells.asks
    have hkeeps := htells.keeps.stepBound (by rw [hscheduler, (timers_cancelAll xs).1])
    have hpos := Job.stepBound_pos (.act a)
    lia
  · obtain ⟨graph, rfl⟩ := not_forall_not.1 ha
    have hspawn := stepBound_spawn (s := s.scheduler) (.call s.callers.length graph)
    change (s.scheduler.spawn (.call s.callers.length graph)).2.stepBound < _ + (9 * _ + 2)
    rw [hspawn, Program.stepBound]
    lia

/-- Every regular step leaves less ahead, if the visits are those of runs that have an end. -/
theorem RegularStep.stepBound_lt (h : RegularStep p s s') (hfits : s.scheduler.Fitting p)
    (hfinite : ∀ t v, s.scheduler.visit? t = some v → v.IsFinite p) :
    s'.scheduler.stepBound < s.scheduler.stepBound := by
  have hended : ∀ {job rest id status entries} {s₁ : Session} (x : FutureId) (e : Ending),
      (s.awaken rest id).Tells status entries s₁ → s.scheduler.ready = job :: rest →
      (s₁.scheduler.complete x e).stepBound < s.scheduler.stepBound := fun x e htells hready =>
    Nat.lt_of_le_of_lt (Nat.le_of_eq ((keeps_complete x e).stepBound (timers_complete e))) (htells.stepBound hready)
  have hnothing : ∀ rest id, (s.awaken rest id).Tells s.machine.status [] (s.awaken rest id) := fun rest id =>
    tells_refl (s.awaken rest id)
  cases h with
  | advance _ hadvance => exact stepBound_advance hadvance
  | @elapse x rest hready =>
    have hdrop := stepBound_drop hready
    have hkeeps := (keeps_complete (s := s.scheduler.drop rest) x (.ok ())).stepBound (timers_complete _)
    have hpos := Job.stepBound_pos (.elapse x)
    change ((s.scheduler.drop rest).complete x (.ok ())).stepBound < _
    lia
  | @count g c rest hready =>
    have hdrop := stepBound_drop hready
    have hkeeps := (keeps_countChild (s := s.scheduler.drop rest) g c).stepBound timers_countChild.1
    have hpos := Job.stepBound_pos (.count g c)
    change ((s.scheduler.drop rest).countChild g c).stepBound < _
    lia
  | @act a rest hready =>
    have hdrop := stepBound_drop hready
    exact Nat.lt_of_lt_of_eq (Engine.stepBound_act (s := { s with scheduler := s.scheduler.drop rest }) a) hdrop
  | goes hready _ hpr _ hnext htells hgoes =>
    exact Nat.lt_of_le_of_lt (hgoes.stepBound ((htells.program?_awaken _).trans hpr) hnext) (htells.stepBound hready)
  | unusable hready _ _ _ _ _ htells => exact hended _ _ htells hready
  | leaf hready _ _ _ htells => exact hended _ _ htells hready
  | @fork _ _ id v _ hready _ hpr _ htells =>
    have hv : v.IsFinite p := hfinite id v (visit?_eq_some_iff.2 ⟨_, hpr, rfl⟩)
    exact Nat.lt_of_le_of_lt (stepBound_branch ((htells.program?_awaken _).trans hpr) hv (hfits.proper hpr).1)
      (htells.stepBound hready)
  | join hready | deep hready | halt hready => exact hended _ _ (hnothing _ _) hready
  | @abandon _ rest id _ children i hready =>
    have hasked := (keeps_cancelAll (s := (s.awaken rest id).scheduler) children).stepBound
      (timers_cancelAll children).1
    have hkeeps := (keeps_complete (s := (s.awaken rest id).scheduler.cancelAll children) id (.error i)).stepBound
      (timers_complete _)
    exact Nat.lt_of_le_of_lt (Nat.le_of_eq (hkeeps.trans hasked)) ((hnothing rest id).stepBound hready)
  | reject hready _ _ htells => exact hended _ _ htells hready
  | answer hready _ _ _ _ htells => exact hended _ _ htells hready
  | @launch _ _ id caller snapshot start s₁ hready _ hpr _ hstart hcycle htells =>
    have hpr₁ := (htells.program?_awaken id).trans hpr
    have hlt := lt_of_program? hpr₁
    have hspawn := stepBound_spawn (s := s₁.scheduler) (.enter ⟨snapshot.flow, start, 0⟩)
    have hcaller : (s₁.scheduler.spawn (.enter ⟨snapshot.flow, start, 0⟩)).2.program? id =
        some (.call caller (.ok snapshot)) := program?_spawn.trans ((if_neg (Nat.ne_of_lt hlt)).trans hpr₁)
    have hdefer := @stepBound_defer _ _ _ (.conclude caller) _ hcaller
      (Nat.lt_of_lt_of_eq (Nat.lt_succ_self _) length_spawn.symm)
    have hbelow := (Visit.isFinite_root (p := p) hstart hcycle).2
    have htold := htells.stepBound hready
    change (defer _ _ _ _).stepBound < _
    simp only [Program.stepBound] at hspawn hdefer
    lia
  | conclude hready _ _ _ htells => exact hended _ _ htells hready

/-- The visits of a session stay those of runs that have an end. -/
theorem RegularStep.isFinite (h : RegularStep p s s') (hfits : s.scheduler.Fitting p)
    (hfinite : ∀ t v, s.scheduler.visit? t = some v → v.IsFinite p) :
    ∀ t v, s'.scheduler.visit? t = some v → v.IsFinite p := by
  intro t v hv
  rcases h.visit?_cases t with hsame | ⟨-, hnew⟩
  · exact hfinite t v (hsame.symm.trans hv)
  · cases hnew v hv with
    | follower hpr hmem =>
      exact (hfinite _ _ (visit?_eq_some_iff.2 ⟨_, hpr, rfl⟩)).follower (hfits.proper hpr).1 hmem
    | root hstart hcycle => exact (Visit.isFinite_root hstart hcycle).1

/-- A failing step leaves less ahead. -/
theorem FailingStep.stepBound_lt (h : FailingStep p s s') : s'.scheduler.stepBound < s.scheduler.stepBound := by
  have hended : ∀ {job rest id status entries} {s₁ : Session} (e : Ending),
      (s.awaken rest id).Tells status entries s₁ → s.scheduler.ready = job :: rest →
      (s₁.scheduler.complete id e).stepBound < s.scheduler.stepBound := fun e htells hready =>
    Nat.lt_of_le_of_lt (Nat.le_of_eq ((keeps_complete _ e).stepBound (timers_complete e))) (htells.stepBound hready)
  cases h with
  | visitFails hready _ _ _ _ _ _ htells => exact hended _ htells hready
  | @childrenTooDeep _ rest id _ children _ hready =>
    obtain ⟨asked, -, hstate, -⟩ := exists_cancelEach (s.awaken rest id).scheduler children
    have hasked := (keeps_cancelAll (s := (s.awaken rest id).scheduler) asked).stepBound (timers_cancelAll asked).1
    have hkeeps := (keeps_complete (s := (s.awaken rest id).scheduler.cancelAll asked) id
      (.error (.fault .tooDeep))).stepBound (timers_complete _)
    rw [hstate]
    exact Nat.lt_of_le_of_lt (Nat.le_of_eq (hkeeps.trans hasked)) ((tells_refl (s.awaken rest id)).stepBound hready)
  | openingFails hready _ _ _ _ htells => exact hended _ htells hready

/-- Every step of a well-formed session whose visits are those of runs that have an end leaves less ahead, and
such visits. -/
theorem Session.IsWellFormed.step (hs : s.IsWellFormed p)
    (hfinite : ∀ t v, s.scheduler.visit? t = some v → v.IsFinite p)
    (h : Engine.step? p s = some s') : s'.IsWellFormed p ∧ (∀ t v, s'.scheduler.visit? t = some v → v.IsFinite p) ∧
      s'.scheduler.stepBound < s.scheduler.stepBound := by
  rcases hs.regularStep_or_failingStep h with hregularStep | hfailingStep
  · exact ⟨(hregularStep.isWellFormed hs).1, hregularStep.isFinite hs.wellFormed.fitting hfinite,
      hregularStep.stepBound_lt hs.wellFormed.fitting hfinite⟩
  · exact ⟨hfailingStep.isWellFormed hs, fun t v hv => hfinite t v ((hfailingStep.visit?_eq t).symm.trans hv),
      hfailingStep.stepBound_lt⟩

/-! ## Rest -/

/-- All tasks of a scheduler at rest have ended. -/
theorem Scheduler.Fitting.ended_of_idle {s : Scheduler Program Action} (h : s.Fitting p)
    (hs : s.Sound 0 fun _ => False) (hidle : s.IsIdle) {pr : Program} (hpr : s.program? id = some pr) :
    s.ending? id ≠ none := by
  -- A task can only wait for tasks of higher numbers.
  induction hk : s.futures.length - id using Nat.strongRecOn generalizing id pr with
  | ind k ih =>
    intro hlive
    have hlt := lt_of_program? hpr
    have hlater : ∀ {x}, id < x → s.IsVisit x → s.ending? x ≠ none := by
      intro x hx hv
      obtain ⟨pr', v, hpr', -⟩ := isVisit_iff.1 hv
      have hvlt := hv.lt
      exact ih _ (by lia) hpr' rfl
    obtain ⟨job, hjob, htask⟩ := hs.exists_job (Nat.zero_le id) (fun h => h) hpr hlive
    obtain ⟨source, hsource, hsourcelive⟩ := hidle.source hs hjob
    have hfit := h.jobs hjob
    obtain rfl := Job.eq_wake htask hsource
    obtain ⟨hx, -, pr', hpr', hexpects⟩ := hfit
    cases hpr.symm.trans hpr'
    cases pr with
    | leave | fanOut => exact hidle.sleep_ended hs (Nat.zero_le _) hexpects hsourcelive
    | join v children =>
      obtain ⟨c, hc, hclive⟩ := hidle.exists_child hs (Nat.zero_le _) hexpects hsourcelive
      obtain ⟨hltc, hv⟩ := h.child hpr hc
      exact hlater hltc hv hclive
    | conclude => exact hlater hx hexpects hsourcelive
    | enter | call => exact hexpects.elim

/-- No run is under way in a session at rest. -/
theorem Session.IsWellFormed.run_of_idle (hs : s.IsWellFormed p) (hidle : s.scheduler.IsIdle) : s.run = none := by
  cases hrun : s.run with
  | none => rfl
  | some R =>
    obtain ⟨-, K, ⟨caller, hpr, hlive⟩, -⟩ := hs.wellFormed.awaited.root R hrun
    exact absurd hlive (hs.wellFormed.fitting.ended_of_idle hs.wellFormed.sound hidle hpr)

/-- There are no visits before the first step of a timetable. -/
theorem isFinite_begin (table : Timetable) : ∀ t v, table.begin.scheduler.visit? t = some v → v.IsFinite p := by
  intro t v hv
  obtain ⟨pr, hpr, -⟩ := visit?_eq_some_iff.1 hv
  exact absurd hpr (isFresh_begin table).program?

/-- What a timetable has ahead before its first step is within the bound on its steps. -/
theorem stepBound_begin (table : Timetable) : table.begin.scheduler.stepBound ≤ table.stepBound := by
  have hset : ∀ (s : Scheduler Program Action) (time : Nat) (a : Action),
      (s.setTimer time (.act a)).stepBound = s.stepBound + (9 * a.visitBound + 3) := by
    intro s time a
    have htasks : (s.setTimer time (.act a)).taskStepBound = s.taskStepBound := taskStepBound_congr rfl fun _ => rfl
    rw [stepBound, stepBound, ((jobs_setTimer time).map _).sum_eq, htasks, List.map_cons, List.sum_cons]
    simp only [setTimer, List.length_append, List.length_cons, List.length_nil, Job.stepBound]
    lia
  have hfold : ∀ (table : Timetable) (s : Scheduler Program Action),
      (table.foldl (fun s x => s.setTimer x.1 (.act x.2)) s).stepBound ≤ s.stepBound + table.stepBound := by
    intro table
    induction table with
    | nil => exact fun _ => Nat.le_refl _
    | cons x table ih =>
      intro s
      have hrest := ih (s.setTimer x.1 (.act x.2))
      rw [hset] at hrest
      have hbound : Timetable.stepBound (x :: table) = 10 * x.2.visitBound + 4 + Timetable.stepBound table := rfl
      rw [List.foldl_cons, hbound]
      lia
  have hempty : ({} : Scheduler Program Action).stepBound = 0 := rfl
  have hbegin := hfold table {}
  rw [hempty, Nat.zero_add] at hbegin
  exact hbegin

/-- The visits of a session stay those of runs that have an end, whatever comes next. -/
theorem isFinite_of_sessionSteps (h : ReflTransGen (SessionStep p) s s') (hs : s.IsWellFormed p)
    (hfinite : ∀ t v, s.scheduler.visit? t = some v → v.IsFinite p) :
    ∀ t v, s'.scheduler.visit? t = some v → v.IsFinite p := by
  induction h with
  | refl => exact hfinite
  | tail hbefore hsessionStep ih =>
    cases hsessionStep with
    | step h => exact ((isWellFormed_of_sessionSteps hbefore hs).step ih h).2.1
    | act a =>
      intro t v hv
      rw [Engine.visit?_act] at hv
      exact ih t v hv

/-- A session that is left to itself comes to rest, whatever its listener does, and no run is under way then. -/
theorem Session.IsWellFormed.rests (hs : s.IsWellFormed p)
    (hfinite : ∀ t v, s.scheduler.visit? t = some v → v.IsFinite p)
    {n : Nat} (hn : s.scheduler.stepBound ≤ n) :
    Engine.step? p (Engine.run p n s) = none ∧ (Engine.run p n s).run = none := by
  obtain ⟨⟨hs', -⟩, hrest⟩ := Engine.run_rests
    (I := fun s => s.IsWellFormed p ∧ ∀ t v, s.scheduler.visit? t = some v → v.IsFinite p)
    (m := fun s => s.scheduler.stepBound) (fun s s' ⟨hs, hfinite⟩ h => by
      obtain ⟨hs', hfinite', hless⟩ := hs.step hfinite h
      exact ⟨⟨hs', hfinite'⟩, hless⟩) n ⟨hs, hfinite⟩ hn
  exact ⟨hrest, hs'.run_of_idle (Engine.isIdle_of_step? hrest)⟩

/-- The machine does not run in a regular session at rest if its listener does not fail. -/
theorem Session.IsRegular.rests (hs : s.IsRegular p) (hhooks : ∀ n, p.hooks.lookup n ≠ some .fail)
    (hfinite : ∀ t v, s.scheduler.visit? t = some v → v.IsFinite p) {n : Nat} (hn : s.scheduler.stepBound ≤ n) :
    Engine.step? p (Engine.run p n s) = none ∧ (Engine.run p n s).machine.status ≠ .running := by
  obtain ⟨hrest, hrun⟩ := hs.isWellFormed.rests hfinite hn
  refine ⟨hrest, fun hrunning => ?_⟩
  have hsome := (isRegular_of_sessionSteps hhooks (sessionSteps_run n) hs).running.1 hrunning
  cases (congrArg Option.isSome hrun).symm.trans hsome

/-- A timetable comes to rest within the bound on its steps, whatever its listener does, and no run is under
way then. -/
theorem Timetable.play_rests (table : Timetable) :
    Engine.step? p (table.play p) = none ∧ (table.play p).run = none :=
  (Session.isWellFormed_begin table).rests (isFinite_begin table) (stepBound_begin table)

end PipelineGraph.Simulation
