import PipelineGraph.Proofs.Simulation.Requests

/-!
# Stopped visits

A visit is stopped when nothing comes of the turn ahead of it: the visit is interrupted in it or turns
out too deep. What was stopped stays so, whatever else happens, and a request to cancel stops every
visit that it reaches. So where all visits are stopped nothing more is told of any node.
-/

namespace PipelineGraph.Simulation

open Relation

/-- A visit that turns out too deep as it begins. -/
def Program.IsDeep (p : Plan) : Program → Prop
  | enter v => p.maxDepth < v.depth
  | _ => False

/-- A program that goes on behind a delay is that of a visit at work that is not too deep. -/
theorem Program.Continues.at_work {p : Plan} {pr next : Program} {d : Delay} (h : pr.Continues p next d) :
    pr.isActive = true ∧ ¬ pr.IsDeep p := by
  cases h with
  | enter hdepth => exact ⟨rfl, hdepth⟩
  | leave => exact ⟨rfl, fun hdeep => hdeep⟩

namespace Scheduler

section AddsNoTurn

variable {s s' s'' : Scheduler Program Action} {id t : FutureId} {job : Job Action} {rest : List (Job Action)}

/-- A turn is interrupted by a request that its task keeps, or by how what it waited for has ended. -/
theorem exists_interrupt?_iff : (∃ i, s.interrupt? t job = some i) ↔
    s.mustCancel t = true ∨ ∃ x i, job.source? = some x ∧ s.ending? x = some (.error i) := by
  constructor
  · rintro ⟨i, hi⟩
    exact (interruption_of_interrupt? hi).imp And.left fun ⟨x, hx, hend⟩ => ⟨x, i, hx, hend⟩
  · rintro (hmust | ⟨x, i, hx, hend⟩)
    · exact ⟨.cancelled, if_pos hmust⟩
    · unfold interrupt?
      split
      · exact ⟨.cancelled, rfl⟩
      · rw [hx, Option.bind_some, hend]
        exact ⟨i, rfl⟩

/-- From one scheduler to another nothing new is ahead of any task, endings stay, and who has a turn
ahead keeps a request to cancel it. -/
structure AddsNoTurn (s s' : Scheduler Program Action) : Prop where
  shrinks : s.Shrinks s'
  must : ∀ {job t}, job ∈ s'.jobs → job.task? = some t → s.mustCancel t = true → s'.mustCancel t = true
  ending : ∀ {x e}, s.ending? x = some e → s'.ending? x = some e

/-- Two changes that put nothing new ahead put nothing new ahead together. -/
theorem AddsNoTurn.trans (h : s.AddsNoTurn s') (h' : s'.AddsNoTurn s'') : s.AddsNoTurn s'' where
  shrinks := h.shrinks.trans h'.shrinks
  must hjob htask hmust := h'.must hjob htask (h.must (h'.shrinks.jobs hjob) htask hmust)
  ending he := h'.ending (h.ending he)

/-- Requests to cancel add no turn. -/
theorem Asks.addsNoTurn (h : s.Asks s') : s.AddsNoTurn s' where
  shrinks := h.keeps.shrinks
  must _ _ := h.must
  ending := h.ending_stays

/-- What keeps the tasks and the endings adds no turn. -/
theorem addsNoTurn_of_task? (hkeeps : s.Keeps s') (htask : ∀ j, s'.task? j = s.task? j)
    (hending : ∀ {x e}, s.ending? x = some e → s'.ending? x = some e) : s.AddsNoTurn s' where
  shrinks := hkeeps.shrinks
  must _ _ hmust := by
    rw [mustCancel, htask]
    exact hmust
  ending := hending

/-- A future that ends adds no turn. -/
theorem addsNoTurn_complete (i : FutureId) (ending : Ending) : s.AddsNoTurn (s.complete i ending) :=
  addsNoTurn_of_task? (keeps_complete i ending) (fun _ => task?_complete ending) fun he =>
    ending?_complete_of_ended he ending

/-- A child that is counted adds no turn. -/
theorem addsNoTurn_countChild (i c : FutureId) : s.AddsNoTurn (s.countChild i c) := by
  refine addsNoTurn_of_task? (keeps_countChild i c) (fun _ => task?_countChild c) fun {x e} he => ?_
  rcases ending?_countChild (s := s) (i := i) (c := c) (j := x) with hsame | ⟨rfl, hnone, -⟩
  · exact hsame.trans he
  · rw [hnone] at he
    cases he

/-- The clock adds no turn. -/
theorem addsNoTurn_advance (h : s.advance? = some s') : s.AddsNoTurn s' := by
  refine addsNoTurn_of_task? (keeps_advance h) (fun _ => ?_) fun he => (ending?_advance h).trans he
  obtain ⟨time, -, rfl⟩ := Option.map_eq_some_iff.1 h
  rfl

/-- To take a job that is no task's turn from the queue adds no turn. -/
theorem addsNoTurn_drop (hready : s.ready = job :: rest) (htask : job.task? = none) :
    s.AddsNoTurn (s.drop rest) where
  shrinks := shrinks_drop hready htask
  must _ _ hmust := hmust
  ending he := he

/-- A task that takes its turn adds no turn. -/
theorem Takes.addsNoTurn {awake : Scheduler Program Action} (h : s.Takes id awake) {b : FutureId}
    (hs : s.Sound b fun _ => False) : s.AddsNoTurn awake where
  shrinks := h.shrinks
  must {job t} hjob htask hmust := by
    have hidle := h.idle hs hjob
    obtain ⟨job', rest, hready, -, rfl⟩ := h
    rw [mustCancel_awaken, if_neg]
    · exact hmust
    · rintro rfl
      exact hidle htask
  ending {x e} he := (h.ending? x).trans he

end AddsNoTurn

/-! ## Stopped visits -/

variable {p q : Plan} {s s' : Scheduler Program Action} {id t x : FutureId} {job : Job Action}

/-- Nothing comes of a turn that is ahead of a visit: the visit is interrupted in it or turns out too
deep. -/
def IsStopped (p : Plan) (s : Scheduler Program Action) (t : FutureId) : Prop :=
  ∀ job ∈ s.jobs, job.task? = some t → ∀ pr, s.program? t = some pr → pr.isActive = true →
    pr.IsDeep p ∨ ∃ i, s.interrupt? t job = some i

/-- All visits are stopped. -/
def AllStopped (p : Plan) (s : Scheduler Program Action) : Prop :=
  ∀ t, s.IsStopped p t

/-- A visit stays stopped as long as its turn, a request to cancel it and endings stay. -/
theorem IsStopped.mono (h : s.IsStopped p t)
    (hprogram : ∀ pr, s'.program? t = some pr → pr.isActive = true → s.program? t = some pr)
    (hjobs : ∀ job ∈ s'.jobs, job.task? = some t → job ∈ s.jobs ∧
      (s.mustCancel t = true → s'.mustCancel t = true))
    (hending : ∀ x e, s.ending? x = some e → s'.ending? x = some e) : s'.IsStopped p t := by
  intro job hjob htask pr hpr hactive
  obtain ⟨hold, hmust⟩ := hjobs job hjob htask
  refine (h job hold htask pr (hprogram pr hpr hactive) hactive).imp_right fun hi => ?_
  refine exists_interrupt?_iff.2 ((exists_interrupt?_iff.1 hi).imp hmust ?_)
  exact fun ⟨x, i, hx, hend⟩ => ⟨x, i, hx, hending x _ hend⟩

/-- What is stopped stays so in a scheduler that adds no turn. -/
theorem IsStopped.addsNoTurn (h : s.IsStopped p t) (hs : s.AddsNoTurn s') : s'.IsStopped p t :=
  h.mono (fun _ hpr _ => (program?_congr (hs.shrinks.bareKind t)).symm.trans hpr)
    (fun _ hjob htask => ⟨hs.shrinks.jobs hjob, hs.must hjob htask⟩) fun _ _ he => hs.ending he

/-- Where all visits are stopped they stay so in a scheduler that adds no turn. -/
theorem AllStopped.addsNoTurn (h : s.AllStopped p) (hs : s.AddsNoTurn s') : s'.AllStopped p :=
  fun t => (h t).addsNoTurn hs

/-- A task without a turn ahead is stopped. -/
theorem isStopped_of_idle (h : ∀ job ∈ s.jobs, job.task? ≠ some t) : s.IsStopped p t :=
  fun job hjob htask => absurd htask (h job hjob)

/-- A task that is no visit at work is stopped. -/
theorem isStopped_of_not_active {pr : Program} (hpr : s.program? t = some pr) (hactive : pr.isActive = false) :
    s.IsStopped p t := by
  intro job _ _ pr' hpr' hactive'
  cases hpr.symm.trans hpr'
  rw [hactive] at hactive'
  cases hactive'

/-- A visit that a request has reached is stopped. -/
theorem IsReached.isStopped (h : s.IsReached t) (hs : s.Fitting p) : s.IsStopped q t := by
  intro job hjob htask pr _ _
  refine Or.inr (exists_interrupt?_iff.2 (h.imp_right fun ⟨x, hx, hend⟩ => ?_))
  have hfits := hs.jobs hjob
  cases job with
  | resume =>
    cases htask
    cases hx.symm.trans hfits.1
  | wake _ source =>
    cases htask
    cases hx.symm.trans hfits.2.1
    exact ⟨x, _, rfl, hend⟩
  | count | elapse | act => cases htask

/-! ## Tasks that go on -/

/-- From one scheduler to another a task goes on and futures are made, and nothing new is ahead of any
other task. -/
structure GoesOnAlone (id : FutureId) (s s' : Scheduler Program Action) : Prop where
  bareKind : ∀ {j}, j ≠ id → j < s.futures.length → s'.bareKind? j = s.bareKind? j
  jobs : ∀ {job t}, job ∈ s'.jobs → job.task? = some t → t ≠ id → t < s.futures.length → job ∈ s.jobs
  must : ∀ {j}, j ≠ id → s.mustCancel j = true → s'.mustCancel j = true
  waiter : ∀ {j}, j ≠ id → s'.waiter? j = s.waiter? j
  ending : ∀ {x e}, s.ending? x = some e → s'.ending? x = some e
  live : ∀ {j}, s.bareKind? j ≠ some .sleep → j < s.futures.length → s'.ending? j = s.ending? j

/-- Other tasks keep their programs when one goes on. -/
theorem GoesOnAlone.program {j : FutureId} (h : GoesOnAlone id s s') (hne : j ≠ id) (hlt : j < s.futures.length) :
    s'.program? j = s.program? j :=
  program?_congr (h.bareKind hne hlt)

/-- What is stopped stays so when another task goes on. -/
theorem IsStopped.goesOnAlone (h : s.IsStopped p t) (hs : GoesOnAlone id s s') (hne : t ≠ id)
    (hlt : t < s.futures.length) :
    s'.IsStopped p t :=
  h.mono (fun _ hpr _ => (hs.program hne hlt).symm.trans hpr)
    (fun _ hjob htask => ⟨hs.jobs hjob htask hne hlt, hs.must hne⟩) fun _ _ he => hs.ending he

/-- A new task goes on alone. -/
theorem goesOnAlone_spawn (pr : Program) : GoesOnAlone s.futures.length s (s.spawn pr).2 where
  bareKind hne _ := bareKind?_spawn.trans (if_neg hne)
  jobs {job t} hjob htask hne _ := by
    refine (List.mem_cons.1 (jobs_spawn.subset hjob)).resolve_left ?_
    rintro rfl
    cases htask
    exact hne rfl
  must {j} hne hmust := by
    rw [mustCancel, task?_eq_bind, future?_spawn, if_neg hne, ← task?_eq_bind]
    exact hmust
  waiter _ := waiter?_spawn
  ending he := ending?_spawn.trans he
  live _ _ := ending?_spawn

/-- Other tasks keep their requests when a task waits for a future. -/
theorem mustCancel_defer {j : FutureId} (next : Program) (hne : j ≠ id) (hmust : s.mustCancel j = true) :
    (s.defer id next x).mustCancel j = true := by
  have hattend : (s.attend id next x).mustCancel j = true := mustCancel_attend.trans hmust
  have hcancel := (asks_cancel (s := s.attend id next x) x).must hattend
  rw [defer_eq_ite]
  split
  · split
    · rw [mustCancel, task?_modifyTask, if_neg hne.symm]
      exact hcancel
    · exact hcancel
  · exact hattend

/-- Endings stay when a task waits for a future. -/
theorem ending?_defer {y : FutureId} {e : Ending} (next : Program) (he : s.ending? y = some e) :
    (s.defer id next x).ending? y = some e := by
  have hattend : (s.attend id next x).ending? y = some e := by
    rw [attend, ending?_whenEnded, ending?_modifyTask, he]
  have hcancel := (asks_cancel (s := s.attend id next x) x).ending_stays hattend
  rw [defer_eq_ite]
  split
  · split
    · exact (ending?_modifyTask _).trans hcancel
    · exact hcancel
  · exact hattend

/-- What is no sleep does not end when a task waits for a future. -/
theorem ending?_defer_of_ne_sleep {j : FutureId} {pr : Program} (hpr : s.program? id = some pr) (next : Program)
    (hj : s.bareKind? j ≠ some .sleep) : (s.defer id next x).ending? j = s.ending? j := by
  have hattend : (s.attend id next x).ending? j = s.ending? j := by
    rw [attend, ending?_whenEnded, ending?_modifyTask]
  have hbare : (s.attend id next x).bareKind? j ≠ some .sleep := by
    rw [← keeps_defer.bareKind, bareKind?_defer hpr]
    split
    · exact fun hcontra => by cases hcontra
    · exact hj
  have hcancel := (asks_cancel (s := s.attend id next x) x).ending_of_ne_sleep hbare
  rw [defer_eq_ite]
  split
  · split
    · exact (ending?_modifyTask _).trans (hcancel.trans hattend)
    · exact hcancel.trans hattend
  · exact hattend

/-- A task that waits for a future goes on alone. -/
theorem goesOnAlone_defer {pr : Program} (hpr : s.program? id = some pr) (next : Program)
    (hx : x < s.futures.length) : GoesOnAlone id s (s.defer id next x) where
  bareKind hne _ := (bareKind?_defer hpr).trans (if_neg hne)
  jobs {job t} hjob htask hne _ := by
    refine (List.mem_cons.1 ((jobs_defer hx).subset hjob)).resolve_left ?_
    rintro rfl
    cases htask
    exact hne rfl
  must hne hmust := mustCancel_defer next hne hmust
  waiter hne := (waiter?_defer hpr).trans (if_neg hne)
  ending he := ending?_defer next he
  live hj _ := ending?_defer_of_ne_sleep hpr next hj

/-- A visit that goes on behind a delay goes on alone. -/
theorem Goes.goesOnAlone {pr next : Program} {d : Delay} (hgoes : s.Goes id next d s') (hpr : s.program? id = some pr) :
    GoesOnAlone id s s' := by
  cases hgoes with
  | pause =>
    refine ⟨fun hne _ => (bareKind?_instruct hpr next).trans (if_neg hne), fun {job t} hjob htask hne _ => ?_,
      fun {j} hne hmust => ?_, fun _ => waiter?_modifyTask fun _ => rfl, fun he => (ending?_modifyTask _).trans he,
      fun _ _ => ending?_modifyTask _⟩
    · refine (jobs_modifyTask _).subset ((List.mem_cons.1 (jobs_push.subset hjob)).resolve_left ?_)
      rintro rfl
      cases htask
      exact hne rfl
    · rw [mustCancel, task?_push, instruct, task?_modifyTask, if_neg hne.symm]
      exact hmust
  | sleep microseconds =>
    refine ⟨fun hne hlt => (bareKind?_doze hpr).trans ((if_neg (Nat.ne_of_lt hlt)).trans (if_neg hne)),
      fun {job t} hjob htask hne _ => ?_, fun hne hmust => mustCancel_defer next hne (mustCancel_sleep.trans hmust),
      fun hne => (waiter?_doze hpr).trans (if_neg hne), fun he => ending?_defer next ((ending?_make _).trans he),
      fun {j} hj hlt => (ending?_defer_of_ne_sleep (program?_sleep hpr) next ?_).trans (ending?_make _)⟩
    refine (List.mem_cons.1 ((List.mem_cons.1 (jobs_doze.subset hjob)).resolve_left ?_)).resolve_left ?_
    · rintro rfl
      cases htask
      exact hne rfl
    · rintro rfl
      cases htask
    · exact fun hsleep => hj (((bareKind?_make _).trans (if_neg (Nat.ne_of_lt hlt))).symm.trans hsleep)

/-- What is no sleep does not end when a task branches. -/
theorem ending?_branch_of_ne_sleep {j : FutureId} {pr : Program} (hpr : s.program? id = some pr)
    (programs : List Program) (next : List FutureId → Program)
    (hj : ((s.spawnAll programs).2.gather (s.fresh programs.length)).2.bareKind? j ≠ some .sleep) :
    (s.branch id programs next).ending? j = s.ending? j := by
  rw [branch, fst_spawnAll, ending?_defer_of_ne_sleep (program?_gather_spawnAll hpr) _ hj, ending?_gather,
    ending?_spawnAll]

/-- A visit that branches goes on alone. -/
theorem goesOnAlone_branch {pr : Program} (hpr : s.program? id = some pr) (programs : List Program)
    (next : List FutureId → Program) : GoesOnAlone id s (s.branch id programs next) where
  bareKind hne hlt := (bareKind?_branch hpr).trans ((if_neg hne).trans (if_pos hlt))
  jobs {job t} hjob htask hne hlt := by
    rcases List.mem_append.1 ((jobs_branch programs next).subset hjob) with hmem | hmem
    · rcases List.mem_cons.1 hmem with rfl | hmem
      · cases htask
        exact absurd rfl hne
      · obtain ⟨c, -, rfl⟩ := List.mem_map.1 hmem
        cases htask
    · refine (List.mem_append.1 hmem).resolve_left fun hmem => ?_
      obtain ⟨c, hc, rfl⟩ := List.mem_map.1 hmem
      cases htask
      exact absurd hlt (Nat.not_lt_of_le (mem_fresh.1 hc).1)
  must {j} hne hmust := by
    rw [branch, fst_spawnAll]
    refine mustCancel_defer _ hne ?_
    by_cases hlt : j < s.futures.length
    · exact (mustCancel_spawnAll hlt _).trans hmust
    · simp [mustCancel, task?, kind?, future?_eq_none_iff.2 (Nat.le_of_not_lt hlt)] at hmust
  waiter {j} hne := (waiter?_branch hpr).trans (if_neg hne)
  ending he := by
    rw [branch]
    exact ending?_defer _ (ending?_gather.trans (ending?_spawnAll.trans he))
  live {j} hj hlt := by
    refine ending?_branch_of_ne_sleep hpr programs next ?_
    rw [bareKind?_gather_spawnAll, if_pos hlt]
    exact hj

/-! ## Requests that are passed on -/

/-- A sleep that has not ended ends by a request. -/
theorem cancel_sleep (hsleep : s.bareKind? x = some .sleep) (hlive : s.ending? x = none) :
    s.cancel x = (.taken, s.complete x (.error .cancelled)) := by
  obtain ⟨f, hf, hk⟩ := kind?_eq_some_iff.1 (bareKind?_eq_sleep_iff.1 hsleep)
  have hnone : f.ending = none := by
    simpa [ending?, hf] using hlive
  simp [cancel, maxRequestDepth, cancelWithin, hf, hnone, hk]

/-- A sleep ends at once when a task is to wait for it that keeps a request. -/
theorem ending?_defer_sleep (hmust : s.mustCancel id = true) {pr : Program} (hpr : s.program? id = some pr)
    (next : Program) (hsleep : s.bareKind? x = some .sleep) (hlive : s.ending? x = none) :
    (s.defer id next x).ending? x = some (.error .cancelled) := by
  have hne : x ≠ id := by
    rintro rfl
    cases (bareKind?_eq_task_iff.2 hpr).symm.trans hsleep
  have hsleep' : (s.attend id next x).bareKind? x = some .sleep := by
    rw [← keeps_defer.bareKind, bareKind?_defer hpr, if_neg hne, hsleep]
  have hlive' : (s.attend id next x).ending? x = none := by
    rw [attend, ending?_whenEnded, ending?_modifyTask, hlive]
  have hended : ((s.attend id next x).complete x (.error .cancelled)).ending? x = some (.error .cancelled) := by
    exact ending?_complete_of_live (lt_of_bareKind? hsleep') hlive' _
  rw [defer_eq_ite, if_pos hmust, cancel_sleep hsleep' hlive', if_pos rfl, ending?_modifyTask, hended]

/-- A task that keeps a request passes it on to all visits at work to which ways lead from what it is to
wait for. -/
theorem Fitting.isReached_defer {next : Program} (h : (s.defer id next x).Fitting p) (hp : p.IsShallow)
    (hmust : s.mustCancel id = true) (hpath : ReflTransGen (s.attend id next x).Links x t) (hne : t ≠ id)
    (hlive : s.ending? t = none) {pr : Program} (hpr : (s.defer id next x).program? t = some pr)
    (hactive : pr.isActive = true) : (s.defer id next x).IsReached t := by
  have hlive' : (s.attend id next x).ending? t = none := by
    rw [attend, ending?_whenEnded, ending?_modifyTask, hlive]
  have hreached := (h.keeps keeps_defer.symm).isReached_cancel hp hpath hlive'
    ((keeps_defer.program t).symm.trans hpr) hactive
  rw [defer_eq_ite, if_pos hmust]
  split
  · refine hreached.imp (fun hm => ?_) fun hwaits => ?_
    · rw [mustCancel, task?_modifyTask, if_neg hne.symm]
      exact hm
    · obtain ⟨y, hy, hend⟩ := hwaits
      refine ⟨y, ?_, (ending?_modifyTask _).trans hend⟩
      exact (waiter?_modifyTask (F := fun t => { t with mustCancel := false }) fun _ => rfl).trans hy
  · exact hreached

/-- The request that a visit keeps has reached it still as it goes on behind a delay. -/
theorem Goes.isReached {pr next : Program} {d : Delay} (hgoes : s.Goes id next d s') (hmust : s.mustCancel id = true)
    (hpr : s.program? id = some pr) : s'.IsReached id := by
  cases hgoes with
  | pause =>
    refine Or.inl ?_
    rw [mustCancel, task?_push, instruct, task?_modifyTask, if_pos rfl]
    rw [mustCancel] at hmust
    cases ht : s.task? id with
    | none => simp [ht] at hmust
    | some state => simpa [ht] using hmust
  | sleep microseconds =>
    refine Or.inr ⟨s.futures.length, (waiter?_doze hpr).trans (if_pos rfl), ?_⟩
    refine ending?_defer_sleep (mustCancel_sleep.trans hmust) (program?_sleep hpr) next
      ((bareKind?_make _).trans (if_pos rfl)) ((ending?_make _).trans ?_)
    exact ending?_of_length_le (Nat.le_refl _)

/-- The request that a visit keeps reaches those that follow it as it branches. -/
theorem isReached_branch (hp : p.IsShallow) (hmust : s.mustCancel id = true) {v : Visit}
    (hpr : s.program? id = some (.fanOut v))
    (hfits : (s.branch id ((Engine.followers v).map .enter) (.join v)).Fitting p) {c : FutureId}
    (hc : c ∈ s.fresh ((Engine.followers v).map Program.enter).length) :
    (s.branch id ((Engine.followers v).map .enter) (.join v)).IsReached c := by
  have hlt := lt_of_program? hpr
  have hmade : ∀ pr ∈ (Engine.followers v).map Program.enter, pr.isActive = true := by
    intro pr hpr
    obtain ⟨v', -, rfl⟩ := List.mem_map.1 hpr
    rfl
  generalize (Engine.followers v).map Program.enter = programs at hfits hc hmade ⊢
  obtain ⟨hge, hchild⟩ := mem_fresh.1 hc
  have hne : c ≠ id := by lia
  have hprogram : (s.branch id programs (.join v)).program? c = programs[c - s.futures.length]? := by
    rw [program?_branch programs _ hpr, if_neg hne, if_neg (by lia)]
  obtain ⟨pr, hpr'⟩ : ∃ pr, programs[c - s.futures.length]? = some pr :=
    ⟨_, List.getElem?_eq_getElem (by lia)⟩
  have hactive := hmade pr (List.mem_of_getElem? hpr')
  rw [hpr'] at hprogram
  rw [Scheduler.branch, fst_spawnAll] at hfits hprogram ⊢
  have hg : ((s.spawnAll programs).2.gather (s.fresh programs.length)).2.ending?
      (s.spawnAll programs).2.futures.length = none := by
    rw [ending?_gather, ending?_spawnAll, length_spawnAll]
    exact ending?_of_length_le (Nat.le_add_right _ _)
  refine hfits.isReached_defer hp ((mustCancel_spawnAll hlt _).trans hmust)
    (.single ⟨?_, Or.inr ⟨s.fresh programs.length, ?_, hc⟩⟩) hne ?_ hprogram hactive
  · rw [attend, ending?_whenEnded, ending?_modifyTask, hg]
  · rw [← keeps_defer.bareKind, bareKind?_defer (program?_gather_spawnAll hpr), bareKind?_gather_spawnAll,
      length_spawnAll, if_neg (by lia), if_neg (by lia), if_pos rfl]
  · rw [ending?_gather, ending?_spawnAll]
    exact ending?_of_length_le hge

/-- Visits stay stopped when another one that keeps a request goes on behind a delay, and that one is stopped
too. -/
theorem IsStopped.goes (h : t < s.futures.length → s.IsStopped q t) (hmust : s.mustCancel id = true)
    {pr next : Program} {d : Delay} (hpr : s.program? id = some pr) (hgoes : s.Goes id next d s')
    (hfits : s'.Fitting p) : s'.IsStopped q t := by
  by_cases hid : t = id
  · subst hid
    exact (hgoes.isReached hmust hpr).isStopped hfits
  · by_cases hlt : t < s.futures.length
    · exact (h hlt).goesOnAlone (hgoes.goesOnAlone hpr) hid hlt
    · intro job _ _ pr' hpr' _
      rw [hgoes.program? hpr, if_neg hid, program?_of_length_le (Nat.le_of_not_lt hlt)] at hpr'
      cases hpr'

/-- Visits stay stopped when another one that keeps a request branches, and those that follow it are stopped
too. -/
theorem IsStopped.branch (h : t < s.futures.length → s.IsStopped q t) (hp : p.IsShallow)
    (hmust : s.mustCancel id = true) {v : Visit} (hpr : s.program? id = some (.fanOut v))
    (hfits : (s.branch id ((Engine.followers v).map .enter) (.join v)).Fitting p) :
    (s.branch id ((Engine.followers v).map .enter) (.join v)).IsStopped q t := by
  have hprogram := program?_branch (j := t) ((Engine.followers v).map Program.enter) (.join v) hpr
  by_cases hid : t = id
  · subst hid
    exact isStopped_of_not_active (hprogram.trans (if_pos rfl)) rfl
  · by_cases hold : t < s.futures.length
    · exact (h hold).goesOnAlone (goesOnAlone_branch hpr _ _) hid hold
    · by_cases hchild : t < s.futures.length + ((Engine.followers v).map Program.enter).length
      · exact (isReached_branch hp hmust hpr hfits (mem_fresh.2 ⟨Nat.le_of_not_lt hold, hchild⟩)).isStopped hfits
      · intro job _ _ pr' hpr' _
        rw [hprogram, if_neg hid, if_neg hold, List.getElem?_eq_none_iff.2 (by lia)] at hpr'
        cases hpr'

/-- Visits stay stopped when a caller that keeps a request makes the root for which it is to wait, and the
root is stopped too. -/
theorem IsStopped.defer (h : t < s.futures.length → s.IsStopped q t) (hp : p.IsShallow)
    (hmust : s.mustCancel id = true) {pr next root : Program} (hpr : s.program? id = some pr)
    (hnext : next.isActive = false)
    (hfits : ((s.spawn root).2.defer id next s.futures.length).Fitting p) :
    ((s.spawn root).2.defer id next s.futures.length).IsStopped q t := by
  have hid := lt_of_program? hpr
  have hpr' : (s.spawn root).2.program? id = some pr := by
    rw [program?_spawn, if_neg (Nat.ne_of_lt hid), hpr]
  have hspawn := goesOnAlone_spawn (s := s) root
  have hdefer := goesOnAlone_defer hpr' next (Nat.lt_succ_self _ |>.trans_eq length_spawn.symm)
  have hprogram : ∀ j, ((s.spawn root).2.defer id next s.futures.length).program? j =
      if j = id then some next else (s.spawn root).2.program? j := by
    intro j
    rw [program?_eq_bind, bareKind?_defer hpr', program?_eq_bind]
    split <;> rfl
  by_cases heq : t = id
  · subst heq
    exact isStopped_of_not_active ((hprogram t).trans (if_pos rfl)) hnext
  · by_cases hlt : t < s.futures.length
    · refine IsStopped.goesOnAlone ?_ hdefer heq (Nat.lt_succ_of_lt hlt |>.trans_eq length_spawn.symm)
      exact (h hlt).goesOnAlone hspawn (Nat.ne_of_lt hlt) hlt
    · intro job hjob htask pr'' hpr'' hactive
      have hroot : t = s.futures.length := by
        have hlt' := lt_of_program? hpr''
        rw [length_defer, length_spawn] at hlt'
        lia
      subst hroot
      refine IsReached.isStopped ?_ hfits job hjob htask pr'' hpr'' hactive
      exact hfits.isReached_defer hp (hspawn.must (Nat.ne_of_lt hid) hmust) .refl heq
        (ending?_spawn.trans (ending?_of_length_le (Nat.le_refl _))) hpr'' hactive

end Scheduler

end PipelineGraph.Simulation
