import PipelineGraph.Proofs.Simulation.BareKinds
import Mathlib.Data.List.Range

/-!
# New futures

Futures are made in the turn of a task that goes on behind them: a sleep, or a gathering of new
tasks. What a turn leaves behind is given future by future, with the jobs that it adds.
-/

namespace PipelineGraph.Simulation

variable {P A : Type}

namespace Scheduler

variable {s : Scheduler P A} {i j id source : FutureId} {job : Job A} {children : List FutureId}

/-- New tasks have the next numbers and are queued one after another. -/
theorem spawnAll_eq (programs : List P) : s.spawnAll programs =
    (List.range' s.futures.length programs.length,
      { s with
        ready := s.ready ++ (List.range' s.futures.length programs.length).map .resume
        futures := s.futures ++ programs.map fun program => { kind := .task { program } } }) := by
  induction programs generalizing s with
  | nil => simp [spawnAll]
  | cons program rest ih => simp [spawnAll, ih, spawn, make, push, List.range'_succ]

section Spawn

variable {program : P}

/-- A new task has the next number. -/
theorem future?_spawn : (s.spawn program).2.future? j =
    if j = s.futures.length then some { kind := .task { program } } else s.future? j :=
  future?_make _

/-- A new task is one more future. -/
theorem length_spawn : (s.spawn program).2.futures.length = s.futures.length + 1 :=
  length_make _

/-- A new task has one turn ahead. -/
theorem jobs_spawn : (s.spawn program).2.jobs.Perm (.resume s.futures.length :: s.jobs) :=
  jobs_push.trans (List.Perm.of_eq (congrArg _ (jobs_make _)))

/-- A new task is the only one with another bare kind. -/
theorem bareKind?_spawn : (s.spawn program).2.bareKind? j =
    if j = s.futures.length then some (.task program) else s.bareKind? j :=
  bareKind?_make _

/-- A new task has the program that was asked for. -/
theorem program?_spawn : (s.spawn program).2.program? j =
    if j = s.futures.length then some program else s.program? j := by
  rw [program?_eq_bind, bareKind?_spawn, program?_eq_bind]
  split <;> rfl

/-- A new task waits for nothing. -/
theorem waiter?_spawn : (s.spawn program).2.waiter? j = s.waiter? j := by
  rw [waiter?, waiter?, task?_eq_bind, task?_eq_bind, future?_spawn]
  split
  · next heq =>
    rw [heq, future?_eq_none_iff.2 (Nat.le_refl _)]
    rfl
  · rfl

/-- A new task has not ended. -/
@[simp] theorem ending?_spawn : (s.spawn program).2.ending? j = s.ending? j :=
  ending?_make _

/-- What does not exist waits for nothing. -/
theorem waiter?_of_length_le (h : s.futures.length ≤ j) : s.waiter? j = none := by
  rw [waiter?, task?_eq_bind, future?_eq_none_iff.2 h]
  rfl

end Spawn

/-! ## Gatherings -/

/-- Each child of a new gathering has a job behind its end. -/
theorem future?_gather (hnodup : children.Nodup) :
    (s.gather children).2.future? j =
      if j ∈ children then
        ((s.make (.gathering { children })).2.future? j).map (·.notify (.count s.futures.length j))
      else (s.make (.gathering { children })).2.future? j := by
  have hfold : ∀ (rest : List FutureId) (s' : Scheduler P A), rest.Nodup →
      (rest.foldl (fun s' c => s'.whenEnded c (.count s.futures.length c)) s').future? j =
        if j ∈ rest then (s'.future? j).map (·.notify (.count s.futures.length j)) else s'.future? j := by
    intro rest
    induction rest with
    | nil => exact fun _ _ => rfl
    | cons c rest ih =>
      intro s' hnodup
      obtain ⟨hc, hrest⟩ := List.nodup_cons.1 hnodup
      rw [List.foldl_cons, ih _ hrest, future?_whenEnded]
      by_cases hj : c = j
      · subst hj
        simp [hc]
      · simp [hj, Ne.symm hj]
  exact hfold children _ hnodup

/-- A new gathering of futures that have not ended queues nothing. -/
theorem ready_gather (hlive : ∀ c ∈ children, s.ending? c = none) :
    (s.gather children).2.ready = s.ready := by
  have hfold : ∀ (rest : List FutureId) (s' : Scheduler P A), (∀ c ∈ rest, s'.ending? c = none) →
      (rest.foldl (fun s' c => s'.whenEnded c (.count s.futures.length c)) s').ready = s'.ready := by
    intro rest
    induction rest with
    | nil => exact fun _ _ => rfl
    | cons c rest ih =>
      intro s' hlive
      obtain ⟨hc, hrest⟩ := List.forall_mem_cons.1 hlive
      rw [List.foldl_cons, ih _ fun c' hc' => by rw [ending?_whenEnded, hrest c' hc'],
        ready_whenEnded, hasEnded, hc]
      rfl
  exact hfold children _ fun c hc => (ending?_make _).trans (hlive c hc)

/-- A new gathering ends nothing. -/
theorem ending?_gather : (s.gather children).2.ending? j = s.ending? j :=
  (gather_keeps (·.ending? j) (fun _ _ _ => ending?_whenEnded _) s children).trans (ending?_make _)

/-- A new gathering sets no timer and does not move the clock. -/
theorem timers_gather : (s.gather children).2.timers = s.timers ∧ (s.gather children).2.now = s.now :=
  ⟨gather_keeps (·.timers) (fun _ _ _ => timers_whenEnded _) s children,
    gather_keeps (·.now) (fun _ _ _ => now_whenEnded _) s children⟩

/-- A new gathering is one more future. -/
theorem length_gather : (s.gather children).2.futures.length = s.futures.length + 1 :=
  (gather_keeps (·.futures.length) (fun _ _ _ => length_whenEnded _) s children).trans (length_make _)

/-! ## Waiting -/

/-- A task goes on with another program behind a future. -/
def defer (s : Scheduler P A) (id : FutureId) (next : P) (source : FutureId) : Scheduler P A :=
  (s.instruct id next).await id source

/-- A task has another program, and a job behind a future lets it go on. -/
def attend (s : Scheduler P A) (id : FutureId) (next : P) (source : FutureId) : Scheduler P A :=
  (s.modifyTask id fun t => { t with program := next, waiter := some source }).whenEnded source
    (.wake id source)

section Attend

variable {next : P}

/-- A task that waits keeps a request to cancel it. -/
@[simp] theorem mustCancel_attend : (s.attend id next source).mustCancel j = s.mustCancel j := by
  simp only [mustCancel, attend, task?_whenEnded, task?_modifyTask]
  split
  · cases s.task? j <;> rfl
  · rfl

/-- A task that keeps a request to cancel it passes that on as it goes on behind a future. -/
theorem defer_eq_ite : s.defer id next source =
    if s.mustCancel id then
      if ((s.attend id next source).cancel source).1 = .taken then
        ((s.attend id next source).cancel source).2.modifyTask id fun t => { t with mustCancel := false }
      else ((s.attend id next source).cancel source).2
    else s.attend id next source := by
  have hmodify : (s.instruct id next).modifyTask id (fun t => { t with waiter := some source }) =
      s.modifyTask id fun t => { t with program := next, waiter := some source } := by
    simp only [instruct, modifyTask, modifyFuture, List.modify_modify_eq]
    congr 2
    funext f
    cases hk : f.kind <;> simp [Function.comp, hk]
  have hmust : (s.attend id next source).mustCancel id = s.mustCancel id := mustCancel_attend
  have hattend : (s.modifyTask id fun t => { t with program := next, waiter := some source }).whenEnded source
      (.wake id source) = s.attend id next source := rfl
  rw [← hmust]
  simp only [defer, await, hmodify, hattend]
  congr 1
  cases (s.attend id next source).cancel source with
  | mk reply asked => cases reply <;> rfl

/-- To pass on a request to cancel keeps the scheduler. -/
theorem keeps_defer : (s.attend id next source).Keeps (s.defer id next source) := by
  rw [defer_eq_ite]
  split
  · have hcancel := keeps_cancelWithin (s := s.attend id next source) maxRequestDepth source
    split
    · refine hcancel.trans ⟨length_modifyFuture _, fun _ => bareKind?_modifyTask fun _ => rfl,
        fun _ => waiter?_modifyTask fun _ => rfl, jobs_modifyTask _⟩
    · exact hcancel
  · exact Keeps.refl _

/-- A task that goes on behind a future makes no future. -/
theorem length_defer : (s.defer id next source).futures.length = s.futures.length := by
  rw [keeps_defer.length, attend, length_whenEnded]
  exact length_modifyFuture _

/-- A task that goes on behind a future has one more job. -/
theorem jobs_defer (hsource : source < s.futures.length) :
    (s.defer id next source).jobs.Perm (.wake id source :: s.jobs) := by
  refine keeps_defer.jobs.trans ((jobs_whenEnded ?_ _).trans ((jobs_modifyTask _).cons _))
  rw [modifyTask, length_modifyFuture]
  exact hsource

/-- A task that goes on behind a future has another program. -/
theorem bareKind?_defer {program : P} (hprogram : s.program? id = some program) :
    (s.defer id next source).bareKind? j = if j = id then some (.task next) else s.bareKind? j := by
  rw [keeps_defer.bareKind, attend, bareKind?_whenEnded]
  by_cases hj : id = j
  · subst hj
    obtain ⟨t, ht, -⟩ := Option.map_eq_some_iff.1 hprogram
    rw [if_pos rfl, bareKind?_eq_task_iff, program?, task?_modifyTask, if_pos rfl, ht]
    rfl
  · rw [if_neg (Ne.symm hj), bareKind?, bareKind?, kind?, kind?, future?_modifyTask, if_neg hj]

/-- What a task waits for that goes on behind a future is that. -/
theorem waiter?_defer {program : P} (hprogram : s.program? id = some program) :
    (s.defer id next source).waiter? j = if j = id then some source else s.waiter? j := by
  rw [keeps_defer.waiter, attend, waiter?, waiter?, task?_whenEnded, task?_modifyTask]
  by_cases hj : id = j
  · subst hj
    obtain ⟨t, ht, -⟩ := Option.map_eq_some_iff.1 hprogram
    rw [if_pos rfl, if_pos rfl, ht]
    rfl
  · rw [if_neg hj, if_neg (Ne.symm hj)]

/-- A task that goes on behind a future sets no timer and does not move the clock. -/
theorem timers_defer :
    (s.defer id next source).timers = s.timers ∧ (s.defer id next source).now = s.now := by
  have hattend : (s.attend id next source).timers = s.timers ∧ (s.attend id next source).now = s.now := by
    rw [attend, timers_whenEnded, now_whenEnded]
    exact ⟨rfl, rfl⟩
  obtain ⟨htimers, hnow⟩ := timers_cancelWithin (s := s.attend id next source) maxRequestDepth source
  rw [defer_eq_ite]
  split
  · split
    · exact ⟨htimers.trans hattend.1, hnow.trans hattend.2⟩
    · exact ⟨htimers.trans hattend.1, hnow.trans hattend.2⟩
  · exact hattend

end Attend

section Defer

variable {next : P} (hcalm : s.mustCancel id = false)

include hcalm

/-- A task that keeps no request to cancel it only waits as it goes on behind a future. -/
theorem defer_eq : s.defer id next source = s.attend id next source := by
  rw [defer_eq_ite, hcalm]
  rfl

/-- Only the task and what it waits for are changed when a task goes on behind a future. -/
theorem future?_defer (hne : id ≠ source) : (s.defer id next source).future? j =
    if j = source then (s.future? j).map (·.notify (.wake id source))
    else if j = id then
      (s.future? j).map (·.mapTask fun t => { t with program := next, waiter := some source })
    else s.future? j := by
  rw [defer_eq hcalm, attend, future?_whenEnded, future?_modifyTask]
  by_cases hsource : j = source
  · subst hsource
    simp [hne]
  · by_cases hid : j = id
    · simp [hid, hne, Ne.symm hne]
    · simp [hsource, Ne.symm hsource, hid, Ne.symm hid]

/-- A task that goes on behind a future that has not ended is not queued. -/
theorem ready_defer (hlive : s.ending? source = none) : (s.defer id next source).ready = s.ready := by
  rw [defer_eq hcalm, attend, ready_whenEnded, hasEnded, ending?_modifyTask, hlive]
  rfl

end Defer

/-! ## Dozing -/

/-- A task goes on with another program behind a new sleep. -/
def doze (s : Scheduler P A) (id : FutureId) (next : P) (microseconds : Nat) : Scheduler P A :=
  (s.sleep microseconds).2.defer id next s.futures.length

section Doze

variable {next : P} {microseconds : Nat}

/-- A new sleep is one more future. -/
theorem length_sleep : (s.sleep microseconds).2.futures.length = s.futures.length + 1 :=
  length_make _

/-- A new sleep keeps the program of a task. -/
theorem program?_sleep {program : P} (hprogram : s.program? id = some program) :
    (s.sleep microseconds).2.program? id = some program := by
  refine (program?_congr ?_).trans hprogram
  exact (bareKind?_make _).trans (if_neg (Nat.ne_of_lt (lt_of_program? hprogram)))

/-- A task that dozes has another program, and there is a new sleep. -/
theorem bareKind?_doze {program : P} (hprogram : s.program? id = some program) :
    (s.doze id next microseconds).bareKind? j =
      if j = s.futures.length then some .sleep
      else if j = id then some (.task next) else s.bareKind? j := by
  rw [doze, bareKind?_defer (program?_sleep hprogram)]
  have hsleep : (s.sleep microseconds).2.bareKind? j =
      if j = s.futures.length then some .sleep else s.bareKind? j := bareKind?_make _
  rw [hsleep]
  by_cases hj : j = id
  · have hne : j ≠ s.futures.length := by
      have hid := lt_of_program? hprogram
      lia
    rw [if_pos hj, if_neg hne, if_pos hj]
  · simp only [if_neg hj]

/-- Only the program of the task itself changes when a task dozes. -/
theorem program?_doze {program : P} (hprogram : s.program? id = some program) :
    (s.doze id next microseconds).program? j = if j = id then some next else s.program? j := by
  have hid := lt_of_program? hprogram
  rw [program?_eq_bind, bareKind?_doze hprogram]
  by_cases hj : j = s.futures.length
  · rw [if_pos hj, if_neg (by lia), program?_of_length_le (Nat.le_of_eq hj.symm)]
    rfl
  · rw [if_neg hj]
    split
    · rfl
    · exact program?_eq_bind.symm

/-- What a task waits for that dozes is the new sleep. -/
theorem waiter?_doze {program : P} (hprogram : s.program? id = some program) :
    (s.doze id next microseconds).waiter? j =
      if j = id then some s.futures.length else s.waiter? j := by
  rw [doze, waiter?_defer (program?_sleep hprogram)]
  have hsleep : (s.sleep microseconds).2.waiter? j = s.waiter? j := by
    simp only [waiter?, Scheduler.sleep, task?_setTimer]
    rw [task?_make fun t hcontra => by cases hcontra]
  rw [hsleep]

/-- A task that dozes has made one future. -/
theorem length_doze : (s.doze id next microseconds).futures.length = s.futures.length + 1 :=
  length_defer.trans (length_make _)

/-- A task that dozes has a job that ends its sleep and one behind that. -/
theorem jobs_doze : (s.doze id next microseconds).jobs.Perm
    (.wake id s.futures.length :: .elapse s.futures.length :: s.jobs) := by
  refine (jobs_defer (Nat.lt_of_lt_of_eq (Nat.lt_succ_self _) length_sleep.symm)).trans
    (List.Perm.cons _ ?_)
  exact (jobs_setTimer _).trans (List.Perm.of_eq (congrArg _ (jobs_make _)))

/-- A task that dozes has set a timer. -/
theorem timers_doze : (s.doze id next microseconds).timers =
    s.timers ++ [⟨s.now + microseconds, .elapse s.futures.length⟩] :=
  timers_defer.1

/-- A task that goes to sleep takes no time by itself. -/
theorem now_doze : (s.doze id next microseconds).now = s.now :=
  timers_defer.2

/-- A new sleep keeps all requests to cancel. -/
theorem mustCancel_sleep : (s.sleep microseconds).2.mustCancel j = s.mustCancel j := by
  rw [mustCancel, Scheduler.sleep]
  dsimp only
  rw [task?_setTimer, task?_make (fun t hcontra => by cases hcontra), mustCancel]

variable (hcalm : s.mustCancel id = false)

include hcalm

/-- Only the task and the new sleep are changed when a task dozes. -/
theorem future?_doze (hid : id < s.futures.length) : (s.doze id next microseconds).future? j =
    if j = s.futures.length then some { kind := .sleep, callbacks := [.wake id s.futures.length] }
    else if j = id then
      (s.future? j).map (·.mapTask fun t => { t with program := next, waiter := some s.futures.length })
    else s.future? j := by
  have hsleep : (s.sleep microseconds).2.future? j =
      if j = s.futures.length then some { kind := .sleep } else s.future? j :=
    (future?_setTimer _).trans (future?_make _)
  rw [doze, future?_defer (mustCancel_sleep.trans hcalm) (Nat.ne_of_lt hid), hsleep]
  by_cases hj : j = s.futures.length
  · simp [hj, Future.notify]
  · simp [hj]

/-- Only the state of the task itself changes when a task dozes. -/
theorem task?_doze (hid : id < s.futures.length) : (s.doze id next microseconds).task? j =
    if j = id then
      (s.task? j).map fun t => { t with program := next, waiter := some s.futures.length }
    else s.task? j := by
  rw [task?_eq_bind, task?_eq_bind, future?_doze hcalm hid]
  by_cases hj : j = s.futures.length
  · have hne : j ≠ id := by lia
    rw [if_pos hj, if_neg hne, future?_eq_none_iff.2 (Nat.le_of_eq hj.symm)]
    rfl
  · rw [if_neg hj]
    split
    · cases s.future? j <;> simp
    · rfl

/-- No future ends when a task dozes. -/
theorem ending?_doze (hid : id < s.futures.length) :
    (s.doze id next microseconds).ending? j = s.ending? j := by
  rw [ending?, ending?, future?_doze hcalm hid]
  by_cases hj : j = s.futures.length
  · rw [if_pos hj, future?_eq_none_iff.2 (Nat.le_of_eq hj.symm)]
    rfl
  · rw [if_neg hj]
    split
    · cases s.future? j <;> simp
    · rfl

/-- A task that dozes queues nothing. -/
theorem ready_doze : (s.doze id next microseconds).ready = s.ready := by
  refine ready_defer (mustCancel_sleep.trans hcalm) ?_
  have hsleep : (s.sleep microseconds).2.ending? s.futures.length = s.ending? s.futures.length :=
    (ending?_setTimer _).trans (ending?_make _)
  rw [hsleep, ending?, future?_eq_none_iff.2 (Nat.le_refl _)]
  rfl

end Doze

end Scheduler

end PipelineGraph.Simulation
