import PipelineGraph.Simulation.Scheduler
import Mathlib.Data.List.Basic

/-!
# Futures and jobs

What each operation of the scheduler does to the futures, one by one, and to the jobs as a whole.
Jobs stand in the queue, at timers, or at futures that have not ended. To end a future or to move
the clock only moves jobs; new ones come from the operations that wait for something.
-/

namespace PipelineGraph.Simulation

variable {P A : Type}

namespace Job

/-- The task that a job lets go on. -/
def task? : Job A → Option FutureId
  | resume task => some task
  | wake task _ => some task
  | _ => none

/-- The future behind whose end a job comes. -/
def source? : Job A → Option FutureId
  | wake _ source => some source
  | count _ child => some child
  | _ => none

/-- The gathering for which a job counts. -/
def gathering? : Job A → Option FutureId
  | count gathering _ => some gathering
  | _ => none

/-- The future that a job is about. -/
def subject? : Job A → Option FutureId
  | resume task => some task
  | wake task _ => some task
  | count gathering _ => some gathering
  | elapse sleep => some sleep
  | act _ => none

variable {job : Job A} {id source : FutureId}

/-- A job that lets a task go on behind the end of a future wakes the task. -/
theorem eq_wake (htask : job.task? = some id) (hsource : job.source? = some source) : job = .wake id source := by
  cases job with
  | wake =>
    cases htask
    cases hsource
    rfl
  | resume => cases hsource
  | count | elapse | act => cases htask

/-- A job that lets a task go on is about the task. -/
theorem subject?_of_task? (h : job.task? = some id) : job.subject? = some id := by
  cases job <;> simp_all [task?, subject?]

/-- A job that counts is about the gathering. -/
theorem subject?_of_gathering? (h : job.gathering? = some id) : job.subject? = some id := by
  cases job <;> simp_all [gathering?, subject?]

end Job

namespace Future

/-- A future once it has ended; it ends only once. -/
def endWith (ending : Ending) (f : Future P A) : Future P A :=
  if f.ending.isSome then f else { f with ending := some ending, callbacks := [] }

/-- A future with one more job behind its end, unless it has ended. -/
def notify (job : Job A) (f : Future P A) : Future P A :=
  if f.ending.isSome then f else { f with callbacks := f.callbacks ++ [job] }

/-- A future with a changed state of its task, if it is one. -/
def mapTask (F : TaskState P → TaskState P) (f : Future P A) : Future P A :=
  match f.kind with
  | .task t => { f with kind := .task (F t) }
  | _ => f

/-- A future with a changed state of its gathering, if it is one. -/
def mapGathering (F : GatheringState → GatheringState) (f : Future P A) : Future P A :=
  match f.kind with
  | .gathering g => { f with kind := .gathering (F g) }
  | _ => f

variable {f : Future P A} {ending : Ending} {job : Job A}

/-- Changing a task ends nothing. -/
@[simp] theorem ending_mapTask (F : TaskState P → TaskState P) : (f.mapTask F).ending = f.ending := by
  unfold mapTask; split <;> rfl

/-- Changing a task leaves the callbacks of its future. -/
@[simp] theorem callbacks_mapTask (F : TaskState P → TaskState P) :
    (f.mapTask F).callbacks = f.callbacks := by
  unfold mapTask; split <;> rfl

/-- Changing a gathering ends nothing. -/
@[simp] theorem ending_mapGathering (F : GatheringState → GatheringState) :
    (f.mapGathering F).ending = f.ending := by
  unfold mapGathering; split <;> rfl

/-- Changing a gathering leaves the callbacks of its future. -/
@[simp] theorem callbacks_mapGathering (F : GatheringState → GatheringState) :
    (f.mapGathering F).callbacks = f.callbacks := by
  unfold mapGathering; split <;> rfl

/-- A future that ends stays of its kind. -/
@[simp] theorem kind_endWith : (f.endWith ending).kind = f.kind := by
  unfold endWith; split <;> rfl

/-- A future that gets a callback stays of its kind. -/
@[simp] theorem kind_notify : (f.notify job).kind = f.kind := by
  unfold notify; split <;> rfl

/-- A callback ends nothing. -/
@[simp] theorem ending_notify : (f.notify job).ending = f.ending := by
  unfold notify; split <;> rfl

/-- To end a future keeps the ending that it has. -/
theorem ending_endWith : (f.endWith ending).ending = some (f.ending.getD ending) := by
  unfold endWith
  cases h : f.ending <;> simp [h]

/-- What has just ended waits for nothing. -/
theorem callbacks_endWith : (f.endWith ending).callbacks = if f.ending.isSome then f.callbacks else [] := by
  unfold endWith; split <;> rfl

/-- A job is added behind the end of a future that has not ended. -/
theorem callbacks_notify :
    (f.notify job).callbacks = if f.ending.isSome then f.callbacks else f.callbacks ++ [job] := by
  unfold notify; split <;> rfl

end Future

namespace Scheduler

variable {s : Scheduler P A} {i j id : FutureId} {job : Job A} {ending : Ending}

/-! ## Futures -/

/-- There is a future for every number below the number of futures. -/
theorem future?_eq_none_iff : s.future? id = none ↔ s.futures.length ≤ id :=
  List.getElem?_eq_none_iff

/-- A future has a number below the number of futures. -/
theorem lt_of_future? {f : Future P A} (h : s.future? id = some f) : id < s.futures.length := by
  by_contra hle
  rw [future?_eq_none_iff.2 (Nat.le_of_not_lt hle)] at h
  cases h

/-- A change of a future changes no other one. -/
theorem future?_modifyFuture (F : Future P A → Future P A) :
    (s.modifyFuture i F).future? j = if i = j then (s.future? j).map F else s.future? j := by
  simp only [future?, modifyFuture, List.getElem?_modify]
  split
  · rfl
  · exact congrFun Option.map_id _

/-- A new future has the next number. -/
theorem future?_make (kind : FutureKind P) :
    (s.make kind).2.future? j = if j = s.futures.length then some { kind } else s.future? j := by
  simp only [future?, make, List.getElem?_append]
  by_cases hlt : j < s.futures.length
  · simp [hlt, Nat.ne_of_lt hlt]
  · by_cases heq : j = s.futures.length
    · simp [heq]
    · have hnone : j - s.futures.length ≠ 0 := by lia
      simp [hlt, heq, hnone]

/-- A ready job changes no future. -/
@[simp] theorem future?_push : (s.push job).future? id = s.future? id :=
  rfl

/-- A timer changes no future. -/
@[simp] theorem future?_setTimer (deadline : Nat) :
    (s.setTimer deadline job).future? id = s.future? id :=
  rfl

/-- To end a future changes no other one. -/
theorem future?_complete (ending : Ending) :
    (s.complete i ending).future? j =
      if i = j then (s.future? j).map (·.endWith ending) else s.future? j := by
  unfold complete
  split
  · next h =>
    split
    · next hij => rw [← hij, h]; rfl
    · rfl
  · next f h =>
    split
    · next hended =>
      split
      · next hij => simp [← hij, h, Future.endWith, hended]
      · rfl
    · next hlive =>
      change (s.modifyFuture i _).future? j = _
      rw [future?_modifyFuture]
      split
      · next hij => simp [← hij, h, Future.endWith, hlive]
      · rfl

/-- To wait for the end of a future changes no other one. -/
theorem future?_whenEnded (job : Job A) :
    (s.whenEnded i job).future? j =
      if i = j then (s.future? j).map (·.notify job) else s.future? j := by
  unfold whenEnded
  split
  · next hended =>
    rw [future?_push]
    split
    · next hij =>
      subst hij
      cases h : s.future? i with
      | none => rfl
      | some f =>
        have hf : f.ending.isSome = true := by simpa [hasEnded, ending?, h] using hended
        simp [Future.notify, hf]
    · rfl
  · next hlive =>
    rw [future?_modifyFuture]
    split
    · next hij =>
      subst hij
      cases h : s.future? i with
      | none => rfl
      | some f =>
        have hf : f.ending.isSome = false := by simpa [hasEnded, ending?, h] using hlive
        simp [Future.notify, hf]
    · rfl

/-- A change of a task changes no other future. -/
theorem future?_modifyTask (F : TaskState P → TaskState P) :
    (s.modifyTask i F).future? j = if i = j then (s.future? j).map (·.mapTask F) else s.future? j :=
  future?_modifyFuture _

/-- A change of a gathering changes no other future. -/
theorem future?_modifyGathering (F : GatheringState → GatheringState) :
    (s.modifyGathering i F).future? j =
      if i = j then (s.future? j).map (·.mapGathering F) else s.future? j :=
  future?_modifyFuture _

/-! ## Kinds and endings -/

/-- Changing a task ends nothing. -/
@[simp] theorem ending?_modifyTask (F : TaskState P → TaskState P) :
    (s.modifyTask i F).ending? j = s.ending? j := by
  unfold ending?
  rw [future?_modifyTask]
  split
  · cases s.future? j <;> simp
  · rfl

/-- Changing a gathering ends nothing. -/
@[simp] theorem ending?_modifyGathering (F : GatheringState → GatheringState) :
    (s.modifyGathering i F).ending? j = s.ending? j := by
  unfold ending?
  rw [future?_modifyGathering]
  split
  · cases s.future? j <;> simp
  · rfl

/-- A change of a task changes its state. -/
theorem task?_modifyTask (F : TaskState P → TaskState P) :
    (s.modifyTask i F).task? j = if i = j then (s.task? j).map F else s.task? j := by
  unfold task? kind?
  rw [future?_modifyTask]
  by_cases hij : i = j
  · cases s.future? j with
    | none => simp [hij]
    | some f => cases hk : f.kind <;> simp [hij, Future.mapTask, hk]
  · simp only [hij, if_false]

/-- A change of a gathering changes no task. -/
@[simp] theorem task?_modifyGathering (F : GatheringState → GatheringState) :
    (s.modifyGathering i F).task? j = s.task? j := by
  unfold task? kind?
  rw [future?_modifyGathering]
  by_cases hij : i = j
  · cases s.future? j with
    | none => simp
    | some f => cases hk : f.kind <;> simp [hij, Future.mapGathering, hk]
  · simp only [hij, if_false]

/-- A task is a future of that kind. -/
theorem task?_eq_some_iff {t : TaskState P} : s.task? id = some t ↔ s.kind? id = some (.task t) := by
  unfold task?
  split
  · next t' ht => rw [ht]; simp
  · next h => simp_all

/-- A future that has ended in one way keeps that ending. -/
theorem ending?_complete (ending : Ending) :
    (s.complete i ending).ending? j =
      if i = j then (s.future? j).map (·.ending.getD ending) else s.ending? j := by
  unfold ending?
  rw [future?_complete]
  split
  · cases s.future? j with
    | none => rfl
    | some f => simp [Future.ending_endWith]
  · rfl

/-- A future that has not ended ends as it is to. -/
theorem ending?_complete_of_live (hlt : i < s.futures.length) (hlive : s.ending? i = none) (ending : Ending) :
    (s.complete i ending).ending? i = some ending := by
  rw [ending?, future?, List.getElem?_eq_getElem hlt, Option.bind_some] at hlive
  rw [ending?_complete, if_pos rfl, future?, List.getElem?_eq_getElem hlt, Option.map_some, hlive]
  rfl

/-- An ending stays when another future ends, and when the same one is ended again. -/
theorem ending?_complete_of_ended {e : Ending} (h : s.ending? j = some e) (ending : Ending) :
    (s.complete i ending).ending? j = some e := by
  rw [ending?_complete]
  split
  · unfold ending? at h
    obtain ⟨f, hf, he⟩ := Option.bind_eq_some_iff.1 h
    simp [hf, he]
  · exact h

/-- A future that ends stays of its kind. -/
@[simp] theorem kind?_complete (ending : Ending) : (s.complete i ending).kind? j = s.kind? j := by
  unfold kind?
  rw [future?_complete]
  split
  · simp [Function.comp_def]
  · rfl

/-- Waiting for an end brings none about. -/
@[simp] theorem ending?_whenEnded (job : Job A) : (s.whenEnded i job).ending? j = s.ending? j := by
  unfold ending?
  rw [future?_whenEnded]
  split
  · cases s.future? j with
    | none => rfl
    | some f => simp
  · rfl

/-- Waiting for an end changes the kind of no future. -/
@[simp] theorem kind?_whenEnded (job : Job A) : (s.whenEnded i job).kind? j = s.kind? j := by
  unfold kind?
  rw [future?_whenEnded]
  split
  · simp [Function.comp_def]
  · rfl

/-- A new future has not ended. -/
@[simp] theorem ending?_make (kind : FutureKind P) : (s.make kind).2.ending? j = s.ending? j := by
  unfold ending?
  rw [future?_make]
  split
  · next h => simp [future?_eq_none_iff.2 (Nat.le_of_eq h.symm)]
  · rfl

/-- A new future is of the kind that was asked for. -/
theorem kind?_make (kind : FutureKind P) :
    (s.make kind).2.kind? j = if j = s.futures.length then some kind else s.kind? j := by
  unfold kind?
  rw [future?_make]
  split <;> rfl

/-- A timer ends nothing. -/
@[simp] theorem ending?_setTimer (deadline : Nat) :
    (s.setTimer deadline job).ending? id = s.ending? id :=
  rfl

/-- What has a kind is a future. -/
theorem kind?_eq_some_iff {kind : FutureKind P} :
    s.kind? id = some kind ↔ ∃ f, s.future? id = some f ∧ f.kind = kind := by
  simp [kind?]

/-- What has ended is a future. -/
theorem ending?_eq_some_iff {e : Ending} :
    s.ending? id = some e ↔ ∃ f, s.future? id = some f ∧ f.ending = some e := by
  simp [ending?, Option.bind_eq_some_iff]

/-- Changing a future makes none. -/
@[simp] theorem length_modifyFuture (F : Future P A → Future P A) :
    (s.modifyFuture i F).futures.length = s.futures.length := by
  simp [modifyFuture]

/-- One more future is made. -/
@[simp] theorem length_make (kind : FutureKind P) :
    (s.make kind).2.futures.length = s.futures.length + 1 := by
  simp [make]

/-- A future that ends makes none. -/
@[simp] theorem length_complete (ending : Ending) :
    (s.complete i ending).futures.length = s.futures.length := by
  unfold complete
  split
  · rfl
  · split
    · rfl
    · exact length_modifyFuture _

/-- Waiting for an end makes no future. -/
@[simp] theorem length_whenEnded (job : Job A) :
    (s.whenEnded i job).futures.length = s.futures.length := by
  unfold whenEnded
  split
  · rfl
  · exact length_modifyFuture _

/-! ## Queue, timers and clock -/

/-- The jobs behind the end of a future. -/
def callbacks (s : Scheduler P A) (id : FutureId) : List (Job A) :=
  ((s.future? id).map (·.callbacks)).getD []

/-- Changing a task leaves all callbacks. -/
@[simp] theorem callbacks_modifyTask (F : TaskState P → TaskState P) :
    (s.modifyTask i F).callbacks j = s.callbacks j := by
  unfold callbacks
  rw [future?_modifyTask]
  split <;> cases s.future? j <;> simp

/-- Changing a gathering leaves all callbacks. -/
@[simp] theorem callbacks_modifyGathering (F : GatheringState → GatheringState) :
    (s.modifyGathering i F).callbacks j = s.callbacks j := by
  unfold callbacks
  rw [future?_modifyGathering]
  split <;> cases s.future? j <;> simp

/-- A future that ends queues the jobs behind its end. -/
theorem ready_complete (ending : Ending) :
    (s.complete i ending).ready =
      if s.hasEnded i then s.ready else s.ready ++ s.callbacks i := by
  unfold complete
  split
  · next h => simp [callbacks, h]
  · next f h =>
    by_cases hended : f.ending.isSome = true
    · simp [hasEnded, ending?, h, hended]
    · simp [hasEnded, ending?, h, hended, callbacks, modifyFuture]

/-- A future that ends leaves the timers. -/
@[simp] theorem timers_complete (ending : Ending) : (s.complete i ending).timers = s.timers := by
  unfold complete
  split
  · rfl
  · split <;> rfl

/-- A future that ends takes no time. -/
@[simp] theorem now_complete (ending : Ending) : (s.complete i ending).now = s.now := by
  unfold complete
  split
  · rfl
  · split <;> rfl

/-- A job behind the end of a future that has ended is queued. -/
theorem ready_whenEnded (job : Job A) :
    (s.whenEnded i job).ready = if s.hasEnded i then s.ready ++ [job] else s.ready := by
  unfold whenEnded
  split <;> rfl

/-- Waiting for an end leaves the timers. -/
@[simp] theorem timers_whenEnded (job : Job A) : (s.whenEnded i job).timers = s.timers := by
  unfold whenEnded
  split <;> rfl

/-- Waiting for an end takes no time. -/
@[simp] theorem now_whenEnded (job : Job A) : (s.whenEnded i job).now = s.now := by
  unfold whenEnded
  split <;> rfl

/-! ## Jobs -/

/-- All jobs: those of the queue, those of timers, and those behind the ends of futures. -/
def jobs (s : Scheduler P A) : List (Job A) :=
  s.ready ++ s.timers.map (·.job) ++ s.futures.flatMap (·.callbacks)

/-- A future passes on, besides the jobs that it keeps, what it had. -/
theorem flatMap_modify_perm (kept more : List (Job A)) {futures : List (Future P A)}
    {F : Future P A → Future P A} {f : Future P A} (hf : futures[i]? = some f)
    (hF : (kept ++ (F f).callbacks).Perm (more ++ f.callbacks)) :
    (kept ++ (futures.modify i F).flatMap (·.callbacks)).Perm
      (more ++ futures.flatMap (·.callbacks)) := by
  have hmove : ∀ a b c d : List (Job A), (a ++ (b ++ (c ++ d))).Perm (b ++ ((a ++ c) ++ d)) := by
    intro a b c d
    simp only [← List.append_assoc]
    exact (List.perm_append_comm.append_right c).append_right d
  obtain ⟨hi, rfl⟩ := List.getElem?_eq_some_iff.1 hf
  obtain ⟨before, g, after, hsplit, hlength, hmodify⟩ := List.exists_of_modify F hi
  have hg : futures[i] = g := by
    subst hlength
    simp [hsplit]
  rw [hg] at hF
  rw [hmodify, hsplit]
  simp only [List.flatMap_append, List.flatMap_cons]
  exact (hmove _ _ _ _).trans (((hF.append_right _).append_left _).trans (hmove _ _ _ _).symm)

/-- A change of a future that keeps its jobs keeps all jobs. -/
theorem jobs_modifyFuture {F : Future P A → Future P A}
    (hF : ∀ f, (F f).callbacks = f.callbacks) : (s.modifyFuture i F).jobs.Perm s.jobs := by
  unfold jobs
  refine List.Perm.append_left _ ?_
  cases hf : s.futures[i]? with
  | none =>
    rw [modifyFuture, List.modify_eq_self (List.getElem?_eq_none_iff.1 hf)]
  | some f =>
    exact flatMap_modify_perm [] [] hf (List.Perm.of_eq (by rw [hF]))

/-- A change of a task keeps all jobs. -/
theorem jobs_modifyTask (F : TaskState P → TaskState P) : (s.modifyTask i F).jobs.Perm s.jobs :=
  jobs_modifyFuture fun _ => Future.callbacks_mapTask F

/-- A change of a gathering keeps all jobs. -/
theorem jobs_modifyGathering (F : GatheringState → GatheringState) :
    (s.modifyGathering i F).jobs.Perm s.jobs :=
  jobs_modifyFuture fun _ => Future.callbacks_mapGathering F

/-- A job that is queued is one more. -/
theorem jobs_push : (s.push job).jobs.Perm (job :: s.jobs) := by
  simp only [jobs, push, List.append_assoc, List.singleton_append]
  exact List.perm_middle

/-- A job that a timer is set for is one more. -/
theorem jobs_setTimer (deadline : Nat) : (s.setTimer deadline job).jobs.Perm (job :: s.jobs) := by
  have hsplit : (s.setTimer deadline job).jobs =
      (s.ready ++ s.timers.map (·.job)) ++ job :: s.futures.flatMap (·.callbacks) := by
    simp [jobs, setTimer]
  exact hsplit ▸ List.perm_middle

/-- A new future brings no job. -/
@[simp] theorem jobs_make (kind : FutureKind P) : (s.make kind).2.jobs = s.jobs := by
  simp [jobs, make]

/-- A future that ends only moves jobs. -/
theorem jobs_complete (ending : Ending) : (s.complete i ending).jobs.Perm s.jobs := by
  unfold complete
  split
  · exact List.Perm.refl _
  · next f hf =>
    split
    · exact List.Perm.refl _
    · have hmoved := flatMap_modify_perm f.callbacks []
        (F := fun f => { f with ending := some ending, callbacks := [] }) hf (by simp)
      have hqueue : ∀ a b c d : List (Job A), (a ++ b ++ c ++ d).Perm (a ++ c ++ (b ++ d)) := by
        intro a b c d
        simp only [List.append_assoc]
        refine List.Perm.append_left a ?_
        simp only [← List.append_assoc]
        exact List.perm_append_comm.append_right d
      exact (hqueue _ _ _ _).trans (hmoved.append_left _)

/-- A job behind the end of a future is one more. -/
theorem jobs_whenEnded (hi : i < s.futures.length) (job : Job A) :
    (s.whenEnded i job).jobs.Perm (job :: s.jobs) := by
  unfold whenEnded
  split
  · exact jobs_push
  · have hmore := flatMap_modify_perm [] [job]
      (F := fun f => { f with callbacks := f.callbacks ++ [job] }) (List.getElem?_eq_getElem hi)
      (List.perm_append_singleton _ _)
    exact (hmore.append_left _).trans List.perm_middle

/-- The clock moves on by moving the jobs that are due to the queue. -/
theorem jobs_advance {s' : Scheduler P A} (h : s.advance? = some s') : s'.jobs.Perm s.jobs := by
  unfold advance? at h
  obtain ⟨time, -, rfl⟩ := Option.map_eq_some_iff.1 h
  simp only [jobs, List.append_assoc]
  refine List.Perm.append_left _ ?_
  rw [← List.append_assoc]
  refine List.Perm.append_right _ ?_
  rw [← List.map_append]
  refine List.Perm.map _ ?_
  have hsplit := List.filter_append_perm (fun t : Timer A => decide (t.deadline ≤ time)) s.timers
  refine List.Perm.trans (List.Perm.append_left _ (List.Perm.of_eq ?_)) hsplit
  refine List.filter_congr fun t _ => ?_
  by_cases hle : t.deadline ≤ time
  · simp [hle, Nat.not_lt.2 hle]
  · simp [hle, Nat.lt_of_not_le hle]

end Scheduler

end PipelineGraph.Simulation
