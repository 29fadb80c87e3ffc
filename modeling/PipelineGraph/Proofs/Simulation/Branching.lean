import PipelineGraph.Proofs.Simulation.Additions

/-!
# Branching

A task that branches makes new tasks, one after another, and goes on behind a gathering of them. What that
leaves behind is given future by future, with the jobs that it adds.
-/

namespace PipelineGraph.Simulation

variable {P A : Type}

namespace Scheduler

variable {s : Scheduler P A} {i j id source : FutureId} {job : Job A} {children : List FutureId}

/-- A task goes on with another program behind a gathering of new tasks. -/
def branch (s : Scheduler P A) (id : FutureId) (programs : List P) (next : List FutureId → P) :
    Scheduler P A :=
  let spawned := s.spawnAll programs
  (spawned.2.gather spawned.1).2.defer id (next spawned.1) spawned.2.futures.length

/-- The numbers of the next futures. -/
def fresh (s : Scheduler P A) (n : Nat) : List FutureId :=
  List.range' s.futures.length n

/-- New futures get the next ids. -/
@[simp] theorem mem_fresh {n : Nat} :
    id ∈ s.fresh n ↔ s.futures.length ≤ id ∧ id < s.futures.length + n :=
  List.mem_range'_1

section Branch

variable {programs : List P} {next : List FutureId → P}

/-- The scheduler with new tasks. -/
theorem future?_spawnAll : (s.spawnAll programs).2.future? j =
    if j < s.futures.length then s.future? j
    else (programs[j - s.futures.length]?).map fun program => { kind := .task { program } } := by
  rw [spawnAll_eq]
  simp only [future?, List.getElem?_append, List.getElem?_map]

/-- New tasks have not ended. -/
theorem ending?_spawnAll : (s.spawnAll programs).2.ending? j = s.ending? j := by
  unfold ending?
  rw [future?_spawnAll]
  split
  · rfl
  · next hlt =>
    rw [future?_eq_none_iff.2 (Nat.le_of_not_lt hlt)]
    cases programs[j - s.futures.length]? <;> rfl

/-- New tasks are so many more futures. -/
theorem length_spawnAll (programs : List P) :
    (s.spawnAll programs).2.futures.length = s.futures.length + programs.length := by
  simp [spawnAll_eq]

/-- A future that does not exist has not ended. -/
theorem ending?_of_length_le (h : s.futures.length ≤ id) : s.ending? id = none := by
  rw [ending?, future?_eq_none_iff.2 h]
  rfl

/-- The scheduler with new tasks and their gathering. -/
theorem bareKind?_gather_spawnAll : ((s.spawnAll programs).2.gather (s.fresh programs.length)).2.bareKind? j =
    if j < s.futures.length then s.bareKind? j
    else if j = s.futures.length + programs.length then some (.gathering (s.fresh programs.length))
    else (programs[j - s.futures.length]?).map .task := by
  refine (gather_keeps (·.bareKind? j) (fun _ _ _ => bareKind?_whenEnded) _ _).trans ((bareKind?_make _).trans ?_)
  rw [length_spawnAll, bareKind?, kind?, future?_spawnAll]
  by_cases hlt : j < s.futures.length
  · rw [if_neg (by lia), if_pos hlt, if_pos hlt]
    rfl
  · rw [if_neg hlt, if_neg hlt]
    split
    · rfl
    · cases programs[j - s.futures.length]? <;> rfl

/-- A task has the same program when others are made. -/
theorem program?_gather_spawnAll {program : P} (hprogram : s.program? id = some program) :
    ((s.spawnAll programs).2.gather (s.fresh programs.length)).2.program? id = some program := by
  refine (program?_congr ?_).trans hprogram
  rw [bareKind?_gather_spawnAll, if_pos (lt_of_program? hprogram)]

/-- New tasks have the next numbers. -/
theorem fst_spawnAll (programs : List P) : (s.spawnAll programs).1 = s.fresh programs.length := by
  rw [spawnAll_eq]
  rfl

/-- A task that branches has another program, and there are new tasks and their gathering. -/
theorem bareKind?_branch {program : P} (hprogram : s.program? id = some program) :
    (s.branch id programs next).bareKind? j =
      if j = id then some (.task (next (s.fresh programs.length)))
      else if j < s.futures.length then s.bareKind? j
      else if j = s.futures.length + programs.length then some (.gathering (s.fresh programs.length))
      else (programs[j - s.futures.length]?).map .task := by
  rw [branch, fst_spawnAll, bareKind?_defer (program?_gather_spawnAll hprogram), bareKind?_gather_spawnAll]

/-- A task that branches has another program, and there are the programs of the new tasks. -/
theorem program?_branch (programs : List P) (next : List FutureId → P) {program : P}
    (hprogram : s.program? id = some program) :
    (s.branch id programs next).program? j =
      if j = id then some (next (s.fresh programs.length))
      else if j < s.futures.length then s.program? j else programs[j - s.futures.length]? := by
  rw [program?_eq_bind, program?_eq_bind, bareKind?_branch hprogram]
  split
  · rfl
  · split
    · rfl
    · split
      · next heq =>
        have hnone : programs[j - s.futures.length]? = none := List.getElem?_eq_none_iff.2 (by lia)
        rw [hnone]
        rfl
      · cases programs[j - s.futures.length]? <;> rfl

/-- What a task waits for that branches is the new gathering. -/
theorem waiter?_branch {program : P} (hprogram : s.program? id = some program) :
    (s.branch id programs next).waiter? j =
      if j = id then some (s.futures.length + programs.length) else s.waiter? j := by
  rw [branch, fst_spawnAll, waiter?_defer (program?_gather_spawnAll hprogram), length_spawnAll]
  by_cases hj : j = id
  · rw [if_pos hj, if_pos hj]
  · rw [if_neg hj, if_neg hj, waiter?, waiter?, task?_gather, task?_eq_bind, task?_eq_bind,
      future?_spawnAll]
    split
    · rfl
    · next hge =>
      rw [future?_eq_none_iff.2 (Nat.le_of_not_lt hge)]
      cases programs[j - s.futures.length]? <;> rfl

/-- A task that branches has made the new tasks and their gathering. -/
theorem length_branch :
    (s.branch id programs next).futures.length = s.futures.length + programs.length + 1 := by
  rw [branch, length_defer, length_gather, length_spawnAll]

/-- A task that branches has added a turn and a counting for each new task and its own turn. -/
theorem jobs_branch (programs : List P) (next : List FutureId → P) : (s.branch id programs next).jobs.Perm
    (.wake id (s.futures.length + programs.length) ::
      (s.fresh programs.length).map (.count (s.futures.length + programs.length)) ++
      ((s.fresh programs.length).map .resume ++ s.jobs)) := by
  have hspawned : (s.spawnAll programs).2.jobs.Perm
      ((s.fresh programs.length).map .resume ++ s.jobs) := by
    rw [spawnAll_eq]
    have hnone : (programs.map fun program => ({ kind := .task { program } } : Future P A)).flatMap
        (·.callbacks) = [] := by
      rw [List.flatMap_map]
      exact List.flatMap_eq_nil_iff.2 fun _ _ => rfl
    simp only [jobs, fresh, List.flatMap_append, hnone, List.append_nil, List.append_assoc]
    simp only [← List.append_assoc]
    exact (List.perm_append_comm.append_right _).append_right _
  have hgathered : ((s.spawnAll programs).2.gather (s.fresh programs.length)).2.jobs.Perm
      ((s.fresh programs.length).map (.count (s.futures.length + programs.length)) ++
        (s.spawnAll programs).2.jobs) := by
    rw [← length_spawnAll]
    have hlt : ∀ c ∈ s.fresh programs.length, c < ((s.spawnAll programs).2.make
        (.gathering { children := s.fresh programs.length })).2.futures.length := by
      intro c hc
      rw [length_make, length_spawnAll]
      exact Nat.lt_succ_of_lt (mem_fresh.1 hc).2
    exact (jobs_gather hlt _).trans (List.Perm.of_eq (congrArg _ (jobs_make _)))
  rw [branch, fst_spawnAll, ← length_spawnAll]
  refine (jobs_defer ?_).trans ?_
  · rw [length_gather]
    exact Nat.lt_succ_self _
  · rw [length_spawnAll]
    exact (hgathered.trans (hspawned.append_left _)).cons _

/-- A task keeps a request to cancel it when others are made. -/
theorem mustCancel_spawnAll (hid : id < s.futures.length) (cs : List FutureId) :
    ((s.spawnAll programs).2.gather cs).2.mustCancel id = s.mustCancel id := by
  rw [mustCancel, task?_gather, mustCancel]
  simp only [task?, kind?]
  rw [future?_spawnAll, if_pos hid]

/-- A task that branches sets no timer and does not move the clock. -/
theorem timers_branch (programs : List P) (next : List FutureId → P) :
    (s.branch id programs next).timers = s.timers ∧ (s.branch id programs next).now = s.now := by
  have hspawned : (s.spawnAll programs).2.timers = s.timers ∧ (s.spawnAll programs).2.now = s.now := by
    rw [spawnAll_eq]
    exact ⟨rfl, rfl⟩
  rw [branch]
  exact ⟨timers_defer.1.trans (timers_gather.1.trans hspawned.1),
    timers_defer.2.trans (timers_gather.2.trans hspawned.2)⟩

variable (hcalm : s.mustCancel id = false)

include hcalm

/-- Only the task is changed besides the new futures when a task branches. -/
theorem future?_branch (hid : id < s.futures.length) : (s.branch id programs next).future? j =
    if j = id then (s.future? j).map (·.mapTask fun t =>
      { t with
        program := next (s.fresh programs.length)
        waiter := some (s.futures.length + programs.length) })
    else if j < s.futures.length then s.future? j
    else if j = s.futures.length + programs.length then
      some
        { kind := .gathering { children := s.fresh programs.length }
          callbacks := [.wake id (s.futures.length + programs.length)] }
    else (programs[j - s.futures.length]?).map fun program =>
      { kind := .task { program }, callbacks := [.count (s.futures.length + programs.length) j] } := by
  have hlength := length_spawnAll (s := s) programs
  have hnodup : (List.range' s.futures.length programs.length).Nodup := List.nodup_range'
  have hids : (s.spawnAll programs).1 = List.range' s.futures.length programs.length := by
    rw [spawnAll_eq]
  rw [branch, hids, future?_defer ((mustCancel_spawnAll hid _).trans hcalm) (by rw [hlength]; lia),
    future?_gather hnodup,
    future?_make, hlength, future?_spawnAll]
  by_cases hj : j = id
  · subst hj
    have hne : ¬ j = s.futures.length + programs.length := by lia
    have hnot : j ∉ List.range' s.futures.length programs.length := by
      rw [List.mem_range'_1]
      lia
    simp [hne, hnot, hid, fresh]
  · by_cases hlt : j < s.futures.length
    · have hne : ¬ j = s.futures.length + programs.length := by lia
      have hnot : j ∉ List.range' s.futures.length programs.length := by
        rw [List.mem_range'_1]
        lia
      simp [hj, hne, hnot, hlt]
    · by_cases hgathering : j = s.futures.length + programs.length
      · subst hgathering
        have hnot : s.futures.length + programs.length ∉
            List.range' s.futures.length programs.length := by
          rw [List.mem_range'_1]
          lia
        simp [hj, hnot, Future.notify, fresh]
      · by_cases hchild : j < s.futures.length + programs.length
        · have hmem : j ∈ List.range' s.futures.length programs.length := by
            rw [List.mem_range'_1]
            lia
          simp [hj, hlt, hgathering, hmem, Future.notify]
          rfl
        · have hnot : j ∉ List.range' s.futures.length programs.length := by
            rw [List.mem_range'_1]
            lia
          have hnone : programs[j - s.futures.length]? = none := List.getElem?_eq_none_iff.2 (by lia)
          simp [hj, hlt, hgathering, hnot, hnone]

/-- Only the state of the task itself changes besides the new tasks when a task branches. -/
theorem task?_branch (hid : id < s.futures.length) : (s.branch id programs next).task? j =
    if j = id then
      (s.task? j).map fun t =>
        { t with
          program := next (s.fresh programs.length)
          waiter := some (s.futures.length + programs.length) }
    else if j < s.futures.length then s.task? j
    else (programs[j - s.futures.length]?).map fun program => { program } := by
  rw [task?_eq_bind, task?_eq_bind, future?_branch hcalm hid]
  by_cases hj : j = id
  · simp only [if_pos hj]
    cases s.future? j <;> simp
  · simp only [if_neg hj]
    by_cases hlt : j < s.futures.length
    · simp only [if_pos hlt]
    · simp only [if_neg hlt]
      split
      · next heq =>
        have hnone : programs[j - s.futures.length]? = none := List.getElem?_eq_none_iff.2 (by lia)
        rw [hnone]
        rfl
      · cases programs[j - s.futures.length]? <;> rfl

/-- No future ends when a task branches. -/
theorem ending?_branch (hid : id < s.futures.length) :
    (s.branch id programs next).ending? j = s.ending? j := by
  rw [ending?, ending?, future?_branch hcalm hid]
  split
  · cases s.future? j <;> simp
  · split
    · rfl
    · next hlt =>
      rw [future?_eq_none_iff.2 (Nat.le_of_not_lt hlt)]
      split
      · rfl
      · cases programs[j - s.futures.length]? <;> rfl

/-- A task that branches queues the new tasks. -/
theorem ready_branch (hid : id < s.futures.length) : (s.branch id programs next).ready =
    s.ready ++ (s.fresh programs.length).map .resume := by
  have hlive : ∀ c ∈ s.fresh programs.length, (s.spawnAll programs).2.ending? c = none := by
    intro c hc
    rw [ending?_spawnAll]
    exact ending?_of_length_le (mem_fresh.1 hc).1
  have hgathering : ((s.spawnAll programs).2.gather (s.fresh programs.length)).2.ending?
      (s.spawnAll programs).2.futures.length = none := by
    have hnodup : (s.fresh programs.length).Nodup := List.nodup_range'
    have hnot : (s.spawnAll programs).2.futures.length ∉ s.fresh programs.length := by
      rw [mem_fresh, length_spawnAll]
      lia
    rw [ending?, future?_gather hnodup, if_neg hnot, future?_make, if_pos rfl]
    rfl
  rw [branch, fst_spawnAll, ready_defer ((mustCancel_spawnAll hid _).trans hcalm) hgathering, ready_gather hlive,
    spawnAll_eq]
  rfl

end Branch

end Scheduler

end PipelineGraph.Simulation
