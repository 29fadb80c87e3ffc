import PipelineGraph.Proofs.Simulation.SoundSteps

/-!
# Bare kinds of futures

The bare kind of a future says what it is, whatever has happened to it: a sleep, a gathering of some
children, or a task with a program. Only a task's own turn gives it another program, and only new
futures add bare kinds. Most of what a scheduler does keeps the bare kinds, the jobs, and what tasks
wait for.
-/

namespace PipelineGraph.Simulation

variable {P A : Type}

/-- The state of a task, if a future is one. -/
def Future.task? (f : Future P A) : Option (TaskState P) :=
  match f.kind with
  | .task t => some t
  | _ => none

/-- Changing a task gives the changed task. -/
@[simp] theorem Future.task?_mapTask (F : TaskState P → TaskState P) (f : Future P A) :
    (f.mapTask F).task? = f.task?.map F := by
  cases hk : f.kind <;> simp [task?, mapTask, hk]

/-- What a future is, apart from how far it is. -/
inductive BareKind (P : Type) where
  | sleep
  | gathering (children : List FutureId)
  | task (program : P)

/-- The program of a task, if a bare kind is that of one. -/
def BareKind.program? : BareKind P → Option P
  | .task program => some program
  | _ => none

/-- The bare kind of a kind of future. -/
def FutureKind.bareKind : FutureKind P → BareKind P
  | .sleep => .sleep
  | .gathering g => .gathering g.children
  | .task t => .task t.program

namespace Scheduler

/-- The bare kind of a future. -/
def bareKind? (s : Scheduler P A) (id : FutureId) : Option (BareKind P) :=
  (s.kind? id).map (·.bareKind)

/-- The program of a task. -/
def program? (s : Scheduler P A) (id : FutureId) : Option P :=
  (s.task? id).map (·.program)

/-- What a task waits for. -/
def waiter? (s : Scheduler P A) (id : FutureId) : Option FutureId :=
  (s.task? id).bind (·.waiter)

/-- The scheduler without the first job of its queue. -/
def drop (s : Scheduler P A) (rest : List (Job A)) : Scheduler P A :=
  { s with ready := rest }

/-- A task takes its turn: it waits for nothing and has seen a request to cancel it. -/
def awaken (s : Scheduler P A) (id : FutureId) : Scheduler P A :=
  s.modifyTask id fun t => { t with mustCancel := false, waiter := none }

/-- What a task does next. -/
def instruct (s : Scheduler P A) (id : FutureId) (next : P) : Scheduler P A :=
  s.modifyTask id fun t => { t with program := next }

variable {s s' s'' : Scheduler P A} {i j id : FutureId} {job : Job A}

/-! ## Tasks -/

/-- A task is a future that is one. -/
theorem task?_eq_bind : s.task? j = (s.future? j).bind (·.task?) := by
  simp only [task?, kind?]
  cases s.future? j with
  | none => rfl
  | some f => cases hk : f.kind <;> simp [Future.task?, hk]

/-- A future that ends leaves all tasks. -/
@[simp] theorem task?_complete (ending : Ending) : (s.complete i ending).task? j = s.task? j := by
  simp only [task?, kind?_complete]

/-- A ready job leaves all tasks. -/
@[simp] theorem task?_push : (s.push job).task? j = s.task? j :=
  rfl

/-- A timer leaves all tasks. -/
@[simp] theorem task?_setTimer (deadline : Nat) : (s.setTimer deadline job).task? j = s.task? j :=
  rfl

/-- Waiting for an end leaves all tasks. -/
@[simp] theorem task?_whenEnded : (s.whenEnded i job).task? j = s.task? j := by
  simp only [task?, kind?_whenEnded]

/-- There is no task beyond the last future. -/
theorem task?_length : s.task? s.futures.length = none := by
  simp only [task?, kind?, future?_eq_none_iff.2 (Nat.le_refl _), Option.map_none]

/-- A new future that is no task changes no task. -/
theorem task?_make {kind : FutureKind P} (h : ∀ t, kind ≠ .task t) :
    (s.make kind).2.task? j = s.task? j := by
  by_cases hj : j = s.futures.length
  · rw [hj, task?_length]
    simp only [task?, kind?_make, if_true]
    cases kind with
    | task t => exact absurd rfl (h t)
    | sleep | gathering => rfl
  · simp only [task?, kind?_make, if_neg hj]

/-- What no job behind the end of a child changes is the same as when the gathering alone is made. -/
theorem gather_keeps {β : Type} (view : Scheduler P A → β)
    (hview : ∀ (s : Scheduler P A) (g c : FutureId), view (s.whenEnded c (.count g c)) = view s)
    (s : Scheduler P A) (children : List FutureId) :
    view (s.gather children).2 = view (s.make (.gathering { children })).2 := by
  have hfold : ∀ (rest : List FutureId) (s' : Scheduler P A),
      view (rest.foldl (fun s' c => s'.whenEnded c (.count s.futures.length c)) s') = view s' := by
    intro rest
    induction rest with
    | nil => exact fun _ => rfl
    | cons c rest ih => exact fun s' => (ih _).trans (hview s' _ c)
  exact hfold children _

/-- What is counted when a gathering is made changes no task. -/
theorem task?_gather (children : List FutureId) : (s.gather children).2.task? j = s.task? j :=
  (gather_keeps (·.task? j) (fun _ _ _ => task?_whenEnded) s children).trans
    (task?_make fun t hcontra => by cases hcontra)

/-- A gathering that counts a child has one more counted, and may end by that. -/
theorem countChild_cases (s : Scheduler P A) (i c : FutureId) :
    let counted := s.modifyGathering i fun g => { g with counted := g.counted + 1 }
    s.countChild i c = counted ∨ ∃ ending, s.countChild i c = counted.complete i ending := by
  unfold countChild
  dsimp only
  split
  · exact Or.inr ⟨_, rfl⟩
  · split
    · exact Or.inr ⟨_, rfl⟩
    · exact Or.inl rfl
  · exact Or.inl rfl

/-- To count a child changes no task. -/
theorem task?_countChild (c : FutureId) : (s.countChild i c).task? j = s.task? j := by
  rcases countChild_cases s i c with heq | ⟨ending, heq⟩ <;> simp [heq]

/-! ## Bare kinds -/

/-- A task is a future of that bare kind. -/
theorem bareKind?_eq_task_iff {program : P} :
    s.bareKind? id = some (.task program) ↔ s.program? id = some program := by
  simp only [bareKind?, program?, task?]
  cases s.kind? id with
  | none => simp
  | some kind => cases kind <;> simp [FutureKind.bareKind]

/-- A sleep is a future of that bare kind. -/
theorem bareKind?_eq_sleep_iff : s.bareKind? id = some .sleep ↔ s.kind? id = some .sleep := by
  simp only [bareKind?]
  cases s.kind? id with
  | none => simp
  | some kind => cases kind <;> simp [FutureKind.bareKind]

/-- A gathering is a future of that bare kind. -/
theorem bareKind?_eq_gathering_iff {children : List FutureId} :
    s.bareKind? id = some (.gathering children) ↔
      ∃ g, s.kind? id = some (.gathering g) ∧ g.children = children := by
  simp only [bareKind?]
  cases s.kind? id with
  | none => simp
  | some kind => cases kind <;> simp [FutureKind.bareKind]

/-- What has a bare kind is a future. -/
theorem lt_of_bareKind? {o : BareKind P} (h : s.bareKind? id = some o) : id < s.futures.length := by
  obtain ⟨kind, hkind, -⟩ := Option.map_eq_some_iff.1 h
  obtain ⟨f, hf, -⟩ := kind?_eq_some_iff.1 hkind
  exact lt_of_future? hf

/-- What has a program is a future. -/
theorem lt_of_program? {program : P} (h : s.program? id = some program) : id < s.futures.length :=
  lt_of_bareKind? (bareKind?_eq_task_iff.2 h)

/-- A task that has not ended and is not held has a turn ahead. -/
theorem Sound.exists_job {b : FutureId} {held : FutureId → Prop} (h : s.Sound b held) (hb : b ≤ id)
    (hheld : ¬ held id) {program : P} (hprogram : s.program? id = some program)
    (hlive : s.ending? id = none) : ∃ job ∈ s.jobs, job.task? = some id := by
  obtain ⟨t, ht, -⟩ := Option.map_eq_some_iff.1 hprogram
  obtain ⟨f, hf, hk⟩ := kind?_eq_some_iff.1 (task?_eq_some_iff.1 ht)
  have hturns := (h.fits hb hheld hf).task t hk
  rw [ending?, hf, Option.bind_some] at hlive
  rw [if_pos hlive] at hturns
  obtain ⟨job, hjob, htask⟩ := List.countP_pos_iff.1 (Nat.lt_of_lt_of_eq Nat.one_pos hturns.symm)
  exact ⟨job, hjob, of_decide_eq_true htask⟩

/-- What a job comes behind is a future. -/
theorem Sound.source_lt {b : FutureId} {held : FutureId → Prop} (h : s.Sound b held) (hjob : job ∈ s.jobs)
    (hsource : job.source? = some i) : i < s.futures.length := by
  rcases List.mem_append.1 hjob with hjob | hjob
  · rcases List.mem_append.1 hjob with hjob | hjob
    · obtain ⟨e, he⟩ := Option.ne_none_iff_exists'.1 (h.ready_source hjob hsource)
      obtain ⟨f, hf, -⟩ := ending?_eq_some_iff.1 he
      exact lt_of_future? hf
    · obtain ⟨t, ht, rfl⟩ := List.mem_map.1 hjob
      cases (h.timer ht).1.symm.trans hsource
  · obtain ⟨f, hf, hmem⟩ := List.mem_flatMap.1 hjob
    obtain ⟨j, hj, rfl⟩ := List.getElem_of_mem hf
    cases (h.callback_source (List.getElem?_eq_getElem hj) hmem).symm.trans hsource
    exact hj

/-- The program of a task is that of its bare kind. -/
theorem program?_eq_bind : s.program? j = (s.bareKind? j).bind (·.program?) := by
  simp only [program?, bareKind?, task?]
  cases s.kind? j with
  | none => rfl
  | some kind => cases kind <;> rfl

/-- What keeps the bare kinds keeps the programs. -/
theorem program?_congr (h : s'.bareKind? j = s.bareKind? j) : s'.program? j = s.program? j := by
  rw [program?_eq_bind, program?_eq_bind, h]

/-- There is no program beyond the last future. -/
theorem program?_of_length_le (h : s.futures.length ≤ j) : s.program? j = none := by
  rw [program?, task?_eq_bind, future?_eq_none_iff.2 h]
  rfl

/-- A change of a future that keeps its bare kind keeps all bare kinds. -/
theorem bareKind?_modifyFuture {F : Future P A → Future P A}
    (hF : ∀ f, (F f).kind.bareKind = f.kind.bareKind) : (s.modifyFuture i F).bareKind? j = s.bareKind? j := by
  simp only [bareKind?, kind?, future?_modifyFuture]
  split
  · cases s.future? j with
    | none => rfl
    | some f => simp [hF]
  · rfl

/-- A change of a task that keeps its program keeps all bare kinds. -/
theorem bareKind?_modifyTask {F : TaskState P → TaskState P} (hF : ∀ t, (F t).program = t.program) :
    (s.modifyTask i F).bareKind? j = s.bareKind? j := by
  refine bareKind?_modifyFuture fun f => ?_
  cases hk : f.kind <;> simp [FutureKind.bareKind, hk, hF]

/-- A change of a gathering that keeps its children keeps all bare kinds. -/
theorem bareKind?_modifyGathering {F : GatheringState → GatheringState}
    (hF : ∀ g, (F g).children = g.children) : (s.modifyGathering i F).bareKind? j = s.bareKind? j := by
  refine bareKind?_modifyFuture fun f => ?_
  cases hk : f.kind <;> simp [FutureKind.bareKind, hk, hF]

/-- A future that ends keeps its bare kind. -/
@[simp] theorem bareKind?_complete (ending : Ending) :
    (s.complete i ending).bareKind? j = s.bareKind? j := by
  simp only [bareKind?, kind?_complete]

/-- Waiting for an end leaves all bare kinds. -/
@[simp] theorem bareKind?_whenEnded : (s.whenEnded i job).bareKind? j = s.bareKind? j := by
  simp only [bareKind?, kind?_whenEnded]

/-- A task that is woken keeps its bare kind. -/
@[simp] theorem bareKind?_awaken : (s.awaken i).bareKind? j = s.bareKind? j :=
  bareKind?_modifyTask fun _ => rfl

/-- A new future has the bare kind that was asked for. -/
theorem bareKind?_make (kind : FutureKind P) :
    (s.make kind).2.bareKind? j = if j = s.futures.length then some kind.bareKind else s.bareKind? j := by
  simp only [bareKind?, kind?_make]
  split <;> rfl

/-- A task that is told what to do next has that as its program. -/
theorem bareKind?_instruct {program : P} (h : s.program? i = some program) (next : P) :
    (s.instruct i next).bareKind? j = if j = i then some (.task next) else s.bareKind? j := by
  by_cases hij : i = j
  · subst hij
    rw [if_pos rfl, bareKind?_eq_task_iff, program?, instruct, task?_modifyTask, if_pos rfl]
    obtain ⟨t, ht, -⟩ := Option.map_eq_some_iff.1 h
    simp [ht]
  · rw [if_neg (Ne.symm hij)]
    simp only [bareKind?, kind?, instruct, future?_modifyTask, if_neg hij]

/-- A task that is told what to do next is the only one whose program changes. -/
theorem program?_instruct {program : P} (h : s.program? i = some program) (next : P) :
    (s.instruct i next).program? j = if j = i then some next else s.program? j := by
  rw [program?_eq_bind, program?_eq_bind, bareKind?_instruct h]
  split <;> rfl

/-! ## What is kept -/

/-- What each task waits for is the same if tasks are the same apart from requests to cancel. -/
theorem waiter?_modifyTask {F : TaskState P → TaskState P} (hF : ∀ t, (F t).waiter = t.waiter) :
    (s.modifyTask i F).waiter? j = s.waiter? j := by
  simp only [waiter?, task?_modifyTask]
  split
  · cases s.task? j <;> simp [hF]
  · rfl

/-- A task that pauses is queued behind everything else. -/
theorem jobs_pause (next : P) :
    ((s.instruct i next).push (.resume i)).jobs.Perm (.resume i :: s.jobs) :=
  jobs_push.trans ((jobs_modifyTask _).cons _)

/-- A task that pauses changes nothing in what tasks wait for. -/
theorem waiter?_pause (next : P) :
    ((s.instruct i next).push (.resume i)).waiter? j = s.waiter? j :=
  waiter?_modifyTask fun _ => rfl

/-- From one scheduler to another no bare kind changes, no job is made or done, and no task waits for
something else. -/
structure Keeps (s s' : Scheduler P A) : Prop where
  length : s'.futures.length = s.futures.length
  bareKind : ∀ id, s'.bareKind? id = s.bareKind? id
  waiter : ∀ id, s'.waiter? id = s.waiter? id
  jobs : s'.jobs.Perm s.jobs

/-- A scheduler that stays as it is keeps everything. -/
theorem Keeps.refl (s : Scheduler P A) : s.Keeps s :=
  ⟨rfl, fun _ => rfl, fun _ => rfl, List.Perm.refl _⟩

/-- What is kept from one scheduler to another is kept the other way. -/
theorem Keeps.symm (h : s.Keeps s') : s'.Keeps s :=
  ⟨h.length.symm, fun id => (h.bareKind id).symm, fun id => (h.waiter id).symm, h.jobs.symm⟩

/-- Two changes that keep everything keep it together. -/
theorem Keeps.trans (h : s.Keeps s') (h' : s'.Keeps s'') : s.Keeps s'' where
  length := h'.length.trans h.length
  bareKind id := (h'.bareKind id).trans (h.bareKind id)
  waiter id := (h'.waiter id).trans (h.waiter id)
  jobs := h'.jobs.trans h.jobs

/-- What is kept has the same programs. -/
theorem Keeps.program (h : s.Keeps s') (id : FutureId) : s'.program? id = s.program? id :=
  program?_congr (h.bareKind id)

/-- A future that ends changes nothing but its ending. -/
theorem keeps_complete (i : FutureId) (ending : Ending) : s.Keeps (s.complete i ending) where
  length := length_complete ending
  bareKind id := bareKind?_complete ending
  waiter id := by simp only [waiter?, task?_complete]
  jobs := jobs_complete ending

/-- A change of a gathering that keeps its children keeps the scheduler. -/
theorem keeps_modifyGathering {F : GatheringState → GatheringState}
    (hF : ∀ g, (F g).children = g.children) : s.Keeps (s.modifyGathering i F) where
  length := length_modifyFuture _
  bareKind id := bareKind?_modifyGathering hF
  waiter id := by simp only [waiter?, task?_modifyGathering]
  jobs := jobs_modifyGathering F

/-- A child that is counted changes at most how far its gathering is. -/
theorem keeps_countChild (i c : FutureId) : s.Keeps (s.countChild i c) := by
  have hcounted : s.Keeps (s.modifyGathering i fun g => { g with counted := g.counted + 1 }) :=
    keeps_modifyGathering fun _ => rfl
  rcases countChild_cases s i c with heq | ⟨ending, heq⟩ <;> rw [heq]
  · exact hcounted
  · exact hcounted.trans (keeps_complete i ending)

/-- A task that is marked keeps its program and what it waits for. -/
theorem keeps_markCancel (i : FutureId) : s.Keeps (s.markCancel i) where
  length := length_modifyFuture _
  bareKind _ := bareKind?_modifyTask fun _ => rfl
  waiter _ := waiter?_modifyTask fun _ => rfl
  jobs := jobs_modifyTask _

/-- A request to cancel changes no bare kind. -/
theorem keeps_cancelWithin (room : Nat) (id : FutureId) : s.Keeps (cancelWithin room id s).2 := by
  apply cancelWithin_induction (Q := fun s' => s.Keeps s')
  · exact fun s' id h _ _ => h.trans (keeps_complete id _)
  · exact fun s' id h => h.trans (keeps_modifyGathering fun _ => rfl)
  · exact fun s' id h => h.trans (keeps_markCancel id)
  · exact Keeps.refl s

/-- Requests to cancel several futures change no bare kind. -/
theorem keeps_cancelAll (ids : List FutureId) : s.Keeps (s.cancelAll ids) := by
  induction ids generalizing s with
  | nil => exact Keeps.refl s
  | cons id rest ih => exact (keeps_cancelWithin maxRequestDepth id).trans ih

/-- A request to cancel sets no timer and does not move the clock. -/
theorem timers_cancelWithin (room : Nat) (id : FutureId) :
    (cancelWithin room id s).2.timers = s.timers ∧ (cancelWithin room id s).2.now = s.now := by
  apply cancelWithin_induction (Q := fun s' => s'.timers = s.timers ∧ s'.now = s.now)
  · exact fun s' id h _ _ => ⟨(timers_complete _).trans h.1, (now_complete _).trans h.2⟩
  · exact fun s' id h => h
  · exact fun s' id h => h
  · exact ⟨rfl, rfl⟩

/-- Requests to cancel set no timer and do not move the clock. -/
theorem timers_cancelAll (ids : List FutureId) :
    (s.cancelAll ids).timers = s.timers ∧ (s.cancelAll ids).now = s.now := by
  induction ids generalizing s with
  | nil => exact ⟨rfl, rfl⟩
  | cons id rest ih =>
    obtain ⟨htimers, hnow⟩ := timers_cancelWithin (s := s) maxRequestDepth id
    exact ⟨ih.1.trans htimers, ih.2.trans hnow⟩

/-- The clock only moves jobs. -/
theorem keeps_advance (h : s.advance? = some s') : s.Keeps s' := by
  have hjobs := jobs_advance h
  obtain ⟨time, -, rfl⟩ := Option.map_eq_some_iff.1 h
  exact ⟨rfl, fun _ => rfl, fun _ => rfl, hjobs⟩

/-! ## Turns -/

/-- A task that takes its turn waits for nothing. -/
theorem waiter?_awaken : (s.awaken i).waiter? j = if i = j then none else s.waiter? j := by
  simp only [waiter?, awaken, task?_modifyTask]
  split
  · cases s.task? j <;> rfl
  · rfl

/-- A task that takes its turn keeps no request to cancel it. -/
theorem mustCancel_awaken : (s.awaken i).mustCancel j = if i = j then false else s.mustCancel j := by
  simp only [mustCancel, awaken, task?_modifyTask]
  split
  · cases s.task? j <;> rfl
  · rfl

/-- A turn that is taken is the first job of the queue. -/
theorem jobs_drop {rest : List (Job A)} (hready : s.ready = job :: rest) :
    s.jobs = job :: (s.drop rest).jobs := by
  simp [jobs, drop, hready]

/-- The first job of the queue is a job. -/
theorem mem_jobs_of_ready {rest : List (Job A)} (hready : s.ready = job :: rest) : job ∈ s.jobs := by
  rw [jobs_drop hready]
  exact List.mem_cons_self

/-- A task that takes its turn keeps all other jobs. -/
theorem jobs_awaken : (s.awaken i).jobs.Perm s.jobs :=
  jobs_modifyTask _

/-- From one scheduler to another no bare kind changes, no job is made, and a task still waits for what
it waited for, or no longer. -/
structure Shrinks (s s' : Scheduler P A) : Prop where
  length : s'.futures.length = s.futures.length
  bareKind : ∀ id, s'.bareKind? id = s.bareKind? id
  jobs : s'.jobs ⊆ s.jobs
  waiter : ∀ id source, s'.waiter? id = some source →
    s.waiter? id = some source ∧ (.wake id source ∈ s.jobs → .wake id source ∈ s'.jobs)

/-- What is kept shrinks by nothing. -/
theorem Keeps.shrinks (h : s.Keeps s') : s.Shrinks s' where
  length := h.length
  bareKind := h.bareKind
  jobs := h.jobs.subset
  waiter id _ hid := ⟨h.waiter id ▸ hid, fun hmem => h.jobs.symm.subset hmem⟩

/-- Two changes after which tasks wait for no more leave no more to wait for together. -/
theorem Shrinks.trans (h : s.Shrinks s') (h' : s'.Shrinks s'') : s.Shrinks s'' where
  length := h'.length.trans h.length
  bareKind id := (h'.bareKind id).trans (h.bareKind id)
  jobs := List.Subset.trans h'.jobs h.jobs
  waiter id source hid := by
    obtain ⟨hid', hjobs'⟩ := h'.waiter id source hid
    obtain ⟨hid'', hjobs⟩ := h.waiter id source hid'
    exact ⟨hid'', fun hmem => hjobs' (hjobs hmem)⟩

/-- A job that is no task's turn is taken from the queue. -/
theorem shrinks_drop {rest : List (Job A)} (hready : s.ready = job :: rest) (htask : job.task? = none) :
    s.Shrinks (s.drop rest) where
  length := rfl
  bareKind _ := rfl
  jobs := by
    rw [jobs_drop hready]
    exact List.subset_cons_self _ _
  waiter id source hid := by
    refine ⟨hid, fun hmem => ?_⟩
    rw [jobs_drop hready] at hmem
    refine (List.mem_cons.1 hmem).resolve_left ?_
    rintro rfl
    cases htask

/-- A task takes its turn from the queue. -/
theorem shrinks_awaken {rest : List (Job A)} (hready : s.ready = job :: rest)
    (htask : job.task? = some i) : s.Shrinks ((s.drop rest).awaken i) where
  length := length_modifyFuture _
  bareKind id := bareKind?_awaken
  jobs := by
    rw [jobs_drop hready]
    exact List.Subset.trans jobs_awaken.subset (List.subset_cons_self _ _)
  waiter id source hid := by
    rw [waiter?_awaken] at hid
    split at hid
    · cases hid
    · next hne =>
      refine ⟨hid, fun hmem => jobs_awaken.symm.subset ?_⟩
      rw [jobs_drop hready] at hmem
      refine (List.mem_cons.1 hmem).resolve_left ?_
      rintro rfl
      exact hne (Option.some.inj htask).symm

end Scheduler

end PipelineGraph.Simulation
