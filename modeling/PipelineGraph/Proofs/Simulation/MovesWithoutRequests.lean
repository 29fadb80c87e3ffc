import PipelineGraph.Proofs.Simulation.Outcome

/-!
# Moves without requests to cancel

A move asks nothing to cancel: what was not asked to cancel still is not, and tasks wait for something
else only if that is new. So nothing of a run that is by itself is ever asked to cancel.
-/

namespace PipelineGraph.Simulation

namespace Scheduler

section RequestsNothing

variable {P A : Type} {s s' s'' : Scheduler P A} {i id : FutureId} {job : Job A}

/-- From one scheduler to another nothing is asked to cancel, and tasks wait for something else only
if that is new. -/
structure RequestsNothing (s s' : Scheduler P A) : Prop where
  length : s.futures.length ≤ s'.futures.length
  mustCancel : ∀ id, s'.mustCancel id = true → s.mustCancel id = true
  asked : ∀ id, s'.isAsked id → s.isAsked id
  wake : ∀ id source, .wake id source ∈ s'.jobs → .wake id source ∈ s.jobs ∨
    s.futures.length ≤ source ∧ s'.ending? source = none

/-- A change of a task makes no gathering. -/
theorem kind_eq_of_mapTask {F : TaskState P → TaskState P} {f : Future P A} {g : GatheringState}
    (h : (f.mapTask F).kind = .gathering g) : f.kind = .gathering g := by
  cases hk : f.kind with
  | task => simp [Future.mapTask, hk] at h
  | sleep => simp [Future.mapTask, hk] at h
  | gathering => simpa [Future.mapTask, hk] using h

/-- What keeps the kinds and makes no wakes requests nothing. -/
theorem requestsNothing_of_kind (hlength : s'.futures.length = s.futures.length)
    (hkind : ∀ id, s'.kind? id = s.kind? id) (hjobs : s'.jobs ⊆ s.jobs) : s.RequestsNothing s' where
  length := Nat.le_of_eq hlength.symm
  mustCancel id := by
    rw [mustCancel, mustCancel, task?, task?, hkind]
    exact fun h => h
  asked id := by
    rw [isAsked, isAsked, hkind]
    exact fun h => h
  wake _ _ hmem := Or.inl (hjobs hmem)

/-- A future that ends is not asked to cancel. -/
theorem requestsNothing_complete (i : FutureId) (ending : Ending) : s.RequestsNothing (s.complete i ending) :=
  requestsNothing_of_kind (length_complete ending) (fun _ => kind?_complete ending) (jobs_complete ending).subset

/-- What requests nothing before a future ends requests nothing. -/
theorem RequestsNothing.complete (h : s.RequestsNothing s') (hold : s'.jobs ⊆ s.jobs) (i : FutureId) (ending : Ending) :
    s.RequestsNothing (s'.complete i ending) where
  length := Nat.le_trans h.length (requestsNothing_complete i ending).length
  mustCancel id hid := h.mustCancel id ((requestsNothing_complete i ending).mustCancel id hid)
  asked id hid := h.asked id ((requestsNothing_complete i ending).asked id hid)
  wake _ _ hmem := Or.inl (hold ((jobs_complete ending).subset hmem))

/-- A child that is counted asks nothing. -/
theorem requestsNothing_countChild (i c : FutureId) : s.RequestsNothing (s.countChild i c) where
  length := Nat.le_of_eq (keeps_countChild i c).length.symm
  mustCancel id := by
    rw [mustCancel, mustCancel, task?_countChild]
    exact fun h => h
  asked id := by
    have hcounted : (s.modifyGathering i fun g => { g with counted := g.counted + 1 }).isAsked id →
        s.isAsked id := by
      rintro ⟨g, hg, hasked⟩
      obtain ⟨f, hf, hk⟩ := kind?_eq_some_iff.1 hg
      rw [future?_modifyGathering] at hf
      split at hf
      · obtain ⟨f₀, hf₀, rfl⟩ := Option.map_eq_some_iff.1 hf
        cases hk₀ : f₀.kind with
        | sleep | task => simp [Future.mapGathering, hk₀] at hk
        | gathering g₀ =>
          simp only [Future.mapGathering, hk₀, FutureKind.gathering.injEq] at hk
          exact ⟨g₀, kind?_eq_some_iff.2 ⟨f₀, hf₀, hk₀⟩, by rw [← hk] at hasked; exact hasked⟩
      · exact ⟨g, kind?_eq_some_iff.2 ⟨f, hf, hk⟩, hasked⟩
    rcases countChild_cases s i c with heq | ⟨ending, heq⟩ <;> rw [heq]
    · exact hcounted
    · exact fun h => hcounted ((requestsNothing_complete i ending).asked id h)
  wake _ _ hmem := Or.inl ((keeps_countChild i c).jobs.subset hmem)

/-- What requests nothing from the queue without its first job requests nothing. -/
theorem RequestsNothing.drop {rest : List (Job A)} (hready : s.ready = job :: rest)
    (h : (s.drop rest).RequestsNothing s') : s.RequestsNothing s' where
  length := h.length
  mustCancel := h.mustCancel
  asked := h.asked
  wake id source hmem := (h.wake id source hmem).imp_left fun hmem => by
    rw [jobs_drop hready]
    exact List.mem_cons_of_mem _ hmem

/-- The clock asks nothing to cancel. -/
theorem requestsNothing_advance (h : s.advance? = some s') : s.RequestsNothing s' := by
  have hjobs := jobs_advance h
  obtain ⟨time, -, rfl⟩ := Option.map_eq_some_iff.1 h
  exact requestsNothing_of_kind rfl (fun _ => rfl) hjobs.subset

/-- A change of a task asks no gathering to cancel. -/
theorem isAsked_modifyTask {F : TaskState P → TaskState P} (h : (s.modifyTask i F).isAsked id) :
    s.isAsked id := by
  obtain ⟨g, hg, hasked⟩ := h
  obtain ⟨f, hf, hk⟩ := kind?_eq_some_iff.1 hg
  rw [future?_modifyTask] at hf
  split at hf
  · obtain ⟨f₀, hf₀, rfl⟩ := Option.map_eq_some_iff.1 hf
    exact ⟨g, kind?_eq_some_iff.2 ⟨f₀, hf₀, kind_eq_of_mapTask hk⟩, hasked⟩
  · exact ⟨g, kind?_eq_some_iff.2 ⟨f, hf, hk⟩, hasked⟩

/-- A change of a task without requests to cancel requests nothing. -/
theorem requestsNothing_modifyTask {F : TaskState P → TaskState P}
    (hF : ∀ t, (F t).mustCancel = true → t.mustCancel = true) : s.RequestsNothing (s.modifyTask i F) where
  length := Nat.le_of_eq (length_modifyFuture _).symm
  mustCancel id := by
    rw [mustCancel, mustCancel, task?_modifyTask]
    split
    · cases s.task? id with
      | none => exact fun h => h
      | some t => simpa using hF t
    · exact fun h => h
  asked _ hasked := isAsked_modifyTask hasked
  wake _ _ hmem := Or.inl ((jobs_modifyTask F).subset hmem)

/-- Two changes that ask nothing ask nothing together. -/
theorem RequestsNothing.trans (h : s.RequestsNothing s') (h' : s'.RequestsNothing s'') (hold : s'.jobs ⊆ s.jobs)
    (hlength : s.futures.length = s'.futures.length) : s.RequestsNothing s'' where
  length := Nat.le_trans h.length h'.length
  mustCancel id hid := h.mustCancel id (h'.mustCancel id hid)
  asked id hid := h.asked id (h'.asked id hid)
  wake id source hmem := by
    rw [hlength]
    exact (h'.wake id source hmem).imp_left fun hmem => hold hmem

/-- A task that dozes asks nothing to cancel, and its sleep is new. -/
theorem requestsNothing_doze (hcalm : s.mustCancel i = false) {program : P} (hpr : s.program? i = some program)
    (next : P) (microseconds : Nat) : s.RequestsNothing (s.doze i next microseconds) where
  length := by
    rw [length_doze]
    exact Nat.le_succ _
  mustCancel id := by
    rw [mustCancel, mustCancel, task?_doze hcalm (lt_of_program? hpr)]
    split
    · cases s.task? id <;> exact fun h => h
    · exact fun h => h
  asked id := by
    rintro ⟨g, hg, hasked⟩
    obtain ⟨f, hf, hk⟩ := kind?_eq_some_iff.1 hg
    rw [future?_doze hcalm (lt_of_program? hpr)] at hf
    split at hf
    · cases hf
      cases hk
    · split at hf
      · obtain ⟨f₀, hf₀, rfl⟩ := Option.map_eq_some_iff.1 hf
        exact ⟨g, kind?_eq_some_iff.2 ⟨f₀, hf₀, kind_eq_of_mapTask hk⟩, hasked⟩
      · exact ⟨g, kind?_eq_some_iff.2 ⟨f, hf, hk⟩, hasked⟩
  wake id source hmem := by
    rcases List.mem_cons.1 (jobs_doze.subset hmem) with heq | hmem
    · cases heq
      refine Or.inr ⟨Nat.le_refl _, ?_⟩
      rw [ending?_doze hcalm (lt_of_program? hpr)]
      exact ending?_of_length_le (Nat.le_refl _)
    · exact Or.inl ((List.mem_cons.1 hmem).resolve_left fun heq => by cases heq)

/-- A task that branches asks nothing to cancel, and its gathering is new. -/
theorem requestsNothing_branch (hcalm : s.mustCancel i = false) {program : P} (hpr : s.program? i = some program)
    (programs : List P) (next : List FutureId → P) : s.RequestsNothing (s.branch i programs next) where
  length := by
    rw [length_branch]
    lia
  mustCancel id := by
    rw [mustCancel, mustCancel, task?_branch hcalm (lt_of_program? hpr)]
    split
    · cases s.task? id <;> exact fun h => h
    · split
      · exact fun h => h
      · cases programs[id - s.futures.length]? <;> exact fun h => by cases h
  asked id := by
    rintro ⟨g, hg, hasked⟩
    obtain ⟨f, hf, hk⟩ := kind?_eq_some_iff.1 hg
    rw [future?_branch hcalm (lt_of_program? hpr)] at hf
    split at hf
    · obtain ⟨f₀, hf₀, rfl⟩ := Option.map_eq_some_iff.1 hf
      exact ⟨g, kind?_eq_some_iff.2 ⟨f₀, hf₀, kind_eq_of_mapTask hk⟩, hasked⟩
    · split at hf
      · exact ⟨g, kind?_eq_some_iff.2 ⟨f, hf, hk⟩, hasked⟩
      · split at hf
        · cases hf
          cases hk
          cases hasked
        · obtain ⟨program, -, rfl⟩ := Option.map_eq_some_iff.1 hf
          cases hk
  wake id source hmem := by
    have hlt := lt_of_program? hpr
    have hother : ∀ (f : FutureId → Job A) (ids : List FutureId), (∀ c, f c ≠ .wake id source) →
        .wake id source ∉ ids.map f := by
      intro f ids hne hmem
      obtain ⟨c, -, heq⟩ := List.mem_map.1 hmem
      exact hne c heq
    rcases List.mem_append.1 ((jobs_branch _ _).subset hmem) with hmem | hmem
    · rcases List.mem_cons.1 hmem with heq | hmem
      · cases heq
        refine Or.inr ⟨Nat.le_add_right _ _, ?_⟩
        rw [ending?_branch hcalm hlt]
        exact ending?_of_length_le (Nat.le_add_right _ _)
      · exact absurd hmem (hother _ _ fun c heq => by cases heq)
    · exact Or.inl ((List.mem_append.1 hmem).resolve_left (hother _ _ fun c heq => by cases heq))

end RequestsNothing

variable {r : Run} {s s' awake : Scheduler Program Action} {id a c t : FutureId}

/-- A task that takes its turn asks nothing to cancel. -/
theorem Takes.requestsNothing (h : s.Takes id awake) : s.RequestsNothing awake := by
  obtain ⟨job, rest, hready, htask, rfl⟩ := h
  exact RequestsNothing.drop hready (requestsNothing_modifyTask fun t hcontra => by cases hcontra)

/-- A task that goes on behind a delay asks nothing to cancel. -/
theorem Goes.requestsNothing {pr next : Program} {d : Delay} (hgoes : s.Goes id next d s')
    (hcalm : s.mustCancel id = false) (hpr : s.program? id = some pr) : s.RequestsNothing s' := by
  cases hgoes with
  | pause =>
    have hinstruct : s.RequestsNothing (s.instruct id next) := requestsNothing_modifyTask fun t h => h
    refine ⟨hinstruct.length, hinstruct.mustCancel, hinstruct.asked, fun t source hmem => ?_⟩
    rcases List.mem_cons.1 (jobs_push.subset hmem) with heq | hmem
    · cases heq
    · exact hinstruct.wake t source hmem
  | sleep microseconds => exact requestsNothing_doze hcalm hpr next microseconds

end Scheduler

open Scheduler

variable {p : Plan} {s s' : Session}

/-- In a move nothing is asked to cancel. -/
theorem Move.requestsNothing (h : Move p s s') : s.scheduler.RequestsNothing s'.scheduler := by
  have htakes : ∀ {job rest id}, s.scheduler.ready = job :: rest → job.task? = some id →
      s.scheduler.Takes id (s.awaken rest id).scheduler := fun hready htask =>
    ⟨_, _, hready, htask, rfl⟩
  cases h with
  | advance _ hadvance => exact requestsNothing_advance hadvance
  | elapse hready => exact (requestsNothing_complete _ _).drop hready
  | count hready => exact (requestsNothing_countChild _ _).drop hready
  | enter hready htask hpr _ _ hgoes | leave hready htask hpr _ _ hgoes =>
    have htakes := htakes hready htask
    exact htakes.requestsNothing.trans (hgoes.requestsNothing htakes.mustCancel ((htakes.program? _).trans hpr))
      htakes.shrinks.jobs htakes.shrinks.length.symm
  | fork hready htask hpr =>
    have htakes := htakes hready htask
    exact htakes.requestsNothing.trans (requestsNothing_branch htakes.mustCancel ((htakes.program? _).trans hpr) _ _)
      htakes.shrinks.jobs htakes.shrinks.length.symm
  | leaf hready htask | join hready htask | deep hready htask | halt hready htask | abandon hready htask
  | conclude hready htask =>
    have htakes := htakes hready htask
    exact htakes.requestsNothing.complete htakes.shrinks.jobs _ _

/-- Nothing of a run was asked to cancel. -/
structure Scheduler.Unasked (r : Run) (s : Scheduler Program Action) : Prop where
  ending : ∀ {id}, r.base ≤ id → s.ending? id ≠ some (.error .cancelled)
  mustCancel : ∀ {id}, r.base ≤ id → s.mustCancel id = false
  asked : ∀ {id}, r.base ≤ id → ¬ s.isAsked id

/-- A turn that is interrupted where nothing was asked to cancel comes behind a future that failed. -/
theorem Scheduler.Unasked.exists_source {r : Run} {s : Scheduler Program Action} {id : FutureId}
    {job : Job Action} {i : Interrupt} (h : s.Unasked r) (hid : r.base ≤ id)
    (hinterrupt : s.interrupt? id job = some i) :
    ∃ source, job.source? = some source ∧ s.ending? source = some (.error i) := by
  rcases interruption_of_interrupt? hinterrupt with ⟨hmust, -⟩ | hsource
  · rw [h.mustCancel hid] at hmust
    cases hmust
  · exact hsource

/-- As long as a run is by itself nothing of it is asked to cancel. -/
theorem Move.unasked {r : Run} (h : Move r.plan s s') (hs : s.scheduler.Orderly r)
    (hu : s.scheduler.Unasked r) : s'.scheduler.Unasked r where
  ending {id} hid hend := by
    rcases h.ending?_cases hs.sound id with hsame | ⟨-, -, e, he, hends⟩
    · exact hu.ending hid (hsame.symm.trans hend)
    · cases he.symm.trans hend
      cases hends with
      | child hcount hc => exact hu.ending (Nat.le_of_lt (hs.counted hcount).2.1) hc
      | asked _ hasked => exact hu.asked hid hasked
      | @interruption job pr v _ hjob htask hpr hvisit hinterrupt =>
        obtain ⟨source, hsource, hc⟩ := hu.exists_source hid hinterrupt
        have hjobs : job ∈ s.scheduler.jobs :=
          List.mem_append_left _ (List.mem_append_left _ hjob)
        obtain rfl := Job.eq_wake htask hsource
        exact hu.ending (Nat.le_of_lt (hs.waiting.base_lt_source hjobs)) hc
  mustCancel {id} hid := by
    rw [Bool.eq_false_iff]
    intro hmust
    have hold := h.requestsNothing.mustCancel id hmust
    rw [hu.mustCancel hid] at hold
    cases hold
  asked hid hasked := hu.asked hid (h.requestsNothing.asked _ hasked)

end PipelineGraph.Simulation
