import PipelineGraph.Proofs.Simulation.Waiting

/-!
# Orderly schedulers

The scheduler of a run is orderly: it is sound from the caller's task on, its tasks are the tree of
visits, and they wait for what their programs tell. Every move of a session keeps this.
-/

namespace PipelineGraph.Simulation

namespace Scheduler

section Held

variable {P A : Type} {s : Scheduler P A} {b id : FutureId} {t : TaskState P}

/-- A task that has taken its turn may end. -/
theorem Sound.endHeld (h : s.Sound b fun j => j = id) (ht : s.kind? id = some (.task t))
    (hb : b ≤ id) (ending : Ending) : (s.complete id ending).Sound b fun _ => False := by
  have hcomplete : (s.complete id ending).Sound b fun j => j = id :=
    h.complete (Or.inl rfl) fun _ _ g hg => by cases ht.symm.trans hg
  refine hcomplete.release (fun _ hid => hid.elim) fun j f _ hj _ hf => ?_
  subst hj
  have hkind : (s.complete j ending).kind? j = some (.task t) := (kind?_complete ending).trans ht
  have hk : f.kind = .task t := by
    obtain ⟨f', hf', hk⟩ := kind?_eq_some_iff.1 hkind
    rwa [Option.some.inj (hf.symm.trans hf')]
  have hended : f.ending ≠ none := by
    rw [future?_complete, if_pos rfl] at hf
    obtain ⟨f₀, -, rfl⟩ := Option.map_eq_some_iff.1 hf
    rw [Future.ending_endWith]
    exact Option.some_ne_none _
  refine ⟨fun hk' => ?_, fun t' _ => ?_, fun g hk' => ?_, fun g hk' => ?_, fun g hk' => ?_⟩
  · cases hk.symm.trans hk'
  · rw [if_neg hended]
    exact hcomplete.idle hb rfl hkind
  all_goals cases hk.symm.trans hk'

/-- A task that has taken its turn may be queued again. -/
theorem Sound.pushHeld (h : s.Sound b fun j => j = id) (ht : s.kind? id = some (.task t))
    (hb : b ≤ id) (hlive : s.ending? id = none) (next : P) :
    ((s.instruct id next).push (.resume id)).Sound b fun _ => False := by
  have htask : (s.instruct id next).kind? id = some (.task { t with program := next }) := by
    rw [← task?_eq_some_iff, instruct, task?_modifyTask, if_pos rfl, task?_eq_some_iff.2 ht]
    rfl
  have hlive' : (s.instruct id next).ending? id = none := (ending?_modifyTask _).trans hlive
  have hnotify := (h.modifyTask (i := id) fun t => { t with program := next }).notify (.resume id)
    (fun j hj => by cases hj) (fun j hj => by cases hj; exact ⟨hb, rfl, hlive', _, htask⟩)
    (fun j c hj => by cases hj) fun j hj => by cases hj
  refine hnotify.release (fun _ hid => hid.elim) fun j f _ hj _ _ => ?_
  exact absurd (congrArg some hj.1.symm) hj.2

/-- A task that has taken its turn may wait for another future. -/
theorem Sound.deferHeld (h : s.Sound b fun j => j = id) (ht : s.kind? id = some (.task t))
    (hb : b ≤ id) (hlive : s.ending? id = none) (next : P) {source : FutureId}
    (hsource : source < s.futures.length) :
    (s.defer id next source).Sound b fun _ => False := by
  have htask : (s.instruct id next).kind? id = some (.task { t with program := next }) := by
    rw [← task?_eq_some_iff, instruct, task?_modifyTask, if_pos rfl, task?_eq_some_iff.2 ht]
    rfl
  have hawait := (h.modifyTask (i := id) fun t => { t with program := next }).await hb rfl
    ((ending?_modifyTask _).trans hlive) htask
    (Nat.lt_of_lt_of_eq hsource (length_modifyFuture _).symm)
  exact hawait.release (fun _ hid => hid.elim) fun j f _ hj _ _ => absurd hj.1 hj.2

/-- A task that has taken its turn may doze. -/
theorem Sound.dozeHeld (h : s.Sound b fun j => j = id) (ht : s.kind? id = some (.task t))
    (hb : b ≤ id) (hlive : s.ending? id = none) (next : P) (microseconds : Nat) :
    (s.doze id next microseconds).Sound b fun _ => False := by
  obtain ⟨f, hf, -⟩ := kind?_eq_some_iff.1 ht
  have hkind : (s.sleep microseconds).2.kind? id = some (.task t) := by
    have hne := Nat.ne_of_lt (lt_of_future? hf)
    exact (kind?_make _).trans ((if_neg hne).trans ht)
  refine (h.sleep microseconds).deferHeld hkind hb ?_ next ?_
  · exact (ending?_make _).trans hlive
  · exact Nat.lt_of_lt_of_eq (Nat.lt_succ_self _) (length_make _).symm

/-- A task that has taken its turn may branch. -/
theorem Sound.branchHeld (h : s.Sound b fun j => j = id) (ht : s.kind? id = some (.task t))
    (hb : b ≤ id) (hlive : s.ending? id = none) {programs : List P} (hne : programs ≠ [])
    (next : List FutureId → P) : (s.branch id programs next).Sound b fun _ => False := by
  obtain ⟨f, hf, -⟩ := kind?_eq_some_iff.1 ht
  have hlt := lt_of_future? hf
  have hids : (s.spawnAll programs).1 = s.fresh programs.length := by
    rw [spawnAll_eq]
    rfl
  have hnodup : (s.fresh programs.length).Nodup := List.nodup_range'
  have hold : id ∉ s.fresh programs.length := by
    rw [mem_fresh]
    lia
  have hfuture : ((s.spawnAll programs).2.gather (s.fresh programs.length)).2.future? id =
      s.future? id := by
    rw [future?_gather hnodup, if_neg hold, future?_make, length_spawnAll, if_neg (by lia),
      future?_spawnAll, if_pos hlt]
  have hgather : ((s.spawnAll programs).2.gather (s.fresh programs.length)).2.Sound b fun j => j = id :=
    (h.spawnAll (fun j hj => Nat.lt_of_le_of_lt (Nat.le_of_eq hj) hlt) programs).gather
      (fun hnil => hne ?_) fun c hc => ?_
  · rw [branch, hids]
    have hkind : ((s.spawnAll programs).2.gather (s.fresh programs.length)).2.kind? id =
        some (.task t) := by
      rw [kind?, hfuture]
      exact ht
    refine hgather.deferHeld hkind hb ?_ _ ?_
    · rw [ending?, hfuture]
      exact hlive
    · rw [length_gather]
      exact Nat.lt_succ_self _
  · simpa [fresh] using hnil
  · rw [length_spawnAll]
    exact (mem_fresh.1 hc).2

end Held

/-- The scheduler of a run is sound, and its tasks are visits that wait for what they should. -/
structure Orderly (r : Run) (s : Scheduler Program Action) : Prop where
  sound : s.Sound r.base fun _ => False
  tree : s.Tree r
  waiting : s.Waiting r

variable {r : Run} {s awake : Scheduler Program Action} {id : FutureId}

/-- A task with another program than the caller's is a visit. -/
theorem Tree.base_lt (h : s.Tree r) {pr : Program} (hb : r.base ≤ id) (hpr : s.program? id = some pr)
    (hne : pr ≠ .conclude r.caller) : r.base < id := by
  refine Nat.lt_of_le_of_ne hb ?_
  rintro rfl
  exact hne (Option.some.inj (hpr.symm.trans h.caller))

/-- A task has the state of one. -/
theorem exists_kind?_of_program? {pr : Program} (h : s.program? id = some pr) :
    ∃ t, s.kind? id = some (.task t) := by
  obtain ⟨t, ht, -⟩ := Option.map_eq_some_iff.1 h
  exact ⟨t, task?_eq_some_iff.1 ht⟩

/-- What a gathering counts is a visit, and the gathering belongs to the run. -/
theorem Orderly.counted (hs : s.Orderly r) {g c : FutureId} (hcount : .count g c ∈ s.jobs) :
    r.base < g ∧ r.base < c ∧ ∃ v, s.visit? c = some v := by
  obtain ⟨hb, gs, hg, hc⟩ := hs.sound.count_child hcount
  have hgathering := bareKind?_eq_gathering_iff.2 ⟨gs, hg, rfl⟩
  have hlt : r.base < g := by
    refine Nat.lt_of_le_of_ne hb ?_
    rintro rfl
    cases (bareKind?_eq_task_iff.2 hs.tree.caller).symm.trans hgathering
  exact ⟨hlt, hs.tree.gathered hlt hgathering c hc⟩

/-- A task that goes on behind a delay keeps a scheduler sound. -/
theorem Goes.sound {b : FutureId} {next : Program} {d : Delay} {s' : Scheduler Program Action}
    {t : TaskState Program} (hgoes : s.Goes id next d s') (h : s.Sound b fun j => j = id)
    (ht : s.kind? id = some (.task t)) (hb : b ≤ id) (hlive : s.ending? id = none) :
    s'.Sound b fun _ => False := by
  cases hgoes with
  | pause => exact h.pushHeld ht hb hlive next
  | sleep microseconds => exact h.dozeHeld ht hb hlive next microseconds

end Scheduler

open Scheduler

variable {r : Run} {s s' : Session}

/-- A move keeps a scheduler sound. -/
theorem Move.sound (h : Move r.plan s s') (hs : s.scheduler.Orderly r) :
    s'.scheduler.Sound r.base fun _ => False := by
  have hturn : ∀ {job rest id pr}, s.scheduler.ready = job :: rest → job.task? = some id →
      s.scheduler.program? id = some pr → r.base ≤ id ∧
        (s.awaken rest id).scheduler.ending? id = none ∧
        ((s.awaken rest id).scheduler.Sound r.base fun j => j = id) ∧
        ∃ t, (s.awaken rest id).scheduler.kind? id = some (.task t) := by
    intro job rest id pr hready htask hpr
    have htakes : s.scheduler.Takes id (s.awaken rest id).scheduler := ⟨job, rest, hready, htask, rfl⟩
    obtain ⟨hb, hlive⟩ := htakes.live hs.sound
    exact ⟨hb, (htakes.ending? id).trans hlive, htakes.sound hs.sound,
      exists_kind?_of_program? ((htakes.program? id).trans hpr)⟩
  cases h with
  | advance _ hadvance => exact hs.sound.advance hadvance
  | elapse hready => exact hs.sound.elapse hready
  | count hready => exact hs.sound.countChild hready
  | enter hready htask hpr _ _ hgoes | leave hready htask hpr _ _ hgoes =>
    obtain ⟨hb, hlive, hsound, t, ht⟩ := hturn hready htask hpr
    exact hgoes.sound hsound ht hb hlive
  | @fork job rest id v hready htask hpr =>
    obtain ⟨hb, hlive, hsound, t, ht⟩ := hturn hready htask hpr
    have hid := hs.tree.base_lt hb hpr fun heq => by cases heq
    refine hsound.branchHeld ht hb hlive (fun hnil => ?_) _
    have hids := Engine.map_id_followers v
    rw [List.map_eq_nil_iff.1 hnil] at hids
    exact (hs.tree.fits hid hpr).2.2 hids.symm
  | leaf hready htask hpr | join hready htask hpr | deep hready htask hpr | halt hready htask hpr
  | abandon hready htask hpr | conclude hready htask hpr =>
    obtain ⟨hb, -, hsound, t, ht⟩ := hturn hready htask hpr
    exact hsound.endHeld ht hb _

/-- Every move keeps a scheduler orderly. -/
theorem Move.orderly (h : Move r.plan s s') (hs : s.scheduler.Orderly r) : s'.scheduler.Orderly r := by
  have hsound := h.sound hs
  rcases h.shrinks_or with hshrinks | ⟨id, awake, pr, next, d, htakes, hpr, hnext, hgoes⟩ |
    ⟨id, awake, v, htakes, hpr, heq⟩
  · exact ⟨hsound, hs.tree.congr hshrinks.bareKind, hs.waiting.shrinks hshrinks⟩
  · have hid := hs.tree.base_lt (htakes.live hs.sound).1 hpr fun heq => by subst heq; cases hnext
    have htree := hs.tree.congr htakes.shrinks.bareKind
    have hpr' := (htakes.program? id).trans hpr
    refine ⟨hsound, ?_, ?_⟩
    · exact htree.goes hid hpr' hnext (hgoes.program? hpr')
        fun j children => hgoes.gathering hpr'
    · exact (hs.waiting.shrinks htakes.shrinks).goes htree hid hpr' hnext
        (fun job hjob => htakes.idle hs.sound hjob) hgoes
  · have hid := hs.tree.base_lt (htakes.live hs.sound).1 hpr fun heq => by cases heq
    have htree := hs.tree.congr htakes.shrinks.bareKind
    have hpr' := (htakes.program? id).trans hpr
    refine ⟨hsound, ?_, ?_⟩
    · rw [heq]
      exact htree.branch hid hpr'
    · rw [heq]
      exact (hs.waiting.shrinks htakes.shrinks).branch htree hid hpr'
        fun job hjob => htakes.idle hs.sound hjob

end PipelineGraph.Simulation
