import PipelineGraph.Proofs.Simulation.ToldEvents
import PipelineGraph.Proofs.Simulation.Clock

/-!
# Who changes the machine

Each change in the history of a machine is made in a step, so it has a time, and a visit if the step is
the turn of one. A visit makes two changes, at its first two stages: it shows its node as active, and it
clears the node. The end of a run moves the status, and while a node is shown as active there is a visit
that has not cleared its node.
-/

namespace PipelineGraph.Simulation

open Scheduler

/-- A change of the machine with its time, and with the visit in whose turn it was made. -/
structure DatedChange where
  time : Nat
  visit : Option Visit
  change : Change

namespace DatedChange

/-- A visit of some depth shows its node as active. -/
def Activates (depth : Nat) (d : DatedChange) : Prop :=
  ∃ v, d.visit = some v ∧ v.depth = depth ∧ d.change.field = .active ∧ d.change.new = some v.node.id

/-- A visit of some depth clears its node. -/
def Clears (depth : Nat) (d : DatedChange) : Prop :=
  ∃ v, d.visit = some v ∧ v.depth = depth ∧ d.change.field = .active ∧ d.change.new = none

/-- A visit does something at a stage. -/
inductive IsAt : DatedChange → Nat → Prop
  | activation (time : Nat) (v : Visit) (old : Option Text) :
    IsAt ⟨time, some v, ⟨.active, old, some v.node.id⟩⟩ (3 * v.depth)
  | clearing (time : Nat) (v : Visit) (old : Option Text) :
    IsAt ⟨time, some v, ⟨.active, old, none⟩⟩ (3 * v.depth + 1)

variable {d : DatedChange} {n k : Nat}

/-- What activates a level does so at the first of its three stages. -/
theorem isAt_of_activates (h : d.Activates k) : d.IsAt (3 * k) := by
  obtain ⟨time, visit, field, old, new⟩ := d
  obtain ⟨v, rfl, rfl, rfl, rfl⟩ := h
  exact .activation time v old

/-- What clears a level does so at the second of its three stages. -/
theorem isAt_of_clears (h : d.Clears k) : d.IsAt (3 * k + 1) := by
  obtain ⟨time, visit, field, old, new⟩ := d
  obtain ⟨v, rfl, rfl, rfl, rfl⟩ := h
  exact .clearing time v old

/-- What a visit does at a stage is an activation or a clearing. -/
theorem IsAt.cases_depth (h : d.IsAt n) :
    (∃ depth, n = 3 * depth ∧ d.Activates depth) ∨ ∃ depth, n = 3 * depth + 1 ∧ d.Clears depth := by
  cases h with
  | activation time v old => exact Or.inl ⟨v.depth, rfl, v, rfl, rfl, rfl, rfl⟩
  | clearing time v old => exact Or.inr ⟨v.depth, rfl, v, rfl, rfl, rfl, rfl⟩

/-- What is at the first stage of a level activates it. -/
theorem activates_of_isAt (h : d.IsAt (3 * k)) : d.Activates k := by
  rcases h.cases_depth with ⟨depth, heq, hd⟩ | ⟨depth, heq, -⟩
  · rwa [show k = depth by omega]
  · omega

/-- What is at the second stage of a level clears it. -/
theorem clears_of_isAt (h : d.IsAt (3 * k + 1)) : d.Clears k := by
  rcases h.cases_depth with ⟨depth, heq, -⟩ | ⟨depth, heq, hd⟩
  · omega
  · rwa [show k = depth by omega]

/-- A change is at one stage only. -/
theorem IsAt.unique {m : Nat} (h : d.IsAt n) (h' : d.IsAt m) : n = m := by
  cases h <;> cases h' <;> rfl

end DatedChange

/-- What a step from one session to another does to the machine. -/
def Session.datedChangesTo (s s' : Session) : List DatedChange :=
  (s'.machine.history.drop s.machine.history.length).map fun c =>
    ⟨s.scheduler.now, s.turn?.bind s.scheduler.visit?, c⟩

/-- What a number of steps does to the machine. -/
def Engine.datedChanges (p : Plan) : (steps : Nat) → Session → List DatedChange
  | 0, _ => []
  | steps + 1, s =>
    match step? p s with
    | some s' => s.datedChangesTo s' ++ datedChanges p steps s'
    | none => []

/-- A session goes on to another one, and does something to the machine on the way. -/
inductive Engine.Does (p : Plan) : Session → List DatedChange → Session → Prop
  | rest (s : Session) : Does p s [] s
  | step {s s' s'' : Session} {ds : List DatedChange} (h : step? p s = some s') (later : Does p s' ds s'') :
    Does p s (s.datedChangesTo s' ++ ds) s''

/-- A run does what its steps do. -/
theorem Engine.does_run (p : Plan) (n : Nat) (s : Session) : Does p s (datedChanges p n s) (run p n s) := by
  induction n generalizing s with
  | zero => exact .rest s
  | succ n ih =>
    cases hstep : step? p s with
    | none =>
      rw [run_of_step?_none hstep, datedChanges, hstep]
      exact .rest s
    | some s' =>
      rw [run_succ hstep, datedChanges, hstep]
      exact .step hstep (ih s')

namespace Session

variable {p : Plan} {v : Visit} {s s' : Session} {cs : List Change}

/-- What a step adds to the history are its changes, without their times and visits. -/
theorem datedChangesTo_of_history (h : s'.machine.history = s.machine.history ++ cs) :
    s.datedChangesTo s' = cs.map fun c => ⟨s.scheduler.now, s.turn?.bind s.scheduler.visit?, c⟩ := by
  rw [datedChangesTo, h, List.drop_left]

/-- The first job is the turn of a task. -/
theorem exists_of_turn? {id : FutureId} (h : s.turn? = some id) :
    ∃ job rest, s.scheduler.ready = job :: rest ∧ job.task? = some id := by
  unfold turn? at h
  cases hready : s.scheduler.ready with
  | nil =>
    rw [hready] at h
    cases h
  | cons job rest =>
    rw [hready] at h
    exact ⟨job, rest, rfl, h⟩

/-- A node that becomes active sets the marker. -/
theorem machine_activate : (s.activate p v).machine = (s.machine.setActive (some v.node.id)).2 := by
  unfold activate log
  rw [machine_tell]
  rfl

/-- A node that is cleared takes the marker away. -/
theorem machine_clear : (s.clear p v).machine = (s.machine.setActive none).2 := by
  unfold clear
  rw [machine_tell]
  rfl

/-- Starting out on the edges of a node leaves the machine. -/
theorem machine_fork : (s.fork p v).machine = s.machine := by
  unfold fork log
  rw [machine_tell]

/-- A run that ends clears a node that is shown as active, and moves the status. -/
theorem history_close (verdict : Verdict) : (s.close p verdict).machine.history = s.machine.history ++
    ((if s.machine.active.isSome then [⟨.active, s.machine.active, none⟩] else []) ++
      [⟨.status, some s.machine.status.name, some verdict.status.name⟩]) := by
  unfold close log
  by_cases hactive : s.machine.active.isSome = true
  · simp [hactive, setActive, Machine.setActive, change, note, log]
  · simp [hactive, change, note, log]

end Session

/-! ## What a program does next -/

namespace Program

/-- What a turn of a program shows as active, a node or none, if it changes that. -/
def shown? : Program → Option (Option Text)
  | enter v => some (some v.node.id)
  | leave _ => some none
  | _ => none

/-- How the turn of a visit leaves its program, and whether its task has ended then. -/
inductive Turns : Program → Program → Bool → Prop
  | enter (v : Visit) : Turns (.enter v) (.leave v) false
  | leave (v : Visit) : Turns (.leave v) (.fanOut v) false
  | leaf (v : Visit) : Turns (.leave v) (.leave v) true
  | fork (v : Visit) (children : List FutureId) : Turns (.fanOut v) (.join v children) false
  | join (v : Visit) (children : List FutureId) : Turns (.join v children) (.join v children) true

/-- A visit has the turns of a stage behind it that change the machine, by the time it has a program,
where its task may have ended. -/
def Passed : Program → (ended : Bool) → Nat → Prop
  | leave v, false, n => n = 3 * v.depth
  | leave v, true, n => n = 3 * v.depth ∨ n = 3 * v.depth + 1
  | fanOut v, _, n => n = 3 * v.depth ∨ n = 3 * v.depth + 1
  | join v _, _, n => n = 3 * v.depth ∨ n = 3 * v.depth + 1
  | _, _, _ => False

variable {pr pr' : Program} {ended : Bool} {n : Nat}

/-- The turns that change the machine are at the first two stages of a visit. -/
theorem exists_stage_of_shown? {shown : Option Text} (h : pr.shown? = some shown) : ∃ n, pr.stage? = some n := by
  cases pr with
  | enter | leave => exact ⟨_, rfl⟩
  | fanOut | join | call | conclude => cases h

/-- What is behind a visit after its turn was behind it before, or is what it did in that turn. -/
theorem Turns.passed (h : pr.Turns pr' ended) (hpassed : pr'.Passed ended n) :
    pr.Passed false n ∨ pr.stage? = some n ∧ pr.shown?.isSome = true := by
  cases h with
  | enter v => exact Or.inr ⟨congrArg some (Eq.symm hpassed), rfl⟩
  | leave v | leaf v =>
    rcases hpassed with rfl | rfl
    · exact Or.inl rfl
    · exact Or.inr ⟨rfl, rfl⟩
  | fork v children | join v children => exact Or.inl hpassed

end Program

/-- Some visit of a run has the turns of a stage behind it that change the machine. -/
def Scheduler.Passed (r : Run) (s : Scheduler Program Action) (n : Nat) : Prop :=
  ∃ id pr, r.base < id ∧ s.program? id = some pr ∧ pr.Passed (s.hasEnded id) n

/-- While a node is shown as active, some visit of the run has not cleared its node. -/
def Session.ActiveHasVisit (r : Run) (s : Session) : Prop :=
  s.machine.active.isSome = true → ∃ id pr, r.base < id ∧ s.scheduler.program? id = some pr ∧
    s.scheduler.hasEnded id = false ∧ pr.shown?.isSome = true

/-! ## Moves -/

section Moves

variable {r : Run} {s s' : Session} {id : FutureId} {pr pr' : Program} {n : Nat}

/-- A task with a program stays as it is until another session, or takes its turn. -/
def Session.StaysOrTurns (s s' : Session) (id : FutureId) (pr : Program) : Prop :=
  ∃ pr', s'.scheduler.program? id = some pr' ∧ (pr' = pr ∧ s'.scheduler.hasEnded id = s.scheduler.hasEnded id ∨
    s.turn? = some id ∧ s.scheduler.hasEnded id = false ∧ pr.Turns pr' (s'.scheduler.hasEnded id))

section Turn

variable {job : Job Action} {rest : List (Job Action)} {a : FutureId} {pr₀ next : Program}
  (hs : s.scheduler.Sound r.base fun _ => False) (hpr : s.scheduler.program? id = some pr)
  (hready : s.scheduler.ready = job :: rest) (htask : job.task? = some a)
  (hpr₀ : s.scheduler.program? a = some pr₀)

include hs hpr hready htask hpr₀

/-- In a turn in which no future ends, all tasks but one stay as they are. -/
theorem Session.staysOrTurns_of_live (hturns : pr₀.Turns next false)
    (hnext : s'.scheduler.program? a = some next)
    (hprogram : ∀ j, j ≠ a → j < s.scheduler.futures.length → s'.scheduler.program? j = s.scheduler.program? j)
    (hended : ∀ j, s'.scheduler.hasEnded j = s.scheduler.hasEnded j) : s.StaysOrTurns s' id pr := by
  by_cases heq : id = a
  · subst heq
    cases hpr.symm.trans hpr₀
    have hlive : s.scheduler.hasEnded id = false := by
      rw [hasEnded, (Takes.live ⟨job, rest, hready, htask, rfl⟩ hs).2]
      rfl
    exact ⟨next, hnext, Or.inr ⟨(turn?_of_ready hready).trans htask, hlive, by rwa [hended, hlive]⟩⟩
  · exact ⟨pr, (hprogram id heq (lt_of_program? hpr)).trans hpr, Or.inl ⟨rfl, hended id⟩⟩

/-- A visit that goes on behind a delay takes its turn. -/
theorem Session.staysOrTurns_of_goes {d : Delay} (hturns : pr₀.Turns next false)
    (hgoes : (s.awaken rest a).scheduler.Goes a next d s'.scheduler) : s.StaysOrTurns s' id pr := by
  have ht : s.scheduler.Takes a (s.awaken rest a).scheduler := ⟨job, rest, hready, htask, rfl⟩
  have hpr₁ := (ht.program? a).trans hpr₀
  refine staysOrTurns_of_live hs hpr hready htask hpr₀ hturns ?_ (fun j hne _ => ?_) fun j => ?_
  · rw [hgoes.program? hpr₁, if_pos rfl]
  · rw [hgoes.program? hpr₁, if_neg hne, ht.program?]
  · rw [hasEnded, hasEnded, hgoes.ending? ht.mustCancel (lt_of_program? hpr₁), ht.ending?]

omit hs hpr₀ in
/-- When a task ends in its turn, another one stays as it is. -/
theorem Session.staysOrTurns_of_ne {e : Ending} (hne : id ≠ a)
    (heq : s'.scheduler = (s.awaken rest a).scheduler.complete a e) : s.StaysOrTurns s' id pr := by
  have ht : s.scheduler.Takes a (s.awaken rest a).scheduler := ⟨job, rest, hready, htask, rfl⟩
  refine ⟨pr, ?_, Or.inl ⟨rfl, ?_⟩⟩
  · rw [heq, (keeps_complete a e).program, ht.program?, hpr]
  · rw [heq, hasEnded, ending?_complete, if_neg hne.symm, ht.ending?]
    rfl

/-- A visit that ends in its turn takes it. -/
theorem Session.staysOrTurns_of_complete {e : Ending} (hturns : pr₀.Turns pr₀ true)
    (heq : s'.scheduler = (s.awaken rest a).scheduler.complete a e) : s.StaysOrTurns s' id pr := by
  by_cases hid : id = a
  · subst hid
    cases hpr.symm.trans hpr₀
    have ht : s.scheduler.Takes id (s.awaken rest id).scheduler := ⟨job, rest, hready, htask, rfl⟩
    obtain ⟨-, hlive⟩ := ht.live hs
    have hends : s'.scheduler.hasEnded id = true := by
      rw [heq, hasEnded, ending?_complete_of_live (lt_of_program? ((ht.program? id).trans hpr))
        ((ht.ending? id).trans hlive)]
      rfl
    refine ⟨pr, ?_, Or.inr ⟨(turn?_of_ready hready).trans htask, ?_, by rwa [hends]⟩⟩
    · rw [heq, (keeps_complete id e).program, ht.program?, hpr]
    · rw [hasEnded, hlive]
      rfl
  · exact staysOrTurns_of_ne hpr hready htask hid heq

end Turn

/-- In an uninterrupted session a task of a run stays as it is, or takes its turn. -/
theorem Move.staysOrTurns (h : Move r.plan s s') (hs : s.scheduler.Orderly r) (hcalm : s.scheduler.Uninterrupted r)
    (hshallow : s.scheduler.Shallow r) (hid : r.base < id) (hpr : s.scheduler.program? id = some pr) :
    s.StaysOrTurns s' id pr := by
  have hmem : ∀ {job rest}, s.scheduler.ready = job :: rest → job ∈ s.scheduler.jobs :=
    fun hready => mem_jobs_of_ready hready
  cases h with
  | advance hready hadvance =>
    refine ⟨pr, ((keeps_advance hadvance).program id).trans hpr, Or.inl ⟨rfl, ?_⟩⟩
    rw [hasEnded, hasEnded, ending?_advance hadvance]
  | @elapse x rest hready =>
    refine ⟨pr, ((keeps_complete x _).program id).trans hpr, Or.inl ⟨rfl, ?_⟩⟩
    rw [hasEnded, ending?_complete, if_neg]
    · rfl
    · rintro rfl
      have hsleep := hs.sound.elapse_sleep (hmem hready)
      cases (bareKind?_eq_sleep_iff.2 hsleep).symm.trans (bareKind?_eq_task_iff.2 hpr)
  | @count g c rest hready =>
    refine ⟨pr, ((keeps_countChild g c).program id).trans hpr, Or.inl ⟨rfl, ?_⟩⟩
    rcases ending?_countChild (s := s.scheduler.drop rest) (i := g) (c := c) (j := id) with hsame | ⟨rfl, -⟩
    · rw [hasEnded, hsame]
      rfl
    · obtain ⟨-, gs, hgs, -⟩ := hs.sound.count_child (hmem hready)
      cases (bareKind?_eq_gathering_iff.2 ⟨gs, hgs, rfl⟩).symm.trans (bareKind?_eq_task_iff.2 hpr)
  | enter hready htask hpr₀ _ _ hgoes =>
    exact Session.staysOrTurns_of_goes hs.sound hpr hready htask hpr₀ (.enter _) hgoes
  | leave hready htask hpr₀ _ _ hgoes =>
    exact Session.staysOrTurns_of_goes hs.sound hpr hready htask hpr₀ (.leave _) hgoes
  | @fork job rest a v hready htask hpr₀ =>
    have ht : s.scheduler.Takes a (s.awaken rest a).scheduler := ⟨job, rest, hready, htask, rfl⟩
    have hpr₁ := (ht.program? a).trans hpr₀
    have hnext := (program?_branch ((Engine.followers v).map .enter) (.join v) hpr₁).trans (if_pos rfl)
    refine Session.staysOrTurns_of_live hs.sound hpr hready htask hpr₀ (.fork v _) hnext (fun j hne hlt => ?_)
      fun j => ?_
    · exact (program?_branch _ _ hpr₁).trans ((if_neg hne).trans
        ((if_pos (ht.shrinks.length ▸ hlt)).trans (ht.program? j)))
    · exact congrArg Option.isSome ((ending?_branch ht.mustCancel (lt_of_program? hpr₁)).trans (ht.ending? j))
  | leaf hready htask hpr₀ =>
    exact Session.staysOrTurns_of_complete hs.sound hpr hready htask hpr₀ (.leaf _) rfl
  | join hready htask hpr₀ =>
    exact Session.staysOrTurns_of_complete hs.sound hpr hready htask hpr₀ (.join _ _) rfl
  | deep hready htask hpr₀ _ hdepth =>
    obtain ⟨hb, -⟩ := hs.sound.turn_task (hmem hready) htask
    exact absurd hdepth (hshallow (hs.tree.base_lt hb hpr₀ fun heq => by cases heq) hpr₀)
  | halt hready htask _ _ hinterrupt | abandon hready htask _ hinterrupt =>
    cases (hcalm.interrupt? hs (hmem hready) htask).symm.trans hinterrupt
  | @conclude job rest a caller hready htask hpr₀ =>
    have hne : id ≠ a := by
      rintro rfl
      exact hs.tree.fits hid hpr₀
    exact Session.staysOrTurns_of_ne hpr hready htask hne rfl

/-- A task that a move makes is that of a visit that has not begun. -/
theorem Move.fresh (h : Move r.plan s s') (hpr : s'.scheduler.program? id = some pr')
    (hnone : s.scheduler.program? id = none) : ∃ v, pr' = .enter v := by
  rcases h.shrinks_or with hshrinks | ⟨a, awake, pr, next, d, ht, hpra, -, hgoes⟩ | ⟨a, awake, v, ht, hpra, heq⟩
  · cases (program?_congr (hshrinks.bareKind id)).symm.trans hpr |>.symm.trans hnone
  · rw [hgoes.program? ((ht.program? a).trans hpra)] at hpr
    split at hpr
    · next hid =>
      rw [hid, hpra] at hnone
      cases hnone
    · rw [ht.program?, hnone] at hpr
      cases hpr
  · rw [heq, program?_branch _ _ ((ht.program? a).trans hpra)] at hpr
    split at hpr
    · next hid =>
      rw [hid, hpra] at hnone
      cases hnone
    · split at hpr
      · rw [ht.program?, hnone] at hpr
        cases hpr
      · rw [List.getElem?_map] at hpr
        obtain ⟨v', -, rfl⟩ := Option.map_eq_some_iff.1 hpr
        exact ⟨v', rfl⟩

/-- What is behind a run after a move was behind it before, or is what a visit did in that move. -/
theorem Move.passed (h : Move r.plan s s') (hs : s.scheduler.Orderly r) (hcalm : s.scheduler.Uninterrupted r)
    (hshallow : s.scheduler.Shallow r) (hpassed : s'.scheduler.Passed r n) : s.scheduler.Passed r n ∨
      ∃ id pr, s.turn? = some id ∧ s.scheduler.program? id = some pr ∧ pr.stage? = some n ∧
        pr.shown?.isSome = true := by
  obtain ⟨id, pr', hid, hpr', hpassed⟩ := hpassed
  cases hpr : s.scheduler.program? id with
  | none =>
    obtain ⟨v, rfl⟩ := h.fresh hpr' hpr
    exact hpassed.elim
  | some pr =>
    obtain ⟨pr₁, hpr₁, hcases⟩ := h.staysOrTurns hs hcalm hshallow hid hpr
    cases hpr'.symm.trans hpr₁
    rcases hcases with ⟨rfl, hended⟩ | ⟨hturn, hlive, hturns⟩
    · exact Or.inl ⟨id, pr', hid, hpr, hended ▸ hpassed⟩
    · rcases hturns.passed hpassed with hold | ⟨hstage, hshown⟩
      · exact Or.inl ⟨id, pr, hid, hpr, by rwa [hlive]⟩
      · exact Or.inr ⟨id, pr, hturn, hpr, hstage, hshown⟩

/-- A move leaves the machine, or a visit shows its node or clears it, or the run ends well. -/
theorem Move.machine_cases (h : Move r.plan s s') (hs : s.scheduler.Orderly r) (hcalm : s.scheduler.Uninterrupted r)
    (hshallow : s.scheduler.Shallow r) :
    (s'.machine = s.machine ∧ ∀ id pr, s.turn? = some id → s.scheduler.program? id = some pr → pr.shown? = none) ∨
    (∃ id pr shown, s.turn? = some id ∧ s.scheduler.program? id = some pr ∧ pr.shown? = some shown ∧
      s'.machine = (s.machine.setActive shown).2) ∨
    s.turn? = some r.base ∧ s'.machine.status = .finished ∧ s'.machine.active = none ∧
      s'.machine.history = s.machine.history ++
        ((if s.machine.active.isSome then [⟨.active, s.machine.active, none⟩] else []) ++
          [⟨.status, some RunStatus.running.name, some RunStatus.finished.name⟩]) := by
  have hturn : ∀ {job rest id}, s.scheduler.ready = job :: rest → job.task? = some id → s.turn? = some id :=
    fun hready htask => (Session.turn?_of_ready hready).trans htask
  have hmem : ∀ {job rest}, s.scheduler.ready = job :: rest → job ∈ s.scheduler.jobs :=
    fun hready => mem_jobs_of_ready hready
  have hother : ∀ {job rest id pr}, s.scheduler.ready = job :: rest → job.task? = some id →
      s.scheduler.program? id = some pr → pr.shown? = none → ∀ id pr, s.turn? = some id →
      s.scheduler.program? id = some pr → pr.shown? = none := by
    intro job rest id pr hready htask hpr hshown id' pr' hturn' hpr'
    cases (hturn hready htask).symm.trans hturn'
    cases hpr.symm.trans hpr'
    exact hshown
  have hnobody : s.turn? = none → ∀ id pr, s.turn? = some id → s.scheduler.program? id = some pr →
      pr.shown? = none := by
    intro hnone id pr hturn'
    rw [hnone] at hturn'
    cases hturn'
  cases h with
  | advance hready =>
    refine Or.inl ⟨rfl, hnobody ?_⟩
    rw [Session.turn?, hready]
    rfl
  | elapse hready | count hready => exact Or.inl ⟨rfl, hnobody (Session.turn?_of_ready hready)⟩
  | @enter job rest id v sch hready htask hpr =>
    exact Or.inr (Or.inl ⟨id, _, _, hturn hready htask, hpr, rfl, Session.machine_activate⟩)
  | @leave job rest id v sch hready htask hpr | @leaf job rest id v hready htask hpr =>
    exact Or.inr (Or.inl ⟨id, _, _, hturn hready htask, hpr, rfl, Session.machine_clear⟩)
  | fork hready htask hpr => exact Or.inl ⟨Session.machine_fork, hother hready htask hpr rfl⟩
  | join hready htask hpr => exact Or.inl ⟨rfl, hother hready htask hpr rfl⟩
  | deep hready htask hpr _ hdepth =>
    obtain ⟨hb, -⟩ := hs.sound.turn_task (hmem hready) htask
    exact absurd hdepth (hshallow (hs.tree.base_lt hb hpr fun heq => by cases heq) hpr)
  | halt hready htask _ _ hinterrupt | abandon hready htask _ hinterrupt =>
    cases (hcalm.interrupt? hs (hmem hready) htask).symm.trans hinterrupt
  | @conclude job rest id caller hready htask hpr hrunning =>
    have hid : id = r.base := by
      rcases Nat.eq_or_lt_of_le (hs.sound.turn_task (hmem hready) htask).1 with heq | hlt
      · exact heq.symm
      · exact (hs.tree.fits hlt hpr).elim
    obtain ⟨hstatus, hactive, -⟩ := Session.machine_close (p := r.plan) (s := { s.awaken rest id with run := none })
      (.ofInterrupt (s.scheduler.interrupt? id job))
    have hhistory := Session.history_close (p := r.plan) (s := { s.awaken rest id with run := none })
      (.ofInterrupt (s.scheduler.interrupt? id job))
    rw [hcalm.interrupt? hs (hmem hready) htask] at hstatus hactive hhistory
    refine Or.inr (Or.inr ⟨hid ▸ hturn hready htask, ?_, ?_, ?_⟩)
    · rw [hcalm.interrupt? hs (hmem hready) htask]
      exact hstatus
    · rw [hcalm.interrupt? hs (hmem hready) htask]
      exact hactive
    · rw [← hrunning, hcalm.interrupt? hs (hmem hready) htask]
      exact hhistory

/-- While a node is shown as active, an uninterrupted session keeps a visit that has not cleared its node. -/
theorem Move.activeHasVisit (h : Move r.plan s s') (hs : s.scheduler.Orderly r) (hcalm : s.scheduler.Uninterrupted r)
    (hshallow : s.scheduler.Shallow r) (hshows : s.ActiveHasVisit r) : s'.ActiveHasVisit r := by
  intro hactive
  rcases h.machine_cases hs hcalm hshallow with ⟨hmachine, hnot⟩ | ⟨id, pr, shown, hturn, hpr, hshown, hmachine⟩ |
    ⟨-, -, hnone, -⟩
  · rw [hmachine] at hactive
    obtain ⟨id, pr, hid, hpr, hlive, hshown⟩ := hshows hactive
    obtain ⟨pr', hpr', ⟨rfl, hended⟩ | ⟨hturn, -⟩⟩ := h.staysOrTurns hs hcalm hshallow hid hpr
    · exact ⟨id, pr', hid, hpr', hended.trans hlive, hshown⟩
    · rw [hnot id pr hturn hpr] at hshown
      cases hshown
  · obtain ⟨job, rest, hready, htask⟩ := Session.exists_of_turn? hturn
    have hid : r.base < id := hs.tree.base_lt (hs.sound.turn_task (mem_jobs_of_ready hready) htask).1 hpr
      fun heq => by subst heq; cases hshown
    have ht : s.scheduler.Takes id (s.awaken rest id).scheduler := ⟨job, rest, hready, htask, rfl⟩
    obtain ⟨pr', hpr', ⟨rfl, hended⟩ | ⟨-, -, hturns⟩⟩ := h.staysOrTurns hs hcalm hshallow hid hpr
    · refine ⟨id, pr', hid, hpr', hended.trans ?_, by rw [hshown]; rfl⟩
      rw [hasEnded, (ht.live hs.sound).2]
      rfl
    · rw [hmachine] at hactive
      generalize hended : s'.scheduler.hasEnded id = ended at hturns
      cases hturns with
      | enter v => exact ⟨id, _, hid, hpr', hended, rfl⟩
      | leave v | leaf v =>
        cases hshown
        cases hactive
      | fork | join => cases hshown
  · rw [hnone] at hactive
    cases hactive

end Moves

end PipelineGraph.Simulation
