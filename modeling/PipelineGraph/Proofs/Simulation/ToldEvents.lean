import PipelineGraph.Proofs.Simulation.Verdicts

/-!
# What each visit tells

Each entry of the trace is written in a turn of some task. The program of a visit shows of which
events the visit has told, so what a task has written can be read off at any time; and as a visit that
branches leaves the walks ahead of it to those that follow, the visits of a run are in the end as many
as the walks from its start.
-/

namespace PipelineGraph.Simulation

open Scheduler Finset

/-! ## Whose turn it is -/

/-- The task whose turn the next step is. -/
def Session.turn? (s : Session) : Option FutureId :=
  s.scheduler.ready.head?.bind Job.task?

/-- What a step from one session to another writes, if it is the turn of a task. -/
def Session.writtenBy (id : FutureId) (s s' : Session) : List (Nat × Entry) :=
  if s.turn? = some id then s'.trace.drop s.trace.length else []

/-- What the turns of a task write in a number of steps. -/
def Engine.written (p : Plan) (id : FutureId) : (steps : Nat) → Session → List (Nat × Entry)
  | 0, _ => []
  | steps + 1, s =>
    match step? p s with
    | some s' => s.writtenBy id s' ++ written p id steps s'
    | none => []

/-! ## What a program shows -/

/-- The events of which a visit has told by the time it has a program, where its task may have ended. -/
def Program.told : Program → (ended : Bool) → List Event
  | leave v, false => [.nodeActive v.node v.depth]
  | leave v, true => [.nodeActive v.node v.depth, .nodeCleared v.node.id]
  | fanOut v, _ => [.nodeActive v.node v.depth, .nodeCleared v.node.id]
  | join v _, _ => [.nodeActive v.node v.depth, .nodeCleared v.node.id,
      .fanOut v.node.id (v.graph.targets v.node.id)]
  | _, _ => []

/-- The events of which a task has told. -/
def Scheduler.told (s : Scheduler Program Action) (id : FutureId) : List Event :=
  (s.program? id).elim [] fun pr => pr.told (s.hasEnded id)

section Told

variable {r : Run} {s s' : Session} {job : Job Action} {rest : List (Job Action)} {id j : FutureId}
  {σ σ' : Scheduler Program Action}

/-- What a future with a program has told follows from the program. -/
theorem Scheduler.told_of_program? {pr : Program} (h : σ.program? id = some pr) :
    σ.told id = pr.told (σ.hasEnded id) := by
  rw [told, h]
  rfl

/-- What a task has told is shown by its program and by whether it has ended. -/
theorem Scheduler.told_congr (hprogram : σ'.program? id = σ.program? id)
    (hended : σ'.hasEnded id = σ.hasEnded id) : σ'.told id = σ.told id := by
  rw [told, told, hprogram, hended]

/-- A task whose visit is not about to end without branching has told the same, ended or not. -/
theorem Scheduler.told_of_not_leave (hprogram : σ'.program? id = σ.program? id)
    (hne : ∀ v, σ.program? id ≠ some (.leave v)) : σ'.told id = σ.told id := by
  rw [told, told, hprogram]
  cases hpr : σ.program? id with
  | none => rfl
  | some pr =>
    cases pr with
    | leave v => exact absurd hpr (hne v)
    | enter | fanOut | join | call | conclude => rfl

/-- A future that ends changes only what its own task has told. -/
theorem Scheduler.told_complete (ending : Ending) (h : j ≠ id ∨ ∀ v, σ.program? j ≠ some (.leave v)) :
    (σ.complete id ending).told j = σ.told j := by
  have hprogram := (keeps_complete (s := σ) id ending).program j
  rcases h with hne | hne
  · refine told_congr hprogram ?_
    rw [hasEnded, hasEnded, ending?_complete, if_neg hne.symm]
  · exact told_of_not_leave hprogram hne

/-- The task whose turn it is belongs to the first ready job. -/
theorem Session.turn?_of_ready (hready : s.scheduler.ready = job :: rest) : s.turn? = job.task? := by
  rw [turn?, hready]
  rfl

/-- In a step that is no task's turn, no task writes. -/
theorem Session.writtenBy_of_turn?_none (h : s.turn? = none) : s.writtenBy id s' = [] := by
  rw [writtenBy, h]
  rfl

/-- What is written in a turn is written by the task whose turn it is. -/
theorem Session.writtenBy_of_turn? {entries : List (Nat × Entry)} (hturn : s.turn? = some id)
    (htrace : s'.trace = s.trace ++ entries) : s.writtenBy id s' = entries := by
  rw [writtenBy, if_pos hturn, htrace, List.drop_left]

/-- A task writes nothing in the turn of another one. -/
theorem Session.writtenBy_of_ne (hturn : s.turn? = some id) (hne : j ≠ id) : s.writtenBy j s' = [] := by
  rw [writtenBy, hturn, if_neg fun heq => hne (Option.some.inj heq).symm]

/-- A turn adds what it writes to what its task has told. -/
theorem Session.told_of_turn (hready : s.scheduler.ready = job :: rest) (htask : job.task? = some id)
    (entries : List (Nat × Entry)) (htrace : s'.trace = s.trace ++ entries)
    (hself : s'.scheduler.told id = s.scheduler.told id ++ observe Entry.event? entries)
    (hother : ∀ j, j ≠ id → s'.scheduler.told j = s.scheduler.told j) (j : FutureId) :
    s'.scheduler.told j = s.scheduler.told j ++ observe Entry.event? (s.writtenBy j s') := by
  have hturn := (turn?_of_ready hready).trans htask
  by_cases h : j = id
  · rw [h, writtenBy_of_turn? hturn htrace, hself]
  · rw [writtenBy_of_ne hturn h, hother j h, observe_nil, List.append_nil]

/-- A visit that goes on behind a delay has told what its next program shows. -/
theorem Scheduler.Goes.told {pr next : Program} {d : Delay} (hgoes : σ.Goes id next d σ')
    (hcalm : σ.mustCancel id = false) (hpr : σ.program? id = some pr) (hlive : σ.ending? id = none) :
    σ'.told id = next.told false ∧ ∀ j, j ≠ id → σ'.told j = σ.told j := by
  have hprogram := hgoes.program? hpr
  have hended : ∀ j, σ'.hasEnded j = σ.hasEnded j := by
    intro j
    rw [hasEnded, hasEnded, hgoes.ending? hcalm (lt_of_program? hpr)]
  refine ⟨?_, fun j hne => told_congr ((hprogram j).trans (if_neg hne)) (hended j)⟩
  rw [told_of_program? ((hprogram id).trans (if_pos rfl)), hended, hasEnded, hlive]
  rfl

/-- A visit that branches has told of that, and those that follow have told nothing. -/
theorem Scheduler.told_branch {v : Visit} (hcalm : σ.mustCancel id = false)
    (hpr : σ.program? id = some (.fanOut v)) :
    (σ.branch id ((Engine.followers v).map .enter) (.join v)).told id =
        σ.told id ++ [.fanOut v.node.id (v.graph.targets v.node.id)] ∧
      ∀ j, j ≠ id → (σ.branch id ((Engine.followers v).map .enter) (.join v)).told j = σ.told j := by
  have hlt := lt_of_program? hpr
  have hprogram := fun j => program?_branch (j := j) ((Engine.followers v).map .enter) (.join v) hpr
  refine ⟨?_, fun j hne => ?_⟩
  · rw [told_of_program? hpr, told_of_program? ((hprogram id).trans (if_pos rfl))]
    rfl
  · by_cases hj : j < σ.futures.length
    · refine told_congr ((hprogram j).trans ((if_neg hne).trans (if_pos hj))) ?_
      rw [hasEnded, hasEnded, ending?_branch hcalm hlt]
    · rw [told, told, hprogram, if_neg hne, if_neg hj, List.getElem?_map,
        program?_of_length_le (Nat.le_of_not_lt hj)]
      cases (Engine.followers v)[j - σ.futures.length]? <;> rfl

end Told

/-! ## Moves -/

section Moves

variable {r : Run} {s s' : Session} {id : FutureId}

/-- A scheduler without a visit that is too deep. -/
def Scheduler.Shallow (r : Run) (s : Scheduler Program Action) : Prop :=
  ∀ {id v}, r.base < id → s.program? id = some (.enter v) → ¬ r.plan.maxDepth < v.depth

/-- If no walk from the start is too long, no visit is too deep. -/
theorem Scheduler.Tree.shallow {σ : Scheduler Program Action} (h : σ.Tree r)
    (hwalks : ∀ w x, r.graph.IsWalk r.start.id w x → (w.length : Int) ≤ r.plan.maxDepth) : σ.Shallow r := by
  intro id v hid hpr hdeep
  obtain ⟨w, hw, hlength⟩ := (h.fits hid hpr : v.Fits r).walk
  have hle := hwalks w _ hw
  rw [hlength] at hle
  exact absurd hdeep (Int.not_lt.2 hle)

/-- A visit has told more as it goes on behind a delay, by the events that it writes. -/
theorem Program.Continues.told {p : Plan} {pr next : Program} {d : Delay} (h : pr.Continues p next d)
    (hlistens : p.listens = true) (now : Nat) (active : Option Text) :
    next.told false = pr.told false ++ observe Entry.event? (p.entries now active pr) := by
  cases h <;> simp [Plan.entries, Program.told, Entry.event?, hlistens]

/-- A visit that ends at a node without outgoing edges has told of its clearing. -/
theorem Program.told_leaf {p : Plan} {v : Visit} (hlistens : p.listens = true) (now : Nat) (active : Option Text) :
    (Program.leave v).told true =
      (Program.leave v).told false ++ observe Entry.event? (p.entries now active (.leave v)) := by
  simp [Plan.entries, Program.told, Entry.event?, hlistens]

section Turn

variable {p : Plan} {job : Job Action} {rest : List (Job Action)} {pr : Program}
  (hs : s.scheduler.Sound r.base fun _ => False) (hready : s.scheduler.ready = job :: rest)
  (htask : job.task? = some id) (hpr : s.scheduler.program? id = some pr)

include hready htask

/-- Nothing more is told as a task takes its turn. -/
theorem Scheduler.told_awaken (j : FutureId) : (s.awaken rest id).scheduler.told j = s.scheduler.told j := by
  have htakes : s.scheduler.Takes id (s.awaken rest id).scheduler := ⟨job, rest, hready, htask, rfl⟩
  refine told_congr (htakes.program? j) ?_
  rw [hasEnded, hasEnded, htakes.ending?]

include hs hpr

/-- A task whose turn it is has not ended. -/
theorem Scheduler.told_of_turn : s.scheduler.told id = pr.told false := by
  have htakes : s.scheduler.Takes id (s.awaken rest id).scheduler := ⟨job, rest, hready, htask, rfl⟩
  rw [told_of_program? hpr, hasEnded, (htakes.live hs).2]
  rfl

/-- A visit that goes on behind a delay has told what it has written. -/
theorem Session.told_of_goes {next : Program} {d : Delay} (hnext : pr.Continues p next d)
    (hlistens : p.listens = true)
    (htrace : s'.trace = s.trace ++ p.entries s.scheduler.now s.machine.active pr)
    (hgoes : (s.awaken rest id).scheduler.Goes id next d s'.scheduler) (j : FutureId) :
    s'.scheduler.told j = s.scheduler.told j ++ observe Entry.event? (s.writtenBy j s') := by
  have htakes : s.scheduler.Takes id (s.awaken rest id).scheduler := ⟨job, rest, hready, htask, rfl⟩
  obtain ⟨hself, hother⟩ := hgoes.told htakes.mustCancel ((htakes.program? id).trans hpr)
    ((htakes.ending? id).trans (htakes.live hs).2)
  refine told_of_turn hready htask _ htrace ?_ (fun j hne => ?_) j
  · rw [hself, hnext.told hlistens, Scheduler.told_of_turn hs hready htask hpr]
  · exact (hother j hne).trans (told_awaken hready htask j)

end Turn

section Cases

variable {job : Job Action} {rest : List (Job Action)} {a : FutureId} {v : Visit}

/-- A task has told nothing more when a sleep ends. -/
theorem Scheduler.told_elapse {σ : Scheduler Program Action} {x : FutureId} (hsleep : σ.bareKind? x = some .sleep) :
    (σ.complete x (.ok ())).told id = σ.told id := by
  refine told_complete (.ok ()) (or_iff_not_imp_left.2 fun hx v hpr => ?_)
  rw [not_not.1 hx] at hpr
  cases hsleep.symm.trans (bareKind?_eq_task_iff.2 hpr)

/-- A task has told nothing more when a gathering counts a child. -/
theorem Scheduler.told_countChild {σ : Scheduler Program Action} {g c : FutureId} {children : List FutureId}
    (hg : σ.bareKind? g = some (.gathering children)) : (σ.countChild g c).told id = σ.told id := by
  have hprogram : (σ.countChild g c).program? id = σ.program? id := (keeps_countChild g c).program id
  rcases ending?_countChild (s := σ) (i := g) (c := c) (j := id) with hsame | ⟨rfl, -⟩
  · refine told_congr hprogram ?_
    rw [hasEnded, hasEnded, hsame]
  · refine told_of_not_leave hprogram fun v hpr => ?_
    cases hg.symm.trans (bareKind?_eq_task_iff.2 hpr)

/-- A visit that ends at a node without outgoing edges has told what it has written. -/
theorem Session.told_of_leaf {p : Plan} (hs : s.scheduler.Sound r.base fun _ => False)
    (hready : s.scheduler.ready = job :: rest) (htask : job.task? = some a)
    (hpr : s.scheduler.program? a = some (.leave v)) (hlistens : p.listens = true)
    (htrace : s'.trace = s.trace ++ p.entries s.scheduler.now s.machine.active (.leave v))
    (hs' : s'.scheduler = (s.awaken rest a).scheduler.complete a (.ok ())) (j : FutureId) :
    s'.scheduler.told j = s.scheduler.told j ++ observe Entry.event? (s.writtenBy j s') := by
  have htakes : s.scheduler.Takes a (s.awaken rest a).scheduler := ⟨job, rest, hready, htask, rfl⟩
  have hpr' : s'.scheduler.program? a = some (.leave v) := by
    rw [hs', (keeps_complete a _).program a, htakes.program?, hpr]
  have hended : s'.scheduler.hasEnded a = true := by
    have hlive := (htakes.ending? a).trans (htakes.live hs).2
    rw [hs', hasEnded, ending?_complete_of_live (lt_of_program? ((htakes.program? a).trans hpr)) hlive]
    rfl
  refine told_of_turn hready htask _ htrace ?_ (fun j hne => ?_) j
  · rw [told_of_program? hpr', hended, Program.told_leaf hlistens, Scheduler.told_of_turn hs hready htask hpr]
  · rw [hs', told_complete _ (Or.inl hne), told_awaken hready htask]

/-- A visit that branches has told what it has written. -/
theorem Session.told_of_fork {p : Plan} (hready : s.scheduler.ready = job :: rest) (htask : job.task? = some a)
    (hpr : s.scheduler.program? a = some (.fanOut v)) (hlistens : p.listens = true)
    (htrace : s'.trace = s.trace ++ p.entries s.scheduler.now s.machine.active (.fanOut v))
    (hs' : s'.scheduler = (s.awaken rest a).scheduler.branch a ((Engine.followers v).map .enter) (.join v))
    (j : FutureId) : s'.scheduler.told j = s.scheduler.told j ++ observe Entry.event? (s.writtenBy j s') := by
  have htakes : s.scheduler.Takes a (s.awaken rest a).scheduler := ⟨job, rest, hready, htask, rfl⟩
  obtain ⟨hself, hother⟩ := told_branch htakes.mustCancel ((htakes.program? a).trans hpr)
  refine told_of_turn hready htask _ htrace ?_ (fun j hne => ?_) j
  · rw [hs', hself, told_awaken hready htask]
    simp [Plan.entries, Entry.event?, hlistens]
  · rw [hs', hother j hne, told_awaken hready htask]

/-- A visit whose children have ended well has told nothing more. -/
theorem Session.told_of_join {children : List FutureId} (hready : s.scheduler.ready = job :: rest)
    (htask : job.task? = some a) (hpr : s.scheduler.program? a = some (.join v children))
    (htrace : s'.trace = s.trace) (hs' : s'.scheduler = (s.awaken rest a).scheduler.complete a (.ok ()))
    (j : FutureId) :
    s'.scheduler.told j = s.scheduler.told j ++ observe Entry.event? (s.writtenBy j s') := by
  have htakes : s.scheduler.Takes a (s.awaken rest a).scheduler := ⟨job, rest, hready, htask, rfl⟩
  have hsame : ∀ j, s'.scheduler.told j = s.scheduler.told j := by
    intro j
    rw [hs', told_complete _ (or_iff_not_imp_left.2 fun hj v' hpr' => ?_), told_awaken hready htask]
    rw [not_not.1 hj, htakes.program?] at hpr'
    cases hpr.symm.trans hpr'
  refine told_of_turn hready htask [] (htrace.trans (List.append_nil _).symm) ?_ (fun j _ => hsame j) j
  rw [hsame, observe_nil, List.append_nil]

end Cases

/-- In an uninterrupted session, a move adds what a visit writes to what the visit has told. -/
theorem Move.told (h : Move r.plan s s') (hs : s.scheduler.Orderly r) (hcalm : s.scheduler.Uninterrupted r)
    (hshallow : s.scheduler.Shallow r) (hlistens : r.plan.listens = true) (hid : r.base < id) :
    s'.scheduler.told id = s.scheduler.told id ++ observe Entry.event? (s.writtenBy id s') := by
  have hmem : ∀ {job rest}, s.scheduler.ready = job :: rest → job ∈ s.scheduler.jobs :=
    fun hready => mem_jobs_of_ready hready
  have hallStopped : s.turn? = none → s'.scheduler.told id = s.scheduler.told id →
      s'.scheduler.told id = s.scheduler.told id ++ observe Entry.event? (s.writtenBy id s') := by
    intro hturn hsame
    rw [Session.writtenBy_of_turn?_none hturn, observe_nil, List.append_nil, hsame]
  cases h with
  | advance hready hadvance =>
    refine hallStopped (by rw [Session.turn?, hready]; rfl) (told_congr ((keeps_advance hadvance).program id) ?_)
    rw [hasEnded, hasEnded, ending?_advance hadvance]
  | elapse hready =>
    have hsleep := hs.sound.elapse_sleep (hmem hready)
    exact hallStopped (Session.turn?_of_ready hready)
      (told_elapse (σ := s.scheduler.drop _) (bareKind?_eq_sleep_iff.2 hsleep))
  | count hready =>
    obtain ⟨-, gs, hgs, -⟩ := hs.sound.count_child (hmem hready)
    exact hallStopped (Session.turn?_of_ready hready)
      (told_countChild (σ := s.scheduler.drop _) (bareKind?_eq_gathering_iff.2 ⟨gs, hgs, rfl⟩))
  | enter hready htask hpr _ hdepth hgoes =>
    refine Session.told_of_goes hs.sound hready htask hpr (.enter hdepth) hlistens ?_ ?_ id
    · exact Session.trace_activate
    · exact hgoes
  | leave hready htask hpr _ hinner hgoes =>
    refine Session.told_of_goes hs.sound hready htask hpr (.leave hinner) hlistens ?_ ?_ id
    · exact Session.trace_clear
    · exact hgoes
  | leaf hready htask hpr =>
    refine Session.told_of_leaf hs.sound hready htask hpr hlistens ?_ ?_ id
    · exact Session.trace_clear
    · rfl
  | fork hready htask hpr =>
    refine Session.told_of_fork hready htask hpr hlistens ?_ ?_ id
    · exact Session.trace_fork
    · rfl
  | join hready htask hpr =>
    refine Session.told_of_join hready htask hpr ?_ ?_ id
    · rfl
    · rfl
  | deep hready htask hpr _ hdepth =>
    obtain ⟨hb, -⟩ := Takes.live ⟨_, _, hready, htask, rfl⟩ hs.sound
    exact absurd hdepth (hshallow (hs.tree.base_lt hb hpr fun heq => by cases heq) hpr)
  | halt hready htask _ _ hinterrupt | abandon hready htask _ hinterrupt =>
    cases (hcalm.interrupt? hs (hmem hready) htask).symm.trans hinterrupt
  | @conclude job rest a caller hready htask hpr =>
    obtain ⟨hb, -⟩ := Takes.live ⟨_, _, hready, htask, rfl⟩ hs.sound
    have ha : a = r.base := by
      rcases Nat.eq_or_lt_of_le hb with heq | hlt
      · exact heq.symm
      · exact (hs.tree.fits hlt hpr).elim
    have hne : id ≠ a := fun heq => absurd hid (by rw [heq, ha]; exact Nat.lt_irrefl _)
    rw [Session.writtenBy_of_ne ((Session.turn?_of_ready hready).trans htask) hne, observe_nil, List.append_nil]
    exact (told_complete _ (Or.inl hne)).trans (told_awaken hready htask id)

/-- A move makes futures and takes none away. -/
theorem Move.length_le {p : Plan} (h : Move p s s') :
    s.scheduler.futures.length ≤ s'.scheduler.futures.length := by
  rcases h.shrinks_or with hshrinks | ⟨a, awake, pr, next, d, ht, hpr, -, hgoes⟩ | ⟨a, awake, v, ht, hpr, hbranch⟩
  · exact Nat.le_of_eq hshrinks.length.symm
  · have hlength := (hgoes.requestsNothing ht.mustCancel ((ht.program? a).trans hpr)).length
    rwa [ht.shrinks.length] at hlength
  · have hlt := lt_of_program? ((ht.program? a).trans hpr)
    rw [hbranch, length_branch, ht.shrinks.length]
    lia

/-- What a move writes of visits is written in their turns. -/
theorem Move.count_written (h : Move r.plan s s') (hs : s.scheduler.Orderly r) {P : Event → Bool}
    (hP : ∀ verdict, P (.ended verdict) = false) {N : Nat} (hN : s.scheduler.futures.length ≤ N) :
    ∃ entries, s'.trace = s.trace ++ entries ∧ (observe Entry.event? entries).countP P =
      ∑ id ∈ Ico r.root N, (observe Entry.event? (s.writtenBy id s')).countP P := by
  rcases h.writes_cases with ⟨htrace, -⟩ | ⟨job, rest, id, pr, hready, htask, hpr, hactive, -, htrace, -⟩ |
    ⟨job, rest, id, caller, hready, htask, hpr, htrace, -⟩
  · refine ⟨[], htrace.trans (List.append_nil _).symm, (Finset.sum_eq_zero fun id _ => ?_).symm⟩
    rw [Session.writtenBy, htrace, List.drop_length, ite_self]
    rfl
  · have hturn := (Session.turn?_of_ready hready).trans htask
    have hjob : job ∈ s.scheduler.jobs := mem_jobs_of_ready hready
    have hid := hs.tree.base_lt (hs.sound.turn_task hjob htask).1 hpr fun heq => by
      subst heq
      cases hactive
    have hmem : id ∈ Ico r.root N := mem_Ico.2 ⟨hid, Nat.lt_of_lt_of_le (lt_of_program? hpr) hN⟩
    have hothers : ∀ j ∈ Ico r.root N, j ≠ id →
        (observe Entry.event? (s.writtenBy j s')).countP P = 0 := by
      intro j _ hne
      rw [Session.writtenBy_of_ne hturn hne]
      rfl
    refine ⟨_, htrace, ?_⟩
    rw [Finset.sum_eq_single_of_mem id hmem hothers, Session.writtenBy_of_turn? hturn htrace]
  · have hturn := (Session.turn?_of_ready hready).trans htask
    have hjob : job ∈ s.scheduler.jobs := mem_jobs_of_ready hready
    have hid : id = r.base := by
      rcases Nat.eq_or_lt_of_le (hs.sound.turn_task hjob htask).1 with heq | hlt
      · exact heq.symm
      · exact (hs.tree.fits hlt hpr).elim
    have hothers : ∀ j ∈ Ico r.root N, (observe Entry.event? (s.writtenBy j s')).countP P = 0 := by
      intro j hj
      have hne : j ≠ id := by
        rintro rfl
        rw [hid] at hj
        exact absurd (mem_Ico.1 hj).1 (Nat.not_le_of_lt r.base_lt_root)
      rw [Session.writtenBy_of_ne hturn hne]
      rfl
    refine ⟨_, htrace, ?_⟩
    rw [Finset.sum_eq_zero hothers]
    cases s.machine.active <;> cases hlistens : r.plan.listens <;>
      simp [Plan.closing, Entry.event?, hlistens, hP]

/-! ## Walks ahead -/

/-- The sum of a function over the nodes of a visit and of all visits that are still to come below it. -/
def Program.tour (r : Run) (f : Text → Nat) : Program → Nat
  | enter v | leave v | fanOut v => f v.node.id + v.ahead r f
  | join v _ => f v.node.id
  | _ => 0

/-- A visit that branches leaves to its children what was ahead of it, so a move changes no tour. -/
theorem Move.load_tour (h : Move r.plan s s') (hr : r.IsFinite) (hs : s.scheduler.Orderly r) (f : Text → Nat) :
    s'.scheduler.load r (fun pr _ => pr.tour r f) = s.scheduler.load r fun pr _ => pr.tour r f := by
  rcases h.shrinks_or with hshrinks | ⟨a, awake, pr, next, d, ht, hpr, hnext, hgoes⟩ | ⟨a, awake, v, ht, hpr, hbranch⟩
  · exact load_congr hshrinks.length (fun id => program?_congr (hshrinks.bareKind id)) fun _ _ _ => rfl
  · obtain ⟨hb, hlive⟩ := ht.live hs.sound
    have hload := hgoes.load (w := fun pr _ => pr.tour r f) ht.mustCancel hb ((ht.program? a).trans hpr)
      ((ht.ending? a).trans hlive)
    have hsame : next.tour r f = pr.tour r f := by
      cases hnext <;> rfl
    rw [hsame, ht.load] at hload
    exact Nat.add_right_cancel hload
  · obtain ⟨hb, hlive⟩ := ht.live hs.sound
    have hid := hs.tree.base_lt hb hpr fun heq => by cases heq
    have hload := load_branch (r := r) (w := fun pr _ => pr.tour r f) ht.mustCancel hb ((ht.program? a).trans hpr)
      ((ht.ending? a).trans hlive)
    obtain ⟨hfits, hdepth, -⟩ : (Program.fanOut v).Fits r := hs.tree.fits hid hpr
    have hsum := hfits.sum_followers (f := f) hr hdepth
    rw [hbranch]
    simp only [Program.tour, hsum, ht.load] at hload ⊢
    lia

end Moves

/-! ## Runs -/

namespace Engine

variable {r : Run} {before : List (Nat × Entry)} {s s' : Session}

section Uninterrupted

variable (hhooks : r.plan.hooks = []) (hdwell : ∀ e, r.plan.dwell ≠ .unusable e)
  (hedge : ∀ e, r.plan.edgeDelay ≠ .unusable e)
  (hwalks : ∀ w x, r.graph.IsWalk r.start.id w x → (w.length : Int) ≤ r.plan.maxDepth)

include hhooks hdwell hedge hwalks

/-- A run without a walk that is too long stays uninterrupted. -/
theorem uninterrupted_of_step (hc : Course r before s) (hcalm : s.scheduler.Uninterrupted r)
    (h : step? r.plan s = some s') :
    Course r before s' ∧ s'.scheduler.Uninterrupted r := by
  have hmove := hc.move_of_step hhooks hdwell hedge h
  refine ⟨hmove.course hc, ?_⟩
  rcases hmove.uninterrupted_or hc.orderly hcalm with hcalm' | ⟨job, rest, id, v, hready, htask, hpr, hdeep⟩
  · exact hcalm'
  · have hjob : job ∈ s.scheduler.jobs := mem_jobs_of_ready hready
    have hid := hc.orderly.tree.base_lt (hc.orderly.sound.turn_task hjob htask).1 hpr fun heq => by cases heq
    exact absurd hdeep (hc.orderly.tree.shallow hwalks hid hpr)

/-- A visit has told what it had told before and what it has written since. -/
theorem told_run (hlistens : r.plan.listens = true) {id : FutureId} (hid : r.base < id) (n : Nat)
    (hc : Course r before s) (hcalm : s.scheduler.Uninterrupted r) : (run r.plan n s).scheduler.told id =
      s.scheduler.told id ++ observe Entry.event? (written r.plan id n s) := by
  induction n generalizing s with
  | zero => exact (List.append_nil _).symm
  | succ n ih =>
    cases hstep : step? r.plan s with
    | none =>
      rw [run_of_step?_none hstep, written, hstep]
      exact (List.append_nil _).symm
    | some s' =>
      obtain ⟨hc', hcalm'⟩ := uninterrupted_of_step hhooks hdwell hedge hwalks hc hcalm hstep
      have htold := (hc.move_of_step hhooks hdwell hedge hstep).told hc.orderly hcalm
        (hc.orderly.tree.shallow hwalks) hlistens hid
      rw [run_succ hstep, ih hc' hcalm', htold, written, hstep, observe_append, List.append_assoc]

end Uninterrupted

section Course

variable (hhooks : r.plan.hooks = []) (hdwell : ∀ e, r.plan.dwell ≠ .unusable e)
  (hedge : ∀ e, r.plan.edgeDelay ≠ .unusable e)

include hhooks hdwell hedge

/-- A run makes futures and takes none away. -/
theorem length_le_run (n : Nat) (hc : Course r before s) :
    s.scheduler.futures.length ≤ (run r.plan n s).scheduler.futures.length := by
  induction n generalizing s with
  | zero => exact Nat.le_refl _
  | succ n ih =>
    cases hstep : step? r.plan s with
    | none => rw [run_of_step?_none hstep]
    | some s' =>
      have hmove := hc.move_of_step hhooks hdwell hedge hstep
      rw [run_succ hstep]
      exact Nat.le_trans hmove.length_le (ih (hmove.course hc))

/-- What a run writes of visits is written in their turns. -/
theorem count_run {P : Event → Bool} (hP : ∀ verdict, P (.ended verdict) = false) (n : Nat)
    (hc : Course r before s) : ∃ entries, (run r.plan n s).trace = s.trace ++ entries ∧
      (observe Entry.event? entries).countP P = ∑ id ∈ Ico r.root (run r.plan n s).scheduler.futures.length,
        (observe Entry.event? (written r.plan id n s)).countP P := by
  induction n generalizing s with
  | zero => exact ⟨[], (List.append_nil _).symm, (Finset.sum_eq_zero fun _ _ => rfl).symm⟩
  | succ n ih =>
    cases hstep : step? r.plan s with
    | none =>
      rw [run_of_step?_none hstep]
      refine ⟨[], (List.append_nil _).symm, (Finset.sum_eq_zero fun id _ => ?_).symm⟩
      rw [written, hstep]
      rfl
    | some s' =>
      have hmove := hc.move_of_step hhooks hdwell hedge hstep
      have hlength := length_le_run hhooks hdwell hedge (n + 1) hc
      rw [run_succ hstep] at hlength ⊢
      obtain ⟨first, htrace, hcount⟩ := hmove.count_written hc.orderly hP hlength
      obtain ⟨later, htrace', hcount'⟩ := ih (hmove.course hc)
      refine ⟨first ++ later, by rw [htrace', htrace, List.append_assoc], ?_⟩
      rw [observe_append, List.countP_append, hcount, hcount', ← Finset.sum_add_distrib]
      refine Finset.sum_congr rfl fun id _ => ?_
      rw [written, hstep, observe_append, List.countP_append]

/-- A run changes no tour. -/
theorem load_tour_run (hr : r.IsFinite) (f : Text → Nat) (n : Nat) (hc : Course r before s) :
    (run r.plan n s).scheduler.load r (fun pr _ => pr.tour r f) =
      s.scheduler.load r fun pr _ => pr.tour r f := by
  induction n generalizing s with
  | zero => rfl
  | succ n ih =>
    cases hstep : step? r.plan s with
    | none => rw [run_of_step?_none hstep]
    | some s' =>
      have hmove := hc.move_of_step hhooks hdwell hedge hstep
      rw [run_succ hstep, ih (hmove.course hc), hmove.load_tour hr hc.orderly]

end Course

end Engine

end PipelineGraph.Simulation
