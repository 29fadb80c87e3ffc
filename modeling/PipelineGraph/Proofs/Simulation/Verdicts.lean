import PipelineGraph.Graph.Demo
import PipelineGraph.Proofs.Simulation.FirstSteps
import PipelineGraph.Simulation.Timetable

/-!
# What decides how a simulation ends

A simulation that is asked for in a session at rest comes to an end within the bound on the steps of
a timetable, and the graph alone decides how: a cycle in reach of the start is refused, a walk that is
too long is a fault, and any other graph is walked to the end.
-/

namespace PipelineGraph.Simulation

/-! ## What entries tell -/

namespace Entry

/-- The new value of a field in an entry that changes it. -/
def change? (field : StateField) : Entry → Option (Option Text)
  | state c => if c.field = field then some c.new else none
  | _ => none

/-- The event that an entry tells of. -/
def event? : Entry → Option Event
  | event e => some e
  | _ => none

/-- The result that an entry gives to a caller. -/
def result? : Entry → Option (Nat × CallResult)
  | result caller res => some (caller, res)
  | _ => none

end Entry

/-- What some entries tell, where an entry may tell nothing. -/
def observe {β : Type} (f : Entry → Option β) (entries : List (Nat × Entry)) : List β :=
  entries.filterMap fun x => f x.2

section Observe

variable {β : Type} {f : Entry → Option β} {p : Plan} {r : Run} {now : Nat} {entries : List (Nat × Entry)}

/-- Nothing is observed in an empty trace. -/
@[simp] theorem observe_nil : observe f [] = [] :=
  rfl

/-- The first entry is observed before the others. -/
@[simp] theorem observe_cons (x : Nat × Entry) :
    observe f (x :: entries) = (f x.2).toList ++ observe f entries := by
  unfold observe
  cases h : f x.2 with
  | none =>
    rw [List.filterMap_cons, h]
    rfl
  | some b =>
    rw [List.filterMap_cons, h]
    rfl

/-- A trace is observed part by part. -/
@[simp] theorem observe_append (xs ys : List (Nat × Entry)) :
    observe f (xs ++ ys) = observe f xs ++ observe f ys :=
  List.filterMap_append

/-- What a listener heard is observed if there is one. -/
@[simp] theorem observe_heard (e : Event) :
    observe f (p.heard now e) = if p.listens then (f (.event e)).toList else [] := by
  unfold Plan.heard
  split
  · rw [observe_cons, observe_nil, List.append_nil]
  · rfl

/-- Visits give no results, change no status, and are not begun too deep. -/
theorem observe_of_writes (h : ∀ x ∈ entries, r.Writes x.2) : observe Entry.result? entries = [] ∧
    observe (Entry.change? .status) entries = [] ∧
    ∀ node (depth : Nat), .nodeActive node depth ∈ observe Entry.event? entries → (depth : Int) ≤ r.plan.maxDepth := by
  refine ⟨List.filterMap_eq_nil_iff.2 fun x hx => ?_, List.filterMap_eq_nil_iff.2 fun x hx => ?_,
    fun node depth hmem => ?_⟩
  · have hw := h x hx
    cases hentry : x.2 with
    | result =>
      rw [hentry] at hw
      exact hw.elim
    | state | event | cancel | callerCancel | probe => rfl
  · have hw := h x hx
    cases hentry : x.2 with
    | state c =>
      rw [hentry] at hw
      have hfield : c.field = .active := hw
      rw [Entry.change?, hfield]
      rfl
    | result | event | cancel | callerCancel | probe => rfl
  · obtain ⟨x, hx, hevent⟩ := List.mem_filterMap.1 hmem
    have hw := h x hx
    cases hentry : x.2 with
    | event e =>
      rw [hentry] at hw hevent
      cases hevent
      exact Int.not_lt.1 hw
    | state | result | cancel | callerCancel | probe =>
      rw [hentry] at hevent
      cases hevent

end Observe

/-! ## Runs to the end -/

namespace Engine

open Scheduler

variable {p : Plan} {r : Run} {before : List (Nat × Entry)} {s s' : Session}

/-- A run with one more step takes its first step first. -/
theorem run_succ (h : step? p s = some s') (n : Nat) : run p (n + 1) s = run p n s' := by
  rw [run, h]

/-- An engine at rest stays as it is. -/
theorem run_of_step?_none (h : step? p s = none) (n : Nat) : run p n s = s := by
  cases n with
  | zero => rfl
  | succ n => rw [run, h]

/-- A session that has come to rest stays so, however many steps it is given beyond that. -/
theorem run_add_of_step?_none {m : Nat} (h : step? p (run p m s) = none) (n : Nat) : run p (m + n) s = run p m s := by
  induction m generalizing s with
  | zero => exact (congrArg (run p · s) (Nat.zero_add n)).trans (run_of_step?_none h n)
  | succ m ih =>
    cases hstep : step? p s with
    | none => rw [run_of_step?_none hstep, run_of_step?_none hstep]
    | some s' =>
      rw [run_succ hstep] at h
      rw [Nat.succ_add, run_succ hstep, run_succ hstep, ih h]

/-- A session at rest has no step left. -/
theorem step?_of_isAtRest (h : s.IsAtRest) : step? p s = none := by
  obtain ⟨hready, htimers⟩ := nil_of_jobs h
  simp [step?, hready, advance?, earliest?, htimers]

section Course

variable (hhooks : r.plan.hooks = []) (hdwell : ∀ e, r.plan.dwell ≠ .unusable e)
  (hedge : ∀ e, r.plan.edgeDelay ≠ .unusable e)

include hhooks hdwell hedge

/-- A run keeps to its course. -/
theorem course_run (hc : Course r before s) (n : Nat) : Course r before (run r.plan n s) := by
  induction n generalizing s with
  | zero => exact hc
  | succ n ih =>
    cases hstep : step? r.plan s with
    | none =>
      rw [run_of_step?_none hstep]
      exact hc
    | some s' =>
      rw [run_succ hstep]
      exact ih ((hc.move_of_step hhooks hdwell hedge hstep).course hc)

/-- A run is concluded when nothing is left to do, which comes to pass. -/
theorem concluded_run (hr : r.IsFinite) (hc : Course r before s) {n : Nat} (hn : s.scheduler.remaining r ≤ n) :
    (∃ e, Concluded r before (run r.plan n s) e) ∧ step? r.plan (run r.plan n s) = none ∧
      (run r.plan n s).IsAtRest := by
  obtain ⟨hcourse, hnone⟩ := run_rests (I := Course r before) (m := fun s => s.scheduler.remaining r)
    (fun s s' hc hstep => by
      have hmove := hc.move_of_step hhooks hdwell hedge hstep
      exact ⟨hmove.course hc, hmove.remaining_lt hr hc.orderly⟩) n hc hn
  have hidle := isIdle_of_step? hnone
  refine ⟨?_, hnone, hcourse.orderly.jobs_of_idle hidle⟩
  rcases hcourse.state with hs | hs
  · exact absurd hs.live (hcourse.orderly.caller_ended_of_idle hidle)
  · exact hs

end Course

end Engine

/-! ## Answers -/

/-- A simulation that was asked for in a session at rest has come to its end: the caller has a result,
no node is shown as active, the status has moved to running and on to its last value, no visit that
is too deep was begun, and the session is at rest again. -/
structure Session.Answers (p : Plan) (s s' : Session) (entries : List (Nat × Entry)) (res : CallResult) :
    Prop where
  rest : Engine.step? p s' = none ∧ s'.IsAtRest
  trace : s'.trace = s.trace ++ entries
  results : observe Entry.result? entries = [(s.callers.length, res)]
  statuses : observe (Entry.change? .status) entries =
    [some RunStatus.running.name, some s'.machine.status.name]
  active : s'.machine.active = none
  allows : s'.machine.allows .running = true
  depth : ∀ node (depth : Nat), .nodeActive node depth ∈ observe Entry.event? entries → (depth : Int) ≤ p.maxDepth

/-- A graph decides what becomes of a simulation that walks it from a start: the result for the caller,
the status behind it, and whether a node becomes active at all. -/
structure Decides (p : Plan) (g : FlowGraph) (start : Node) (entries : List (Nat × Entry))
    (status : RunStatus) (res : CallResult) : Prop where
  /-- A cycle in reach of the start is refused before the first visit. -/
  cyclic : ((∃ cycle, res = .failed (.cycle cycle)) ∧ status = .failed ∧
    ∀ id, some id ∉ observe (Entry.change? .active) entries) ↔ g.IsCyclicFrom start.id
  /-- A walk that is too long is a fault at its first node that is too deep. -/
  deep : (∃ node, res = .failed (.depth node p.maxDepth) ∧ status = .failed ∧
    ∃ w, g.IsWalk start.id w node ∧ w.length = (p.maxDepth + 1).toNat) ↔
      ¬ g.IsCyclicFrom start.id ∧ ∃ w x, g.IsWalk start.id w x ∧ p.maxDepth < w.length
  /-- Any other graph is walked to the end. -/
  done : (res = .returned ∧ status = .finished) ↔
    ¬ g.IsCyclicFrom start.id ∧ ∀ w x, g.IsWalk start.id w x → (w.length : Int) ≤ p.maxDepth

/-- The status of a verdict is not that of a run under way. -/
theorem Verdict.status_ne_running (verdict : Verdict) : verdict.status ≠ .running := by
  cases verdict <;> exact fun h => by cases h

namespace Engine

open Scheduler

variable {p : Plan} {r : Run} {before : List (Nat × Entry)} {s s' : Session} {graph : Snapshot} {start : Node}

/-- A session at rest answers a simulation by what it has written from its beginning to its end. -/
theorem answers_of_trace (middle : List (Nat × Entry)) {now : Nat} {active : Option Text}
    (verdict : Verdict) {res : CallResult} (hrest : s'.IsAtRest)
    (hstatus : s'.machine.status = verdict.status) (hactive : s'.machine.active = none)
    (hresults : observe Entry.result? middle = []) (hstatuses : observe (Entry.change? .status) middle = [])
    (hdepth : ∀ node (depth : Nat), .nodeActive node depth ∈ observe Entry.event? middle → (depth : Int) ≤ p.maxDepth)
    {entries : List (Nat × Entry)} (hentries : entries =
      p.opening s.scheduler.now s.machine.status graph ++ (middle ++
        (p.closing now active verdict ++ [(now, .result s.callers.length res)])))
    (htrace : s'.trace = s.trace ++ entries) : s.Answers p s' entries res where
  rest := ⟨step?_of_isAtRest hrest, hrest⟩
  trace := htrace
  results := by
    rw [hentries]
    cases active <;> simp [Plan.opening, Plan.closing, hresults, Entry.result?]
  statuses := by
    rw [hentries, hstatus]
    cases active <;> simp [Plan.opening, Plan.closing, hstatuses, Entry.change?]
  active := hactive
  allows := allows_running (hstatus ▸ verdict.status_ne_running)
  depth node depth hmem := by
    refine hdepth node depth ?_
    rw [hentries] at hmem
    cases active <;> cases hlistens : p.listens <;>
      simpa [Plan.opening, Plan.closing, Entry.event?, hlistens] using hmem

/-- There are no more walks from a node that repeat none than the bound tells. -/
theorem walkSum_le_visitBound (graph : Snapshot) (u : Text) :
    graph.flow.walkSum (fun _ => 1) graph.flow.nodes.length u ≤ (Action.simulate (.ok graph)).visitBound := by
  have hedges : graph.flow.edges.length ≤ graph.edges.length := List.length_filter_le _ _
  calc graph.flow.walkSum (fun _ => 1) graph.flow.nodes.length u
      ≤ (graph.flow.edges.length + 1) ^ graph.flow.nodes.length := FlowGraph.walkSum_one_le _ _
    _ ≤ (graph.edges.length + 1) ^ graph.nodes.length := Nat.pow_le_pow_left (Nat.succ_le_succ hedges) _
    _ ≤ (graph.edges.length + 1) ^ (graph.nodes.length + 1) :=
        Nat.pow_le_pow_right (Nat.succ_pos _) (Nat.le_succ _)

/-- A run that has just begun has no more steps ahead than the bound tells. -/
theorem remaining_le {r : Run} (hgraph : r.graph = graph.flow) (hr : r.IsFinite)
    (hstart : r.graph.node? r.start.id = some r.start) (h : s.scheduler.Begun r) :
    s.scheduler.remaining r ≤ (Action.simulate (.ok graph)).stepBound - 1 := by
  have hwalks := walkSum_le_visitBound graph r.start.id
  rw [h.remaining hr hstart, hgraph, Action.stepBound]
  omega

/-- A run that its caller has concluded answers the caller by the ending of the root. -/
theorem answers_of_concluded {e : Ending}
    (h : Concluded ⟨p, graph.flow, start, s.callers.length, s.scheduler.futures.length⟩
      (s.trace ++ p.opening s.scheduler.now s.machine.status graph) s' e) (hrest : s'.IsAtRest) :
    ∃ entries, s.Answers p s' entries (.ofInterrupt e.interrupt?) := by
  obtain ⟨middle, now, active, htrace, hwrites⟩ := h.trace
  obtain ⟨hresults, hstatuses, hdepth⟩ := observe_of_writes hwrites
  have htrace' : s'.trace = s.trace ++ (p.opening s.scheduler.now s.machine.status graph ++ (middle ++
      (p.closing now active (.ofInterrupt e.interrupt?) ++
        [(now, .result s.callers.length (.ofInterrupt e.interrupt?))]))) := by
    rw [htrace]
    simp only [List.append_assoc]
  exact ⟨_, answers_of_trace middle _ hrest h.status h.active hresults hstatuses hdepth rfl htrace'⟩

/-- A simulation that is answered in its first step stays so. -/
theorem run_of_first_step (h : step? p (act s (.simulate (.ok graph))) = some s') (hrest : s'.IsAtRest)
    (n : Nat) : run p (n + 1) (act s (.simulate (.ok graph))) = s' := by
  rw [run_succ h, run_of_step?_none (step?_of_isAtRest hrest)]

section Decided

variable (hhooks : p.hooks = []) (hrest : s.IsAtRest) (hstatus : s.machine.status ≠ .running)

include hhooks hrest hstatus

/-- A simulation that has visits comes to an end that the walks from the start decide. -/
theorem simulate_acyclic (hdwell : ∀ e, p.dwell ≠ .unusable e) (hedge : ∀ e, p.edgeDelay ≠ .unusable e)
    (hstart : graph.flow.start? = some start) (hcyclic : ¬ graph.flow.IsCyclicFrom start.id) :
    let s' := run p (Action.simulate (.ok graph)).stepBound (act s (.simulate (.ok graph)))
    ∃ entries res, s.Answers p s' entries res ∧ Decides p graph.flow start entries s'.machine.status res := by
  intro s'
  have hmem := FlowGraph.mem_of_start? hstart
  have hnode := FlowGraph.node?_of_mem hmem
  have hid : start.id ∈ graph.flow.ids := List.mem_map_of_mem hmem
  obtain ⟨s₁, hstep, hbegun, -, hcourse⟩ := step?_simulate_acyclic hhooks hrest hstatus hstart hnode
    ((FlowGraph.findCycle?_eq_none_iff hid).2 hcyclic)
  have hfinite : Run.IsFinite ⟨p, graph.flow, start, s.callers.length, s.scheduler.futures.length⟩ :=
    ⟨hid, hcyclic⟩
  obtain ⟨⟨e, hconcluded⟩, -, hrest'⟩ := concluded_run hhooks hdwell hedge hfinite hcourse
    (remaining_le rfl hfinite hnode hbegun)
  have hrun : s' = run p ((Action.simulate (.ok graph)).stepBound - 1) s₁ := run_succ hstep _
  have hfinal := course_run hhooks hdwell hedge hcourse ((Action.simulate (.ok graph)).stepBound - 1)
  rw [← hrun] at hconcluded hrest' hfinal
  obtain ⟨entries, hanswers⟩ := answers_of_concluded hconcluded hrest'
  refine ⟨entries, _, hanswers, ?_⟩
  obtain ⟨hroot, hnot⟩ := hconcluded.root
  have hstatus' := hconcluded.status
  cases e with
  | ok =>
    have hwalks : ∀ w x, graph.flow.IsWalk start.id w x → (w.length : Int) ≤ p.maxDepth := by
      intro w x hw
      have hle := hfinal.outcome.walk_le hfinal.orderly.tree (Run.base_lt_root _) hfinal.orderly.tree.root
        hroot hw
      simpa using hle
    refine ⟨⟨fun h => ?_, fun h => absurd h hcyclic⟩, ⟨fun h => ?_, fun h => ?_⟩,
      ⟨fun _ => ⟨hcyclic, hwalks⟩, fun _ => ⟨rfl, hstatus'⟩⟩⟩
    · obtain ⟨⟨cycle, hcontra⟩, -⟩ := h
      cases hcontra
    · obtain ⟨node, hcontra, -⟩ := h
      cases hcontra
    · obtain ⟨-, w, x, hw, hlong⟩ := h
      exact absurd (hwalks w x hw) (Int.not_le.2 hlong)
  | error i =>
    cases i with
    | cancelled => exact absurd rfl hnot
    | fault f =>
      obtain ⟨node, w, rfl, hw, hlength⟩ := hfinal.outcome.fault (Run.base_lt_root _) hroot
      have hlong : p.maxDepth < w.length := by
        rw [hlength]
        exact Int.lt_of_lt_of_le (Int.lt_succ p.maxDepth) (Int.self_le_toNat _)
      refine ⟨⟨fun h => ?_, fun h => absurd h hcyclic⟩, ⟨fun _ => ⟨hcyclic, w, node, hw, hlong⟩, fun _ => ?_⟩,
        ⟨fun h => ?_, fun h => ?_⟩⟩
      · obtain ⟨⟨cycle, hcontra⟩, -⟩ := h
        cases hcontra
      · exact ⟨node, rfl, hstatus', w, hw, hlength⟩
      · cases h.1
      · exact absurd (h.2 w node hw) (Int.not_le.2 hlong)

/-- A simulation with a cycle in reach of its start is refused. -/
theorem simulate_cyclic (hstart : graph.flow.start? = some start)
    (hcyclic : graph.flow.IsCyclicFrom start.id) :
    let s' := run p (Action.simulate (.ok graph)).stepBound (act s (.simulate (.ok graph)))
    ∃ entries res, s.Answers p s' entries res ∧ Decides p graph.flow start entries s'.machine.status res := by
  intro s'
  have hid : start.id ∈ graph.flow.ids := List.mem_map_of_mem (FlowGraph.mem_of_start? hstart)
  obtain ⟨cycle, hcycle⟩ := Option.ne_none_iff_exists'.1 fun hnone =>
    (FlowGraph.findCycle?_eq_none_iff hid).1 hnone hcyclic
  obtain ⟨s₁, hstep, hsettled, htrace⟩ :=
    step?_simulate_cyclic hhooks (nil_of_jobs hrest).1 hstatus hstart hcycle
  have hrest' := isAtRest_of_settled hsettled hrest
  have hrun : s' = s₁ := run_of_first_step hstep hrest' _
  rw [hrun]
  refine ⟨_, _, answers_of_trace _ (.failed "cycle") hrest' hsettled.status hsettled.active ?_ ?_ ?_ rfl htrace, ?_⟩
  · rw [observe_heard]
    split <;> rfl
  · rw [observe_heard]
    split <;> rfl
  · intro node depth hmem
    rw [observe_heard] at hmem
    split at hmem
    · cases List.mem_singleton.1 hmem
    · cases hmem
  · refine ⟨⟨fun _ => hcyclic, fun _ => ⟨⟨cycle, rfl⟩, hsettled.status, fun id hmem => ?_⟩⟩, ⟨fun h => ?_, fun h => ?_⟩,
      ⟨fun h => ?_, fun h => ?_⟩⟩
    · cases hactive' : s.machine.active <;>
        simp [Plan.opening, Plan.closing, Entry.change?, hactive'] at hmem
    · obtain ⟨node, hcontra, -⟩ := h
      cases hcontra
    · exact absurd hcyclic h.1
    · cases h.1
    · exact absurd hcyclic h.1

/-- A simulation of a graph without nodes is finished at once. -/
theorem simulate_empty (hempty : graph.nodes = []) :
    let s' := run p (Action.simulate (.ok graph)).stepBound (act s (.simulate (.ok graph)))
    ∃ entries, s.Answers p s' entries .returned ∧ s'.machine.status = .finished ∧
      observe (Entry.change? .active) entries = if s.machine.active.isSome then [none] else [] := by
  intro s'
  obtain ⟨s₁, hstep, hsettled, htrace⟩ := step?_simulate_empty hhooks (nil_of_jobs hrest).1 hstatus
    (FlowGraph.start?_eq_none_iff.2 hempty : graph.flow.start? = none)
  have hrest' := isAtRest_of_settled hsettled hrest
  have hrun : s' = s₁ := run_of_first_step hstep hrest' _
  rw [hrun]
  refine ⟨_, answers_of_trace [] .finished hrest' hsettled.status hsettled.active rfl rfl ?_ rfl htrace,
    hsettled.status, ?_⟩
  · exact fun node depth hmem => by cases hmem
  · cases hactive' : s.machine.active <;> simp [Plan.opening, Plan.closing, Entry.change?]

/-- Once a simulation is answered, no node is shown as active and another run may begin. -/
theorem idle_of_answered (hdwell : ∀ e, p.dwell ≠ .unusable e) (hedge : ∀ e, p.edgeDelay ≠ .unusable e)
    (n : Nat) {entries : List (Nat × Entry)}
    (htrace : (run p n (act s (.simulate (.ok graph)))).trace = s.trace ++ entries)
    (hanswered : observe Entry.result? entries ≠ []) :
    (run p n (act s (.simulate (.ok graph)))).machine.active = none ∧
      (run p n (act s (.simulate (.ok graph)))).machine.allows .running = true := by
  cases n with
  | zero =>
    have hnil : entries = [] := by
      have hsame : s.trace = s.trace ++ entries := htrace
      simpa using hsame
    rw [hnil] at hanswered
    exact absurd rfl hanswered
  | succ n =>
    cases hstart : graph.flow.start? with
    | none =>
      obtain ⟨s₁, hstep, hsettled, -⟩ := step?_simulate_empty hhooks (nil_of_jobs hrest).1 hstatus hstart
      rw [run_of_first_step hstep (isAtRest_of_settled hsettled hrest)]
      exact ⟨hsettled.active, allows_running fun h => by cases hsettled.status.symm.trans h⟩
    | some start =>
      have hnode := FlowGraph.node?_of_mem (FlowGraph.mem_of_start? hstart)
      cases hcycle : graph.flow.findCycle? (some start.id) with
      | some cycle =>
        obtain ⟨s₁, hstep, hsettled, -⟩ :=
          step?_simulate_cyclic hhooks (nil_of_jobs hrest).1 hstatus hstart hcycle
        rw [run_of_first_step hstep (isAtRest_of_settled hsettled hrest)]
        exact ⟨hsettled.active, allows_running fun h => by cases hsettled.status.symm.trans h⟩
      | none =>
        obtain ⟨s₁, hstep, -, -, hcourse⟩ := step?_simulate_acyclic hhooks hrest hstatus hstart hnode hcycle
        have hfinal := course_run hhooks hdwell hedge hcourse n
        rw [run_succ hstep] at htrace ⊢
        rcases hfinal.state with hs | ⟨e, hs⟩
        · obtain ⟨middle, hmiddle, hwrites⟩ := hs.trace
          rw [hmiddle, List.append_assoc, List.append_cancel_left_eq] at htrace
          refine absurd ?_ hanswered
          rw [← htrace, observe_append, (observe_of_writes hwrites).1]
          simp [Plan.opening, Entry.result?]
        · refine ⟨hs.active, allows_running ?_⟩
          rw [hs.status]
          exact Verdict.status_ne_running _

/-- The graph alone decides how a simulation ends that is asked for in a session at rest. It ends
within the bound on the steps of a timetable. Without nodes it is finished, and no marker is set apart
from the clearing of one that was left over; otherwise the cycles and the walks from the start decide.
From the answer on no node is shown as active and another run may begin. -/
theorem simulate_decided (hdwell : ∀ e, p.dwell ≠ .unusable e) (hedge : ∀ e, p.edgeDelay ≠ .unusable e) :
    (let s' := run p (Action.simulate (.ok graph)).stepBound (act s (.simulate (.ok graph)))
    ∃ entries res, s.Answers p s' entries res ∧
      (graph.nodes = [] → res = .returned ∧ s'.machine.status = .finished ∧
        observe (Entry.change? .active) entries = if s.machine.active.isSome then [none] else []) ∧
      ∀ start, graph.flow.start? = some start → Decides p graph.flow start entries s'.machine.status res) ∧
    ∀ n entries, (run p n (act s (.simulate (.ok graph)))).trace = s.trace ++ entries →
      observe Entry.result? entries ≠ [] →
      (run p n (act s (.simulate (.ok graph)))).machine.active = none ∧
        (run p n (act s (.simulate (.ok graph)))).machine.allows .running = true := by
  refine ⟨?_, fun n entries htrace hanswered =>
    idle_of_answered hhooks hrest hstatus hdwell hedge n htrace hanswered⟩
  cases hstart : graph.flow.start? with
  | none =>
    have hempty : graph.nodes = [] := FlowGraph.start?_eq_none_iff.1 hstart
    obtain ⟨entries, hanswers, hfinished, hactive⟩ := simulate_empty hhooks hrest hstatus hempty
    exact ⟨entries, .returned, hanswers, fun _ => ⟨rfl, hfinished, hactive⟩, fun start hcontra => by cases hcontra⟩
  | some start =>
    have hnonempty : graph.nodes ≠ [] := by
      intro hempty
      have hnone : graph.flow.start? = none := FlowGraph.start?_eq_none_iff.2 hempty
      cases hstart.symm.trans hnone
    intro s'
    have hdecided : ∃ entries res, s.Answers p s' entries res ∧
        Decides p graph.flow start entries s'.machine.status res := by
      by_cases hcyclic : graph.flow.IsCyclicFrom start.id
      · exact simulate_cyclic hhooks hrest hstatus hstart hcyclic
      · exact simulate_acyclic hhooks hrest hstatus hdwell hedge hstart hcyclic
    obtain ⟨entries, res, hanswers, hdecides⟩ := hdecided
    refine ⟨entries, res, hanswers, fun hempty => absurd hempty hnonempty, fun start' hstart' => ?_⟩
    cases hstart'
    exact hdecides

end Decided

/-- A simulation without nodes clears a marker that was left over. -/
theorem simulate_clears_left_over :
    let s : Session := { machine := { active := some "a" } }
    let empty : Snapshot := { nodes := [], edges := [], distinct := List.nodup_nil }
    let s' := run ⟨.pause, .pause, 4, [], true⟩ (Action.simulate (.ok empty)).stepBound (act s (.simulate (.ok empty)))
    s.IsAtRest ∧ s.machine.status ≠ .running ∧ s'.machine.status = .finished ∧
      observe (Entry.change? .active) s'.trace = [none] := by
  intro s empty s'
  refine ⟨rfl, ?_, ?_, ?_⟩ <;> decide +kernel

/-- The demo graph is one step too deep for a greatest depth of three. -/
theorem simulate_decided_demo : ∃ entries node, Session.Answers ⟨.pause, .timer 5, 3, [], true⟩ {}
    (run ⟨.pause, .timer 5, 3, [], true⟩ (Action.simulate (.ok .demo)).stepBound
      (act {} (.simulate (.ok .demo)))) entries (.failed (.depth node 3)) := by
  obtain ⟨⟨entries, res, hanswers, -, hdecides⟩, -⟩ := @simulate_decided ⟨.pause, .timer 5, 3, [], true⟩
    {} .demo rfl rfl (fun h => by cases h) (fun e h => by cases h) fun e h => by cases h
  have hacyclic : ¬ Snapshot.demo.flow.IsCyclicFrom "1" :=
    (FlowGraph.findCycle?_eq_none_iff (by decide)).1 (by decide)
  have hlong : Snapshot.demo.flow.IsWalk "1" [⟨0, by decide⟩, ⟨1, by decide⟩, ⟨2, by decide⟩, ⟨3, by decide⟩] "5" := by
    decide
  obtain ⟨node, rfl, -⟩ := (hdecides (Snapshot.demoNode "1" .trigger "User Input" [] 100 100) rfl).deep.2
    ⟨hacyclic, _, _, hlong, by decide⟩
  exact ⟨entries, node, hanswers⟩

end Engine

end PipelineGraph.Simulation
