import PipelineGraph.Graph.Reachability
import PipelineGraph.Proofs.Simulation.MirroredTurns
import PipelineGraph.Script.Compile

/-!
# Dangling edges

An edge one of whose ends is no node is reported when the flow graph of a snapshot is made, end by
end, and is not looked at any more. Without its dangling edges a snapshot has the same flow graph, so the
same script, and sessions go on alike; only the summary counts the edges that dangle.
-/

namespace PipelineGraph

/-- The two ends of an edge, with their roles. -/
def Edge.ends (e : Edge) : List (Text × Text) :=
  [("source", e.source), ("target", e.target)]

namespace Snapshot

/-- The snapshot without its dangling edges. -/
def pruned (s : Snapshot) : Snapshot where
  nodes := s.nodes
  edges := s.edges.filter s.connects
  distinct := s.distinct

variable (s : Snapshot)

/-- Dangling edges are not part of the flow graph. -/
theorem flow_pruned : s.pruned.flow = s.flow := by
  have hedges : (s.edges.filter s.connects).filter s.connects = s.edges.filter s.connects := by
    simp only [List.filter_filter, Bool.and_self]
  simp only [flow, FlowGraph.mk.injEq]
  exact ⟨rfl, hedges⟩

/-- Each end that is no node is reported once, edge by edge. -/
theorem danglingReports_eq : s.danglingReports = s.edges.flatMap fun e =>
    (e.ends.filter fun x => x.2 ∉ s.ids).map fun (role, id) =>
      ⟨.warning, "[Graph] Edge " ++ e.id ++ ": " ++ role ++ " '" ++ id ++ "' not found in nodes"⟩ := by
  refine congrArg (List.flatMap · s.edges) (funext fun e => ?_)
  by_cases hsource : e.source ∈ s.ids <;> by_cases htarget : e.target ∈ s.ids <;>
    simp [danglingEnd, Edge.ends, hsource, htarget]

/-- Without the dangling edges there is nothing to report. -/
theorem danglingReports_pruned : s.pruned.danglingReports = [] := by
  refine List.flatMap_eq_nil_iff.2 fun e he => ?_
  have hconnects : e.source ∈ s.ids ∧ e.target ∈ s.ids := of_decide_eq_true (List.mem_filter.1 he).2
  have hids : s.pruned.ids = s.ids := rfl
  simp only [danglingEnd, hids, hconnects.1, hconnects.2, if_true, List.append_nil]

end Snapshot

namespace Simulation

/-- Graphs are taken for themselves without their dangling edges, and summaries for theirs. -/
def Mirror.pruned : Mirror where
  graph g g' := g' = g.pruned
  summary t t' := ∃ g : Snapshot, t = g.summary ∧ t' = g.pruned.summary
  flow {g _} h := h ▸ g.flow_pruned
  told {g _} h := ⟨g, rfl, h ▸ rfl⟩

/-- The same action for a graph without its dangling edges. -/
def Action.pruned : Action → Action
  | .simulate (.ok g) => .simulate (.ok g.pruned)
  | a => a

/-- The same happening for graphs without their dangling edges. -/
def Happening.pruned : Happening → Happening
  | .act a => .act a.pruned
  | .step => .step

/-- The same timetable for graphs without their dangling edges. -/
def Timetable.pruned (table : Timetable) : Timetable :=
  table.map fun (time, a) => (time, a.pruned)

/-- A request mirrors the same one without dangling edges. -/
theorem Action.mirrors_pruned (a : Action) : a.Mirrors .pruned a.pruned := by
  cases a with
  | simulate graph =>
    cases graph with
    | error e => exact .simulate (.error e)
    | ok g => exact .simulate (.ok rfl)
  | cancel => exact .cancel
  | cancelCaller caller => exact .cancelCaller caller
  | probe => exact .probe

/-- What happens mirrors the same without dangling edges. -/
theorem Happening.mirrors_pruned (x : Happening) : x.Mirrors .pruned x.pruned := by
  cases x with
  | step => exact .step
  | act a => exact .act a.mirrors_pruned

/-- Sessions go on alike without the dangling edges of their graphs. -/
theorem mirrors_pruned (p : Plan) (table : Timetable) (xs : List Happening) : ∃ places,
    (xs.foldl (Session.meet p) table.begin).Mirrors .pruned places []
      ((xs.map Happening.pruned).foldl (Session.meet p) table.pruned.begin) := by
  refine (Timetable.mirrors_begin ?_).meetAll ?_
  · exact List.forall₂_map_right_iff.2 (List.forall₂_same.2 fun x _ => ⟨rfl, x.2.mirrors_pruned⟩)
  · exact List.forall₂_map_right_iff.2 (List.forall₂_same.2 fun x _ => x.mirrors_pruned)

/-- Two entries are the same, or tell of the start of a run on a graph with and without its dangling edges. -/
def Entry.SameStart (e e' : Entry) : Prop :=
  e' = e ∨ ∃ g : Snapshot, e = .event (.started g.summary) ∧ e' = .event (.started g.pruned.summary)

/-- A session that mirrors another one without dangling edges has recorded the same but for summaries. -/
theorem Session.Mirrors.sameStart {places : List FutureId} {s s' : Session} (h : s.Mirrors .pruned places [] s') :
    List.Forall₂ (fun e e' => e'.1 = e.1 ∧ e.2.SameStart e'.2) s.trace s'.trace := by
  refine (h.trace.forall₂ fun _ he => he.1 rfl).imp fun e e' he => ⟨he.1, ?_⟩
  obtain ⟨-, he⟩ := he
  generalize e.2 = x, e'.2 = x' at he
  cases he with
  | same => exact Or.inl rfl
  | started ht =>
    obtain ⟨g, rfl, rfl⟩ := ht
    exact Or.inr ⟨g, rfl, rfl⟩

end Simulation

open Simulation in
/--
Dangling edges make no difference to anything but what is reported and counted. Without them every
question about the graph has the same answer: its edges, what leaves a node, what a node consumes and
is consumed by, the sinks, what can be reached, the order, the cycles and the start. The script has the
same text. Sessions in which the dangling edges are left out of all graphs come to the same state at
the same time, with the same records but for summaries, whatever happens to them. And each end of an edge
that is no node is reported once, edge by edge and the source first, so nothing is reported without
the dangling edges.
-/
theorem dangling_edges_inert (s : Snapshot) :
    (s.pruned.flow.edges = s.flow.edges ∧ s.pruned.flow.outgoing = s.flow.outgoing ∧
      s.pruned.flow.producers = s.flow.producers ∧ s.pruned.flow.consumers = s.flow.consumers ∧
      s.pruned.flow.sinks = s.flow.sinks ∧ s.pruned.flow.downstream = s.flow.downstream ∧
      s.pruned.flow.order = s.flow.order ∧ s.pruned.flow.leftover = s.flow.leftover ∧
      s.pruned.flow.findCycle? = s.flow.findCycle? ∧ s.pruned.flow.start? = s.flow.start?) ∧
    (∀ d : Defaults, (Script.compile d s.pruned).1.text = (Script.compile d s).1.text ∧
      ∃ notes, (Script.compile d s).2 =
          s.danglingReports ++ notes ++ [⟨.debug, "[Compiler] Script compiled: " ++ s.summary⟩] ∧
        (Script.compile d s.pruned).2 = notes ++ [⟨.debug, "[Compiler] Script compiled: " ++ s.pruned.summary⟩]) ∧
    (∀ (p : Plan) (table : Timetable) (xs : List Happening),
      let t := xs.foldl (Session.meet p) table.begin
      let t' := (xs.map Happening.pruned).foldl (Session.meet p) table.pruned.begin
      t.Matches t' ∧ List.Forall₂ (fun e e' => e'.1 = e.1 ∧ e.2.SameStart e'.2) t.trace t'.trace ∧
        (Engine.step? p t' = none ↔ Engine.step? p t = none)) ∧
    (s.danglingReports = s.edges.flatMap fun e => (e.ends.filter fun x => x.2 ∉ s.ids).map fun (role, id) =>
      ⟨.warning, "[Graph] Edge " ++ e.id ++ ": " ++ role ++ " '" ++ id ++ "' not found in nodes"⟩) ∧
    s.pruned.danglingReports = [] := by
  have hflow := s.flow_pruned
  refine ⟨?_, fun d => ?_, fun p table xs => ?_, s.danglingReports_eq, s.danglingReports_pruned⟩
  · rw [hflow]
    simp only [and_self]
  · simp only [Script.compile, hflow, s.danglingReports_pruned, List.nil_append]
    exact ⟨trivial, _, by rw [List.append_assoc s.danglingReports], rfl⟩
  · obtain ⟨places, hm⟩ := mirrors_pruned p table xs
    exact ⟨hm.matching, hm.sameStart, Engine.step?_eq_none_iff hm fun y hy => by cases hy⟩

end PipelineGraph
