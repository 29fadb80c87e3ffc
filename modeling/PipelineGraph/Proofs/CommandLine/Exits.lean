import PipelineGraph.CommandLine.Command
import PipelineGraph.Proofs.Simulation.SingleCaller

/-!
# Exits of the command line

A simulation on the command line has one caller, who may be interrupted. It comes to rest within the steps
that it is given, and its exit goes with the status in which it leaves the machine, unless it is interrupted
when its visits are nested too deep for that. A command ends without an exit code only if its file holds what
has not the shape of a graph, or if its graph has no document.
-/

namespace PipelineGraph.CommandLine

open Simulation Scheduler

/-- The exit code for the status in which a simulation leaves the machine. -/
def exitCode : RunStatus → Nat
  | .failed => 1
  | .cancelled => 130
  | _ => 0

/-- Where a graph decides what becomes of a simulation, its caller is told what suits the status. -/
theorem suits_of_decides {p : Plan} {g : FlowGraph} {start : Node} {entries : List (Nat × Entry)}
    {status : RunStatus} {res : CallResult} (h : Decides p g start entries status res) : res.Suits status := by
  by_cases hcyclic : g.IsCyclicFrom start.id
  · obtain ⟨⟨cycle, rfl⟩, rfl, -⟩ := h.cyclic.2 hcyclic
    exact .failed (.cycle cycle)
  by_cases hlong : ∃ w x, g.IsWalk start.id w x ∧ p.maxDepth < w.length
  · obtain ⟨node, rfl, rfl, -⟩ := h.deep.2 ⟨hcyclic, hlong⟩
    exact .failed (.depth node _)
  · obtain ⟨rfl, rfl⟩ := h.done.2 ⟨hcyclic, fun w x hw => Int.not_lt.1 fun hlt => hlong ⟨w, x, hw, hlt⟩⟩
    exact .returned

/-- A caller who was answered ends the command as the status of the machine says. -/
theorem exit_conclusion {res : CallResult} {status : RunStatus} (h : res.Suits status) (time : Nat) :
    (conclusion time res).2 = .code (exitCode status) := by
  cases h with
  | returned | cancelled => rfl
  | failed h => cases h <;> rfl

/-- The only answer in a session is its result. -/
theorem sessionResult_eq {s : Session} {caller : Nat} {res : CallResult}
    (h : observe Entry.result? s.trace = [(caller, res)]) : sessionResult s = res := by
  have hfirst : (s.trace.findSome? fun x => (Entry.result? x.2).map Prod.snd) = some res := by
    rw [← Function.comp_def, ← List.map_findSome?, ← List.head?_filterMap]
    change (observe Entry.result? s.trace).head?.map Prod.snd = some res
    rw [h]
    rfl
  refine congrArg (Option.getD · _) (Eq.trans ?_ hfirst)
  refine congrArg (List.findSome? · s.trace) (funext fun x => ?_)
  obtain ⟨time, entry⟩ := x
  cases entry <;> rfl

/-- The interruption of a session as a timetable. -/
def interruptions (interruption : Option Nat) : Timetable :=
  interruption.toList.map fun time => (time, .cancelCaller none)

/-- A session on the command line is one in which a simulation is asked for before its interruption. -/
theorem session_eq (p : Plan) (s : Snapshot) (interruption : Option Nat) : session p s interruption =
    Engine.run p ((Action.simulate (.ok s)).stepBound + (Action.cancelCaller none).stepBound)
      (Engine.act (interruptions interruption).begin (.simulate (.ok s))) := by
  cases interruption <;> rfl

/-- All that is asked for in an interruption is to cancel the caller. -/
theorem eq_cancelCaller_of_mem {interruption : Option Nat} {a : Action}
    (h : .act a ∈ (interruptions interruption).begin.scheduler.jobs) : a = .cancelCaller none := by
  cases interruption with
  | none => cases h
  | some time =>
    have hjobs : (interruptions (some time)).begin.scheduler.jobs = [.act (.cancelCaller none)] := rfl
    rw [hjobs, List.mem_singleton] at h
    cases h
    rfl

section Session

variable {p : Plan} {s : Snapshot} (interruption : Option Nat) (hhooks : p.hooks = [])
  (hdwell : ∀ e, p.dwell ≠ .unusable e) (hedge : ∀ e, p.edgeDelay ≠ .unusable e)

include hhooks hdwell hedge

/-- A session without an interruption comes to rest, and its caller was answered once. -/
theorem session_answers_uninterrupted : Engine.step? p (session p s none) = none ∧
    ∃ caller res, observe Entry.result? (session p s none).trace = [(caller, res)] ∧
      res.Suits (session p s none).machine.status := by
  have hidle : ({} : Session).machine.status ≠ .running := fun hcontra => by cases hcontra
  obtain ⟨entries, res, hanswers, hsuits⟩ : ∃ entries res, Session.Answers p {}
      (Engine.run p (Action.simulate (.ok s)).stepBound (Engine.act {} (.simulate (.ok s)))) entries res ∧
      res.Suits (Engine.run p (Action.simulate (.ok s)).stepBound
        (Engine.act {} (.simulate (.ok s)))).machine.status := by
    cases hstart : s.flow.start? with
    | none =>
      obtain ⟨entries, hanswers, hstatus, -⟩ :=
        Engine.simulate_empty hhooks (s := {}) rfl hidle (FlowGraph.start?_eq_none_iff.1 hstart)
      exact ⟨entries, .returned, hanswers, hstatus ▸ .returned⟩
    | some start =>
      by_cases hcyclic : s.flow.IsCyclicFrom start.id
      · obtain ⟨entries, res, hanswers, hdecides⟩ := Engine.simulate_cyclic hhooks (s := {}) rfl hidle hstart hcyclic
        exact ⟨entries, res, hanswers, suits_of_decides hdecides⟩
      · obtain ⟨entries, res, hanswers, hdecides⟩ :=
          Engine.simulate_acyclic hhooks (s := {}) rfl hidle hdwell hedge hstart hcyclic
        exact ⟨entries, res, hanswers, suits_of_decides hdecides⟩
  have hsession : session p s none =
      Engine.run p (Action.simulate (.ok s)).stepBound (Engine.act {} (.simulate (.ok s))) :=
    Engine.run_add_of_step?_none hanswers.rest.1 _
  rw [hsession]
  refine ⟨hanswers.rest.1, 0, res, ?_, hsuits⟩
  rw [hanswers.trace]
  exact hanswers.results

/-- A session that may be interrupted comes to rest, and its caller was answered once. -/
theorem session_answers_interrupted (hp : p.IsShallow) : Engine.step? p (session p s interruption) = none ∧
    ∃ caller res, observe Entry.result? (session p s interruption).trace = [(caller, res)] ∧
      res.Suits (session p s interruption).machine.status := by
  have hlookup : ∀ n, p.hooks.lookup n ≠ some .fail := fun n => by simp [hhooks]
  have hbegin : (interruptions interruption).begin.IsRegular p := Session.isRegular_begin _ hp
  have hregular := hbegin.act (.simulate (.ok s))
  have hfresh := Session.isFresh_begin (interruptions interruption)
  rw [session_eq]
  have hbound : (Engine.act (interruptions interruption).begin (.simulate (.ok s))).scheduler.stepBound ≤
      (Action.simulate (.ok s)).stepBound + (Action.cancelCaller none).stepBound := by
    have hact := Engine.stepBound_act (s := (interruptions interruption).begin) (.simulate (.ok s))
    have htable := stepBound_begin (interruptions interruption)
    have hbound : (interruptions interruption).stepBound ≤ (Action.cancelCaller none).stepBound := by
      cases interruption <;> simp [interruptions, Timetable.stepBound]
    simp only [Job.stepBound] at hact
    unfold Action.stepBound at hbound ⊢
    lia
  obtain ⟨hrest, hstatus⟩ := hregular.rests hlookup (fun t v hv => by
    rw [Engine.visit?_act] at hv
    exact isFinite_begin _ t v hv) hbound
  refine ⟨hrest, ?_⟩
  obtain ⟨s₁, hstep⟩ : ∃ s₁,
      Engine.step? p (Engine.act (interruptions interruption).begin (.simulate (.ok s))) = some s₁ :=
    ⟨_, Engine.step?_simulate hfresh.ready⟩
  have hsingle : s₁.SingleCaller p := Session.singleCaller_of_first_step
    ((hregular.regularStep hlookup hstep).isRegular hregular)
    hfresh (fun a ha => eq_cancelCaller_of_mem ha) rfl hhooks (fun hcontra => by cases hcontra) hstep
  obtain ⟨n, hn⟩ : ∃ n, (Action.simulate (.ok s)).stepBound + (Action.cancelCaller none).stepBound = n + 1 := ⟨_, rfl⟩
  rw [hn, Engine.run_succ hstep] at hstatus ⊢
  exact (hsingle.run hhooks hdwell hedge n).answer.resolve_left fun hrunning => hstatus hrunning.1

/-- A session comes to rest, and its caller was answered once, if its plan is shallow in case it is interrupted. -/
theorem session_answers (hp : interruption ≠ none → p.IsShallow) : Engine.step? p (session p s interruption) = none ∧
    ∃ caller res, observe Entry.result? (session p s interruption).trace = [(caller, res)] ∧
      res.Suits (session p s interruption).machine.status := by
  cases hinterruption : interruption with
  | none => exact session_answers_uninterrupted hhooks hdwell hedge
  | some time =>
    exact session_answers_interrupted (some time) hhooks hdwell hedge (hp (hinterruption ▸ Option.some_ne_none time))

end Session

/-- Nobody does anything at the events of a simulation on the command line, which goes as deep as the defaults
say. -/
theorem hooks_of_plan {d : Defaults} {fast : Bool} {p : Plan} (h : plan d fast = .ok p) :
    p.hooks = [] ∧ p.maxDepth = d.maxDepth := by
  simp only [plan, bind, Except.bind, pure, Except.pure] at h
  split at h
  · cases h
  · split at h
    · cases h
    · cases h
      exact ⟨rfl, rfl⟩

/-- Whether simulations can wait for their delays, fast or not. -/
def CanWait (d : Defaults) : Prop :=
  ∀ fast, ∃ p ∈ (plan d fast).toOption, p.dwell.IsUsable ∧ p.edgeDelay.IsUsable

instance (d : Defaults) : Decidable (CanWait d) :=
  inferInstanceAs (Decidable (∀ fast, ∃ p ∈ (plan d fast).toOption, p.dwell.IsUsable ∧ p.edgeDelay.IsUsable))

example : CanWait {} := by decide +kernel

-- This dwelling is a finite number of seconds, but not of microseconds.
example : ¬ CanWait { dwell := 10 ^ 308 } := by decide +kernel

/-- A plan that can wait is the one that simulations have. -/
theorem CanWait.exists_plan {d : Defaults} (hd : CanWait d) (fast : Bool) :
    ∃ p, plan d fast = .ok p ∧ p.dwell.IsUsable ∧ p.edgeDelay.IsUsable := by
  obtain ⟨p, hp, husable⟩ := hd fast
  cases hplan : plan d fast with
  | error e =>
    rw [hplan] at hp
    cases hp
  | ok p' =>
    rw [hplan] at hp
    cases hp
    exact ⟨p, rfl, husable⟩

/-- Whether an interruption reaches all visits, however they are nested. -/
def CanInterrupt (d : Defaults) : Prop :=
  2 * d.maxDepth + 4 ≤ maxRequestDepth

instance (d : Defaults) : Decidable (CanInterrupt d) :=
  inferInstanceAs (Decidable (2 * d.maxDepth + 4 ≤ maxRequestDepth))

example : CanInterrupt { maxDepth := 491 } := by decide

-- With the standard depth an interruption may go too deep.
example : ¬ CanInterrupt {} := by decide

/-- A graph that is not loaded ends the command with one message and code 1, unless its file does not hold what
has the shape of a graph. -/
theorem loadReport_cases (e : GraphFileError) :
    loadReport e = .message ("[red]Cannot load graph:[/red] " ++ e.message) 1 ∨
      ∃ f, e = .notGraph f ∧ e.isReport = false ∧ loadReport e = .fault (.graph f) := by
  cases hreport : e.isReport with
  | true =>
    refine Or.inl ?_
    cases e <;> simp [loadReport, hreport]
  | false =>
    cases e with
    | notGraph f => exact Or.inr ⟨f, rfl, rfl, by simp [loadReport, hreport]⟩
    | cannotOpen | notText => cases hreport

/-- An export ends with code 0, unless the graph has no document. -/
theorem exportGraph_exit (d : Defaults) (s : Snapshot) (format : ExportFormat) :
    (exportGraph d s format).exit = .code 0 ∨
      ∃ e, s.documentText d.jsonIndent = .error e ∧ (exportGraph d s format).exit = .noDocument e := by
  unfold exportGraph
  cases format.hasDocument with
  | false => exact Or.inl rfl
  | true =>
    unfold documentPanels
    cases s.documentText d.jsonIndent with
    | ok t => exact Or.inl rfl
    | error e => exact Or.inr ⟨e, rfl, rfl⟩

section Exits

variable {d : Defaults} (hd : CanWait d) {interruption : Option Nat}
  (hinterrupt : interruption ≠ none → CanInterrupt d)

include hd hinterrupt

/-- A simulation on the command line plays a session that comes to rest with its run behind it, and its exit
code goes with the status of the machine, whatever the graph and whenever it is interrupted. -/
theorem simulate_exit (s : Snapshot) (fast : Bool) :
    ∃ p, plan d fast = .ok p ∧ Engine.step? p (session p s interruption) = none ∧
      (session p s interruption).machine.status ∈ [RunStatus.finished, .failed, .cancelled] ∧
      (simulate d s fast interruption).exit = .code (exitCode (session p s interruption).machine.status) := by
  obtain ⟨p, hplan, hdwell, hedge⟩ := hd.exists_plan fast
  obtain ⟨hhooks, hdepth⟩ := hooks_of_plan hplan
  have hp : interruption ≠ none → p.IsShallow := fun hne => by
    rw [Plan.IsShallow, hdepth]
    exact hinterrupt hne
  obtain ⟨hrest, caller, res, hres, hsuits⟩ := session_answers (s := s) interruption hhooks hdwell hedge hp
  refine ⟨p, hplan, hrest, ?_, ?_⟩
  · generalize (session p s interruption).machine.status = status at hsuits
    cases hsuits <;> simp
  · have hexit : (simulate d s fast interruption).exit =
        (conclusion (session p s interruption).scheduler.now (sessionResult (session p s interruption))).2 := by
      unfold simulate
      rw [hplan]
    rw [hexit, sessionResult_eq hres]
    exact exit_conclusion hsuits _

/-- A command for a graph ends with an exit code, unless the graph is to be exported and has no document. -/
theorem run_exit (command : Command) (s : Snapshot) (arguments : List Text) (format : Text) :
    (∃ n ∈ [0, 1, 2, 130], (command.run d s arguments format interruption).exit = .code n) ∨
      ∃ e, s.documentText d.jsonIndent = .error e ∧
        (command.run d s arguments format interruption).exit = .noDocument e := by
  cases command with
  | simulating =>
    obtain ⟨p, -, -, -, hexit⟩ := simulate_exit hd hinterrupt s (arguments.contains "--fast")
    refine Or.inl ⟨_, ?_, hexit⟩
    cases (session p s interruption).machine.status <;> decide
  | exporting =>
    unfold Command.run
    cases ExportFormat.ofName? format with
    | none => exact Or.inl ⟨2, by decide, rfl⟩
    | some format => exact (exportGraph_exit d s format).imp_left fun hexit => ⟨0, by decide, hexit⟩

/-- An exit code is 0, 1, 2 or 130. A command line ends without one only if a file has been read that does not
hold what has the shape of a graph, or if a graph is to be exported that has no document. -/
theorem report_exit (files : Files) (arguments : List Text) :
    (∃ n ∈ [0, 1, 2, 130], (report d files interruption arguments).exit = .code n) ∨
      (∃ path e, loadGraph files path = .error (.notGraph e) ∧ (GraphFileError.notGraph e).isReport = false ∧
        (report d files interruption arguments).exit = .fault (.graph e)) ∨
      ∃ path s e, loadGraph files path = .ok s ∧ s.documentText d.jsonIndent = .error e ∧
        (report d files interruption arguments).exit = .noDocument e := by
  simp only [report, dispatch]
  cases (Arguments.ofList arguments).positional.head?.bind Command.ofName? with
  | none => exact Or.inl ⟨2, by decide, rfl⟩
  | some command =>
    cases hload : loadGraph files (Arguments.ofList arguments).positional[1]? with
    | error e =>
      rcases loadReport_cases e with hmessage | ⟨f, rfl, hreport, hfault⟩
      · exact Or.inl ⟨1, by decide, congrArg Report.exit hmessage⟩
      · exact Or.inr (Or.inl ⟨_, f, hload, hreport, congrArg Report.exit hfault⟩)
    | ok s =>
      rcases run_exit hd hinterrupt command s arguments _ with hexit | ⟨e, hdocument, hexit⟩
      · exact Or.inl hexit
      · exact Or.inr (Or.inr ⟨_, s, e, hload, hdocument, hexit⟩)

end Exits

-- A list has not the shape of a graph.
example : (match (report {} [("g.json", .file [91, 93])] none ["export", "g.json"]).exit with
    | .fault f => some f.message
    | _ => none) = some (Text.ofString "'list' object has no attribute 'get'") := by
  decide +kernel

end PipelineGraph.CommandLine
