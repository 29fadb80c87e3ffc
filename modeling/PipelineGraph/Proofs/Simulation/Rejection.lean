import PipelineGraph.Graph.Demo
import PipelineGraph.Proofs.Simulation.ToldEvents
import PipelineGraph.Proofs.Simulation.MirroredTurns

/-!
# Calls that are rejected

A simulation is not begun if its graph cannot be loaded or a run is under way. Such a call may be made
aside, at any moment and any number of times, by somebody who runs along with the engine or by
new tasks. Nothing of it is left but its own result: the engine does all that it does without the calls,
in the same order and at the same times.
-/

namespace PipelineGraph.Simulation

open Scheduler

/-! ## Calls aside -/

/-- What happens to a session with calls aside. -/
inductive Incident where
  | happening (h : Happening)
  /-- Somebody else calls, and the call begins at once. -/
  | call (graph : Except LoadError Snapshot)
  /-- A new task calls when its turn comes, which is queued behind a number of jobs. It is no caller of
  the session, only its result goes by a number. -/
  | later (ahead caller : Nat) (graph : Except LoadError Snapshot)

namespace Session

/-- A simulation is rejected: its graph could not be loaded, or a run is under way. -/
def rejects (s : Session) (graph : Except LoadError Snapshot) : Bool :=
  !graph.isOk || s.machine.isRunning

end Session

/-- A session with the tasks that call aside. -/
structure Shared where
  session : Session
  aside : List FutureId := []

namespace Shared

/-- What a session is with its calls aside when something has happened. -/
def meet (p : Plan) (c : Shared) : Incident → Shared
  | .happening h => { c with session := c.session.meet p h }
  | .call graph => { c with session := ((Engine.begin p graph).run c.session).2 }
  | .later ahead caller graph =>
    let (task, scheduler) := c.session.scheduler.make (.task { program := .call caller graph })
    let ready := scheduler.ready.take ahead ++ .resume task :: scheduler.ready.drop ahead
    { session := { c.session with scheduler := { scheduler with ready := ready } }
      aside := c.aside ++ [task] }

/-- The task aside whose turn the next step is. -/
def turn? (c : Shared) : Option FutureId :=
  c.session.turn?.filter (· ∈ c.aside)

/-- The graph of the call aside that begins when something happens. -/
def call? (c : Shared) : Incident → Option (Except LoadError Snapshot)
  | .call graph => some graph
  | .happening .step =>
    match c.turn?.bind c.session.scheduler.program? with
    | some (.call _ graph) => some graph
    | _ => none
  | _ => none

/-- Whether all calls aside are rejected when they begin. -/
def rejectsAll (p : Plan) (c : Shared) : List Incident → Bool
  | [] => true
  | i :: rest => (c.call? i).all c.session.rejects && (c.meet p i).rejectsAll p rest

/-- What happens if it is no call aside and no turn of such a task. -/
def other? (c : Shared) : Incident → Option Happening
  | .happening .step => if c.turn?.isSome then none else some .step
  | .happening (.act a) => some (.act a)
  | _ => none

/-- What happens besides the calls aside and the turns of their tasks. -/
def others (p : Plan) (c : Shared) : List Incident → List Happening
  | [] => []
  | i :: rest => (c.other? i).toList ++ (c.meet p i).others p rest

end Shared

/-! ## Rejections -/

variable {M : Mirror} {places aside : List FutureId} {p : Plan} {s s' : Session} {y : FutureId}
  {graph : Except LoadError Snapshot}

/-- A simulation is not begun if its graph could not be loaded. -/
theorem Engine.run_begin_error (e : LoadError) :
    (Engine.begin p (.error e)).run s = (.error (.fault (.graph e)), s) :=
  rfl

/-- A simulation is not begun while a run is under way; its graph is reported all the same. -/
theorem Engine.run_begin_running (h : s.machine.status = .running) (g : Snapshot) :
    (Engine.begin p (.ok g)).run s =
      (.error (.fault (.transition ⟨.running, .running⟩)), s.log g.danglingReports) := by
  have hnot : (s.log g.danglingReports).machine.transition .running = .error ⟨.running, .running⟩ := by
    simp [Session.log, Machine.transition, Machine.allows, h, RunStatus.successors]
  unfold Engine.begin Act.transition
  simp only [Act.run_bind, Act.run_modify, Act.run_get, hnot, Act.run_fail]

/-- A simulation that is rejected fails, and leaves nothing but log records. -/
theorem Engine.run_begin_of_rejects (p : Plan) (h : s.rejects graph = true) : ∃ f records,
    (Engine.begin p graph).run s = (.error (.fault f), s.log records) ∧
      ∀ caller, Entry.isRejection (.result caller (.failed f)) = true := by
  cases graph with
  | error e => exact ⟨.graph e, [], by rw [run_begin_error, Session.log, List.append_nil], fun _ => rfl⟩
  | ok g =>
    have hrunning : s.machine.status = .running := by
      simpa [Session.rejects, Except.isOk, Except.toBool, Machine.isRunning] using h
    exact ⟨_, _, run_begin_running hrunning g, fun _ => rfl⟩

/-! ## What tasks aside change -/

namespace Scheduler.Mirrors

variable {s s' : Scheduler Program Action} (h : s.Mirrors M places aside s')

include h

/-- A change of a task aside is not mirrored. -/
theorem modifyAside (hy : y ∈ aside) {F : Future Program Action → Future Program Action}
    (hF : ∀ f, f.IsAside → (F f).IsAside) : s.Mirrors M places aside (s'.modifyFuture y F) where
  now := h.now
  ready := h.ready
  timers := h.timers
  length := h.length
  taken := (length_modifyFuture (s := s') F).symm ▸ h.taken
  futures {i j} hij := by
    have hne : y ≠ j := fun heq => h.not_mem_aside hij (heq ▸ hy)
    rw [future?_modifyFuture, if_neg hne]
    exact h.futures hij
  asides x hx := by
    obtain ⟨f, hf, haside⟩ := h.asides x hx
    rw [future?_modifyFuture, hf]
    split
    · exact ⟨F f, rfl, hF f haside⟩
    · exact ⟨f, rfl, haside⟩

/-- The end of a task aside is not mirrored. -/
theorem completeAside (hy : y ∈ aside) (ending : Ending) : s.Mirrors M places aside (s'.complete y ending) := by
  obtain ⟨f, hf, haside⟩ := h.asides y hy
  simp only [Scheduler.complete, hf, haside.callbacks, List.append_nil]
  split
  · exact h
  · exact h.modifyAside hy fun f haside => ⟨haside.call, rfl⟩

/-- A task may be put aside, with a turn anywhere in the queue. -/
theorem makeAside (ahead caller : Nat) (graph : Except LoadError Snapshot) :
    let x := (s'.make (.task { program := .call caller graph })).2
    s.Mirrors M places (aside ++ [s'.futures.length])
      { x with ready := x.ready.take ahead ++ .resume s'.futures.length :: x.ready.drop ahead } where
  now := h.now
  ready := by
    have hready := h.ready.imp (fun _ _ hjob => hjob) fun job ⟨y, hy, hjob⟩ =>
      (⟨y, List.mem_append_left [s'.futures.length] hy, hjob⟩ : ∃ y ∈ aside ++ [s'.futures.length], job = Job.resume y)
    exact hready.insert ⟨_, List.mem_append_right _ (List.mem_singleton_self _), rfl⟩ ahead
  timers := h.timers
  length := h.length
  taken := by
    change (places ++ (aside ++ [s'.futures.length])).Perm
      (List.range (s'.make (.task { program := .call caller graph })).2.futures.length)
    rw [length_make, List.range_succ, ← List.append_assoc]
    exact h.taken.append_right _
  futures {i j} hij := by
    obtain ⟨f, f', hf, hf', hm⟩ := h.futures hij
    refine ⟨f, f', hf, ?_, hm⟩
    change (s'.make (.task { program := .call caller graph })).2.future? j = some f'
    rw [future?_make, if_neg (Nat.ne_of_lt (lt_of_future? hf')), hf']
  asides y hy := by
    change ∃ f, (s'.make (.task { program := .call caller graph })).2.future? y = some f ∧ f.IsAside
    rw [future?_make]
    rcases List.mem_append.1 hy with hy | hy
    · obtain ⟨f, hf, haside⟩ := h.asides y hy
      rw [if_neg (Nat.ne_of_lt (lt_of_future? hf)), hf]
      exact ⟨f, rfl, haside⟩
    · rw [List.mem_singleton.1 hy, if_pos rfl]
      exact ⟨_, rfl, ⟨_, caller, graph, rfl, rfl⟩, rfl⟩

end Scheduler.Mirrors

namespace Session.Mirrors

variable (h : s.Mirrors M places aside s')

include h

/-- The scheduler with calls aside may change alone. -/
theorem scheduleAside {x : Scheduler Program Action} (hx : s.scheduler.Mirrors M places aside x) :
    s.Mirrors M places aside { s' with scheduler := x } :=
  { h with scheduler := hx }

/-- A rejection may be recorded aside. -/
theorem noteAside {e : Entry} (hy : y ∈ aside) (he : e.isRejection = true) : s.Mirrors M places aside (s'.note e) := by
  have hrecorded : TraceMirrors M aside [] [(s'.scheduler.now, e)] := .aside ⟨List.ne_nil_of_mem hy, he⟩ .nil
  have htrace := h.trace.append hrecorded
  rw [List.append_nil] at htrace
  exact { h with trace := htrace }

/-- Nothing is told by the log aside. -/
theorem logAside (records : List LogRecord) : s.Mirrors M places aside (s'.log records) :=
  { h with }

/-- A task may be put aside. -/
theorem makeAside (ahead caller : Nat) (graph : Except LoadError Snapshot) :
    let x := (s'.scheduler.make (.task { program := .call caller graph })).2
    s.Mirrors M places (aside ++ [s'.scheduler.futures.length]) { s' with scheduler :=
      { x with ready := x.ready.take ahead ++ .resume s'.scheduler.futures.length :: x.ready.drop ahead } } where
  scheduler := h.scheduler.makeAside ahead caller graph
  machine := h.machine
  run := h.run
  cancelRequested := h.cancelRequested
  callers := h.callers
  emitted := h.emitted
  trace := h.trace.imp (fun _ _ he => he) fun _ he => ⟨List.append_ne_nil_of_left_ne_nil he.1 _, he.2⟩

/-- The turn of a task aside whose call is rejected is not mirrored. -/
theorem resumeAside (hy : y ∈ aside) (hrejects : ∀ caller graph,
      s'.scheduler.program? y = some (.call caller graph) → s'.rejects graph = true) :
    s.Mirrors M places aside (Engine.resume p y none s') := by
  obtain ⟨f, hf, ⟨t, caller, graph, hk, hcall⟩, -⟩ := h.scheduler.asides y hy
  have ht : s'.scheduler.task? y = some t := by
    rw [task?_eq_bind, hf, Option.bind_some, Future.task?, hk]
  have hrejected : s'.rejects graph = true := hrejects caller graph (by rw [program?, ht, Option.map_some, hcall])
  have hawake : s.Mirrors M places aside { s' with scheduler := s'.scheduler.awaken y } := by
    refine h.scheduleAside (h.scheduler.modifyAside hy fun f haside => ?_)
    obtain ⟨⟨t, caller, graph, hk, hcall⟩, hcallbacks⟩ := haside
    rw [hk]
    exact ⟨⟨_, caller, graph, rfl, hcall⟩, hcallbacks⟩
  unfold Engine.resume
  rw [ht]
  dsimp only
  rw [hcall]
  by_cases hmust : t.mustCancel = true
  · rw [if_pos hmust]
    exact hawake.scheduleAside (hawake.scheduler.completeAside hy _)
  · rw [if_neg hmust]
    obtain ⟨fault, records, hrun, hrejection⟩ := Engine.run_begin_of_rejects p
      (s := { s' with scheduler := s'.scheduler.awaken y }) hrejected
    have hturn : (Engine.turn p (.call caller graph) none).run { s' with scheduler := s'.scheduler.awaken y } =
        (.ok .over, (Session.log { s' with scheduler := s'.scheduler.awaken y } records).note
          (.result caller (.failed fault))) :=
      Engine.run_settle_error hrun
    have hnoted := (hawake.logAside records).noteAside hy (hrejection caller)
    change s.Mirrors M places aside (Engine.follow y ((Engine.turn p (.call caller graph) none).run
      { s' with scheduler := s'.scheduler.awaken y }))
    rw [hturn]
    exact hnoted.scheduleAside (hnoted.scheduler.completeAside hy _)

end Session.Mirrors

/-! ## Sessions with calls aside -/

namespace Shared

variable {c : Shared} {s : Session}

/-- The turn of a task aside whose call is rejected is not mirrored, wherever its job is queued. -/
theorem mirrors_turn (h : s.Mirrors M places c.aside c.session) {y : FutureId} (hturn : c.turn? = some y)
    (hrejects : ∀ graph, c.call? (.happening .step) = some graph → c.session.rejects graph = true) :
    s.Mirrors M places c.aside (c.session.meet p .step) := by
  obtain ⟨hhead, hmem⟩ := Option.filter_eq_some_iff.1 hturn
  have hy : y ∈ c.aside := of_decide_eq_true hmem
  have hready := h.scheduler.ready
  unfold Session.turn? at hhead
  generalize hs : s.scheduler.ready = ready, hs' : c.session.scheduler.ready = ready' at hready hhead
  cases hready with
  | nil => cases hhead
  | both hjob =>
    -- What stands at a place is not aside.
    refine absurd hy ?_
    cases hjob with
    | resume ht => exact Option.some.inj hhead ▸ h.scheduler.not_mem_aside ht
    | wake ht => exact Option.some.inj hhead ▸ h.scheduler.not_mem_aside ht
    | count | elapse | act => cases hhead
  | @aside job _ rest hjob hrest =>
    obtain ⟨y', -, rfl⟩ := hjob
    cases hhead
    have hsame : s.scheduler.drop ready = s.scheduler := hs ▸ rfl
    have hdropped := Engine.mirrors_drop h hrest
    rw [hsame] at hdropped
    have hstep : c.session.meet p .step =
        Engine.resume p y none { c.session with scheduler := c.session.scheduler.drop rest } := by
      simp only [Session.meet, Engine.step?, hs', Option.getD_some]
      rfl
    rw [hstep]
    refine hdropped.resumeAside hy fun caller graph hcall => hrejects graph ?_
    have hprogram : c.session.scheduler.program? y = some (.call caller graph) := hcall
    simp only [call?, hturn, Option.bind_some, hprogram]

/-- A session goes on alike without the calls aside and the turns of their tasks. -/
theorem mirrors_meet (h : s.Mirrors M places c.aside c.session) (hM : ∀ g, M.graph g g) {i : Incident}
    (hrejects : ∀ graph, c.call? i = some graph → c.session.rejects graph = true) : ∃ places',
      ((c.other? i).toList.foldl (Session.meet p) s).Mirrors M places' (c.meet p i).aside (c.meet p i).session := by
  cases i with
  | happening happening =>
    cases happening with
    | act a =>
      obtain ⟨places', -, hm⟩ := Engine.mirrors_act h (Action.mirrors_refl hM a)
      exact ⟨places', hm⟩
    | step =>
      cases hturn : c.turn? with
      | some y =>
        refine ⟨places, ?_⟩
        simp only [other?, hturn, Option.isSome_some, if_true, Option.toList_none, List.foldl_nil]
        exact mirrors_turn h hturn hrejects
      | none =>
        simp only [other?, hturn, Option.isSome_none, Bool.false_eq_true, if_false, Option.toList_some,
          List.foldl_cons, List.foldl_nil, meet, Session.meet]
        have hstep := Engine.mirrors_step? (p := p) h fun y hy hhead => by
          have hcontra : c.turn? = some y := by
            simp [turn?, Session.turn?, hhead, Job.task?, hy]
          cases hturn.symm.trans hcontra
        generalize Engine.step? p s = x, Engine.step? p c.session = x' at hstep
        cases hstep with
        | none => exact ⟨places, h⟩
        | some hx =>
          obtain ⟨places', -, hm⟩ := hx
          exact ⟨places', hm⟩
  | call graph =>
    obtain ⟨fault, records, hrun, -⟩ := Engine.run_begin_of_rejects p (hrejects graph rfl)
    refine ⟨places, ?_⟩
    simp only [other?, Option.toList_none, List.foldl_nil, meet, hrun]
    exact h.logAside records
  | later ahead caller graph => exact ⟨places, h.makeAside ahead caller graph⟩

/-- A session goes on alike without any calls aside. -/
theorem mirrors_meetAll (h : s.Mirrors M places c.aside c.session) (hM : ∀ g, M.graph g g) {incidents : List Incident}
    (hrejects : c.rejectsAll p incidents = true) : ∃ places',
      ((c.others p incidents).foldl (Session.meet p) s).Mirrors M places' (incidents.foldl (meet p) c).aside
        (incidents.foldl (meet p) c).session := by
  induction incidents generalizing c s places with
  | nil => exact ⟨places, h⟩
  | cons i rest ih =>
    obtain ⟨hi, hrest⟩ := Bool.and_eq_true_iff.1 hrejects
    obtain ⟨places', hm⟩ := mirrors_meet (p := p) h hM fun graph hgraph => by
      rw [hgraph] at hi
      exact hi
    simp only [others, List.foldl_append, List.foldl_cons]
    exact ih hm hrest

end Shared

/-! ## What is left of the calls -/

/-- Graphs and summaries are taken for themselves only. -/
def Mirror.same : Mirror where
  graph g g' := g = g'
  summary t t' := t = t'
  flow h := by rw [h]
  told h := by rw [h]

/-- Two sessions match and have recorded the same at the same times, apart from rejections. -/
structure Session.Agrees (s s' : Session) : Prop extends s.Matches s' where
  trace : s.trace.Sublist s'.trace
  rejections : ∃ more, s'.trace.Perm (s.trace ++ more) ∧ ∀ e ∈ more, e.2.isRejection = true

/-- Sessions that mirror each other in all that they are agree. -/
theorem Session.Mirrors.agrees (h : s.Mirrors .same places aside s') : s.Agrees s' := by
  have hentry : ∀ e e' : Nat × Entry, e'.1 = e.1 ∧ e.2.Mirrors .same e'.2 → e = e' := by
    rintro ⟨time, e⟩ ⟨time', e'⟩ ⟨htime, he⟩
    cases htime
    cases he with
    | same => rfl
    | started ht => cases ht; rfl
  obtain ⟨hsub, more, hperm, hmore⟩ := (h.trace.imp hentry fun _ he => he.2).exists_perm
  exact ⟨h.matching, hsub, more, hperm, hmore⟩

/-- A session that is mirrored by one at rest is at rest. -/
theorem Engine.step?_of_mirrors (h : s.Mirrors M places aside s') (hrest : Engine.step? p s' = none) :
    Engine.step? p s = none := by
  have hready : s'.scheduler.ready = [] := by
    unfold Engine.step? at hrest
    split at hrest
    · cases hrest
    · next hready => exact hready
  refine (Engine.step?_eq_none_iff h fun y _ hhead => ?_).1 hrest
  rw [hready] at hhead
  cases hhead

/--
A call that is rejected changes nothing. If its graph could not be loaded it fails with the error and
leaves the session as it is; if a run is under way, whether or not its cancellation was asked for,
it fails with the error of the machine and leaves nothing but the log records about its graph. So if
all calls aside are rejected, whenever and how often they are made, everything else happens as it does
without them: the same state, the same endings, and the same records at the same times, apart
from the results of the calls themselves. And when there is nothing left to do with the calls, there is
nothing left to do without them.
-/
theorem rejected_calls_spare_runs (p : Plan) :
    (∀ (s : Session) (e : LoadError), (Engine.begin p (.error e)).run s = (.error (.fault (.graph e)), s)) ∧
      (∀ (s : Session) (g : Snapshot), s.machine.status = .running →
        (Engine.begin p (.ok g)).run s =
          (.error (.fault (.transition ⟨.running, .running⟩)), s.log g.danglingReports)) ∧
      ∀ (table : Timetable) (incidents : List Incident), Shared.rejectsAll p { session := table.begin }
        incidents = true →
        let s := (Shared.others p { session := table.begin } incidents).foldl (Session.meet p) table.begin
        let s' := (incidents.foldl (Shared.meet p) { session := table.begin }).session
        s.Agrees s' ∧ (Engine.step? p s' = none → Engine.step? p s = none) := by
  refine ⟨fun s e => Engine.run_begin_error e, fun s g h => Engine.run_begin_running h g, ?_⟩
  intro table incidents hrejects
  have hactions : List.Forall₂ (fun x x' : Nat × Action => x'.1 = x.1 ∧ x.2.Mirrors .same x'.2) table table :=
    List.forall₂_same.2 fun x _ => ⟨rfl, Action.mirrors_refl (fun _ => rfl) x.2⟩
  obtain ⟨places, hm⟩ := Shared.mirrors_meetAll (c := { session := table.begin })
    (Timetable.mirrors_begin hactions) (fun _ => rfl) hrejects
  exact ⟨hm.agrees, Engine.step?_of_mirrors hm⟩

/-- A run of the demo graph that is cancelled at its start, with calls aside before and after the
cancellation is asked for. -/
def Incident.demo : List Incident :=
  List.replicate 3 (.happening .step) ++
    [.later 0 7 (.ok .demo), .call (.ok .demo), .happening (.act .cancel), .call (.ok .demo), .later 5 8 (.ok .demo)] ++
    List.replicate 6 (.happening .step)

/-- The cancelled run of the demo graph returns as it does without the calls, and they have all failed. -/
theorem rejected_calls_spare_runs_demo :
    (Engine.begin ⟨.pause, .timer 5, 4, [], true⟩ (.ok .demo)).run
        (Engine.run ⟨.pause, .timer 5, 4, [], true⟩ 3 (Timetable.begin [(0, .simulate (.ok .demo))])) =
      (.error (.fault (.transition ⟨.running, .running⟩)),
        (Engine.run ⟨.pause, .timer 5, 4, [], true⟩ 3 (Timetable.begin [(0, .simulate (.ok .demo))])).log
          Snapshot.demo.danglingReports) ∧
    Session.Agrees
      ((Shared.others ⟨.pause, .timer 5, 4, [], true⟩ { session := Timetable.begin [(0, .simulate (.ok .demo))] }
        Incident.demo).foldl (Session.meet ⟨.pause, .timer 5, 4, [], true⟩)
          (Timetable.begin [(0, .simulate (.ok .demo))]))
      (Incident.demo.foldl (Shared.meet ⟨.pause, .timer 5, 4, [], true⟩)
        { session := Timetable.begin [(0, .simulate (.ok .demo))] }).session ∧
    Engine.step? ⟨.pause, .timer 5, 4, [], true⟩
      ((Shared.others ⟨.pause, .timer 5, 4, [], true⟩ { session := Timetable.begin [(0, .simulate (.ok .demo))] }
        Incident.demo).foldl (Session.meet ⟨.pause, .timer 5, 4, [], true⟩)
        (Timetable.begin [(0, .simulate (.ok .demo))])) = none := by
  obtain ⟨-, hrunning, hspared⟩ := rejected_calls_spare_runs ⟨.pause, .timer 5, 4, [], true⟩
  obtain ⟨hagrees, hrest⟩ := hspared [(0, .simulate (.ok .demo))] Incident.demo (by decide +kernel)
  refine ⟨hrunning _ .demo (by decide +kernel), hagrees, hrest ?_⟩
  exact Option.isNone_iff_eq_none.1 (by decide +kernel)

end PipelineGraph.Simulation
