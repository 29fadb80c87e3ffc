import PipelineGraph.Proofs.Simulation.MirroredSessions

/-!
# Turns in sessions that mirror others

A turn of a task keeps a session mirrored by the session in which the task at its place takes its turn,
and so does everything that is asked of both sessions.
-/

namespace PipelineGraph.Simulation

open Scheduler

variable {M : Mirror} {places places' aside : List FutureId} {p : Plan}

/-! ## Turns -/

/-- Tasks go on alike: with mirrored programs, behind futures at the same place. -/
inductive Progress.Mirrors (M : Mirror) (places : List FutureId) : Progress → Progress → Prop
  | done : Progress.Mirrors M places .over .over
  | pause {pr pr'} (h : pr.Mirrors M places pr') : Progress.Mirrors M places (.pause pr) (.pause pr')
  | wait {x x' pr pr'} (hx : Stands places x x') (h : pr.Mirrors M places pr') :
    Progress.Mirrors M places (.wait x pr) (.wait x' pr')

namespace Engine

open Act

variable {s s' : Session} (h : s.Mirrors M places aside s')

include h

/-- Tasks go on alike behind the same delay. -/
theorem mirrored_delay (d : Delay) {next next' : Program} (hnext : next.Mirrors M places next') :
    Mirrored M places aside (Progress.Mirrors M) ((delay d next).run s) ((delay d next').run s') := by
  cases d with
  | pause => exact .ok (List.prefix_refl _) h (.pause hnext)
  | timer microseconds =>
    have hmono : places <+: places ++ [s'.scheduler.futures.length] := List.prefix_append _ _
    rw [run_delay_timer, run_delay_timer]
    refine .ok hmono (h.schedule hmono (h.scheduler.sleep microseconds)) ?_
    exact .wait h.scheduler.stands_new (hnext.mono hmono)
  | unusable e => exact mirrored_fail h _

/-- Visits begin alike. -/
theorem mirrored_enter (v : Visit) :
    Mirrored M places aside (Progress.Mirrors M) ((enter p v).run s) ((enter p v).run s') := by
  by_cases hdepth : p.maxDepth < v.depth
  · rw [run_enter_deep hdepth, run_enter_deep hdepth]
    exact .error (List.prefix_refl _) h _
  · unfold enter
    rw [if_neg hdepth]
    refine (mirrored_setActive h _).bind fun _ h _ => ?_
    refine (mirrored_emit h (.same _)).bind fun _ h _ => ?_
    exact (mirrored_log h _ _ _).bind fun _ h _ => mirrored_delay h _ (.leave v)

/-- Visits end their dwelling alike. -/
theorem mirrored_leave (v : Visit) :
    Mirrored M places aside (Progress.Mirrors M) ((leave p v).run s) ((leave p v).run s') := by
  unfold leave
  refine (mirrored_setActive h _).bind fun _ h _ => ?_
  refine (mirrored_emit h (.same _)).bind fun _ h _ => ?_
  split
  · exact .ok (List.prefix_refl _) h .done
  · exact mirrored_delay h _ (.fanOut v)

/-- The visits that follow are spawned and gathered alike. -/
theorem mirrored_branch (v : Visit) {programs programs' : List Program}
    (hprograms : List.Forall₂ (Program.Mirrors M places) programs programs') :
    Mirrored M places aside (Progress.Mirrors M)
      ((do let children ← schedule (·.spawnAll programs)
           return .wait (← schedule (·.gather children)) (.join v children) : Act Progress).run s)
      ((do let children ← schedule (·.spawnAll programs')
           return .wait (← schedule (·.gather children)) (.join v children) : Act Progress).run s') := by
  obtain ⟨places', hgrow, hids, hspawned⟩ := h.scheduler.spawnAll hprograms
  have hmono : places' <+: places' ++ [(s'.scheduler.spawnAll programs').2.futures.length] := List.prefix_append _ _
  simp only [run_bind, run_schedule, run_pure]
  refine .ok (hgrow.trans hmono) (h.schedule (hgrow.trans hmono) (hspawned.gather hids)) ?_
  exact .wait hspawned.stands_new (.join v (Stands.mono_list hmono hids))

/-- Visits branch alike. -/
theorem mirrored_fanOut (v : Visit) :
    Mirrored M places aside (Progress.Mirrors M) ((fanOut p v).run s) ((fanOut p v).run s') := by
  have hprograms : ∀ places, List.Forall₂ (Program.Mirrors M places) ((followers v).map .enter)
      ((followers v).map .enter) := fun places =>
    List.forall₂_map_left_iff.2 (List.forall₂_map_right_iff.2 (List.forall₂_same.2 fun v _ => .enter v))
  unfold fanOut
  refine (mirrored_emit h (.same _)).bind fun _ h _ => ?_
  split
  · exact (mirrored_log h _ _ _).bind fun _ h _ => mirrored_branch h v (hprograms _)
  · exact mirrored_branch h v (hprograms _)

/-- Visits end alike behind their children, and cancel them alike if they are interrupted. -/
theorem mirrored_join {cs cs' : List FutureId} (hcs : List.Forall₂ (Stands places) cs cs') (i : Option Interrupt) :
    Mirrored M places aside (Progress.Mirrors M) ((join cs i).run s) ((join cs' i).run s') := by
  cases i with
  | none => exact .ok (List.prefix_refl _) h .done
  | some i =>
    obtain ⟨hreply, hcancelled⟩ := h.scheduler.cancelEach hcs
    have hscheduled := h.schedule (List.prefix_refl _) hcancelled
    refine Mirrored.bind (R := Mirrored.Done) ?_ fun _ h _ => .error (List.prefix_refl _) h i
    exact mirrored_checkReply hscheduled hreply

/-- A run is launched alike. -/
theorem mirrored_launch (v : Visit) :
    Mirrored M places aside (fun places => Option.Rel (Stands places))
      ((do let task ← schedule (·.spawn (.enter v))
           modify fun s => { s with run := some task }
           return some task : Act (Option FutureId)).run s)
      ((do let task ← schedule (·.spawn (.enter v))
           modify fun s => { s with run := some task }
           return some task : Act (Option FutureId)).run s') := by
  have hmono : places <+: places ++ [s'.scheduler.futures.length] := List.prefix_append _ _
  have hspawned := h.schedule hmono (h.scheduler.spawn (.enter v))
  simp only [run_bind, run_schedule, run_modify, run_pure]
  exact .ok hmono { hspawned with run := .some h.scheduler.stands_new } (.some h.scheduler.stands_new)

/-- Simulations of mirrored graphs begin alike. -/
theorem mirrored_begin {graph graph' : Except LoadError Snapshot} (hgraph : GraphMirrors M graph graph') :
    Mirrored M places aside (fun places => Option.Rel (Stands places)) ((begin p graph).run s)
      ((begin p graph').run s') := by
  cases hgraph with
  | error e => exact mirrored_fail h _
  | @ok g g' hg =>
    unfold begin
    dsimp only
    rw [M.flow hg]
    refine (mirrored_modify (h.log _ _)).bind fun _ h _ => ?_
    refine (mirrored_transition h _).bind fun _ h _ => ?_
    refine (mirrored_modify (h.request false)).bind fun _ h _ => ?_
    refine (mirrored_emit h (.started (M.told hg))).bind fun _ h _ => ?_
    refine (mirrored_log h _ _ _).bind fun _ h _ => ?_
    split
    · refine (mirrored_log h _ _ _).bind fun _ h _ => ?_
      exact (mirrored_finish h _).bind fun _ h _ => .ok (List.prefix_refl _) h .none
    · next node _ =>
      split
      · refine (mirrored_log h _ _ _).bind fun _ h _ => ?_
        refine (mirrored_emit h (.same _)).bind fun _ h _ => ?_
        exact (mirrored_finish h _).bind fun _ h _ => mirrored_fail h _
      · exact mirrored_launch h ⟨g.flow, node, 0⟩

/-- Runs are concluded alike. -/
theorem mirrored_conclude (i : Option Interrupt) :
    Mirrored M places aside Mirrored.Done ((conclude p i).run s) ((conclude p i).run s') := by
  match i with
  | none => exact (mirrored_modify h.forget).bind fun _ h _ => mirrored_finish h _
  | some .cancelled =>
    refine Mirrored.forgetRun ((mirrored_finish h _).bind fun {places' t t' a a'} _ h _ => ?_)
    rw [run_bind, run_bind, run_get, run_get]
    dsimp only
    rw [h.cancelRequested]
    split
    · exact .error (List.prefix_refl _) h _
    · exact .ok (List.prefix_refl _) h trivial
  | some (.fault f) => exact Mirrored.forgetRun ((mirrored_finish h _).bind fun _ h _ => mirrored_fail h _)

omit h in
/-- The results of mirrored requests are recorded alike. -/
theorem mirrored_settle {act act' : Act (Option FutureId)} {next : Program} (caller : Nat)
    (hact : Mirrored M places aside (fun places => Option.Rel (Stands places)) (act.run s) (act'.run s'))
    (hnext : ∀ places, next.Mirrors M places next) :
    Mirrored M places aside (Progress.Mirrors M) ((settle caller next act).run s)
      ((settle caller next act').run s') := by
  generalize hr : act.run s = r, hr' : act'.run s' = r' at hact
  cases hact with
  | error hgrow h i =>
    rw [run_settle_error hr, run_settle_error hr']
    exact .ok hgrow (h.note (.same _)) .done
  | ok hgrow h hroot =>
    cases hroot with
    | none =>
      rw [run_settle_done hr, run_settle_done hr']
      exact .ok hgrow (h.note (.same _)) .done
    | some hx =>
      rw [run_settle_begun hr, run_settle_begun hr']
      exact .ok hgrow h (.wait hx (hnext _))

/-- Turns of mirrored programs with the same interruption are taken alike. -/
theorem mirrored_turn {pr pr' : Program} (hpr : pr.Mirrors M places pr') (i : Option Interrupt) :
    Mirrored M places aside (Progress.Mirrors M) ((turn p pr i).run s) ((turn p pr' i).run s') := by
  cases hpr with
  | enter v =>
    cases i with
    | none => exact mirrored_enter h v
    | some i => exact .error (List.prefix_refl _) h i
  | leave v =>
    cases i with
    | none => exact mirrored_leave h v
    | some i => exact .error (List.prefix_refl _) h i
  | fanOut v =>
    cases i with
    | none => exact mirrored_fanOut h v
    | some i => exact .error (List.prefix_refl _) h i
  | join v hcs => exact mirrored_join h hcs i
  | call caller hgraph =>
    cases i with
    | none => exact mirrored_settle caller (mirrored_begin h hgraph) fun _ => .conclude caller
    | some i => exact .error (List.prefix_refl _) h i
  | conclude caller =>
    have hact : Mirrored M places aside (fun places => Option.Rel (Stands places))
        ((do conclude p i; return none : Act (Option FutureId)).run s)
        ((do conclude p i; return none : Act (Option FutureId)).run s') :=
      (mirrored_conclude h i).bind fun _ h _ => .ok (List.prefix_refl _) h .none
    exact mirrored_settle caller hact fun _ => .conclude caller

omit h in
/-- What came of the turns of two tasks is done with them alike. -/
theorem mirrors_follow {id id' : FutureId} {r r' : Except Interrupt Progress × Session} (hid : Stands places id id')
    (hr : Mirrored M places aside (Progress.Mirrors M) r r') :
    ∃ places', places <+: places' ∧ (follow id r).Mirrors M places' aside (follow id' r') := by
  cases hr with
  | error hgrow h i =>
    exact ⟨_, hgrow, h.schedule (List.prefix_refl _) (h.scheduler.complete (hid.mono hgrow) _)⟩
  | @ok places' t t' a a' hgrow h hprogress =>
    have hid' := hid.mono hgrow
    have hinstruct : ∀ {pr pr'}, pr.Mirrors M places' pr' → Scheduler.Mirrors M places' aside
        (t.scheduler.modifyTask id fun t => { t with program := pr })
        (t'.scheduler.modifyTask id' fun t => { t with program := pr' }) := fun hpr =>
      h.scheduler.modifyTask hid' fun _ _ ht => ⟨hpr, ht.mustCancel, ht.waiter⟩
    refine ⟨places', hgrow, ?_⟩
    cases hprogress with
    | done => exact h.schedule (List.prefix_refl _) (h.scheduler.endTask hid')
    | pause hpr => exact h.schedule (List.prefix_refl _) ((hinstruct hpr).push (.resume hid'))
    | wait hx hpr => exact h.schedule (List.prefix_refl _) ((hinstruct hpr).await hid' hx)

/-- Both tasks take their turns alike. -/
theorem mirrors_resume {id id' : FutureId} (hid : Stands places id id') (i : Option Interrupt) :
    ∃ places', places <+: places' ∧ (resume p id i s).Mirrors M places' aside (resume p id' i s') := by
  have htask := h.scheduler.task? hid
  unfold resume
  generalize s.scheduler.task? id = t, s'.scheduler.task? id' = t' at htask
  cases htask with
  | none => exact ⟨places, List.prefix_refl _, h⟩
  | @some t t' ht =>
    have hawake : Scheduler.Mirrors M places aside
        (s.scheduler.modifyTask id fun t => { t with mustCancel := false, waiter := none })
        (s'.scheduler.modifyTask id' fun t => { t with mustCancel := false, waiter := none }) :=
      h.scheduler.modifyTask hid fun _ _ ht => ⟨ht.program, rfl, .none⟩
    dsimp only
    rw [ht.mustCancel]
    exact mirrors_follow hid (mirrored_turn (h.schedule (List.prefix_refl _) hawake) ht.program _)

/-- What is asked of both sessions is done alike. -/
theorem mirrors_act {a a' : Action} (ha : a.Mirrors M a') :
    ∃ places', places <+: places' ∧ (act s a).Mirrors M places' aside (act s' a') := by
  cases ha with
  | @simulate graph graph' hgraph =>
    have hmono : places <+: places ++ [s'.scheduler.futures.length] := List.prefix_append _ _
    have hlength : s'.callers.length = s.callers.length := h.callers.length_eq.symm
    have hspawned := h.schedule hmono (h.scheduler.spawn (.call s.callers.length hgraph))
    refine ⟨_, hmono, ?_⟩
    simp only [act, hlength]
    exact { hspawned with
      callers := List.rel_append hspawned.callers (.cons h.scheduler.stands_new .nil) }
  | cancel => exact ⟨places, List.prefix_refl _, h.noteCancelRun.2⟩
  | cancelCaller caller =>
    cases caller with
    | none => exact ⟨places, List.prefix_refl _, (h.noteCancelCaller h.getLast_callers).2⟩
    | some caller => exact ⟨places, List.prefix_refl _, (h.noteCancelCaller (h.caller? caller)).2⟩
  | probe =>
    refine ⟨places, List.prefix_refl _, ?_⟩
    simp only [act, h.machine]
    exact h.note (.same _)

/-- Mirrored jobs are done alike. -/
theorem mirrors_perform {job job' : Job Action} (hjob : job.Mirrors M places job') :
    ∃ places', places <+: places' ∧ (perform p s job).Mirrors M places' aside (perform p s' job') := by
  cases hjob with
  | resume ht => exact mirrors_resume h ht none
  | wake ht hx =>
    simp only [perform, h.scheduler.ending? hx]
    exact mirrors_resume h ht _
  | count hg hc => exact ⟨places, List.prefix_refl _, h.schedule (List.prefix_refl _) (h.scheduler.countChild hg hc)⟩
  | elapse hx => exact ⟨places, List.prefix_refl _, h.schedule (List.prefix_refl _) (h.scheduler.complete hx _)⟩
  | act ha => exact mirrors_act h ha

end Engine

/-! ## Steps -/

namespace Engine

variable {s s' : Session} (h : s.Mirrors M places aside s')

include h

/-- The first jobs of both queues may be taken. -/
theorem mirrors_drop {rest rest' : List (Job Action)}
    (hrest : Interspersed (Job.Mirrors M places) (fun job => ∃ y ∈ aside, job = .resume y) rest rest') :
    Session.Mirrors M places aside { s with scheduler := s.scheduler.drop rest }
      { s' with scheduler := s'.scheduler.drop rest' } :=
  h.schedule (List.prefix_refl _) { h.scheduler with ready := hrest }

/-- Both sessions do their next step alike, unless it is the turn of a task aside. -/
theorem mirrors_step? (hturn : ∀ y ∈ aside, s'.scheduler.ready.head? ≠ some (.resume y)) :
    Option.Rel (fun t t' => ∃ places', places <+: places' ∧ t.Mirrors M places' aside t') (step? p s) (step? p s') := by
  have hready := h.scheduler.ready
  unfold step?
  generalize hs : s.scheduler.ready = ready, hs' : s'.scheduler.ready = ready' at hready
  cases hready with
  | nil =>
    have hadvance := h.scheduler.advance?
    dsimp only
    cases ht : s.scheduler.advance? with
    | none =>
      rw [ht] at hadvance
      generalize s'.scheduler.advance? = x' at hadvance
      cases hadvance
      exact .none
    | some x =>
      rw [ht] at hadvance
      generalize s'.scheduler.advance? = x' at hadvance
      cases hadvance with
      | some hx =>
        exact .some ⟨places, List.prefix_refl _, h.schedule (List.prefix_refl _) hx⟩
  | both hjob hrest => exact .some (mirrors_perform (mirrors_drop h hrest) hjob)
  | aside hjob =>
    obtain ⟨y, hy, rfl⟩ := hjob
    exact absurd (by rw [hs']; rfl) (hturn y hy)

/-- Both sessions come to rest together, unless it is the turn of a task aside. -/
theorem step?_eq_none_iff (hturn : ∀ y ∈ aside, s'.scheduler.ready.head? ≠ some (.resume y)) :
    step? p s' = none ↔ step? p s = none := by
  have hstep := mirrors_step? (p := p) h hturn
  generalize step? p s = x, step? p s' = x' at hstep
  cases hstep <;> simp

end Engine

/-! ## Beginnings -/

/-- Mirrored actions are scheduled alike. -/
theorem Scheduler.Mirrors.schedule {table table' : Timetable} {x x' : Scheduler Program Action}
    (hx : x.Mirrors M places aside x')
    (h : List.Forall₂ (fun a a' => a'.1 = a.1 ∧ a.2.Mirrors M a'.2) table table') :
    (table.foldl (fun s (time, action) => s.setTimer time (.act action)) x).Mirrors M places aside
      (table'.foldl (fun s (time, action) => s.setTimer time (.act action)) x') := by
  induction h generalizing x x' with
  | nil => exact hx
  | cons ha _ ih => exact ih (hx.setTimer ha.1 (.act ha.2))

/-- Timetables with mirrored actions begin sessions that mirror each other. -/
theorem Timetable.mirrors_begin {table table' : Timetable}
    (h : List.Forall₂ (fun x x' => x'.1 = x.1 ∧ x.2.Mirrors M x'.2) table table') :
    table.begin.Mirrors M [] [] table'.begin :=
  ⟨Scheduler.mirrors_empty.schedule h, rfl, .none, rfl, .nil, rfl, .nil⟩

/-! ## Whatever happens -/

/-- What happens to a session: the engine does its next step, or something is asked of it. -/
inductive Happening where
  | step
  | act (a : Action)

/-- What a session is when something has happened. -/
def Session.meet (p : Plan) (s : Session) : Happening → Session
  | .step => (Engine.step? p s).getD s
  | .act a => Engine.act s a

/-- Mirrored happenings are steps of both engines, or mirrored actions. -/
inductive Happening.Mirrors (M : Mirror) : Happening → Happening → Prop
  | step : Happening.Mirrors M .step .step
  | act {a a'} (h : a.Mirrors M a') : Happening.Mirrors M (.act a) (.act a')

/-- Two sessions have come to the same state at the same time, with the same endings of their runs and
callers. -/
structure Session.Matches (s s' : Session) : Prop where
  machine : s'.machine = s.machine
  now : s'.scheduler.now = s.scheduler.now
  run : s'.run.map s'.scheduler.ending? = s.run.map s.scheduler.ending?
  cancelRequested : s'.cancelRequested = s.cancelRequested
  callers : s'.callers.map s'.scheduler.ending? = s.callers.map s.scheduler.ending?
  emitted : s'.emitted = s.emitted

namespace Session.Mirrors

variable {s s' : Session}

/-- Sessions that mirror each other match. -/
theorem matching (h : s.Mirrors M places aside s') : s.Matches s' where
  machine := h.machine
  now := h.scheduler.now
  run := by
    have hrun := h.run
    generalize s.run = R, s'.run = R' at hrun
    cases hrun with
    | none => rfl
    | some hR => exact congrArg some (h.scheduler.ending? hR)
  cancelRequested := h.cancelRequested
  callers := by
    have hcallers := h.callers
    generalize s.callers = cs, s'.callers = cs' at hcallers
    induction hcallers with
    | nil => rfl
    | cons hc _ ih => exact congrArg₂ List.cons (h.scheduler.ending? hc) ih
  emitted := h.emitted

/-- Without calls aside, mirrored happenings leave sessions that mirror each other. -/
theorem meet (h : s.Mirrors M places [] s') {x x' : Happening} (hx : x.Mirrors M x') :
    ∃ places', (s.meet p x).Mirrors M places' [] (s'.meet p x') := by
  cases hx with
  | act ha =>
    obtain ⟨places', -, hm⟩ := Engine.mirrors_act h ha
    exact ⟨places', hm⟩
  | step =>
    have hstep := Engine.mirrors_step? (p := p) h fun y hy => by cases hy
    simp only [Session.meet]
    generalize Engine.step? p s = t, Engine.step? p s' = t' at hstep
    cases hstep with
    | none => exact ⟨places, h⟩
    | some ht =>
      obtain ⟨places', -, hm⟩ := ht
      exact ⟨places', hm⟩

/-- Without calls aside, sessions go on mirroring each other. -/
theorem meetAll (h : s.Mirrors M places [] s') {xs xs' : List Happening}
    (hxs : List.Forall₂ (Happening.Mirrors M) xs xs') :
    ∃ places', (xs.foldl (Session.meet p) s).Mirrors M places' [] (xs'.foldl (Session.meet p) s') := by
  induction hxs generalizing s s' places with
  | nil => exact ⟨places, h⟩
  | cons hx _ ih =>
    obtain ⟨places', hm⟩ := h.meet hx
    exact ih hm

end Session.Mirrors

end PipelineGraph.Simulation
