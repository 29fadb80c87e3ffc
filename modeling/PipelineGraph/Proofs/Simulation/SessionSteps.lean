import PipelineGraph.Proofs.Simulation.RegularSchedulers
import PipelineGraph.Proofs.Simulation.ToldEvents
import PipelineGraph.Simulation.Timetable

/-!
# Sessions over time

At any moment a session takes its next step, or something is asked of it. Whatever happens, its machine
runs exactly while a run is under way, and its scheduler is regular. Once a run is no longer under way
its branches write nothing any more.
-/

namespace PipelineGraph.Simulation

open Relation Scheduler

/-- What may happen to a session next: the engine does its next step, or something is asked of it. -/
inductive SessionStep (p : Plan) (s : Session) : Session → Prop
  | step {s'} (h : Engine.step? p s = some s') : SessionStep p s s'
  | act (a : Action) : SessionStep p s (Engine.act s a)

/-- The machine of a session runs exactly while a run is under way, and the scheduler is regular. -/
structure Session.IsRegular (p : Plan) (s : Session) : Prop where
  regular : s.scheduler.Regular p s.run s.callers fun _ => False
  running : s.machine.status = .running ↔ s.run.isSome = true

variable {p : Plan} {s s' : Session} {job : Job Action} {rest : List (Job Action)} {id R t : FutureId}

/-! ## Beginnings -/

namespace Scheduler

/-- A scheduler without futures that has nothing but actions ahead. -/
structure IsFresh (s : Scheduler Program Action) : Prop where
  futures : s.futures = []
  ready : s.ready = []
  timers : ∀ t ∈ s.timers, ∃ a, t.job = .act a

variable {s : Scheduler Program Action} {held : FutureId → Prop}

/-- A scheduler without futures only has actions for jobs. -/
theorem IsFresh.jobs (h : s.IsFresh) {job : Job Action} (hjob : job ∈ s.jobs) : ∃ a, job = .act a := by
  simp only [Scheduler.jobs, h.ready, h.futures, List.nil_append, List.flatMap_nil, List.append_nil] at hjob
  obtain ⟨t, ht, rfl⟩ := List.mem_map.1 hjob
  exact h.timers t ht

/-- No future is there before the first action. -/
theorem IsFresh.future? (h : s.IsFresh) {f : Future Program Action} : s.future? id ≠ some f := fun hf =>
  absurd (lt_of_future? hf) (by simp [h.futures])

/-- Nothing has a bare kind before the first action. -/
theorem IsFresh.bareKind? (h : s.IsFresh) {o : BareKind Program} : s.bareKind? id ≠ some o := fun ho =>
  absurd (lt_of_bareKind? ho) (by simp [h.futures])

/-- Nothing has a program before the first action. -/
theorem IsFresh.program? (h : s.IsFresh) {pr : Program} : s.program? id ≠ some pr := fun hpr =>
  absurd (lt_of_program? hpr) (by simp [h.futures])

/-- A scheduler without futures is sound. -/
theorem IsFresh.sound (h : s.IsFresh) : s.Sound 0 held where
  base := Nat.zero_le _
  callback_source hf := absurd hf h.future?
  callbacks_ended hf := absurd hf h.future?
  ready_source hjob := by
    rw [h.ready] at hjob
    cases hjob
  timer {t} ht := by
    obtain ⟨a, ha⟩ := h.timers t ht
    rw [ha]
    exact ⟨rfl, rfl⟩
  turn_task hjob htask := by
    obtain ⟨a, rfl⟩ := h.jobs hjob
    cases htask
  count_child hjob := by
    obtain ⟨a, ha⟩ := h.jobs hjob
    cases ha
  elapse_sleep hjob := by
    obtain ⟨a, ha⟩ := h.jobs hjob
    cases ha
  children_ok _ hf := absurd hf h.future?
  idle _ _ ht := by
    obtain ⟨f, hf, -⟩ := kind?_eq_some_iff.1 ht
    exact absurd hf h.future?
  fits _ _ hf := absurd hf h.future?

/-- A scheduler without futures is fitting. -/
theorem IsFresh.fitting (h : s.IsFresh) : s.Fitting p where
  proper hpr := absurd hpr h.program?
  gathered hg := absurd hg h.bareKind?
  jobs hjob := by
    obtain ⟨a, rfl⟩ := h.jobs hjob
    trivial
  waiter hx := by
    rw [waiter?_of_length_le (by simp [h.futures])] at hx
    cases hx

/-- A scheduler without futures is well-formed. -/
theorem IsFresh.wellFormed (h : s.IsFresh) : s.WellFormed p none [] held where
  sound := h.sound
  fitting := h.fitting
  callers x hx := by cases hx
  awaited := ⟨fun _ t ⟨_, hpr, _⟩ => h.program? hpr, fun R hR => by cases hR⟩

/-- A scheduler without futures is regular, if the plan is shallow. -/
theorem IsFresh.regular (h : s.IsFresh) (hp : p.IsShallow) : s.Regular p none [] held :=
  h.wellFormed.regular hp (Or.inl ⟨fun t job _ _ pr hpr => absurd hpr h.program?, fun R hcontra => by cases hcontra⟩)

/-- A scheduler stays without futures when a timer is set for an action. -/
theorem IsFresh.setTimer (h : s.IsFresh) (time : Nat) (a : Action) : (s.setTimer time (.act a)).IsFresh where
  futures := h.futures
  ready := h.ready
  timers t ht := by
    rcases List.mem_append.1 ht with ht | ht
    · exact h.timers t ht
    · exact ⟨a, congrArg Timer.job (List.mem_singleton.1 ht)⟩

end Scheduler

namespace Session

/-- A timetable begins without futures. -/
theorem isFresh_begin (table : Timetable) : table.begin.scheduler.IsFresh := by
  have hempty : ({} : Scheduler Program Action).IsFresh := ⟨rfl, rfl, fun t ht => by cases ht⟩
  exact List.foldlRecOn table _ hempty fun s h x _ => h.setTimer x.1 x.2

/-- The session of a timetable is well-formed before its first step. -/
theorem isWellFormed_begin (table : Timetable) : table.begin.IsWellFormed p :=
  ⟨(isFresh_begin table).wellFormed, fun hcontra => by cases hcontra⟩

/-- The session of a timetable is regular before its first step, if the plan is shallow. -/
theorem isRegular_begin (table : Timetable) (hp : p.IsShallow) : table.begin.IsRegular p := by
  refine ⟨(isFresh_begin table).regular hp, iff_of_false (fun hcontra => ?_) fun hcontra => ?_⟩ <;> cases hcontra

/-- A session stays regular when it records something without coming to another status. -/
theorem IsRegular.tells {entries : List (Nat × Entry)} (hs : s.IsRegular p)
    (h : s.Tells s.machine.status entries s') : s'.IsRegular p := by
  obtain ⟨xs, hxs, hscheduler⟩ := h.asks
  refine ⟨?_, ?_⟩
  · rw [h.run, h.callers, hscheduler]
    exact hs.regular.cancelAll (fun _ hcontra => hcontra.elim) (fun _ _ hcontra => hcontra) hxs
  · rw [h.status, h.run]
    exact hs.running

/-- A session stays regular when something is asked of it. -/
theorem IsRegular.act (hs : s.IsRegular p) (a : Action) : (Engine.act s a).IsRegular p := by
  by_cases ha : ∀ graph, a ≠ .simulate graph
  · exact hs.tells (tells_act ha)
  · obtain ⟨graph, rfl⟩ := not_forall_not.1 ha
    exact ⟨hs.regular.spawn _ _, hs.running⟩

/-- What is regular is well-formed. -/
theorem IsRegular.isWellFormed (hs : s.IsRegular p) : s.IsWellFormed p :=
  ⟨hs.regular.wellFormed, hs.running.2⟩

/-- Every step of a regular session is a regular step, if its listener does not fail. -/
theorem IsRegular.regularStep (hs : s.IsRegular p) (hhooks : ∀ n, p.hooks.lookup n ≠ some .fail)
    (h : Engine.step? p s = some s') : RegularStep p s s' :=
  hs.isWellFormed.regularStep hs.regular.shallow hhooks h

end Session

/-- Every regular step leaves a session regular. -/
theorem RegularStep.isRegular (h : RegularStep p s s') (hs : s.IsRegular p) : s'.IsRegular p := by
  have hg := hs.regular
  -- What a turn tells changes nothing but its scheduler, by requests to cancel.
  have htold : ∀ {rest id status entries} {s₁ : Session} {sch : Scheduler Program Action},
      (s.awaken rest id).Tells status entries s₁ → (status = .running ↔ s.run.isSome = true) →
      sch.Regular p s.run s.callers (fun _ => False) →
      ({ s₁ with scheduler := sch } : Session).IsRegular p := by
    intro rest id status entries s₁ sch htells hrunning hsch
    have hrun : s₁.run = s.run := htells.run
    have hcallers : s₁.callers = s.callers := htells.callers
    refine ⟨?_, ?_⟩
    · change sch.Regular p s₁.run s₁.callers _
      rw [hrun, hcallers]
      exact hsch
    · change s₁.machine.status = .running ↔ s₁.run.isSome = true
      rw [htells.status, hrun]
      exact hrunning
  cases h with
  | advance hready hadvance => exact ⟨hg.advance hready hadvance, hs.running⟩
  | elapse hready => exact ⟨hg.elapse hready, hs.running⟩
  | count hready => exact ⟨hg.countChild hready, hs.running⟩
  | act hready =>
    refine Session.IsRegular.act ?_ _
    exact ⟨hg.drop hready, hs.running⟩
  | goes hready htask hpr hcalm hnext htells hgoes =>
    obtain ⟨xs, hxs, hscheduler⟩ := htells.asks
    exact htold htells hs.running (hg.goes hready htask hcalm hxs hscheduler hpr hnext hgoes)
  | unusable hready htask hpr hcalm hnext hd htells =>
    obtain ⟨xs, hxs, hscheduler⟩ := htells.asks
    exact htold htells hs.running (hg.unusable hready htask hcalm hxs hscheduler hpr hnext hd _)
  | leaf hready htask hpr hcalm htells =>
    obtain ⟨xs, hxs, hscheduler⟩ := htells.asks
    exact htold htells hs.running (hg.leaf hready htask hcalm hxs hscheduler hpr)
  | fork hready htask hpr hcalm htells =>
    obtain ⟨xs, hxs, hscheduler⟩ := htells.asks
    exact htold htells hs.running (hg.fork hready htask hcalm hxs hscheduler hpr)
  | join hready htask hpr hcalm => exact ⟨hg.join hready htask hpr hcalm, hs.running⟩
  | deep hready htask hpr _ hdepth => exact ⟨hg.deep hready htask hpr hdepth _, hs.running⟩
  | halt hready htask hpr hqueued hinterrupt => exact ⟨hg.halt hready htask hpr hqueued hinterrupt, hs.running⟩
  | abandon hready htask hpr hinterrupt => exact ⟨hg.abandon hready htask hpr hinterrupt, hs.running⟩
  | reject hready htask hpr htells =>
    obtain ⟨xs, hxs, hscheduler⟩ := htells.asks
    have hc := htold htells hs.running (hg.answer hready htask hpr hxs hscheduler)
    exact ⟨hc.regular, hc.running⟩
  | answer hready htask hpr hidle hmiddle htells =>
    obtain ⟨xs, hxs, hscheduler⟩ := htells.asks
    have hc := htold htells (iff_of_false (Verdict.status_ne_running _) fun hcontra => hidle (hs.running.2 hcontra))
      (hg.answer hready htask hpr hxs hscheduler)
    exact ⟨hc.regular, hc.running⟩
  | @launch _ _ _ _ snapshot start _ hready htask hpr hidle hstart hcycle htells =>
    obtain ⟨xs, hxs, hscheduler⟩ := htells.asks
    have hc := hg.launch hready htask hpr hxs hscheduler (hs.isWellFormed.run_none hidle) ⟨snapshot.flow, start, 0⟩
    refine ⟨?_, iff_of_true htells.status rfl⟩
    have hcallers := htells.callers
    exact hcallers.symm ▸ hc
  | @conclude _ _ id _ s₁ _ _ hready htask hpr hrunning htells =>
    obtain ⟨xs, hxs, hscheduler⟩ := htells.asks
    have hc : (s₁.scheduler.endTask id).Regular p none s.callers fun _ => False := by
      rw [endTask, hscheduler]
      exact hg.conclude hready htask hpr xs _
    refine ⟨?_, iff_of_false (htells.status.trans_ne (Verdict.status_ne_running _)) (fun hcontra => by cases hcontra)⟩
    have hcallers := htells.callers
    exact hcallers.symm ▸ hc

/-! ## What becomes of a run -/

/-- An action leaves the record of the run under way. -/
theorem Engine.run_act (a : Action) : (act s a).run = s.run := by
  by_cases ha : ∀ graph, a ≠ .simulate graph
  · exact (Session.tells_act ha).run
  · obtain ⟨graph, rfl⟩ := not_forall_not.1 ha
    rfl

/-- A turn begins with all futures that there were, and what is told in it makes none. -/
theorem Session.Tells.length_awaken {status : RunStatus} {entries : List (Nat × Entry)} {s₁ : Session}
    (h : (s.awaken rest id).Tells status entries s₁) :
    s₁.scheduler.futures.length = s.scheduler.futures.length := by
  refine h.keeps.length.trans ?_
  change ((s.scheduler.drop rest).awaken id).futures.length = _
  rw [Scheduler.awaken, modifyTask, length_modifyFuture]
  rfl

/-- A turn begins with all programs that there were, and what is told in it changes none. -/
theorem Session.Tells.program?_awaken {status : RunStatus} {entries : List (Nat × Entry)} {s₁ : Session}
    (h : (s.awaken rest id).Tells status entries s₁) (j : FutureId) :
    s₁.scheduler.program? j = s.scheduler.program? j :=
  (h.keeps.program j).trans (program?_congr bareKind?_awaken)

/-- Things that are asked for make no visit. -/
theorem Engine.visit?_act (a : Action) : (act s a).scheduler.visit? t = s.scheduler.visit? t := by
  by_cases ha : ∀ graph, a ≠ .simulate graph
  · exact visit?_congr ((Session.tells_act ha).keeps.program t)
  · obtain ⟨graph, rfl⟩ := not_forall_not.1 ha
    have hprogram : (s.scheduler.spawn (.call s.callers.length graph)).2.program? t = _ := program?_spawn
    change (s.scheduler.spawn (.call s.callers.length graph)).2.visit? t = _
    rw [visit?, hprogram, visit?]
    split
    · next heq => rw [heq, program?_of_length_le (Nat.le_refl _)]; rfl
    · rfl

/-- A visit that comes new to a session: it follows one that branches, or begins a run without a cycle in
reach. -/
inductive IsNewVisit (s : Scheduler Program Action) : Visit → Prop
  | follower {id v v'} (hpr : s.program? id = some (.fanOut v)) (hv' : v' ∈ Engine.followers v) : IsNewVisit s v'
  | root {snapshot : Snapshot} {start : Node} (hstart : snapshot.flow.start? = some start)
    (hcycle : snapshot.flow.findCycle? (some start.id) = none) : IsNewVisit s ⟨snapshot.flow, start, 0⟩

/-- A task makes the same visit after a regular step, or it is new. -/
theorem RegularStep.visit?_cases (h : RegularStep p s s') (t : FutureId) :
    s'.scheduler.visit? t = s.scheduler.visit? t ∨
    s.scheduler.futures.length ≤ t ∧ ∀ v, s'.scheduler.visit? t = some v → IsNewVisit s.scheduler v := by
  have hended : ∀ {rest id status entries} {s₁ : Session} (x : FutureId) (e : Ending),
      (s.awaken rest id).Tells status entries s₁ →
      (s₁.scheduler.complete x e).visit? t = s.scheduler.visit? t := fun x e htells =>
    visit?_congr (((keeps_complete x e).program t).trans (htells.program?_awaken t))
  have hnothing : ∀ rest id, (s.awaken rest id).Tells s.machine.status [] (s.awaken rest id) := fun rest id =>
    Session.tells_refl (s.awaken rest id)
  cases h with
  | advance _ hadvance => exact Or.inl (visit?_congr ((keeps_advance hadvance).program t))
  | @elapse x rest => exact Or.inl (visit?_congr ((keeps_complete (s := s.scheduler.drop rest) x (.ok ())).program t))
  | @count g c rest => exact Or.inl (visit?_congr ((keeps_countChild (s := s.scheduler.drop rest) g c).program t))
  | @act a rest => exact Or.inl (Engine.visit?_act (s := { s with scheduler := s.scheduler.drop rest }) a)
  | goes _ _ hpr _ hnext htells hgoes =>
    refine Or.inl ?_
    have hpr' := (htells.program?_awaken _).trans hpr
    change (Option.bind _ _) = _
    rw [hgoes.program? hpr', htells.program?_awaken, visit?]
    split
    · next heq =>
      rw [heq, hpr]
      exact hnext.visit?_eq
    · rfl
  | unusable _ _ _ _ _ _ htells => exact Or.inl (hended _ _ htells)
  | leaf _ _ _ _ htells => exact Or.inl (hended _ _ htells)
  | @fork _ _ id v _ _ _ hpr _ htells =>
    have hpr' := (htells.program?_awaken id).trans hpr
    have hlength := htells.length_awaken
    change Option.bind _ _ = _ ∨ _ ≤ t ∧ ∀ v, Option.bind _ _ = _ → _
    rw [program?_branch _ _ hpr', htells.program?_awaken, hlength, visit?]
    split
    · next heq =>
      rw [heq, hpr]
      exact Or.inl rfl
    · split
      · exact Or.inl rfl
      · next hge =>
        refine Or.inr ⟨Nat.le_of_not_lt hge, fun v' hv' => ?_⟩
        obtain ⟨pr, hpr', hvisit⟩ := Option.bind_eq_some_iff.1 hv'
        obtain ⟨v'', hmem, rfl⟩ := List.mem_map.1 (List.mem_of_getElem? hpr')
        cases hvisit
        exact .follower hpr hmem
  | join | deep | halt => exact Or.inl (hended _ _ (hnothing _ _))
  | @abandon _ rest id _ children =>
    refine Or.inl (visit?_congr (((keeps_complete _ _).program t).trans
      (((keeps_cancelAll children).program t).trans ?_)))
    exact (hnothing rest id).program?_awaken t
  | reject _ _ _ htells => exact Or.inl (hended _ _ htells)
  | answer _ _ _ _ _ htells => exact Or.inl (hended _ _ htells)
  | @launch _ _ id caller snapshot start s₁ _ _ hpr _ hstart hcycle htells =>
    have hpr₁ := (htells.program?_awaken id).trans hpr
    have hlength := htells.length_awaken
    have hlt := lt_of_program? hpr₁
    have hspawn : ∀ {j}, (s₁.scheduler.spawn (.enter ⟨snapshot.flow, start, 0⟩)).2.program? j =
        if j = s₁.scheduler.futures.length then some (.enter ⟨snapshot.flow, start, 0⟩)
        else s₁.scheduler.program? j := program?_spawn
    have hcaller := hspawn.trans ((if_neg (Nat.ne_of_lt hlt)).trans hpr₁)
    change Option.bind _ _ = _ ∨ _ ≤ t ∧ ∀ v, Option.bind _ _ = _ → _
    rw [program?_eq_bind, bareKind?_defer hcaller, visit?]
    split
    · next heq =>
      rw [heq, hpr]
      exact Or.inl rfl
    · rw [← program?_eq_bind, hspawn, htells.program?_awaken]
      split
      · next heq =>
        refine Or.inr ⟨Nat.le_of_eq (hlength.symm.trans heq.symm), fun v hv => ?_⟩
        cases hv
        exact .root hstart hcycle
      · exact Or.inl rfl
  | conclude _ _ _ _ htells => exact Or.inl (hended _ _ htells)

/-- A task makes the same visit after a failing step. -/
theorem FailingStep.visit?_eq (h : FailingStep p s s') (t : FutureId) :
    s'.scheduler.visit? t = s.scheduler.visit? t := by
  cases h with
  | visitFails _ _ _ _ _ _ _ htells =>
    exact visit?_congr (((keeps_complete _ _).program t).trans (htells.program?_awaken t))
  | @childrenTooDeep _ rest id _ children =>
    obtain ⟨asked, -, hstate, -⟩ := exists_cancelEach (s.awaken rest id).scheduler children
    rw [hstate]
    refine visit?_congr (((keeps_complete _ _).program t).trans (((keeps_cancelAll asked).program t).trans ?_))
    exact (Session.tells_refl (s.awaken rest id)).program?_awaken t
  | openingFails _ _ _ _ _ htells =>
    exact visit?_congr (((keeps_complete _ _).program t).trans (htells.program?_awaken t))

/-- Visits stay visits. -/
theorem RegularStep.isVisit (h : RegularStep p s s') (hv : s.scheduler.IsVisit t) : s'.scheduler.IsVisit t := by
  rcases h.visit?_cases t with hsame | ⟨hge, -⟩
  · rw [IsVisit, hsame]
    exact hv
  · exact absurd hv.lt (Nat.not_lt_of_le hge)

/-- In a regular step the run under way stays the same, is over, or begins, with a root that is a new future. -/
theorem RegularStep.run_cases (h : RegularStep p s s') : s'.run = s.run ∨ s'.run = none ∨
    s'.run = some s.scheduler.futures.length := by
  cases h with
  | advance | elapse | count | join | deep | halt | abandon => exact Or.inl rfl
  | @act a rest => exact Or.inl (Engine.run_act (s := { s with scheduler := s.scheduler.drop rest }) a)
  | goes _ _ _ _ _ htells => exact Or.inl htells.run
  | unusable _ _ _ _ _ _ htells => exact Or.inl htells.run
  | leaf _ _ _ _ htells => exact Or.inl htells.run
  | fork _ _ _ _ htells => exact Or.inl htells.run
  | reject _ _ _ htells => exact Or.inl htells.run
  | answer _ _ _ _ _ htells => exact Or.inl htells.run
  | launch _ _ _ _ _ _ htells => exact Or.inr (Or.inr (congrArg some htells.length_awaken))
  | conclude => exact Or.inr (Or.inl rfl)

/-- A visit that is not one of the run at work writes nothing in its turn. -/
theorem RegularStep.still (h : RegularStep p s s') (hs : s.IsRegular p) (hturn : s.turn? = some t)
    (hvisit : s.scheduler.IsVisit t)
    (hidle : ∀ R slot due, s.run = some R → s.scheduler.IsAtWork p R slot due → t < R) :
    s'.trace = s.trace ∧ s'.machine = s.machine := by
  -- A turn of a visit at work is one of the run at work.
  have hactive : ∀ {job rest id pr}, s.scheduler.ready = job :: rest → job.task? = some id →
      s.scheduler.program? id = some pr → pr.isActive = true → s.scheduler.interrupt? id job = none →
      ¬ pr.IsDeep p → False := by
    intro job rest id pr hready htask hpr hactive hcalm hnot
    have heq : id = t := Option.some.inj ((htask.symm.trans (Session.turn?_of_ready hready).symm).trans hturn)
    obtain ⟨R, slot, due, hrun, hid, hl⟩ := hs.regular.at_work hready htask hpr hactive hcalm hnot
    exact absurd (hidle R slot due hrun hl) (Nat.not_lt_of_le (heq ▸ hid))
  have hcaller : ∀ {job rest id pr}, s.scheduler.ready = job :: rest → job.task? = some id →
      s.scheduler.program? id = some pr → pr.isCaller = true → False := by
    intro job rest id pr hready htask hpr hpr'
    have heq : id = t := Option.some.inj ((htask.symm.trans (Session.turn?_of_ready hready).symm).trans hturn)
    exact hvisit.not_isCaller ⟨pr, heq ▸ hpr, hpr'⟩
  cases h with
  | advance | elapse | count | join | deep | halt | abandon => exact ⟨rfl, rfl⟩
  | act hready => cases (Session.turn?_of_ready hready).symm.trans hturn
  | goes hready htask hpr hcalm hnext =>
    exact (hactive hready htask hpr hnext.at_work.1 hcalm hnext.at_work.2).elim
  | unusable hready htask hpr hcalm hnext =>
    exact (hactive hready htask hpr hnext.at_work.1 hcalm hnext.at_work.2).elim
  | leaf hready htask hpr hcalm => exact (hactive hready htask hpr rfl hcalm fun hdeep => hdeep).elim
  | fork hready htask hpr hcalm => exact (hactive hready htask hpr rfl hcalm fun hdeep => hdeep).elim
  | reject hready htask hpr => exact (hcaller hready htask hpr rfl).elim
  | answer hready htask hpr => exact (hcaller hready htask hpr rfl).elim
  | launch hready htask hpr => exact (hcaller hready htask hpr rfl).elim
  | conclude hready htask hpr => exact (hcaller hready htask hpr rfl).elim

/-! ## Whatever comes next -/

/-- A session that goes on by itself goes on step by step. -/
theorem sessionSteps_run (n : Nat) : ReflTransGen (SessionStep p) s (Engine.run p n s) := by
  induction n generalizing s with
  | zero => exact .refl
  | succ n ih =>
    unfold Engine.run
    cases h : Engine.step? p s with
    | none => exact .refl
    | some s' => exact .head (.step h) ih

/-- Whatever comes next leaves a session well-formed, whatever its listener does. -/
theorem isWellFormed_of_sessionSteps (h : ReflTransGen (SessionStep p) s s') (hs : s.IsWellFormed p) :
    s'.IsWellFormed p := by
  induction h with
  | refl => exact hs
  | tail _ hsessionStep ih =>
    cases hsessionStep with
    | step h => exact (ih.regularStep_or_failingStep h).elim (fun h => (h.isWellFormed ih).1) fun h => h.isWellFormed ih
    | act a => exact (ih.act a).1

section Sessions

variable (hhooks : ∀ n, p.hooks.lookup n ≠ some .fail)

include hhooks

/-- Whatever comes next leaves a session regular. -/
theorem isRegular_of_sessionSteps (h : ReflTransGen (SessionStep p) s s') (hs : s.IsRegular p) : s'.IsRegular p := by
  induction h with
  | refl => exact hs
  | tail _ hsessionStep ih =>
    cases hsessionStep with
    | step h => exact (ih.regularStep hhooks h).isRegular ih
    | act a => exact ih.act a

/-- The root of a run stays a visit, and later runs have roots of higher numbers. -/
theorem root_of_sessionSteps (h : ReflTransGen (SessionStep p) s s') (hs : s.IsRegular p) (hR : s.run = some R) :
    s'.scheduler.IsVisit R ∧ ∀ R', s'.run = some R' → R ≤ R' := by
  induction h with
  | refl => exact ⟨(hs.regular.awaited.root R hR).1, fun R' hR' => Nat.le_of_eq (Option.some.inj (hR.symm.trans hR'))⟩
  | @tail s₁ s₂ hbefore hsessionStep ih =>
    obtain ⟨hvisit, hle⟩ := ih
    cases hsessionStep with
    | step h =>
      have hregularStep := (isRegular_of_sessionSteps hhooks hbefore hs).regularStep hhooks h
      refine ⟨hregularStep.isVisit hvisit, fun R' hR' => ?_⟩
      rcases hregularStep.run_cases with hsame | hnone | hnew
      · exact hle R' (hsame.symm.trans hR')
      · cases hnone.symm.trans hR'
      · exact Nat.le_of_lt (Nat.lt_of_lt_of_eq hvisit.lt (Option.some.inj (hnew.symm.trans hR')))
    | act a =>
      exact ⟨(by rw [IsVisit, Engine.visit?_act]; exact hvisit), fun R' hR' =>
        hle R' ((Engine.run_act a).symm.trans hR')⟩

/-- Once a run is no longer under way its branches write nothing any more. -/
theorem allStopped_of_sessionSteps (h : ReflTransGen (SessionStep p) s s') (hs : s.IsRegular p) (hR : s.run = some R)
    (hover : s'.run ≠ some R) (ht : ReflTransGen s'.scheduler.Branched R t) (hturn : s'.turn? = some t)
    {s'' : Session} (hstep : Engine.step? p s' = some s'') : s''.trace = s'.trace ∧ s''.machine = s'.machine := by
  have hs' := isRegular_of_sessionSteps hhooks h hs
  obtain ⟨hroot, hle⟩ := root_of_sessionSteps hhooks h hs hR
  refine (hs'.regularStep hhooks hstep).still hs' hturn ?_ fun R' slot due hR' hl => ?_
  · cases ht with
    | refl => exact hroot
    | tail _ hbranched =>
      obtain ⟨v, children, hpr, hc⟩ := hbranched
      exact (hs'.regular.fitting.child hpr hc).2
  · have hlt : R < R' := Nat.lt_of_le_of_ne (hle R' hR') fun heq => hover (heq ▸ hR')
    clear hturn
    induction ht with
    | refl => exact hlt
    | tail _ hbranched ih => exact (hl.splitsAt.branched hbranched).1 ih

end Sessions

end PipelineGraph.Simulation
