import PipelineGraph.Proofs.Simulation.Records

/-!
# The course of a run

A run is under way until its caller concludes it, which happens once, after the root has ended. All
the while its session keeps what the earlier parts tell about its scheduler. When the run is
concluded no visit is left that could still do anything but turn out too deep, so the machine and
the trace stay as they are.
-/

namespace PipelineGraph.Simulation

open Scheduler

/-- A run that its caller has not concluded: its visits have written what they may. -/
structure Underway (r : Run) (before : List (Nat × Entry)) (s : Session) : Prop where
  live : s.scheduler.ending? r.base = none
  running : s.machine.status = .running
  trace : ∃ entries, s.trace = before ++ entries ∧ ∀ x ∈ entries, r.Writes x.2

/-- A run that its caller has concluded with the ending of the root. -/
structure Concluded (r : Run) (before : List (Nat × Entry)) (s : Session) (e : Ending) : Prop where
  ended : s.scheduler.ending? r.base ≠ none
  onlyTooDeep : s.scheduler.OnlyTooDeep r
  root : s.scheduler.ending? r.root = some e ∧ e ≠ .error .cancelled
  status : s.machine.status = (Verdict.ofInterrupt e.interrupt?).status
  active : s.machine.active = none
  run : s.run = none
  trace : ∃ entries now active, s.trace = before ++ entries ++
      (r.plan.closing now active (.ofInterrupt e.interrupt?) ++
        [(now, .result r.caller (.ofInterrupt e.interrupt?))]) ∧ ∀ x ∈ entries, r.Writes x.2

/-- The course of a run that began with a trace. -/
structure Course (r : Run) (before : List (Nat × Entry)) (s : Session) : Prop where
  orderly : s.scheduler.Orderly r
  outcome : s.scheduler.Outcome r
  unasked : s.scheduler.Unasked r
  phase : (s.scheduler.Uninterrupted r ∧ ∃ slot due, s.scheduler.InStep r.plan 0 slot due) ∨
    (s.scheduler.OnlyTooDeep r ∧ ∃ bound ≤ r.lowest, s.scheduler.Unwinds bound)
  state : Underway r before s ∨ ∃ e, Concluded r before s e

variable {r : Run} {before : List (Nat × Entry)} {s s' : Session} {e : Ending} {id : FutureId}
  {job : Job Action} {rest : List (Job Action)}

/-- The caller concludes its run when the root has ended, and not because it is cancelled. -/
theorem Course.turn_of_caller (h : Course r before s) {caller : Nat}
    (hready : s.scheduler.ready = job :: rest) (htask : job.task? = some id)
    (hpr : s.scheduler.program? id = some (.conclude caller)) : id = r.base ∧ caller = r.caller ∧
      ∃ e : Ending, s.scheduler.ending? r.root = some e ∧ e ≠ .error .cancelled ∧
        s.scheduler.interrupt? id job = e.interrupt? := by
  have hjob : job ∈ s.scheduler.jobs := mem_jobs_of_ready hready
  have hid : id = r.base := by
    rcases Nat.eq_or_lt_of_le (h.orderly.sound.turn_task hjob htask).1 with heq | hlt
    · exact heq.symm
    · exact (h.orderly.tree.fits hlt hpr).elim
  subst hid
  have hcaller := h.orderly.tree.caller.symm.trans hpr
  injection hcaller with hcaller
  injection hcaller with hcaller
  refine ⟨rfl, hcaller.symm, ?_⟩
  have hsuits := h.orderly.waiting.suits hjob
  cases job with
  | resume =>
    cases htask
    obtain ⟨pr, hpr', hactive⟩ := hsuits
    cases hpr.symm.trans hpr'
    cases hactive
  | count | elapse | act => cases htask
  | wake t x =>
    cases htask
    obtain ⟨pr, hpr', hawaits⟩ := hsuits
    cases hpr.symm.trans hpr'
    have hroot : x = r.root := hawaits
    rw [hroot] at hready hjob ⊢
    obtain ⟨e, he⟩ := Option.ne_none_iff_exists'.1
      (h.orderly.sound.ready_source (hready ▸ List.mem_cons_self) rfl)
    refine ⟨e, he, ?_, ?_⟩
    · rintro rfl
      exact h.unasked.ending (Nat.le_of_lt r.base_lt_root) he
    · simp only [interrupt?, h.unasked.mustCancel (Nat.le_refl r.base), Bool.false_eq_true, if_false,
        Job.source?, Option.bind_some, he]

/-- A turn of a visit at work shows that not only visits that are too deep are ahead. -/
theorem Course.not_onlyTooDeep (h : Course r before s) {pr : Program} (hready : s.scheduler.ready = job :: rest)
    (htask : job.task? = some id) (hpr : s.scheduler.program? id = some pr) (hactive : pr.isActive = true)
    (hdepth : ∀ v, pr = .enter v → ¬ r.plan.maxDepth < v.depth) : ¬ s.scheduler.OnlyTooDeep r := by
  intro hq
  have hjob : job ∈ s.scheduler.jobs := mem_jobs_of_ready hready
  obtain ⟨hb, -, hlive, -⟩ := h.orderly.sound.live_of_mem hjob htask
  have hid := h.orderly.tree.base_lt hb hpr fun heq => by subst heq; cases hactive
  obtain ⟨v, rfl, hdeep⟩ := hq hid hpr hlive hactive
  exact hdepth v rfl hdeep

/-- When the root has ended, only visits that are too deep are ahead. -/
theorem Course.onlyTooDeep_of_root (h : Course r before s) (hroot : s.scheduler.ending? r.root = some e) :
    s.scheduler.OnlyTooDeep r := by
  rcases h.phase with ⟨hcalm, -⟩ | ⟨honlyDeep, -⟩
  · intro id pr hid hpr hlive
    cases e with
    | ok =>
      rw [h.outcome.all_ok h.orderly.tree hroot hid hpr] at hlive
      cases hlive
    | error i => exact absurd hroot (hcalm.ending (Nat.le_of_lt r.base_lt_root))
  · exact honlyDeep

/-- A run that is concluded stays as it is. -/
theorem Concluded.move (hs : Concluded r before s e) (h : Move r.plan s s') (hc : Course r before s) :
    Concluded r before s' e := by
  obtain ⟨e₀, he₀⟩ := Option.ne_none_iff_exists'.1 hs.ended
  have hended : s'.scheduler.ending? r.base ≠ none := by
    rw [h.ending?_stays hc.orderly.sound he₀]
    exact Option.some_ne_none _
  have hroot := h.ending?_stays hc.orderly.sound hs.root.1
  rcases h.writes_cases with ⟨htrace, hmachine, hrun, -⟩ |
    ⟨job, rest, id, pr, hready, htask, hpr, hactive, hdepth, -⟩ |
    ⟨job, rest, id, caller, hready, htask, hpr, -⟩
  · refine ⟨hended, h.onlyTooDeep hc.orderly hs.onlyTooDeep, ⟨hroot, hs.root.2⟩, ?_, ?_, ?_, ?_⟩
    · rw [hmachine]
      exact hs.status
    · rw [hmachine]
      exact hs.active
    · rw [hrun]
      exact hs.run
    · rw [htrace]
      exact hs.trace
  · exact (hc.not_onlyTooDeep hready htask hpr hactive hdepth hs.onlyTooDeep).elim
  · have hjob : job ∈ s.scheduler.jobs := mem_jobs_of_ready hready
    obtain ⟨rfl, -⟩ := hc.turn_of_caller hready htask hpr
    exact absurd (hc.orderly.sound.live_of_mem hjob htask).2.2.1 hs.ended

/-- A run that is under way goes on, or its caller concludes it. -/
theorem Underway.move (hs : Underway r before s) (h : Move r.plan s s') (hc : Course r before s) :
    Underway r before s' ∨ ∃ e, Concluded r before s' e := by
  obtain ⟨entries, htrace, hwrites⟩ := hs.trace
  have hlive : (∀ job rest id caller, s.scheduler.ready = job :: rest → job.task? = some id →
      s.scheduler.program? id ≠ some (.conclude caller)) → s'.scheduler.ending? r.base = none := by
    intro hnot
    rcases h.ending?_cases hc.orderly.sound r.base with hsame | ⟨-, -, e, -, hends⟩
    · exact hsame.trans hs.live
    · have hcaller := hc.orderly.tree.caller
      have hbare := bareKind?_eq_task_iff.2 hcaller
      have hcount : ∀ c, .count r.base c ∉ s.scheduler.jobs := by
        intro c hcount
        obtain ⟨-, g, hg, -⟩ := hc.orderly.sound.count_child hcount
        cases hbare.symm.trans (bareKind?_eq_gathering_iff.2 ⟨g, hg, rfl⟩)
      cases hends with
      | slept hsleep => cases hbare.symm.trans hsleep
      | child hmem | asked hmem | gathered hmem => exact absurd hmem (hcount _)
      | leaf hpr | join _ _ hpr | deep _ _ hpr => cases hcaller.symm.trans hpr
      | caller hready htask hpr => exact absurd hpr (hnot _ _ _ _ hready htask)
      | interruption _ _ hpr hvisit =>
        cases hcaller.symm.trans hpr
        cases hvisit
  rcases h.writes_cases with ⟨htrace', hmachine, -, hnot⟩ |
    ⟨job, rest, id, pr, hready, htask, hpr, hactive, hdepth, htrace', hstatus, -⟩ |
    ⟨job, rest, id, caller, hready, htask, hpr, htrace', hstatus, hactive, hrun, hscheduler⟩
  · refine Or.inl ⟨hlive hnot, ?_, entries, htrace'.trans htrace, hwrites⟩
    rw [hmachine]
    exact hs.running
  · refine Or.inl ⟨hlive fun job' rest' id' caller hready' htask' hpr' => ?_, hstatus.trans hs.running, ?_⟩
    · obtain ⟨rfl, -⟩ := List.cons_eq_cons.1 (hready.symm.trans hready')
      cases htask.symm.trans htask'
      cases hpr.symm.trans hpr'
      cases hactive
    · refine ⟨entries ++ r.plan.entries s.scheduler.now s.machine.active pr, ?_, fun x hx => ?_⟩
      · rw [htrace', htrace, List.append_assoc]
      · have hjob : job ∈ s.scheduler.jobs := mem_jobs_of_ready hready
        have hid := hc.orderly.tree.base_lt (hc.orderly.sound.turn_task hjob htask).1 hpr fun heq => by
          subst heq
          cases hactive
        rcases List.mem_append.1 hx with hx | hx
        · exact hwrites x hx
        · exact Plan.writes_of_mem_entries (hc.orderly.tree.fits hid hpr) hdepth hx
  · obtain ⟨rfl, rfl, e, hroot, hnot, hin⟩ := hc.turn_of_caller hready htask hpr
    rw [hin] at htrace' hstatus
    refine Or.inr ⟨e, ?_, h.onlyTooDeep hc.orderly (hc.onlyTooDeep_of_root hroot),
      ⟨h.ending?_stays hc.orderly.sound hroot, hnot⟩, hstatus, hactive, hrun,
      entries, s.scheduler.now, s.machine.active, ?_, hwrites⟩
    · have htakes : s.scheduler.Takes r.base (s.awaken rest r.base).scheduler :=
        ⟨job, rest, hready, htask, rfl⟩
      rw [hscheduler, ending?_complete, if_pos rfl]
      obtain ⟨f, hf⟩ : ∃ f, (s.awaken rest r.base).scheduler.future? r.base = some f := by
        have hlt := lt_of_program? ((htakes.program? r.base).trans hpr)
        exact ⟨_, List.getElem?_eq_getElem hlt⟩
      rw [hf]
      exact Option.some_ne_none _
    · rw [htrace', htrace]

/-- Every move keeps to the course of a run. -/
theorem Move.course (h : Move r.plan s s') (hc : Course r before s) : Course r before s' where
  orderly := h.orderly hc.orderly
  outcome := h.outcome hc.orderly hc.outcome
  unasked := h.unasked hc.orderly hc.unasked
  phase := by
    rcases hc.phase with ⟨hcalm, slot, due, hstep⟩ | ⟨honlyDeep, bound, hbound, hunwinds⟩
    · rcases h.uninterrupted_or hc.orderly hcalm with hcalm' | ⟨job, rest, id, v, hready, htask, hpr, hdepth⟩
      · obtain ⟨slot', due', -, -, hstep'⟩ := h.inStep hc.orderly hcalm hstep
        exact Or.inl ⟨hcalm', slot', due', hstep'⟩
      · exact Or.inr ⟨h.onlyTooDeep_of_deep hc.orderly hcalm hstep hready htask hpr hdepth,
          h.unwinds_of_deep hc.orderly hcalm hready htask hpr hdepth⟩
    · exact Or.inr ⟨h.onlyTooDeep hc.orderly honlyDeep, h.unwinds hc.orderly hc.unasked honlyDeep hunwinds hbound⟩
  state := by
    rcases hc.state with hs | ⟨e, hs⟩
    · exact hs.move h hc
    · exact Or.inr ⟨e, hs.move h hc⟩

/-- A visit that is interrupted behind its children finds that they have ended. -/
theorem Course.children_ended (hc : Course r before s) {v : Visit} {children : List FutureId}
    (hready : s.scheduler.ready = job :: rest) (htask : job.task? = some id)
    (hpr : s.scheduler.program? id = some (.join v children)) (hinterrupt : s.scheduler.interrupt? id job ≠ none) :
    ∀ c ∈ children, s.scheduler.ending? c ≠ none := by
  rcases hc.phase with ⟨hcalm, -⟩ | ⟨honlyDeep, bound, -, hunwinds⟩
  · exact absurd (hcalm.interrupt? hc.orderly (mem_jobs_of_ready hready) htask) hinterrupt
  · exact hunwinds.children_ended hc.orderly honlyDeep hc.unasked hready htask hpr hinterrupt

/-- Every step of a run is a move. -/
theorem Course.move_of_step (hc : Course r before s) (hhooks : r.plan.hooks = [])
    (hdwell : ∀ e, r.plan.dwell ≠ .unusable e) (hedge : ∀ e, r.plan.edgeDelay ≠ .unusable e)
    (h : Engine.step? r.plan s = some s') : Move r.plan s s' := by
  refine Engine.move_of_step hhooks hdwell hedge (fun a rest hready => ?_)
    (fun job rest id hready htask => ?_) h
  · have hjob : .act a ∈ s.scheduler.jobs := mem_jobs_of_ready hready
    exact hc.orderly.waiting.suits hjob
  · have hjob : job ∈ s.scheduler.jobs := mem_jobs_of_ready hready
    obtain ⟨hb, -, hlive, t, ht⟩ := hc.orderly.sound.live_of_mem hjob htask
    have hpr : s.scheduler.program? id = some t.program := by
      rw [program?, task?_eq_some_iff.2 ht]
      rfl
    rcases Nat.eq_or_lt_of_le hb with rfl | hid
    · have hcaller := hc.orderly.tree.caller
      obtain ⟨-, -, e, -, hnot, hin⟩ := hc.turn_of_caller hready htask hcaller
      refine Or.inr ⟨r.caller, hcaller, ?_, ?_⟩
      · rcases hc.state with hs | ⟨e, hs⟩
        · exact hs.running
        · exact absurd hlive hs.ended
      · rw [hin]
        intro hcancelled
        cases e with
        | ok => cases hcancelled
        | error i =>
          cases hcancelled
          exact absurd rfl hnot
    · have hfits := hc.orderly.tree.fits hid hpr
      cases hp : t.program with
      | enter v => exact Or.inl ⟨v, _, hpr.trans (congrArg some hp), Or.inl rfl⟩
      | leave v => exact Or.inl ⟨v, _, hpr.trans (congrArg some hp), Or.inr (Or.inl rfl)⟩
      | fanOut v => exact Or.inl ⟨v, _, hpr.trans (congrArg some hp), Or.inr (Or.inr (Or.inl rfl))⟩
      | join v cs =>
        have hjoin := hpr.trans (congrArg some hp)
        exact Or.inl ⟨v, _, hjoin, Or.inr (Or.inr (Or.inr ⟨cs, rfl, hc.children_ended hready htask hjoin⟩))⟩
      | call | conclude =>
        rw [hp] at hfits
        exact hfits.elim

end PipelineGraph.Simulation
