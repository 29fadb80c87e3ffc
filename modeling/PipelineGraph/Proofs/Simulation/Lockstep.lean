import PipelineGraph.Proofs.Simulation.Slots

/-!
# Visits in step

As long as nothing is interrupted the visits of a run go in step: the turns that are queued belong to
one stage, or to the next one behind them. When a visit turns out to be too deep, no other visit is at
work but those that are too deep as well.
-/

namespace PipelineGraph.Simulation

namespace Scheduler

variable {p : Plan} {r : Run} {s s' : Scheduler Program Action} {id : FutureId} {job : Job Action}
  {low : FutureId} {slot due k n : Nat}

/-! ## In step -/

/-- For the tasks from number `low` on, the queue holds jobs of a slot and behind them those of the
next one; these may also wait for a time that is up for all of them at once. -/
structure InStep (p : Plan) (low : FutureId) (slot due : Nat) (s : Scheduler Program Action) : Prop where
  queue : ∃ first behind, s.ready = first ++ behind ∧
    (∀ job ∈ first, ∀ k, job.HasSlot low s k → k = slot ∧ ∀ time, p.wait? slot = some time → s.now + time = due) ∧
    ∀ job ∈ behind, ∀ k, job.HasSlot low s k → k = p.next slot ∧ p.wait? slot = none
  timers : ∀ t ∈ s.timers, ∀ k, t.job.HasSlot low s k →
    k = p.next slot ∧ p.wait? slot ≠ none ∧ t.deadline = due

/-- The first job is of a slot that the scheduler is in step with. -/
theorem InStep.take (h : s.InStep p low slot due) {rest : List (Job Action)} (hready : s.ready = job :: rest) :
    ∃ slot' due', slot ≤ slot' ∧
      (∀ k, job.HasSlot low s k → k = slot' ∧ ∀ time, p.wait? slot' = some time → s.now + time = due') ∧
      (s.drop rest).InStep p low slot' due' := by
  have hslots : ∀ {job' : Job Action} {k}, job'.HasSlot low (s.drop rest) k → job'.HasSlot low s k :=
    hasSlot_of_drop hready
  obtain ⟨first, behind, hqueue, hfirst, hbehind⟩ := h.queue
  rw [hready] at hqueue
  cases first with
  | cons job' first =>
    obtain ⟨rfl, rfl⟩ := List.cons_eq_cons.1 hqueue
    refine ⟨slot, due, Nat.le_refl _, hfirst job List.mem_cons_self, ?_, ?_⟩
    · exact ⟨first, behind, rfl, fun job' hjob k hk => hfirst job' (List.mem_cons_of_mem _ hjob) k (hslots hk),
        fun job' hjob k hk => hbehind job' hjob k (hslots hk)⟩
    · exact fun t ht k hk => h.timers t ht k (hslots hk)
  | nil =>
    rw [List.nil_append] at hqueue
    subst hqueue
    have hmem : ∀ {job'}, job' ∈ rest → job' ∈ job :: rest := List.mem_cons_of_mem _
    cases hwait : p.wait? slot with
    | none =>
      -- What stood behind comes to the front, and what it waits for is counted from now.
      have hfront : ∀ job' ∈ job :: rest, ∀ k, job'.HasSlot low s k → k = p.next slot ∧ ∀ time,
          p.wait? (p.next slot) = some time → s.now + time = s.now + (p.wait? (p.next slot)).getD 0 := by
        refine fun job' hjob k hk => ⟨(hbehind job' hjob k hk).1, fun time htime => ?_⟩
        rw [htime]
        rfl
      refine ⟨p.next slot, s.now + (p.wait? (p.next slot)).getD 0, Nat.le_of_lt (p.lt_next slot),
        hfront job List.mem_cons_self, ?_, fun t ht k hk => ?_⟩
      · exact ⟨rest, [], (List.append_nil rest).symm,
          fun job' hjob k hk => hfront job' (hmem hjob) k (hslots hk), fun job' hjob => by cases hjob⟩
      · exact absurd hwait (h.timers t ht k (hslots hk)).2.1
    | some time =>
      have hnone : ∀ job' ∈ job :: rest, ∀ k, ¬ job'.HasSlot low s k := by
        intro job' hjob k hk
        have hcontra := (hbehind job' hjob k hk).2
        rw [hwait] at hcontra
        cases hcontra
      refine ⟨slot, due, Nat.le_refl _, fun k hk => absurd hk (hnone job List.mem_cons_self k), ?_,
        fun t ht k hk => h.timers t ht k (hslots hk)⟩
      refine ⟨rest, [], (List.append_nil rest).symm, fun job' hjob k hk => ?_, fun job' hjob => by cases hjob⟩
      exact absurd (hslots hk) (hnone job' (hmem hjob) k)

/-- What comes to a scheduler in step may be of the next slot. -/
theorem InStep.grow (h : s.InStep p low slot due) (hnow : s'.now = s.now)
    (hslots : ∀ job ∈ s.ready ++ s.timers.map (·.job), ∀ k, job.HasSlot low s' k → job.HasSlot low s k)
    {l : List (Job Action)} (hready : s'.ready = s.ready ++ l)
    (hjobs : ∀ job ∈ l, ∀ k, job.HasSlot low s' k → k = p.next slot ∧ p.wait? slot = none)
    {m : List (Timer Action)} (htimers : s'.timers = s.timers ++ m)
    (hnew : ∀ t ∈ m, ∀ k, t.job.HasSlot low s' k →
      k = p.next slot ∧ p.wait? slot ≠ none ∧ t.deadline = due) : s'.InStep p low slot due where
  queue := by
    obtain ⟨first, behind, hqueue, hfirst, hbehind⟩ := h.queue
    have hmem : ∀ {job}, job ∈ first ++ behind → job ∈ s.ready ++ s.timers.map (·.job) := by
      intro job hjob
      rw [hqueue]
      exact List.mem_append_left _ hjob
    refine ⟨first, behind ++ l, ?_, fun job hjob k hk => ?_, fun job hjob k hk => ?_⟩
    · rw [hready, hqueue, List.append_assoc]
    · rw [hnow]
      exact hfirst job hjob k (hslots job (hmem (List.mem_append_left _ hjob)) k hk)
    · rcases List.mem_append.1 hjob with hold | hjob
      · exact hbehind job hold k (hslots job (hmem (List.mem_append_right _ hold)) k hk)
      · exact hjobs job hjob k hk
  timers t ht := by
    rw [htimers] at ht
    rcases List.mem_append.1 ht with hold | ht
    · refine fun k hk => h.timers t hold k (hslots t.job ?_ k hk)
      exact List.mem_append_right _ (List.mem_map_of_mem hold)
    · exact hnew t ht

/-- What keeps the queue, the timers and the clock stays in step. -/
theorem InStep.keeps (h : s.InStep p low slot due) (hkeeps : s.Keeps s') (hnow : s'.now = s.now)
    (hready : s'.ready = s.ready) (htimers : s'.timers = s.timers) : s'.InStep p low slot due :=
  h.grow hnow (fun _ _ _ hk => hkeeps.shrinks.hasSlot hk) (l := []) (hready.trans (List.append_nil _).symm)
    (fun job hjob => by cases hjob) (m := []) (htimers.trans (List.append_nil _).symm) fun t ht => by cases ht

/-- The clock moves to the next slot, or to a time before that at which none of its jobs is due. -/
theorem InStep.advance (h : s.InStep p low slot due) (hready : s.ready = []) (hadvance : s.advance? = some s') :
    ∃ slot' due', slot ≤ slot' ∧ s'.InStep p low slot' due' := by
  have hshrinks := (keeps_advance hadvance).shrinks
  obtain ⟨time, htime, rfl⟩ := Option.map_eq_some_iff.1 hadvance
  have hqueue : ∀ job ∈ s.ready ++ (s.timers.filter (·.deadline ≤ time)).map (·.job),
      ∃ t ∈ s.timers, t.deadline ≤ time ∧ t.job = job := by
    intro job hjob
    rw [hready, List.nil_append] at hjob
    obtain ⟨t, ht, rfl⟩ := List.mem_map.1 hjob
    obtain ⟨ht, hdue⟩ := List.mem_filter.1 ht
    exact ⟨t, ht, of_decide_eq_true hdue, rfl⟩
  by_cases hcomes : due ≤ time
  · refine ⟨p.next slot, time + (p.wait? (p.next slot)).getD 0, Nat.le_of_lt (p.lt_next slot),
      ⟨_, [], (List.append_nil _).symm, fun job hjob k hk => ?_, fun job hjob => by cases hjob⟩,
      fun t ht k hk => ?_⟩
    · obtain ⟨t, ht, -, rfl⟩ := hqueue job hjob
      refine ⟨(h.timers t ht k (hshrinks.hasSlot hk)).1, fun wait hwait => ?_⟩
      rw [hwait]
      rfl
    · obtain ⟨ht, hlater⟩ := List.mem_filter.1 ht
      have hdue := (h.timers t ht k (hshrinks.hasSlot hk)).2.2
      exact absurd (of_decide_eq_true hlater) (by lia)
  · refine ⟨slot, due, Nat.le_refl _,
      ⟨[], _, (List.nil_append _).symm, fun job hjob => (by cases hjob), fun job hjob k hk => ?_⟩,
      fun t ht k hk => h.timers t (List.mem_filter.1 ht).1 k (hshrinks.hasSlot hk)⟩
    obtain ⟨t, ht, hdue, rfl⟩ := hqueue job hjob
    have hlate := (h.timers t ht k (hshrinks.hasSlot hk)).2.2
    exact absurd hdue (by lia)

/-- No job is behind its slot. -/
theorem InStep.le_of_hasSlot (h : s.InStep p low slot due) (hjob : job ∈ s.ready ++ s.timers.map (·.job))
    (hk : job.HasSlot low s k) : slot ≤ k := by
  obtain ⟨first, behind, hqueue, hfirst, hbehind⟩ := h.queue
  have hnext := Nat.le_of_lt (p.lt_next slot)
  rw [hqueue] at hjob
  rcases List.mem_append.1 hjob with hjob | hjob
  · rcases List.mem_append.1 hjob with hjob | hjob
    · rw [(hfirst job hjob k hk).1]
    · rwa [(hbehind job hjob k hk).1]
  · obtain ⟨t, ht, rfl⟩ := List.mem_map.1 hjob
    rwa [(h.timers t ht k hk).1]

/-- What a scheduler in step grows by is at the next slot, if it grows behind its slot. -/
theorem InStep.grows {H : Nat → Prop} (h : s.InStep p low slot due) (hgrows : s.Grows p low H s')
    (hhead : ∀ b, H b → b = slot ∧ ∀ time, p.wait? slot = some time → s.now + time = due) :
    s'.InStep p low slot due := by
  obtain ⟨l, hready, hjobs⟩ := hgrows.ready
  obtain ⟨m, htimers, hnew⟩ := hgrows.timers
  refine h.grow hgrows.now hgrows.hasSlot hready (fun job hjob k hk => ?_) htimers fun t ht k hk => ?_
  · obtain ⟨b, hb, hwait, hnext⟩ := hjobs job hjob k hk
    rw [(hhead b hb).1] at hwait hnext
    exact ⟨hnext, hwait⟩
  · obtain ⟨b, time, -, -, hb, hwait, -, -, -, hdeadline, hslot⟩ := hnew t ht
    obtain ⟨rfl, hdue⟩ := hhead b hb
    refine ⟨hslot k hk, ?_, hdeadline.trans (hdue time hwait)⟩
    rw [hwait]
    exact Option.some_ne_none _

/-- A future that ends keeps a scheduler in step if the jobs behind its end are of the next slot. -/
theorem InStep.complete (h : s.InStep p low slot due) (ending : Ending)
    (hjobs : ∀ job ∈ s.callbacks id, ∀ k, job.HasSlot low s k → k = p.next slot ∧ p.wait? slot = none) :
    (s.complete id ending).InStep p low slot due := by
  refine h.grows (H := fun b => b = slot ∧ p.wait? slot = none)
    (grows_complete ending fun job hjob k hk => ?_) fun b hb => ⟨hb.1, fun time hwait => ?_⟩
  · obtain ⟨hnext, hwait⟩ := hjobs job hjob k hk
    exact ⟨slot, ⟨rfl, hwait⟩, hwait, hnext⟩
  · cases hb.2.symm.trans hwait

/-- What is no sleep keeps a scheduler in step when it ends. -/
theorem InStep.complete_of_ne_sleep {b : FutureId} {held : FutureId → Prop} (h : s.InStep p low slot due)
    (hawaits : s.AwaitsSleeps) (hs : s.Sound b held) (hid : s.bareKind? id ≠ some .sleep) (ending : Ending) :
    (s.complete id ending).InStep p low slot due :=
  h.grows (H := fun _ => False) (grows_complete_of_ne_sleep hawaits hs hid ending) fun _ hb => hb.elim

/-- A sleep whose time is up keeps a scheduler in step. -/
theorem InStep.elapse {b : FutureId} {x : FutureId} {rest : List (Job Action)}
    (h : (s.drop rest).InStep p low slot due) (hs : s.Sound b fun _ => False)
    (hready : s.ready = .elapse x :: rest) (hhead : ∀ k, (Job.elapse x).HasSlot low s k → k = slot) :
    ((s.drop rest).complete x (.ok ())).InStep p low slot due := by
  refine h.grows (grows_elapse hs hready fun _ hk => hk) fun b hb => ⟨hhead b hb, fun time hwait => ?_⟩
  obtain rfl := hhead b hb
  cases hb with
  | turn _ htask => cases htask
  | elapse =>
    rw [p.wait?_even.1] at hwait
    cases hwait

/-- A gathering that counts a child keeps a scheduler in step. -/
theorem InStep.countChild {b c : FutureId} {held : FutureId → Prop} (h : s.InStep p low slot due)
    (hawaits : s.AwaitsSleeps) (hs : s.Sound b held) (hid : s.bareKind? id ≠ some .sleep) :
    (s.countChild id c).InStep p low slot due :=
  h.grows (H := fun _ => False) (grows_countChild hawaits hs hid) fun _ hb => hb.elim

/-- A task that takes its turn keeps a scheduler in step. -/
theorem InStep.awaken (h : s.InStep p low slot due) : (s.awaken id).InStep p low slot due :=
  h.grows (H := fun _ => False) grows_awaken fun _ hb => hb.elim

/-- A visit that goes on behind a delay stays in step. -/
theorem InStep.goes {pr next : Program} {d : Delay} {b : FutureId} (h : s.InStep p low (2 * n + 1) due)
    (hdue : ∀ time, p.wait? (2 * n + 1) = some time → s.now + time = due) (hlow : low ≤ id)
    (hsound : s.Sound b fun j => j = id) (hidle : ∀ job ∈ s.jobs, job.task? ≠ some id)
    (hcalm : s.mustCancel id = false) (hpr : s.program? id = some pr)
    (hnext : next.stage? = some (n + 1)) (hdelay : p.delayBehind n = d) (hgoes : s.Goes id next d s') :
    s'.InStep p low (2 * n + 1) due :=
  h.grows (H := (· = 2 * n + 1)) (grows_goes rfl hlow hsound hidle hcalm hpr hnext hdelay hgoes)
    fun _ hb => ⟨hb, hdue⟩

/-- A visit that branches stays in step. -/
theorem InStep.branch {v : Visit} {b : FutureId} (h : s.InStep p low (2 * (3 * v.depth + 2) + 1) due)
    (hsound : s.Sound b fun j => j = id) (hidle : ∀ job ∈ s.jobs, job.task? ≠ some id)
    (hcalm : s.mustCancel id = false) (hpr : s.program? id = some (.fanOut v)) :
    (s.branch id ((Engine.followers v).map .enter) (.join v)).InStep p low (2 * (3 * v.depth + 2) + 1) due :=
  h.grows (H := (· = 2 * (3 * v.depth + 2) + 1)) (grows_branch rfl hsound hidle hcalm hpr) fun _ hb =>
    ⟨hb, fun time hwait => by
      rw [(Plan.wait?_pause (p.delayBehind_fanOut v.depth)).1] at hwait
      cases hwait⟩

/-! ## Uninterrupted -/

/-- Nothing of a run was asked to cancel or has ended in an interruption. -/
structure Uninterrupted (r : Run) (s : Scheduler Program Action) : Prop where
  ending : ∀ {id i}, r.base ≤ id → s.ending? id ≠ some (.error i)
  mustCancel : ∀ {id}, r.base ≤ id → s.mustCancel id = false
  asked : ∀ {id}, r.base ≤ id → ¬ s.isAsked id

/-- Nothing interrupts a turn of an uninterrupted scheduler. -/
theorem Uninterrupted.interrupt? (hc : s.Uninterrupted r) (hs : s.Orderly r) (hjob : job ∈ s.jobs)
    (htask : job.task? = some id) : s.interrupt? id job = none := by
  cases hin : s.interrupt? id job with
  | none => rfl
  | some i =>
    rcases interruption_of_interrupt? hin with ⟨hmust, -⟩ | ⟨source, hsource, hend⟩
    · rw [hc.mustCancel (hs.sound.turn_task hjob htask).1] at hmust
      cases hmust
    · obtain rfl := Job.eq_wake htask hsource
      exact absurd hend (hc.ending (Nat.le_of_lt (hs.waiting.base_lt_source hjob)))

/-- The visits at work are about to turn out too deep. -/
def OnlyTooDeep (r : Run) (s : Scheduler Program Action) : Prop :=
  ∀ {id pr}, r.base < id → s.program? id = some pr → s.ending? id = none → pr.isActive = true →
    ∃ v, pr = .enter v ∧ r.plan.maxDepth < v.depth

end Scheduler

open Scheduler

variable {r : Run} {s s' : Session}

/-- An uninterrupted session stays uninterrupted, or a visit turns out too deep. -/
theorem Move.uninterrupted_or (h : Move r.plan s s') (hs : s.scheduler.Orderly r) (hc : s.scheduler.Uninterrupted r) :
    s'.scheduler.Uninterrupted r ∨ ∃ job rest id v, s.scheduler.ready = job :: rest ∧ job.task? = some id ∧
      s.scheduler.program? id = some (.enter v) ∧ r.plan.maxDepth < v.depth := by
  by_cases herr : ∃ id i, r.base ≤ id ∧ s'.scheduler.ending? id = some (.error i)
  · obtain ⟨id, i, hb, hend⟩ := herr
    rcases h.ending?_cases hs.sound id with hsame | ⟨-, -, e, he, hends⟩
    · exact absurd (hsame.symm.trans hend) (hc.ending hb)
    · cases he.symm.trans hend
      cases hends with
      | @child c _ hcount hchild =>
        exact absurd hchild (hc.ending (Nat.le_of_lt (hs.counted hcount).2.1))
      | asked _ hasked => exact absurd hasked (hc.asked hb)
      | deep hready htask hpr hdepth => exact Or.inr ⟨_, _, _, _, hready, htask, hpr, hdepth⟩
      | interruption hjob htask _ _ hinterrupt =>
        have hjobs := List.mem_append_left (s.scheduler.futures.flatMap (·.callbacks))
          (List.mem_append_left (s.scheduler.timers.map (·.job)) hjob)
        cases (hc.interrupt? hs hjobs htask).symm.trans hinterrupt
  · refine Or.inl ⟨fun hb hend => herr ⟨_, _, hb, hend⟩, fun {id} hb => ?_, fun hb hasked => ?_⟩
    · cases hmust : s'.scheduler.mustCancel id with
      | false => rfl
      | true =>
        have hold := h.requestsNothing.mustCancel id hmust
        rw [hc.mustCancel hb] at hold
        cases hold
    · exact hc.asked hb (h.requestsNothing.asked _ hasked)

/-- A move of an uninterrupted session lets the clock go on, or what it adds stands behind the first job. -/
theorem Move.grows (h : Move r.plan s s') (hs : s.scheduler.Orderly r) (hc : s.scheduler.Uninterrupted r)
    {low : FutureId}
    (hlow : low ≤ r.base) : (s.scheduler.ready = [] ∧ s.scheduler.advance? = some s'.scheduler) ∨
      ∃ job rest, s.scheduler.ready = job :: rest ∧
        (s.scheduler.drop rest).Grows r.plan low (fun k => job.HasSlot low s.scheduler k) s'.scheduler := by
  have hjobs : ∀ {job rest}, s.scheduler.ready = job :: rest → job ∈ s.scheduler.jobs :=
    fun hready => mem_jobs_of_ready hready
  have htakes : ∀ {job rest id}, s.scheduler.ready = job :: rest → job.task? = some id →
      s.scheduler.Takes id (s.awaken rest id).scheduler := fun hready htask =>
    ⟨_, _, hready, htask, rfl⟩
  have hbase : ∀ {job rest id}, s.scheduler.ready = job :: rest → job.task? = some id → low ≤ id :=
    fun hready htask => Nat.le_trans hlow (hs.sound.turn_task (hjobs hready) htask).1
  have hends : ∀ {job rest id pr} (e : Ending), s.scheduler.ready = job :: rest → job.task? = some id →
      s.scheduler.program? id = some pr → (s.scheduler.drop rest).Grows r.plan low
        (fun k => job.HasSlot low s.scheduler k) ((s.awaken rest id).scheduler.complete id e) := by
    intro job rest id pr e hready htask hpr
    have htakes := htakes hready htask
    have hawake : (s.scheduler.drop rest).Grows r.plan low (fun k => job.HasSlot low s.scheduler k)
        (s.awaken rest id).scheduler := grows_awaken
    refine hawake.trans rfl (grows_complete_of_ne_sleep (hs.waiting.awaitsSleeps.shrinks htakes.shrinks)
      (htakes.sound hs.sound) (fun hsleep => ?_) e)
    cases (bareKind?_eq_task_iff.2 ((htakes.program? id).trans hpr)).symm.trans hsleep
  have hgoes : ∀ {job rest id pr next d σ}, s.scheduler.ready = job :: rest → job.task? = some id →
      s.scheduler.program? id = some pr → pr.Continues r.plan next d →
      (s.awaken rest id).scheduler.Goes id next d σ →
      (s.scheduler.drop rest).Grows r.plan low (fun k => job.HasSlot low s.scheduler k) σ := by
    intro job rest id pr next d σ hready htask hpr hnext hgoes
    have htakes := htakes hready htask
    have hlow := hbase hready htask
    obtain ⟨n, hstage, hstage', hdelay⟩ := hnext.stage
    exact grows_awaken.trans rfl (grows_goes (.turn hlow htask hpr hstage) hlow
      (htakes.sound hs.sound) (fun job hjob => htakes.idle hs.sound hjob) htakes.mustCancel
      ((htakes.program? id).trans hpr) hstage' hdelay hgoes)
  cases h with
  | advance hready hadvance => exact Or.inl ⟨hready, hadvance⟩
  | elapse hready => exact Or.inr ⟨_, _, hready, grows_elapse hs.sound hready fun _ hk => hk⟩
  | @count g c rest hready =>
    have hshrinks := shrinks_drop (s := s.scheduler) hready rfl
    obtain ⟨-, gs, hg, -⟩ := hs.sound.count_child (hjobs hready)
    refine Or.inr ⟨_, _, hready, grows_countChild (hs.waiting.awaitsSleeps.shrinks hshrinks) (hs.sound.pop hready)
      fun hsleep => ?_⟩
    cases hsleep.symm.trans (bareKind?_eq_gathering_iff.2 ⟨gs, hg, rfl⟩)
  | enter hready htask hpr _ hdepth hgo =>
    exact Or.inr ⟨_, _, hready, hgoes hready htask hpr (.enter hdepth) hgo⟩
  | leave hready htask hpr _ hinner hgo =>
    exact Or.inr ⟨_, _, hready, hgoes hready htask hpr (.leave hinner) hgo⟩
  | @fork job rest id v hready htask hpr =>
    have htakes := htakes hready htask
    exact Or.inr ⟨job, rest, hready, grows_awaken.trans rfl (grows_branch
      (.turn (hbase hready htask) htask hpr rfl) (htakes.sound hs.sound)
      (fun job hjob => htakes.idle hs.sound hjob) htakes.mustCancel ((htakes.program? id).trans hpr))⟩
  | leaf hready htask hpr | join hready htask hpr | deep hready htask hpr | conclude hready htask hpr =>
    exact Or.inr ⟨_, _, hready, hends _ hready htask hpr⟩
  | halt hready htask _ _ hinterrupt | abandon hready htask _ hinterrupt =>
    cases (hc.interrupt? hs (hjobs hready) htask).symm.trans hinterrupt

/-- An uninterrupted session stays in step, and the turn of a move is at the slot it is in step with. -/
theorem Move.inStep (h : Move r.plan s s') (hs : s.scheduler.Orderly r) (hc : s.scheduler.Uninterrupted r)
    {slot due : Nat} (hi : s.scheduler.InStep r.plan 0 slot due) : ∃ slot' due', slot ≤ slot' ∧
      (∀ job rest k, s.scheduler.ready = job :: rest → job.HasSlot 0 s.scheduler k → k = slot') ∧
      s'.scheduler.InStep r.plan 0 slot' due' := by
  rcases h.grows hs hc (Nat.zero_le r.base) with ⟨hready, hadvance⟩ | ⟨job, rest, hready, hgrows⟩
  · obtain ⟨slot', due', hle, hstep⟩ := hi.advance hready hadvance
    refine ⟨slot', due', hle, fun job rest k hready' => ?_, hstep⟩
    cases hready.symm.trans hready'
  · -- What happens to the first job happens at its slot.
    obtain ⟨slot', due', hle, hhead, htaken⟩ := hi.take hready
    refine ⟨slot', due', hle, fun job' rest' k hready' hk => ?_, htaken.grows hgrows hhead⟩
    obtain ⟨rfl, -⟩ := List.cons_eq_cons.1 (hready.symm.trans hready')
    exact (hhead k hk).1

/-- When a visit turns out too deep, only visits that are too deep are ahead. -/
theorem Move.onlyTooDeep_of_deep (h : Move r.plan s s') (hs : s.scheduler.Orderly r)
    (hc : s.scheduler.Uninterrupted r) {slot due : Nat} (hi : s.scheduler.InStep r.plan 0 slot due) {job : Job Action}
    {rest : List (Job Action)} {id : FutureId} {v : Visit} (hready : s.scheduler.ready = job :: rest)
    (htask : job.task? = some id) (hpr : s.scheduler.program? id = some (.enter v))
    (hdepth : r.plan.maxDepth < v.depth) : s'.scheduler.OnlyTooDeep r := by
  obtain ⟨slot', due', -, hhead, hi'⟩ := h.inStep hs hc hi
  have hslot := hhead job rest _ hready (.turn (Nat.zero_le _) htask hpr rfl)
  intro t pr ht hprt hlive hactive
  obtain ⟨n, hstage⟩ := Program.exists_stage hactive
  have hs' := h.orderly hs
  obtain ⟨job', hjob', k, hk, hslots⟩ := hs'.sound.exists_hasSlot hs'.waiting.awaitsSleeps
    (fun hwake => Nat.le_of_lt (hs'.waiting.base_lt_source hwake)) (Nat.le_of_lt ht) (Nat.zero_le _) hprt
    hlive hstage
  have hle := hi'.le_of_hasSlot hjob' hslots
  have hfits := hs'.tree.fits ht hprt
  cases pr with
  | enter v' =>
    cases hstage
    exact ⟨v', rfl, by omega⟩
  | leave v' =>
    cases hstage
    exact absurd (by omega) hfits.2
  | fanOut v' =>
    cases hstage
    exact absurd (by omega) hfits.2.1
  | join | call | conclude => cases hactive

/-- Where only visits that are too deep are ahead it stays so. -/
theorem Move.onlyTooDeep (h : Move r.plan s s') (hs : s.scheduler.Orderly r) (hq : s.scheduler.OnlyTooDeep r) :
    s'.scheduler.OnlyTooDeep r := by
  intro id pr hid hpr hlive hactive
  have hold : s.scheduler.ending? id = none := by
    cases he : s.scheduler.ending? id with
    | none => rfl
    | some e =>
      rw [h.ending?_stays hs.sound he] at hlive
      cases hlive
  rcases h.shrinks_or with hshrinks | ⟨i, awake, pr', next, d, htakes, hpr', hnext, -⟩ |
    ⟨i, awake, v, htakes, hpr', -⟩
  · exact hq hid ((program?_congr (hshrinks.bareKind id)).symm.trans hpr) hold hactive
  · obtain ⟨hb, hlive'⟩ := htakes.live hs.sound
    have hi := hs.tree.base_lt hb hpr' fun heq => by subst heq; cases hnext
    have hactive' : pr'.isActive = true := by cases hnext <;> rfl
    obtain ⟨v, rfl, hdeep⟩ := hq hi hpr' hlive' hactive'
    cases hnext with
    | enter hdepth => exact absurd hdeep hdepth
  · obtain ⟨hb, hlive'⟩ := htakes.live hs.sound
    have hi := hs.tree.base_lt hb hpr' fun heq => by cases heq
    obtain ⟨v', heq, -⟩ := hq hi hpr' hlive' rfl
    cases heq

end PipelineGraph.Simulation