import PipelineGraph.Proofs.Simulation.Lockstep

/-!
# Unwinding

When visits turn out too deep, the interruptions go up the tree of visits level by level. The jobs
in the queue stand in the order of their levels, and those behind an interruption belong to the
deepest level that is left. So a visit is interrupted behind its children only when all of them
have ended, and finds nothing left to cancel.
-/

namespace PipelineGraph.Simulation

/-- The level of a job. To count a visit is above the turns of the visit, and the turns of who waits
for the count are above that. -/
inductive Job.HasLevel (s : Scheduler Program Action) : Job Action → Nat → Prop
  | turn {job id v} (htask : job.task? = some id) (hv : s.visit? id = some v) :
    HasLevel s job (2 * v.depth + 1)
  | count {g c v} (hv : s.visit? c = some v) : HasLevel s (.count g c) (2 * v.depth)

/-- What brings no turn and stands behind no future has no level. -/
theorem Job.not_hasLevel {s : Scheduler Program Action} {job : Job Action} {k : Nat} (hsource : job.source? = none)
    (htask : job.task? = none) : ¬ job.HasLevel s k := by
  intro hk
  cases hk with
  | turn htask' => cases htask.symm.trans htask'
  | count => cases hsource

/-- A job stands behind an interruption. -/
def Job.BringsInterrupt (s : Scheduler Program Action) (job : Job Action) : Prop :=
  ∃ source i, job.source? = some source ∧ s.ending? source = some (.error i)

/-- A job is some steps above a bound, or higher; behind an interruption it is just so many above. -/
def Job.Above (s : Scheduler Program Action) (bound steps : Nat) (job : Job Action) : Prop :=
  ∀ k, job.HasLevel s k → k + steps ≤ bound ∧ (job.BringsInterrupt s → k + steps = bound)

namespace Scheduler

variable {r : Run} {s s' : Scheduler Program Action} {id x g c : FutureId} {job : Job Action}
  {rest : List (Job Action)} {bound k : Nat} {e : Ending}

/-- The queue of a run that unwinds: the jobs at a level, and behind them those above it. -/
structure Unwinds (bound : Nat) (s : Scheduler Program Action) : Prop where
  queue : ∃ first behind, s.ready = first ++ behind ∧ (∀ job ∈ first, job.Above s bound 0) ∧
    ∀ job ∈ behind, job.Above s bound 1

/-- A job keeps its place where visits stay and nothing that it stands behind is interrupted. -/
theorem above_of_same {steps : Nat} (h : job.Above s bound steps) (hvisit : ∀ id, s'.visit? id = s.visit? id)
    (hinterrupt : job.BringsInterrupt s' → job.BringsInterrupt s) : job.Above s' bound steps := by
  intro k hk
  have hk' : job.HasLevel s k := by
    cases hk with
    | turn htask hv => exact .turn htask ((hvisit _).symm.trans hv)
    | count hv => exact .count ((hvisit _).symm.trans hv)
  exact (h k hk').imp_right fun heq hnew => heq (hinterrupt hnew)

/-- No job of the queue is below the level. -/
theorem Unwinds.le_of_level (h : s.Unwinds bound) (hjob : job ∈ s.ready) (hk : job.HasLevel s k) :
    k ≤ bound := by
  obtain ⟨first, behind, hqueue, hfirst, hbehind⟩ := h.queue
  rw [hqueue] at hjob
  rcases List.mem_append.1 hjob with hjob | hjob
  · exact (hfirst job hjob k hk).1
  · exact Nat.le_trans (Nat.le_succ k) (hbehind job hjob k hk).1

/-- The first job is at a level at which the queue unwinds. -/
theorem Unwinds.take (h : s.Unwinds bound) (hready : s.ready = job :: rest) :
    ∃ bound' ≤ bound, s.Unwinds bound' ∧ job.Above s bound' 0 ∧ (s.drop rest).Unwinds bound' := by
  have hdrop : ∀ {first behind bound'}, rest = first ++ behind → (∀ job ∈ first, job.Above s bound' 0) →
      (∀ job ∈ behind, job.Above s bound' 1) → (s.drop rest).Unwinds bound' :=
    fun hrest hfirst hbehind => ⟨⟨_, _, hrest,
      fun job hjob => above_of_same (hfirst job hjob) (fun _ => rfl) fun h => h,
      fun job hjob => above_of_same (hbehind job hjob) (fun _ => rfl) fun h => h⟩⟩
  obtain ⟨first, behind, hqueue, hfirst, hbehind⟩ := h.queue
  rw [hready] at hqueue
  cases first with
  | cons job' first =>
    obtain ⟨rfl, rfl⟩ := List.cons_eq_cons.1 hqueue
    exact ⟨bound, Nat.le_refl _, h, hfirst job List.mem_cons_self,
      hdrop rfl (fun job' hjob => hfirst job' (List.mem_cons_of_mem _ hjob)) hbehind⟩
  | nil =>
    -- What stood behind comes to the front, one level above.
    rw [List.nil_append] at hqueue
    subst hqueue
    have hfront : ∀ job' ∈ job :: rest, job'.Above s (bound - 1) 0 := by
      intro job' hjob k hk
      obtain ⟨hle, heq⟩ := hbehind job' hjob k hk
      exact ⟨by lia, fun hinterrupt => by have := heq hinterrupt; lia⟩
    exact ⟨bound - 1, Nat.sub_le _ _, ⟨⟨job :: rest, [], by rw [hready, List.append_nil], hfront, by simp⟩⟩,
      hfront job List.mem_cons_self,
      hdrop (List.append_nil rest).symm (fun job' hjob => hfront job' (List.mem_cons_of_mem _ hjob)) (by simp)⟩

/-- What comes to the queue may be one step above the level. -/
theorem Unwinds.add (h : s.Unwinds bound) (hvisit : ∀ id, s'.visit? id = s.visit? id)
    (hinterrupt : ∀ job ∈ s.ready, job.BringsInterrupt s' → job.BringsInterrupt s) {added : List (Job Action)}
    (hready : s'.ready = s.ready ++ added) (hadded : ∀ job ∈ added, job.Above s' bound 1) :
    s'.Unwinds bound := by
  obtain ⟨first, behind, hqueue, hfirst, hbehind⟩ := h.queue
  rw [hqueue] at hready hinterrupt
  refine ⟨first, behind ++ added, by rw [hready, List.append_assoc], fun job hjob => ?_, fun job hjob => ?_⟩
  · exact above_of_same (hfirst job hjob) hvisit (hinterrupt job (List.mem_append_left _ hjob))
  · rcases List.mem_append.1 hjob with hjob | hjob
    · exact above_of_same (hbehind job hjob) hvisit (hinterrupt job (List.mem_append_right _ hjob))
    · exact hadded job hjob

/-- As the first job is done, the jobs behind the end of a future may come to the queue, if they are one
step above the level. -/
theorem Unwinds.perform (h : (s.drop rest).Unwinds bound) (hs : s.Orderly r) (hready : s.ready = job :: rest)
    (hvisit : ∀ id, s'.visit? id = s.visit? id)
    (hstays : ∀ {y e}, s.ending? y = some e → s'.ending? y = some e)
    (hadded : s'.ready = rest ∨ s'.ready = rest ++ s.callbacks x)
    (hjobs : ∀ job ∈ s.callbacks x, ∀ k, job.HasLevel s k →
      k + 1 ≤ bound ∧ ∀ i, s'.ending? x = some (.error i) → k + 1 = bound) : s'.Unwinds bound := by
  have hinterrupt : ∀ job ∈ rest, job.BringsInterrupt s' → job.BringsInterrupt (s.drop rest) := by
    rintro job hjob ⟨source, i, hsource, hend⟩
    have hmem : job ∈ s.ready := hready ▸ List.mem_cons_of_mem _ hjob
    obtain ⟨e, he⟩ := Option.ne_none_iff_exists'.1 (hs.sound.ready_source hmem hsource)
    exact ⟨source, i, hsource, he.trans ((hstays he).symm.trans hend)⟩
  rcases hadded with hready' | hready'
  · exact h.add hvisit hinterrupt (hready'.trans (List.append_nil rest).symm) (by simp)
  · refine h.add hvisit hinterrupt hready' fun job hjob k hk => ?_
    have hk' : job.HasLevel s k := by
      cases hk with
      | turn htask hv => exact .turn htask ((hvisit _).symm.trans hv)
      | count hv => exact .count ((hvisit _).symm.trans hv)
    refine (hjobs job hjob k hk').imp_right fun heq ⟨source, i, hsource, hend⟩ => ?_
    cases (hs.sound.of_mem_callbacks hjob).1.symm.trans hsource
    exact heq i hend

/-! ## Jobs behind the ends of futures -/

/-- Behind the end of a visit stands nothing but to count it. -/
theorem Orderly.level_of_task (hs : s.Orderly r) {pr : Program} (hpr : s.program? x = some pr)
    (hjob : job ∈ s.callbacks x) (hk : job.HasLevel s k) : ∃ v, pr.visit? = some v ∧ k = 2 * v.depth := by
  obtain ⟨hsource, hmem, -⟩ := hs.sound.of_mem_callbacks hjob
  cases hk with
  | count hv =>
    cases hsource
    obtain ⟨pr', hpr', hvisit⟩ := visit?_eq_some_iff.1 hv
    cases hpr.symm.trans hpr'
    exact ⟨_, hvisit, rfl⟩
  | turn htask hv =>
    obtain rfl := Job.eq_wake htask hsource
    obtain ⟨pr', hpr', hawaits⟩ := hs.waiting.suits hmem
    obtain ⟨pr'', hpr'', hvisit⟩ := visit?_eq_some_iff.1 hv
    cases hpr'.symm.trans hpr''
    cases pr' with
    | leave | fanOut | join => cases (bareKind?_eq_task_iff.2 hpr).symm.trans hawaits.2
    | enter => exact hawaits.elim
    | call | conclude => cases hvisit

/-- Behind the end of a gathering stands nothing but the turn of the visit that waits for its children. -/
theorem Orderly.level_of_gathering (hs : s.Orderly r) {children : List FutureId}
    (hg : s.bareKind? g = some (.gathering children)) (hjob : job ∈ s.callbacks g) (hk : job.HasLevel s k)
    {v : Visit} (hc : c ∈ children) (hv : s.visit? c = some v) : k + 1 = 2 * v.depth := by
  obtain ⟨hsource, hmem, -⟩ := hs.sound.of_mem_callbacks hjob
  cases hk with
  | count hv' =>
    cases hsource
    obtain ⟨pr, hpr, -⟩ := visit?_eq_some_iff.1 hv'
    cases (bareKind?_eq_task_iff.2 hpr).symm.trans hg
  | turn htask hv' =>
    obtain rfl := Job.eq_wake htask hsource
    obtain ⟨pr, hpr, hawaits⟩ := hs.waiting.suits hmem
    obtain ⟨pr', hpr', hvisit⟩ := visit?_eq_some_iff.1 hv'
    cases hpr.symm.trans hpr'
    cases pr with
    | leave | fanOut => cases hg.symm.trans hawaits.2
    | enter => exact hawaits.elim
    | call | conclude => cases hvisit
    | join v' children' =>
      cases hg.symm.trans hawaits.2
      cases hvisit
      have hbase := hs.tree.base_lt (hs.sound.turn_task hmem rfl).1 hpr fun heq => nomatch heq
      obtain ⟨-, v'', hv'', hcv⟩ := hs.tree.visit_of_child hbase hpr hc
      cases hv.symm.trans hcv
      rw [Engine.depth_of_mem_followers hv'']
      lia

/-- Where no visit is at work, nothing with a level stands behind a sleep. -/
theorem Orderly.not_level_of_sleep (hs : s.Orderly r) (hq : s.OnlyTooDeep r) (hsleep : s.bareKind? x = some .sleep)
    (hjob : job ∈ s.callbacks x) : ¬ job.HasLevel s k := by
  obtain ⟨hsource, hmem, -⟩ := hs.sound.of_mem_callbacks hjob
  intro hk
  cases hk with
  | count hv =>
    cases hsource
    obtain ⟨pr, hpr, -⟩ := visit?_eq_some_iff.1 hv
    cases (bareKind?_eq_task_iff.2 hpr).symm.trans hsleep
  | turn htask hv =>
    obtain rfl := Job.eq_wake htask hsource
    obtain ⟨pr, hpr, hawaits⟩ := hs.waiting.suits hmem
    obtain ⟨hb, -, hlive, -⟩ := hs.sound.live_of_mem hmem rfl
    cases pr with
    | leave | fanOut =>
      obtain ⟨v, heq, -⟩ := hq (hs.tree.base_lt hb hpr fun heq => by cases heq) hpr hlive rfl
      cases heq
    | join => cases hsleep.symm.trans hawaits.2
    | enter => exact hawaits.elim
    | call | conclude =>
      obtain ⟨pr', hpr', hvisit⟩ := visit?_eq_some_iff.1 hv
      cases hpr.symm.trans hpr'
      cases hvisit

/-- A job with a level is queued, or stands behind a future that has not ended. -/
theorem Orderly.queued_or_behind (hs : s.Orderly r) (hjob : job ∈ s.jobs) (hk : job.HasLevel s k) :
    job ∈ s.ready ∨ ∃ source, job.source? = some source ∧ s.ending? source = none := by
  rcases hs.sound.mem_jobs_cases hjob with hmem | hbehind
  · refine (List.mem_append.1 hmem).imp_right fun hmem => ?_
    obtain ⟨timer, htimer, rfl⟩ := List.mem_map.1 hmem
    exact absurd hk (Job.not_hasLevel (hs.sound.timer htimer).1 (hs.sound.timer htimer).2)
  · exact Or.inr hbehind

/-! ## What is left of a run -/

/-- A visit that has not ended is not below the level. -/
theorem Unwinds.le_of_live (h : s.Unwinds bound) (hs : s.Orderly r) (hq : s.OnlyTooDeep r) (hid : r.base < id)
    {v : Visit} (hv : s.visit? id = some v) (hlive : s.ending? id = none) : 2 * v.depth + 1 ≤ bound := by
  -- A visit can only wait for visits of higher numbers.
  induction hk : s.futures.length - id using Nat.strongRecOn generalizing id v with
  | ind k ih =>
    obtain ⟨pr, hpr, hvisit⟩ := visit?_eq_some_iff.1 hv
    obtain ⟨job, hjob, htask⟩ := hs.exists_job (Nat.le_of_lt hid) hpr hlive
    rcases hs.queued_or_behind hjob (.turn htask hv) with hqueued | ⟨source, hsource, hsourcelive⟩
    · exact h.le_of_level hqueued (.turn htask hv)
    obtain rfl := Job.eq_wake htask hsource
    obtain ⟨pr', hpr', hawaits⟩ := hs.waiting.suits hjob
    cases hpr.symm.trans hpr'
    cases pr with
    | enter => exact hawaits.elim
    | call | conclude => cases hvisit
    | leave | fanOut =>
      obtain ⟨v', heq, -⟩ := hq hid hpr hlive rfl
      cases heq
    | join v' children =>
      cases hvisit
      obtain ⟨g, hg, rfl⟩ := bareKind?_eq_gathering_iff.1 hawaits.2
      obtain ⟨c, hc, hcount⟩ :=
        hs.sound.exists_count (Nat.le_of_lt hawaits.1) (fun h => h) hg hsourcelive
      obtain ⟨hlt, v', hv', hvc⟩ := hs.tree.visit_of_child hid hpr hc
      have hdepth := Engine.depth_of_mem_followers hv'
      rcases hs.queued_or_behind hcount (.count hvc) with hqueued | ⟨source, hsource, hclive⟩
      · have hle := h.le_of_level hqueued (.count hvc)
        lia
      · cases hsource
        have hlt' := lt_of_program? (visit?_eq_some_iff.1 hvc).choose_spec.1
        have hle := ih _ (by lia) (Nat.lt_trans hid hlt) hvc hclive rfl
        lia

/-- A visit that is interrupted behind its children finds that they have ended. -/
theorem Unwinds.children_ended (h : s.Unwinds bound) (hs : s.Orderly r) (hq : s.OnlyTooDeep r) (hu : s.Unasked r)
    (hready : s.ready = job :: rest) (htask : job.task? = some id) {v : Visit} {children : List FutureId}
    (hpr : s.program? id = some (.join v children)) (hinterrupt : s.interrupt? id job ≠ none) :
    ∀ c ∈ children, s.ending? c ≠ none := by
  have hjob : job ∈ s.jobs := mem_jobs_of_ready hready
  have hid := hs.tree.base_lt (hs.sound.turn_task hjob htask).1 hpr fun heq => nomatch heq
  obtain ⟨i, hi⟩ := Option.ne_none_iff_exists'.1 hinterrupt
  obtain ⟨source, hsource, hend⟩ := hu.exists_source (Nat.le_of_lt hid) hi
  obtain ⟨bound', -, h', hhead, -⟩ := h.take hready
  obtain ⟨-, hat⟩ := hhead _ (.turn htask (visit?_eq_some_iff.2 ⟨_, hpr, rfl⟩))
  have hat := hat ⟨source, i, hsource, hend⟩
  intro c hc hlive
  obtain ⟨hlt, v', hv', hvc⟩ := hs.tree.visit_of_child hid hpr hc
  have hle := h'.le_of_live hs hq (Nat.lt_trans hid hlt) hvc hlive
  rw [Engine.depth_of_mem_followers hv'] at hle
  lia

end Scheduler

open Scheduler

variable {r : Run} {s s' : Session} {job : Job Action} {rest : List (Job Action)} {id : FutureId}
  {bound : Nat}

/-- Nothing of an uninterrupted run was asked to cancel. -/
theorem Scheduler.Uninterrupted.unasked {s : Scheduler Program Action} (hc : s.Uninterrupted r) : s.Unasked r :=
  ⟨fun hid => hc.ending hid, hc.mustCancel, hc.asked⟩

/-- The level of the turns of the deepest visits that a run may come to. -/
def Run.lowest (r : Run) : Nat :=
  2 * (r.plan.maxDepth + 1).toNat + 1

/-- The turns of a visit are not below the lowest level. -/
theorem Visit.Fits.le_lowest {v : Visit} (h : v.Fits r) : 2 * v.depth + 1 ≤ r.lowest := by
  have hdepth := h.depth
  unfold Run.lowest
  omega

/-- An uninterrupted queue unwinds from the lowest level. -/
theorem Scheduler.Uninterrupted.unwinds {s : Scheduler Program Action} (hc : s.Uninterrupted r) (hs : s.Orderly r) :
    s.Unwinds r.lowest := by
  refine ⟨⟨s.ready, [], (List.append_nil _).symm, fun job hjob k hk => ?_, by simp⟩⟩
  have hmem : job ∈ s.jobs := List.mem_append_left _ (List.mem_append_left _ hjob)
  cases hk with
  | turn htask hv =>
    obtain ⟨-, hfits⟩ := hs.tree.visit_fits (hs.sound.turn_task hmem htask).1 hv
    refine ⟨hfits.le_lowest, fun ⟨source, i, hsource, hend⟩ => ?_⟩
    obtain rfl := Job.eq_wake htask hsource
    exact absurd hend (hc.ending (Nat.le_of_lt (hs.waiting.base_lt_source hmem)))
  | count hv =>
    have hbase := Nat.le_of_lt (hs.counted hmem).2.1
    obtain ⟨-, hfits⟩ := hs.tree.visit_fits hbase hv
    refine ⟨Nat.le_of_lt hfits.le_lowest, fun ⟨source, i, hsource, hend⟩ => ?_⟩
    cases hsource
    exact absurd hend (hc.ending hbase)

/-- No visit has a turn at work next but one that is too deep. -/
def Scheduler.TurnsDeep (r : Run) (s : Scheduler Program Action) : Prop :=
  ∀ {job rest id pr}, s.ready = job :: rest → job.task? = some id → s.program? id = some pr →
    pr.isActive = true → ∃ v, pr = .enter v ∧ r.plan.maxDepth < v.depth

/-- A task that ends in its turn leaves nothing to do but to count its visit. -/
theorem Move.unwinds_of_end (h : Move r.plan s s') (hs : s.scheduler.Orderly r)
    (hw : s.scheduler.Unwinds bound) (hbound : bound ≤ r.lowest) {pr : Program} {e : Ending}
    (hready : s.scheduler.ready = job :: rest) (htask : job.task? = some id)
    (hpr : s.scheduler.program? id = some pr)
    (heq : s'.scheduler = (s.awaken rest id).scheduler.complete id e)
    (hreason : ∀ i, e = .error i → job.BringsInterrupt s.scheduler ∨ ∃ v, pr = .enter v ∧ r.plan.maxDepth < v.depth) :
    ∃ bound' ≤ r.lowest, s'.scheduler.Unwinds bound' := by
  obtain ⟨bound', hle, -, hhead, hrest⟩ := hw.take hready
  have hle := Nat.le_trans hle hbound
  have htakes : s.scheduler.Takes id (s.awaken rest id).scheduler := ⟨job, rest, hready, htask, rfl⟩
  refine ⟨bound', hle, hrest.perform (x := id) hs hready (fun t => ?_) (h.ending?_stays hs.sound) ?_
    fun job' hjob k hk => ?_⟩
  · rw [heq, visit?, visit?, (keeps_complete id e).program, htakes.program?]
  · rw [heq, ready_complete, Session.awaken, Scheduler.awaken, callbacks_modifyTask]
    split
    · exact Or.inl rfl
    · exact Or.inr rfl
  · obtain ⟨v, hvisit, rfl⟩ := hs.level_of_task hpr hjob hk
    have hlevel := hhead _ (.turn htask (visit?_eq_some_iff.2 ⟨pr, hpr, hvisit⟩))
    refine ⟨by lia, fun i hend => ?_⟩
    have hlive : (s.awaken rest id).scheduler.ending? id = none :=
      (htakes.ending? id).trans (htakes.live hs.sound).2
    rw [heq, ending?_complete_of_live (lt_of_program? ((htakes.program? id).trans hpr)) hlive] at hend
    rcases hreason i (Option.some.inj hend) with hinterrupt | ⟨v', rfl, hdepth⟩
    · exact hlevel.2 hinterrupt
    · cases hvisit
      unfold Run.lowest at hle
      omega

/-- A gathering that counts a child leaves nothing to do but the turn of who waits for it. -/
theorem Move.unwinds_of_count (h : Move r.plan s s') (hs : s.scheduler.Orderly r) (hu : s.scheduler.Unasked r)
    (hw : s.scheduler.Unwinds bound) (hbound : bound ≤ r.lowest) {g c : FutureId}
    (hready : s.scheduler.ready = .count g c :: rest)
    (heq : s'.scheduler = (s.scheduler.drop rest).countChild g c) :
    ∃ bound' ≤ r.lowest, s'.scheduler.Unwinds bound' := by
  obtain ⟨bound', hle, -, hhead, hrest⟩ := hw.take hready
  have hmem : .count g c ∈ s.scheduler.jobs := mem_jobs_of_ready hready
  obtain ⟨hg, -, v, hv⟩ := hs.counted hmem
  obtain ⟨-, gs, hgathering, hc⟩ := hs.sound.count_child hmem
  refine ⟨bound', Nat.le_trans hle hbound, hrest.perform (x := g) hs hready (fun t => ?_)
    (h.ending?_stays hs.sound) (heq ▸ ready_countChild) fun job' hjob k hk => ?_⟩
  · rw [heq, visit?, visit?, (keeps_countChild g c).program]
    rfl
  · have hlevel := hhead _ (.count hv)
    have hk := hs.level_of_gathering (bareKind?_eq_gathering_iff.2 ⟨gs, hgathering, rfl⟩) hjob hk hc hv
    refine ⟨by lia, fun i hend => ?_⟩
    rcases ending?_countChild (s := s.scheduler.drop rest) (i := g) (j := g) (c := c) with
      hsame | ⟨-, -, ⟨x, hx, hnew⟩ | ⟨hasked, -⟩ | hnew⟩
    · have hlive := (hs.sound.of_mem_callbacks hjob).2.2
      rw [heq, hsame] at hend
      cases hlive.symm.trans hend
    · exact hk.trans (hlevel.2 ⟨c, x, rfl, hx⟩)
    · exact absurd hasked (hu.asked (Nat.le_of_lt hg))
    · rw [heq, hnew] at hend
      cases hend

/-- Where no visit has a turn at work next, every move unwinds. -/
theorem Move.unwinds_of_turnsDeep (h : Move r.plan s s') (hs : s.scheduler.Orderly r) (hu : s.scheduler.Unasked r)
    (hdeep : s.scheduler.TurnsDeep r)
    (hsleep : ∀ x rest, s.scheduler.ready = .elapse x :: rest → ∀ job ∈ s.scheduler.callbacks x, ∀ k,
      ¬ job.HasLevel s.scheduler k)
    (hw : s.scheduler.Unwinds bound) (hbound : bound ≤ r.lowest) :
    ∃ bound' ≤ r.lowest, s'.scheduler.Unwinds bound' := by
  have hinterrupt : ∀ {job rest id i}, s.scheduler.ready = job :: rest → job.task? = some id →
      s.scheduler.interrupt? id job = some i → job.BringsInterrupt s.scheduler := by
    intro job rest id i hready htask hin
    have hb := (hs.sound.turn_task (mem_jobs_of_ready hready) htask).1
    obtain ⟨source, hsource, hend⟩ := hu.exists_source hb hin
    exact ⟨source, i, hsource, hend⟩
  cases h' : h with
  | advance hready hadvance =>
    obtain ⟨time, -, rfl⟩ := Option.map_eq_some_iff.1 hadvance
    refine ⟨bound, hbound, hw.add (fun _ => rfl) (fun _ _ hinterrupt => hinterrupt) rfl fun job hjob k hk => ?_⟩
    obtain ⟨timer, htimer, rfl⟩ := List.mem_map.1 hjob
    obtain ⟨hsource, htask⟩ := hs.sound.timer (List.mem_filter.1 htimer).1
    exact absurd hk (Job.not_hasLevel hsource htask)
  | @elapse x rest hready =>
    obtain ⟨bound', hle, -, -, hrest⟩ := hw.take hready
    refine ⟨bound', Nat.le_trans hle hbound, hrest.perform (x := x) hs hready (fun t => ?_)
      (h.ending?_stays hs.sound) ?_ fun job hjob k hk => absurd hk (hsleep x rest hready job hjob k)⟩
    · rw [visit?, visit?, (keeps_complete x _).program]
      rfl
    · rw [ready_complete]
      split
      · exact Or.inl rfl
      · exact Or.inr rfl
  | count hready => exact h.unwinds_of_count hs hu hw hbound hready rfl
  | enter hready htask hpr _ hdepth =>
    obtain ⟨v, heq, hcontra⟩ := hdeep hready htask hpr rfl
    cases heq
    exact absurd hcontra hdepth
  | leave hready htask hpr | leaf hready htask hpr | fork hready htask hpr =>
    obtain ⟨v, heq, -⟩ := hdeep hready htask hpr rfl
    cases heq
  | join hready htask hpr | conclude hready htask hpr =>
    exact h.unwinds_of_end hs hw hbound hready htask hpr rfl fun i hi => by cases hi
  | deep hready htask hpr _ hdepth =>
    exact h.unwinds_of_end hs hw hbound hready htask hpr rfl fun i hi => Or.inr ⟨_, rfl, hdepth⟩
  | halt hready htask hpr _ hin | abandon hready htask hpr hin =>
    exact h.unwinds_of_end hs hw hbound hready htask hpr rfl fun i hi => Or.inl (hinterrupt hready htask hin)

/-- Where no visit is at work but those that are too deep, every move unwinds. -/
theorem Move.unwinds (h : Move r.plan s s') (hs : s.scheduler.Orderly r) (hu : s.scheduler.Unasked r)
    (hq : s.scheduler.OnlyTooDeep r) (hw : s.scheduler.Unwinds bound) (hbound : bound ≤ r.lowest) :
    ∃ bound' ≤ r.lowest, s'.scheduler.Unwinds bound' := by
  refine h.unwinds_of_turnsDeep hs hu (fun {job rest id pr} hready htask hpr hactive => ?_)
    (fun x rest hready job hjob k => ?_) hw hbound
  · obtain ⟨hb, -, hlive, -⟩ := hs.sound.live_of_mem (mem_jobs_of_ready hready) htask
    exact hq (hs.tree.base_lt hb hpr fun heq => by subst heq; cases hactive) hpr hlive hactive
  · exact hs.not_level_of_sleep hq
      (bareKind?_eq_sleep_iff.2 (hs.sound.elapse_sleep (mem_jobs_of_ready hready))) hjob

/-- The move of an uninterrupted session in which a visit turns out too deep begins to unwind. -/
theorem Move.unwinds_of_deep (h : Move r.plan s s') (hs : s.scheduler.Orderly r) (hc : s.scheduler.Uninterrupted r)
    {v : Visit} (hready : s.scheduler.ready = job :: rest) (htask : job.task? = some id)
    (hpr : s.scheduler.program? id = some (.enter v)) (hdepth : r.plan.maxDepth < v.depth) :
    ∃ bound ≤ r.lowest, s'.scheduler.Unwinds bound := by
  refine h.unwinds_of_turnsDeep hs hc.unasked (fun {job' rest' id' pr} hready' htask' hpr' _ => ?_)
    (fun x rest' hready' => ?_) (hc.unwinds hs) (Nat.le_refl _)
  · obtain ⟨rfl, -⟩ := List.cons_eq_cons.1 (hready.symm.trans hready')
    cases htask.symm.trans htask'
    cases hpr.symm.trans hpr'
    exact ⟨v, rfl, hdepth⟩
  · cases hready.symm.trans hready'
    cases htask

end PipelineGraph.Simulation
