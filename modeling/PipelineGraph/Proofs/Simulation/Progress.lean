import PipelineGraph.Proofs.Simulation.Loads
import PipelineGraph.Proofs.Simulation.Outcome

/-!
# Progress of a run

What a run has ahead is bounded by the walks that its visits have ahead. Every move makes the jobs,
the timers and these walks fewer, so a run comes to rest. A run at rest is at its end: whoever
waits, waits for something that goes on.
-/

namespace PipelineGraph.Simulation

/-- A run with an end: its start is a node, and no cycle is in reach of it. -/
structure Run.IsFinite (r : Run) : Prop where
  start : r.start.id ∈ r.graph.ids
  acyclic : ¬ r.graph.IsCyclicFrom r.start.id

namespace Visit

/-- The sum of a function over the nodes of all visits below a visit. -/
def ahead (r : Run) (f : Text → Nat) (v : Visit) : Nat :=
  ((v.graph.targets v.node.id).map (v.graph.walkSum f (r.graph.nodes.length - v.depth - 1))).sum

variable {r : Run} {v : Visit} {f : Text → Nat}

/-- A visit of a run with an end is less deep than there are nodes. -/
theorem Fits.depth_lt (h : v.Fits r) (hr : r.IsFinite) : v.depth < r.graph.nodes.length := by
  obtain ⟨w, hw, hlength⟩ := h.walk
  exact hlength ▸ hw.length_lt hr.start hr.acyclic

/-- A sum over walks from the node of a visit is that of the visit and those below. -/
theorem Fits.walkSum_eq (h : v.Fits r) (hr : r.IsFinite) :
    r.graph.walkSum f (r.graph.nodes.length - v.depth) v.node.id = f v.node.id + v.ahead r f := by
  have hlt := h.depth_lt hr
  obtain ⟨k, hk⟩ : ∃ k, r.graph.nodes.length - v.depth = k + 1 :=
    ⟨r.graph.nodes.length - v.depth - 1, by lia⟩
  rw [ahead, h.graph, hk, FlowGraph.walkSum]
  rfl

/-- What is ahead of a visit are the visits that follow it and what is ahead of them. -/
theorem Fits.sum_followers (h : v.Fits r) (hr : r.IsFinite) (hdepth : ¬ r.plan.maxDepth < v.depth) :
    ((Engine.followers v).map fun v' => f v'.node.id + v'.ahead r f).sum = v.ahead r f := by
  have hsums : ((Engine.followers v).map fun v' => f v'.node.id + v'.ahead r f) =
      ((Engine.followers v).map (·.node.id)).map
        (r.graph.walkSum f (r.graph.nodes.length - v.depth - 1)) := by
    rw [List.map_map]
    refine List.map_congr_left fun v' hv' => ?_
    have hfits := Engine.fits_of_mem_followers h hdepth hv'
    rw [← hfits.walkSum_eq hr, Engine.depth_of_mem_followers hv', Nat.sub_add_eq]
    rfl
  rw [hsums, Engine.map_id_followers, ahead, h.graph]

end Visit

/-- How much a program has ahead. -/
def Program.remaining (r : Run) : Program → Nat
  | enter v => 9 * v.ahead r (fun _ => 1) + 7
  | leave v => 9 * v.ahead r (fun _ => 1) + 4
  | fanOut v => 9 * v.ahead r (fun _ => 1) + 1
  | _ => 0

namespace Scheduler

variable {r : Run} {s s' awake : Scheduler Program Action} {id : FutureId}

/-- How much a run has ahead. -/
def remaining (r : Run) (s : Scheduler Program Action) : Nat :=
  s.jobs.length + s.timers.length + s.load r fun pr _ => pr.remaining r

/-- A job that is done leaves less ahead if nothing else comes. -/
theorem remaining_lt_of_keeps (job : Job Action) (hshrinks : s.Shrinks s') (hjobs : s.jobs.Perm (job :: s'.jobs))
    (htimers : s'.timers = s.timers) : s'.remaining r < s.remaining r := by
  have hload : s'.load r (fun pr _ => pr.remaining r) = s.load r fun pr _ => pr.remaining r :=
    load_congr hshrinks.length (fun id => program?_congr (hshrinks.bareKind id)) fun _ _ _ => rfl
  have hlength := hjobs.length_eq
  rw [List.length_cons] at hlength
  unfold remaining
  rw [hload, htimers]
  lia

/-- A turn that is taken is one job less. -/
theorem Takes.jobs (h : s.Takes id awake) :
    ∃ job, s.jobs.Perm (job :: awake.jobs) ∧ awake.timers = s.timers := by
  obtain ⟨job, rest, hready, htask, rfl⟩ := h
  refine ⟨job, ?_, rfl⟩
  rw [jobs_drop hready]
  exact jobs_awaken.symm.cons _

/-- The clock leaves less ahead. -/
theorem remaining_advance (h : s.advance? = some s') : s'.remaining r < s.remaining r := by
  have hlength := (jobs_advance h).length_eq
  have hload : s'.load r (fun pr _ => pr.remaining r) = _ := load_advance h
  have htimers : s'.timers.length < s.timers.length := by
    obtain ⟨time, htime, rfl⟩ := Option.map_eq_some_iff.1 h
    obtain ⟨t, ht, rfl⟩ := List.mem_map.1 (List.min?_mem htime)
    exact List.length_filter_lt_length_iff_exists.2 ⟨t, ht, by simp⟩
  unfold remaining
  rw [hlength, hload]
  lia

/-- A visit that goes on behind a delay has less ahead. -/
theorem Goes.remaining_lt {pr next : Program} {d : Delay} {p : Plan} (hgoes : s.Goes id next d s')
    (hcalm : s.mustCancel id = false) (hb : r.base ≤ id) (hpr : s.program? id = some pr)
    (hlive : s.ending? id = none) {d' : Delay} (hnext : pr.Continues p next d') :
    s'.remaining r < s.remaining r + 1 := by
  have hload := hgoes.load (w := fun pr _ => pr.remaining r) hcalm hb hpr hlive
  have hless : next.remaining r + 3 ≤ pr.remaining r := by
    cases hnext with
    | enter => exact Nat.le_refl _
    | leave => exact Nat.le_refl _
  have hjobs : s'.jobs.length + s'.timers.length ≤ s.jobs.length + s.timers.length + 3 := by
    cases hgoes with
    | pause =>
      rw [(jobs_pause next).length_eq, List.length_cons]
      change _ + s.timers.length ≤ _
      lia
    | sleep microseconds =>
      rw [jobs_doze.length_eq, timers_doze]
      simp only [List.length_cons, List.length_append, List.length_nil]
      lia
  unfold remaining
  lia

/-- A visit that branches has less ahead. -/
theorem remaining_branch {v : Visit} (hr : r.IsFinite) (hcalm : s.mustCancel id = false) (hb : r.base ≤ id)
    (hpr : s.program? id = some (.fanOut v)) (hlive : s.ending? id = none)
    (hfits : (Program.fanOut v).Fits r) :
    (s.branch id ((Engine.followers v).map .enter) (.join v)).remaining r < s.remaining r + 1 := by
  have hload := load_branch (r := r) (w := fun pr _ => pr.remaining r) hcalm hb hpr hlive
  have hperm : (s.branch id ((Engine.followers v).map .enter) (.join v)).jobs.Perm _ := jobs_branch _ _
  have hjobs := hperm.length_eq
  have hsum := hfits.1.sum_followers (f := fun _ => 1) hr hfits.2.1
  have hchildren : ((Engine.followers v).map fun v' => (Program.enter v').remaining r).sum +
      2 * (Engine.followers v).length = 9 * v.ahead r fun _ => 1 := by
    rw [← hsum]
    generalize Engine.followers v = vs
    induction vs with
    | nil => rfl
    | cons v' rest ih =>
      simp only [List.map_cons, List.sum_cons, List.length_cons, Program.remaining] at ih ⊢
      lia
  simp only [List.length_cons, List.length_append, List.length_map, fresh, List.length_range'] at hjobs
  have hself : (Program.fanOut v).remaining r = 9 * v.ahead r (fun _ => 1) + 1 := rfl
  have hjoin : ∀ children, (Program.join v children).remaining r = 0 := fun _ => rfl
  rw [hjoin] at hload
  unfold remaining
  rw [hjobs, (timers_branch _ _).1]
  lia

end Scheduler

open Scheduler

variable {r : Run} {s s' : Session}

/-- Every move leaves less ahead. -/
theorem Move.remaining_lt (h : Move r.plan s s') (hr : r.IsFinite) (hs : s.scheduler.Orderly r) :
    s'.scheduler.remaining r < s.scheduler.remaining r := by
  have htakes : ∀ {job rest id}, s.scheduler.ready = job :: rest → job.task? = some id →
      s.scheduler.Takes id (s.awaken rest id).scheduler := fun hready htask =>
    ⟨_, _, hready, htask, rfl⟩
  have hawake : ∀ {id awake}, s.scheduler.Takes id awake → awake.remaining r < s.scheduler.remaining r := by
    intro id awake htakes
    obtain ⟨job, hjobs, htimers⟩ := htakes.jobs
    exact remaining_lt_of_keeps job htakes.shrinks hjobs htimers
  -- What ends a turn keeps all other jobs.
  have hkeeps : ∀ {id awake s₁}, s.scheduler.Takes id awake → awake.Keeps s₁ →
      s₁.timers = awake.timers → s₁.remaining r < s.scheduler.remaining r := by
    intro id awake s₁ htakes hkeeps htimers
    obtain ⟨job, hjobs, hawake⟩ := htakes.jobs
    exact remaining_lt_of_keeps job (htakes.shrinks.trans hkeeps.shrinks)
      (hjobs.trans (hkeeps.jobs.symm.cons job)) (htimers.trans hawake)
  cases h with
  | advance _ hadvance => exact remaining_advance hadvance
  | @elapse x rest hready =>
    refine remaining_lt_of_keeps (.elapse x) ((shrinks_drop hready rfl).trans (keeps_complete _ _).shrinks) ?_
      (timers_complete _)
    rw [jobs_drop hready]
    exact (jobs_complete _).symm.cons _
  | @count g c rest hready =>
    refine remaining_lt_of_keeps (.count g c) ((shrinks_drop hready rfl).trans (keeps_countChild _ _).shrinks) ?_
      timers_countChild.1
    rw [jobs_drop hready]
    exact (keeps_countChild _ _).jobs.symm.cons _
  | enter hready htask hpr _ hdepth hgoes =>
    have htakes := htakes hready htask
    obtain ⟨hb, hlive⟩ := htakes.live hs.sound
    exact Nat.lt_of_lt_of_le (hgoes.remaining_lt htakes.mustCancel hb ((htakes.program? _).trans hpr)
      ((htakes.ending? _).trans hlive) (.enter hdepth)) (hawake htakes)
  | leave hready htask hpr _ hinner hgoes =>
    have htakes := htakes hready htask
    obtain ⟨hb, hlive⟩ := htakes.live hs.sound
    exact Nat.lt_of_lt_of_le (hgoes.remaining_lt htakes.mustCancel hb ((htakes.program? _).trans hpr)
      ((htakes.ending? _).trans hlive) (.leave (p := r.plan) hinner)) (hawake htakes)
  | fork hready htask hpr =>
    have htakes := htakes hready htask
    obtain ⟨hb, hlive⟩ := htakes.live hs.sound
    have hid := hs.tree.base_lt hb hpr fun heq => by cases heq
    exact Nat.lt_of_lt_of_le (remaining_branch hr htakes.mustCancel hb ((htakes.program? _).trans hpr)
      ((htakes.ending? _).trans hlive) (hs.tree.fits hid hpr)) (hawake htakes)
  | leaf hready htask | join hready htask | deep hready htask | halt hready htask
  | abandon hready htask | conclude hready htask =>
    exact hkeeps (htakes hready htask) (keeps_complete _ _) (timers_complete _)

/-! ## Rest -/

namespace Scheduler

variable {σ : Scheduler Program Action} {id : FutureId} {job : Job Action}

/-- A scheduler without queued jobs and timers is at rest. -/
structure IsIdle (σ : Scheduler Program Action) : Prop where
  ready : σ.ready = []
  timers : σ.timers = []

/-- A job of a scheduler at rest stands behind the end of a future that has not ended. -/
theorem IsIdle.source (h : σ.IsIdle) {b : FutureId} (hs : σ.Sound b fun _ => False)
    (hjob : job ∈ σ.jobs) : ∃ source, job.source? = some source ∧ σ.ending? source = none := by
  refine (hs.mem_jobs_cases hjob).resolve_left fun hmem => ?_
  rw [h.ready, h.timers] at hmem
  cases hmem

/-- The sleeps of a scheduler at rest have ended. -/
theorem IsIdle.sleep_ended (h : σ.IsIdle) {b : FutureId} (hs : σ.Sound b fun _ => False) (hb : b ≤ id)
    (hsleep : σ.bareKind? id = some .sleep) : σ.ending? id ≠ none := by
  intro hlive
  obtain ⟨f, hf, hk⟩ := kind?_eq_some_iff.1 (bareKind?_eq_sleep_iff.1 hsleep)
  rw [ending?, hf, Option.bind_some] at hlive
  have hqueue := (hs.fits hb (fun h => h) hf).sleep hk hlive
  rw [h.ready, h.timers] at hqueue
  cases hqueue

/-- A gathering that has not ended in a scheduler at rest has a child that has not ended. -/
theorem IsIdle.exists_child (h : σ.IsIdle) {b : FutureId} (hs : σ.Sound b fun _ => False) (hb : b ≤ id)
    {children : List FutureId} (hbare : σ.bareKind? id = some (.gathering children)) (hlive : σ.ending? id = none) :
    ∃ c ∈ children, σ.ending? c = none := by
  obtain ⟨g, hg, rfl⟩ := bareKind?_eq_gathering_iff.1 hbare
  obtain ⟨c, hc, hcount⟩ := hs.exists_count hb (fun h => h) hg hlive
  obtain ⟨source, hsource, hclive⟩ := h.source hs hcount
  cases hsource
  exact ⟨c, hc, hclive⟩

/-- A task that has not ended has a job. -/
theorem Orderly.exists_job (hs : σ.Orderly r) (hb : r.base ≤ id) {pr : Program}
    (hpr : σ.program? id = some pr) (hlive : σ.ending? id = none) :
    ∃ job ∈ σ.jobs, job.task? = some id :=
  hs.sound.exists_job hb (fun h => h) hpr hlive

/-- All visits of a run at rest have ended. -/
theorem Orderly.ended_of_idle (hs : σ.Orderly r) (hidle : σ.IsIdle) {pr : Program} (hid : r.base < id)
    (hpr : σ.program? id = some pr) : σ.ending? id ≠ none := by
  -- A visit can only wait for visits of higher numbers.
  induction hk : σ.futures.length - id using Nat.strongRecOn generalizing id pr with
  | ind k ih =>
    intro hlive
    have hlt := lt_of_program? hpr
    obtain ⟨job, hjob, htask⟩ := hs.exists_job (Nat.le_of_lt hid) hpr hlive
    obtain ⟨source, hsource, hsourcelive⟩ := hidle.source hs.sound hjob
    obtain rfl := Job.eq_wake htask hsource
    obtain ⟨pr', hpr', hawaits⟩ := hs.waiting.suits hjob
    have hfits := hs.tree.fits hid hpr'
    cases pr' with
    | leave | fanOut => exact hidle.sleep_ended hs.sound (Nat.le_of_lt hawaits.1) hawaits.2 hsourcelive
    | join v children =>
      obtain ⟨c, hc, hclive⟩ := hidle.exists_child hs.sound (Nat.le_of_lt hawaits.1) hawaits.2 hsourcelive
      obtain ⟨hltc, v', -, hv'⟩ := hs.tree.visit_of_child hid hpr' hc
      obtain ⟨prc, hprc, -⟩ := visit?_eq_some_iff.1 hv'
      have hcl := lt_of_program? hprc
      exact ih _ (by lia) (Nat.lt_trans hid hltc) hprc rfl hclive
    | enter => exact hawaits.elim
    | call | conclude => exact hfits.elim

/-- The caller of a run at rest has ended. -/
theorem Orderly.caller_ended_of_idle (hs : σ.Orderly r) (hidle : σ.IsIdle) :
    σ.ending? r.base ≠ none := by
  intro hlive
  obtain ⟨job, hjob, htask⟩ := hs.exists_job (Nat.le_refl _) hs.tree.caller hlive
  obtain ⟨source, hsource, hsourcelive⟩ := hidle.source hs.sound hjob
  obtain rfl := Job.eq_wake htask hsource
  obtain ⟨pr, hpr, hawaits⟩ := hs.waiting.suits hjob
  cases hs.tree.caller.symm.trans hpr
  obtain ⟨pr, hpr, -⟩ := visit?_eq_some_iff.1 hs.tree.root
  have hroot : source = r.root := hawaits
  exact hs.ended_of_idle hidle r.base_lt_root hpr (hroot ▸ hsourcelive)

/-- A run at rest has no jobs left. -/
theorem Orderly.jobs_of_idle (hs : σ.Orderly r) (hidle : σ.IsIdle) : σ.jobs = [] := by
  refine List.eq_nil_iff_forall_not_mem.2 fun job hjob => ?_
  obtain ⟨source, hsource, hlive⟩ := hidle.source hs.sound hjob
  cases job with
  | resume | elapse | act => cases hsource
  | wake t x =>
    obtain ⟨hb, -, htlive, -⟩ := hs.sound.live_of_mem hjob rfl
    obtain ⟨pr, hpr, -⟩ := hs.waiting.suits hjob
    rcases Nat.eq_or_lt_of_le hb with rfl | hlt
    · exact hs.caller_ended_of_idle hidle htlive
    · exact hs.ended_of_idle hidle hlt hpr htlive
  | count g c =>
    cases hsource
    obtain ⟨-, hcb, v, hv⟩ := hs.counted hjob
    obtain ⟨pr, hpr, -⟩ := visit?_eq_some_iff.1 hv
    exact hs.ended_of_idle hidle hcb hpr hlive

end Scheduler

namespace Engine

/-- A session in which no step is left is at rest. -/
theorem isIdle_of_step? {p : Plan} (h : step? p s = none) : s.scheduler.IsIdle := by
  unfold step? at h
  cases hready : s.scheduler.ready with
  | cons job rest =>
    rw [hready] at h
    cases h
  | nil =>
    rw [hready] at h
    refine ⟨hready, ?_⟩
    have hnone : earliest? s.scheduler.timers = none := by
      simpa [advance?] using h
    simpa [earliest?] using hnone

/-- A session comes to rest if each step leaves less ahead. -/
theorem run_rests {p : Plan} {I : Session → Prop} {m : Session → Nat}
    (hstep : ∀ s s', I s → step? p s = some s' → I s' ∧ m s' < m s) (n : Nat) (hI : I s)
    (hn : m s ≤ n) : I (run p n s) ∧ step? p (run p n s) = none := by
  induction n generalizing s with
  | zero =>
    refine ⟨hI, ?_⟩
    cases h : step? p (run p 0 s) with
    | none => rfl
    | some s' =>
      have hlt := (hstep s s' hI h).2
      omega
  | succ n ih =>
    unfold run
    cases h : step? p s with
    | none => exact ⟨hI, h⟩
    | some s' =>
      obtain ⟨hI', hlt⟩ := hstep s s' hI h
      exact ih hI' (by omega)

end Engine

end PipelineGraph.Simulation
