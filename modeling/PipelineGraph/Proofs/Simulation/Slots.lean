import PipelineGraph.Proofs.Simulation.Progress

/-!
# The slots of a run

A visit takes three turns, each behind a delay that is the same for all visits. So the turns of a run
are at stages, and the jobs that lead to them at slots. Whatever a turn puts in the queue, or sets a
timer for, is at the slot behind its own.
-/

namespace PipelineGraph.Simulation

/-! ## Stages and slots -/

/-- The stage of a turn: a visit takes its turns at three stages, and one that follows another takes
them later. -/
def Program.stage? : Program → Option Nat
  | enter v => some (3 * v.depth)
  | leave v => some (3 * v.depth + 1)
  | fanOut v => some (3 * v.depth + 2)
  | _ => none

/-- The time that a delay takes, if it takes any. -/
def Delay.time? : Delay → Option Nat
  | timer microseconds => some microseconds
  | _ => none

namespace Plan

/-- The delay between the turns of a stage and those of the next one. -/
def delayBehind (p : Plan) (stage : Nat) : Delay :=
  if stage % 3 = 0 then p.dwell else if stage % 3 = 1 then p.edgeDelay else .pause

/-- How long the jobs behind those of a slot have to wait, if for a time. The turns of a stage are at
an odd slot, and the ends of the sleeps before them at the even one before. -/
def wait? (p : Plan) (slot : Nat) : Option Nat :=
  if slot % 2 = 1 then (p.delayBehind (slot / 2)).time? else none

/-- The slot of the jobs behind those of a slot. -/
def next (p : Plan) (slot : Nat) : Nat :=
  if slot % 2 = 1 ∧ p.wait? slot = none then slot + 2 else slot + 1

variable (p : Plan) {n : Nat}

/-- A phase comes before the next one. -/
theorem lt_next (slot : Nat) : slot < p.next slot := by
  unfold next
  split <;> omega

/-- The end of a sleep is followed by a turn. -/
theorem wait?_even : p.wait? (2 * n) = none ∧ p.next (2 * n) = 2 * n + 1 := by
  constructor
  · unfold wait?
    rw [if_neg (by omega)]
  · unfold next
    rw [if_neg (by omega)]

variable {p}

/-- A turn without a time to wait behind it is followed by a turn of the next stage. -/
theorem wait?_pause (h : p.delayBehind n = .pause) :
    p.wait? (2 * n + 1) = none ∧ p.next (2 * n + 1) = 2 * (n + 1) + 1 := by
  have hmod : (2 * n + 1) % 2 = 1 := by omega
  have hdiv : (2 * n + 1) / 2 = n := by omega
  have hwait : p.wait? (2 * n + 1) = none := by
    unfold wait?
    rw [if_pos hmod, hdiv, h]
    rfl
  refine ⟨hwait, ?_⟩
  unfold next
  rw [if_pos ⟨hmod, hwait⟩]
  rfl

/-- A turn with a time to wait behind it is followed by the end of a sleep. -/
theorem wait?_timer {microseconds : Nat} (h : p.delayBehind n = .timer microseconds) :
    p.wait? (2 * n + 1) = some microseconds ∧ p.next (2 * n + 1) = 2 * (n + 1) := by
  have hmod : (2 * n + 1) % 2 = 1 := by omega
  have hdiv : (2 * n + 1) / 2 = n := by omega
  have hwait : p.wait? (2 * n + 1) = some microseconds := by
    unfold wait?
    rw [if_pos hmod, hdiv, h]
    rfl
  refine ⟨hwait, ?_⟩
  unfold next
  rw [if_neg fun hcontra => ?_]
  · rfl
  · rw [hwait] at hcontra
    cases hcontra.2

end Plan

/-- A visit that goes on comes to the next stage, behind the delay between the two. -/
theorem Program.Continues.stage {p : Plan} {pr next : Program} {d : Delay} (h : pr.Continues p next d) :
    ∃ n, pr.stage? = some n ∧ next.stage? = some (n + 1) ∧ p.delayBehind n = d := by
  cases h with
  | @enter v =>
    refine ⟨_, rfl, rfl, ?_⟩
    unfold Plan.delayBehind
    rw [if_pos (by omega)]
  | @leave v =>
    refine ⟨_, rfl, rfl, ?_⟩
    unfold Plan.delayBehind
    rw [if_neg (by omega), if_pos (by omega)]

/-- A visit branches without delay. -/
theorem Plan.delayBehind_fanOut (p : Plan) (depth : Nat) : p.delayBehind (3 * depth + 2) = .pause := by
  unfold delayBehind
  rw [if_neg (by omega), if_neg (by omega)]

/-- What has a stage is active, and the other way round. -/
theorem Program.exists_stage {pr : Program} (h : pr.isActive = true) : ∃ n, pr.stage? = some n := by
  cases pr with
  | enter | leave | fanOut => exact ⟨_, rfl⟩
  | join | call | conclude => cases h

/-- A job brings a turn of a stage, or ends the sleep before one, for a task from number `low` on. -/
inductive Job.HasSlot (low : FutureId) (s : Scheduler Program Action) : Job Action → Nat → Prop
  | turn {job id pr n} (hlow : low ≤ id) (htask : job.task? = some id) (hpr : s.program? id = some pr)
    (hstage : pr.stage? = some n) : HasSlot low s job (2 * n + 1)
  | elapse {x id pr n} (hlow : low ≤ id) (hwake : .wake id x ∈ s.jobs) (hpr : s.program? id = some pr)
    (hstage : pr.stage? = some n) : HasSlot low s (.elapse x) (2 * n)

namespace Scheduler

variable {p : Plan} {r : Run} {s s' : Scheduler Program Action} {id : FutureId} {job : Job Action}
  {low : FutureId} {slot due k n : Nat}

/-- In a scheduler that shrinks, the slots are the same. -/
theorem Shrinks.hasSlot (hs : s.Shrinks s') (h : job.HasSlot low s' k) : job.HasSlot low s k := by
  cases h with
  | turn hlow htask hpr hstage =>
    exact .turn hlow htask ((program?_congr (hs.bareKind _)).symm.trans hpr) hstage
  | elapse hlow hwake hpr hstage =>
    exact .elapse hlow (hs.jobs hwake) ((program?_congr (hs.bareKind _)).symm.trans hpr) hstage

/-- What is behind the first job has the same slots without it. -/
theorem hasSlot_of_drop {first : Job Action} {rest : List (Job Action)} (hready : s.ready = first :: rest)
    (h : job.HasSlot low (s.drop rest) k) : job.HasSlot low s k := by
  cases h with
  | turn hlow htask hpr hstage => exact .turn hlow htask hpr hstage
  | elapse hlow hwake hpr hstage =>
    refine .elapse hlow ?_ hpr hstage
    rw [jobs_drop hready]
    exact List.mem_cons_of_mem _ hwake

/-- Where only a task without jobs changes, jobs that were there keep their slots. -/
theorem hasSlot_of_idle {b : FutureId} {held : FutureId → Prop} (hs : s.Sound b held)
    (hidle : ∀ job ∈ s.jobs, job.task? ≠ some id)
    (hprogram : ∀ j pr, j ≠ id → s.program? j = some pr → s'.program? j = some pr)
    (hwake : ∀ t x, .wake t x ∈ s'.jobs → .wake t x ∈ s.jobs ∨ s.futures.length ≤ x)
    (hjob : job ∈ s.jobs) (h : job.HasSlot low s' k) : job.HasSlot low s k := by
  have hsame : ∀ {job t pr}, job ∈ s.jobs → job.task? = some t → s'.program? t = some pr →
      s.program? t = some pr := by
    intro job t pr hmem htask hpr
    obtain ⟨-, state, ht⟩ := hs.turn_task hmem htask
    have hold : s.program? t = some state.program := by
      rw [program?, task?_eq_some_iff.2 ht]
      rfl
    have hne : t ≠ id := fun heq => hidle job hmem (heq ▸ htask)
    rw [hold, ← hpr, hprogram t _ hne hold]
  cases h with
  | turn hlow htask hpr hstage => exact .turn hlow htask (hsame hjob htask hpr) hstage
  | @elapse x t pr n hlow hmem hpr hstage =>
    obtain ⟨f, hf, -⟩ := kind?_eq_some_iff.1 (hs.elapse_sleep hjob)
    have hold := (hwake t x hmem).resolve_right (Nat.not_le_of_lt (lt_of_future? hf))
    exact .elapse hlow hold (hsame hold rfl hpr) hstage

/-- Visits at work wait for nothing but sleeps. -/
structure AwaitsSleeps (s : Scheduler Program Action) : Prop where
  sleep : ∀ {t x pr n}, .wake t x ∈ s.jobs → s.program? t = some pr → pr.stage? = some n →
    s.bareKind? x = some .sleep

/-- Visits at work wait for the same in a scheduler that shrinks. -/
theorem AwaitsSleeps.shrinks (h : s.AwaitsSleeps) (hs : s.Shrinks s') : s'.AwaitsSleeps where
  sleep hwake hpr hstage :=
    (hs.bareKind _).trans (h.sleep (hs.jobs hwake) ((program?_congr (hs.bareKind _)).symm.trans hpr) hstage)

/-- Visits at work of a run wait for nothing but sleeps. -/
theorem Waiting.awaitsSleeps (h : s.Waiting r) : s.AwaitsSleeps := by
  refine ⟨fun {t x pr n} hwake hpr hstage => ?_⟩
  obtain ⟨pr', hpr', hawaits⟩ := h.suits hwake
  cases hpr.symm.trans hpr'
  cases pr with
  | leave | fanOut => exact hawaits.2
  | enter => exact hawaits.elim
  | join | call | conclude => cases hstage

/-- A visit at work has a job that brings its turn, or ends the sleep before it. -/
theorem Sound.exists_hasSlot {b : FutureId} (hs : s.Sound b fun _ => False) (hawaits : s.AwaitsSleeps)
    (hsleeps : ∀ {x}, .wake id x ∈ s.jobs → b ≤ x) (hb : b ≤ id) (hlow : low ≤ id) {pr : Program}
    (hpr : s.program? id = some pr) (hlive : s.ending? id = none) (hstage : pr.stage? = some n) :
    ∃ job ∈ s.ready ++ s.timers.map (·.job), ∃ k ≤ 2 * n + 1, job.HasSlot low s k := by
  obtain ⟨job, hjob, htask⟩ := hs.exists_job hb (fun h => h) hpr hlive
  have hturn : job.HasSlot low s (2 * n + 1) := .turn hlow htask hpr hstage
  rcases List.mem_append.1 hjob with hqueued | hbehind
  · exact ⟨job, hqueued, _, Nat.le_refl _, hturn⟩
  · obtain ⟨f, hf, hmem⟩ := List.mem_flatMap.1 hbehind
    obtain ⟨x, hx, rfl⟩ := List.getElem_of_mem hf
    have hfuture : s.future? x = some s.futures[x] := List.getElem?_eq_getElem hx
    have hsource := hs.callback_source hfuture hmem
    have hlivex : s.futures[x].ending = none := by
      by_contra hended
      rw [hs.callbacks_ended hfuture hended] at hmem
      cases hmem
    obtain rfl := Job.eq_wake htask hsource
    obtain ⟨f, hf, hk⟩ := kind?_eq_some_iff.1 (bareKind?_eq_sleep_iff.1 (hawaits.sleep hjob hpr hstage))
    cases hfuture.symm.trans hf
    have helapse := (hs.fits (hsleeps hjob) (fun h => h) hfuture).sleep hk hlivex
    exact ⟨.elapse x, helapse, _, Nat.le_succ _, .elapse hlow hjob hpr hstage⟩

/-- A job behind the end of a future has a slot only if it brings the turn of a visit. -/
theorem Sound.wake_of_callback {b x : FutureId} {held : FutureId → Prop} (hs : s.Sound b held)
    (hjob : job ∈ s.callbacks x) (hk : job.HasSlot low s k) : ∃ t pr n, low ≤ t ∧ job = .wake t x ∧
      job ∈ s.jobs ∧ s.program? t = some pr ∧ pr.stage? = some n ∧ k = 2 * n + 1 := by
  unfold callbacks at hjob
  cases hf : s.future? x with
  | none =>
    rw [hf] at hjob
    cases hjob
  | some f =>
    rw [hf] at hjob
    have hsource := hs.callback_source hf hjob
    have hmem : job ∈ s.jobs := List.mem_append_right _
      (List.mem_flatMap.2 ⟨f, List.mem_of_getElem? hf, hjob⟩)
    cases hk with
    | elapse => cases hsource
    | @turn _ t pr n hlow htask hpr hstage =>
      obtain rfl := Job.eq_wake htask hsource
      exact ⟨_, pr, n, hlow, rfl, hmem, hpr, hstage, rfl⟩

/-- The jobs behind the end of what is no sleep have no slot. -/
theorem AwaitsSleeps.not_hasSlot_callback {b x : FutureId} {held : FutureId → Prop} (hawaits : s.AwaitsSleeps)
    (hs : s.Sound b held) (hx : s.bareKind? x ≠ some .sleep) (hjob : job ∈ s.callbacks x) :
    ¬ job.HasSlot low s k := by
  intro hk
  obtain ⟨t, pr, n, -, rfl, hmem, hpr, hstage, -⟩ := hs.wake_of_callback hjob hk
  exact hx (hawaits.sleep hmem hpr hstage)

/-! ## What a turn adds -/

/-- A scheduler grows behind some slots: what comes to the queue is at the slot behind one of them, or a
timer is set for it as its turn is at the next stage. -/
structure Grows (p : Plan) (low : FutureId) (H : Nat → Prop) (s s' : Scheduler Program Action) : Prop where
  now : s'.now = s.now
  hasSlot : ∀ job ∈ s.ready ++ s.timers.map (·.job), ∀ k, job.HasSlot low s' k → job.HasSlot low s k
  ready : ∃ l, s'.ready = s.ready ++ l ∧
    ∀ job ∈ l, ∀ k, job.HasSlot low s' k → ∃ b, H b ∧ p.wait? b = none ∧ k = p.next b
  timers : ∃ m, s'.timers = s.timers ++ m ∧ ∀ t ∈ m, ∃ b time id pr, H b ∧ p.wait? b = some time ∧
    low ≤ id ∧ s'.program? id = some pr ∧ pr.stage? = some (b / 2 + 1) ∧ t.deadline = s.now + time ∧
      ∀ k, t.job.HasSlot low s' k → k = p.next b

variable {H : Nat → Prop}

/-- A scheduler that shrinks grows if what comes to its queue is at a slot behind. -/
theorem grows_of_shrinks (hs : s.Shrinks s') (hnow : s'.now = s.now) (htimers : s'.timers = s.timers)
    {l : List (Job Action)} (hready : s'.ready = s.ready ++ l)
    (hjobs : ∀ job ∈ l, ∀ k, job.HasSlot low s k → ∃ b, H b ∧ p.wait? b = none ∧ k = p.next b) :
    s.Grows p low H s' where
  now := hnow
  hasSlot _ _ _ hk := hs.hasSlot hk
  ready := ⟨l, hready, fun job hjob k hk => hjobs job hjob k (hs.hasSlot hk)⟩
  timers := ⟨[], htimers.trans (List.append_nil _).symm, fun t ht => by cases ht⟩

/-- Growth after growth that sets no timer. -/
theorem Grows.trans {t : Scheduler Program Action} (h : s.Grows p low H t) (hs : t.timers = s.timers)
    (h' : t.Grows p low H s') : s.Grows p low H s' where
  now := h'.now.trans h.now
  hasSlot job hjob k hk := by
    obtain ⟨l, hready, -⟩ := h.ready
    refine h.hasSlot job hjob k (h'.hasSlot job ?_ k hk)
    rw [hready, hs]
    exact (List.append_subset.2 ⟨fun x hx => List.mem_append_left _ (List.mem_append_left _ hx),
      List.subset_append_right _ _⟩) hjob
  ready := by
    obtain ⟨l, hready, hjobs⟩ := h.ready
    obtain ⟨l', hready', hjobs'⟩ := h'.ready
    refine ⟨l ++ l', by rw [hready', hready, List.append_assoc], fun job hjob k hk => ?_⟩
    rcases List.mem_append.1 hjob with hjob | hjob
    · refine hjobs job hjob k (h'.hasSlot job (List.mem_append_left _ ?_) k hk)
      rw [hready]
      exact List.mem_append_right _ hjob
    · exact hjobs' job hjob k hk
  timers := by
    obtain ⟨m, htimers, hnew⟩ := h'.timers
    exact ⟨m, by rw [htimers, hs], fun t ht => h.now ▸ hnew t ht⟩

/-- A future that ends lets a scheduler grow if the jobs behind its end are at a slot behind. -/
theorem grows_complete (ending : Ending)
    (hjobs : ∀ job ∈ s.callbacks id, ∀ k, job.HasSlot low s k → ∃ b, H b ∧ p.wait? b = none ∧ k = p.next b) :
    s.Grows p low H (s.complete id ending) := by
  refine grows_of_shrinks (keeps_complete (s := s) id ending).shrinks (now_complete _) (timers_complete _)
    (l := if s.hasEnded id then [] else s.callbacks id) ?_ fun job hjob k hk => ?_
  · rw [ready_complete]
    split
    · rw [List.append_nil]
    · rfl
  · split at hjob
    · cases hjob
    · exact hjobs job hjob k hk

/-- When what is no sleep ends, nothing is at a slot. -/
theorem grows_complete_of_ne_sleep {b : FutureId} {held : FutureId → Prop} (hawaits : s.AwaitsSleeps)
    (hs : s.Sound b held) (hid : s.bareKind? id ≠ some .sleep) (ending : Ending) :
    s.Grows p low H (s.complete id ending) :=
  grows_complete ending fun _ hjob _ hk => absurd hk (hawaits.not_hasSlot_callback hs hid hjob)

/-- Behind a sleep whose time is up stands the turn that it was for. -/
theorem grows_elapse {b x : FutureId} {rest : List (Job Action)} (hs : s.Sound b fun _ => False)
    (hready : s.ready = .elapse x :: rest) (hhead : ∀ k, (Job.elapse x).HasSlot low s k → H k) :
    (s.drop rest).Grows p low H ((s.drop rest).complete x (.ok ())) := by
  refine grows_complete (.ok ()) fun job hjob k hk => ?_
  obtain ⟨t, pr, n, hlow, rfl, hwake, hpr, hstage, rfl⟩ := (hs.pop hready).wake_of_callback hjob hk
  have hwake' : .wake t x ∈ s.jobs := by
    rw [jobs_drop hready]
    exact List.mem_cons_of_mem _ hwake
  obtain ⟨hwait, hnext⟩ := p.wait?_even (n := n)
  exact ⟨2 * n, hhead _ (.elapse hlow hwake' hpr hstage), hwait, hnext.symm⟩

/-- A gathering that counts a child puts nothing at a slot. -/
theorem grows_countChild {b c : FutureId} {held : FutureId → Prop} (hawaits : s.AwaitsSleeps) (hs : s.Sound b held)
    (hid : s.bareKind? id ≠ some .sleep) : s.Grows p low H (s.countChild id c) := by
  have hkeeps := keeps_modifyGathering (s := s) (i := id)
    (F := fun g => { g with counted := g.counted + 1 }) fun _ => rfl
  have hcounted : s.Grows p low H (s.modifyGathering id fun g => { g with counted := g.counted + 1 }) :=
    grows_of_shrinks hkeeps.shrinks rfl rfl (l := []) (List.append_nil _).symm fun job hjob => by cases hjob
  rcases countChild_cases s id c with heq | ⟨ending, heq⟩ <;> rw [heq]
  · exact hcounted
  · refine hcounted.trans rfl (grows_complete ending fun job hjob k hk => ?_)
    rw [callbacks_modifyGathering] at hjob
    exact absurd (hkeeps.shrinks.hasSlot hk) (hawaits.not_hasSlot_callback hs hid hjob)

/-- A task that takes its turn puts nothing in the queue. -/
theorem grows_awaken : s.Grows p low H (s.awaken id) where
  now := rfl
  hasSlot job _ k hk := by
    have hprogram := fun j => program?_congr (bareKind?_awaken (s := s) (i := id) (j := j))
    cases hk with
    | turn hlow htask hpr hstage => exact .turn hlow htask ((hprogram _).symm.trans hpr) hstage
    | elapse hlow hwake hpr hstage =>
      exact .elapse hlow (jobs_awaken.subset hwake) ((hprogram _).symm.trans hpr) hstage
  ready := ⟨[], (List.append_nil _).symm, fun job hjob => by cases hjob⟩
  timers := ⟨[], (List.append_nil _).symm, fun t ht => by cases ht⟩

/-- Behind the turn of a visit that goes on behind a delay stands the turn of the next stage, or the end
of the sleep before it. -/
theorem grows_goes {pr next : Program} {d : Delay} {b : FutureId} (hhead : H (2 * n + 1)) (hlow : low ≤ id)
    (hsound : s.Sound b fun j => j = id) (hidle : ∀ job ∈ s.jobs, job.task? ≠ some id)
    (hcalm : s.mustCancel id = false) (hpr : s.program? id = some pr)
    (hnext : next.stage? = some (n + 1)) (hdelay : p.delayBehind n = d) (hgoes : s.Goes id next d s') :
    s.Grows p low H s' := by
  have hprogram := hgoes.program? hpr
  have hsub : s.ready ++ s.timers.map (·.job) ⊆ s.jobs := fun job hjob => List.mem_append_left _ hjob
  have hwakes : ∀ t x, .wake t x ∈ s'.jobs → .wake t x ∈ s.jobs ∨ s.futures.length ≤ x := by
    intro t x hmem
    rcases (hgoes.requestsNothing hcalm hpr).wake t x hmem with hold | ⟨hnew, -⟩
    · exact Or.inl hold
    · exact Or.inr hnew
  have hslots : ∀ job ∈ s.ready ++ s.timers.map (·.job), ∀ k, job.HasSlot low s' k → job.HasSlot low s k :=
    fun job hjob k hk => hasSlot_of_idle hsound hidle
      (fun j pr' hne hj => by rw [hprogram, if_neg hne, hj]) hwakes (hsub hjob) hk
  have hself : s'.program? id = some next := (hprogram id).trans (if_pos rfl)
  cases hgoes with
  | pause =>
    obtain ⟨hwait, hslot⟩ := Plan.wait?_pause hdelay
    refine ⟨rfl, hslots, ⟨[.resume id], rfl, fun job hjob k hk => ⟨_, hhead, hwait, ?_⟩⟩,
      [], (List.append_nil _).symm, fun t ht => by cases ht⟩
    cases List.mem_singleton.1 hjob
    cases hk with
    | turn _ htask hpr' hstage =>
      cases htask
      cases hself.symm.trans hpr'
      cases hnext.symm.trans hstage
      exact hslot.symm
  | sleep microseconds =>
    obtain ⟨hwait, hslot⟩ := Plan.wait?_timer hdelay
    refine ⟨now_doze, hslots, ⟨[], (ready_doze hcalm).trans (List.append_nil _).symm, fun job hjob => by cases hjob⟩,
      _, timers_doze, fun t ht => ⟨2 * n + 1, microseconds, id, next, hhead, hwait, hlow, hself, ?_, ?_,
        fun k hk => ?_⟩⟩
    · rw [hnext, show (2 * n + 1) / 2 = n by omega]
    · rw [List.mem_singleton.1 ht]
    · cases List.mem_singleton.1 ht
      cases hk with
      | turn _ htask => cases htask
      | @elapse _ t pr' n' _ hmem hpr' hstage =>
        have hid : t = id := by
          rcases List.mem_cons.1 (jobs_doze.subset hmem) with heq | hmem
          · cases heq
            rfl
          · rcases List.mem_cons.1 hmem with heq | hmem
            · cases heq
            · exact absurd (hsound.source_lt hmem rfl) (Nat.lt_irrefl _)
        rw [hid] at hpr'
        cases hself.symm.trans hpr'
        cases hnext.symm.trans hstage
        exact hslot.symm

/-- Behind the turn of a visit that branches stand the first turns of those that follow it. -/
theorem grows_branch {v : Visit} {b : FutureId} (hhead : H (2 * (3 * v.depth + 2) + 1))
    (hsound : s.Sound b fun j => j = id) (hidle : ∀ job ∈ s.jobs, job.task? ≠ some id)
    (hcalm : s.mustCancel id = false) (hpr : s.program? id = some (.fanOut v)) :
    s.Grows p low H (s.branch id ((Engine.followers v).map .enter) (.join v)) := by
  have hlt := lt_of_program? hpr
  have hprogram := fun j => program?_branch (j := j) ((Engine.followers v).map .enter) (.join v) hpr
  have hrequestsNothing := requestsNothing_branch hcalm hpr ((Engine.followers v).map Program.enter) (.join v)
  obtain ⟨hwait, hslot⟩ := Plan.wait?_pause (p.delayBehind_fanOut v.depth)
  obtain ⟨htimers, hnow⟩ := @timers_branch _ _ s id ((Engine.followers v).map .enter) (.join v)
  refine ⟨hnow, fun job hjob k hk => ?_, ⟨_, ready_branch hcalm hlt, fun job hjob k hk => ⟨_, hhead, hwait, ?_⟩⟩,
    [], htimers.trans (List.append_nil _).symm, fun t ht => by cases ht⟩
  · refine hasSlot_of_idle hsound hidle (fun j pr' hne hj => ?_) (fun t x hmem => ?_)
      (List.mem_append_left _ hjob) hk
    · rw [hprogram, if_neg hne, if_pos (lt_of_program? hj), hj]
    · rcases hrequestsNothing.wake t x hmem with hold | ⟨hnew, -⟩
      · exact Or.inl hold
      · exact Or.inr hnew
  · obtain ⟨c, hc, rfl⟩ := List.mem_map.1 hjob
    have hge := (mem_fresh.1 hc).1
    cases hk with
    | turn _ htask hpr' hstage =>
      cases htask
      rw [hprogram, if_neg (by lia), if_neg (by lia), List.getElem?_map] at hpr'
      obtain ⟨v', hv', rfl⟩ := Option.map_eq_some_iff.1 hpr'
      cases hstage
      rw [Engine.depth_of_mem_followers (List.mem_of_getElem? hv'), hslot]
      omega

end Scheduler

end PipelineGraph.Simulation
