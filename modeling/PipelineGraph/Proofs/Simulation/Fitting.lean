import PipelineGraph.Proofs.Simulation.Lockstep

/-!
# Fitting schedulers

The scheduler of a session holds the tasks of callers beside those of the visits of many runs. Each
program fits what its task waits for: a visit that dwells or crosses its edges waits for a sleep, one
that has branched for the gathering of its children, which have higher numbers, and a caller that has
begun a run for a visit. What a task waits for is a future of a higher number, too, so that whatever
is passed on along these ways goes up in the numbers of tasks.
-/

namespace PipelineGraph.Simulation

namespace Scheduler

variable (s : Scheduler Program Action)

/-- A task is that of a visit. -/
def IsVisit (id : FutureId) : Prop :=
  ∃ v, s.visit? id = some v

/-- A task is that of a visit at some depth. -/
def IsVisitAt (depth : Nat) (id : FutureId) : Prop :=
  ∃ v, s.visit? id = some v ∧ v.depth = depth

end Scheduler

/-- A delay can be waited for. -/
def Delay.IsUsable (d : Delay) : Prop :=
  ∀ e, d ≠ .unusable e

instance (d : Delay) : Decidable d.IsUsable :=
  d.casesOn (isTrue fun _ => Delay.noConfusion) (fun _ => isTrue fun _ => Delay.noConfusion)
    fun e => isFalse fun h => h e rfl

namespace Program

/-- Whether a program is that of a caller. -/
def isCaller : Program → Bool
  | call _ _ => true
  | conclude _ => true
  | _ => false

/-- Whether a program has its next turn queued. -/
def isQueued : Program → Bool
  | call _ _ => true
  | pr => pr.isActive

/-- A program that a task of a session may have. -/
def Proper (p : Plan) (s : Scheduler Program Action) (id : FutureId) : Program → Prop
  | leave v => ¬ p.maxDepth < v.depth ∧ p.dwell.IsUsable
  | fanOut v => ¬ p.maxDepth < v.depth ∧ v.graph.targets v.node.id ≠ [] ∧ p.dwell.IsUsable ∧ p.edgeDelay.IsUsable
  | join v children => ¬ p.maxDepth < v.depth ∧ (∀ c ∈ children, id < c ∧ s.IsVisitAt (v.depth + 1) c) ∧
      p.dwell.IsUsable ∧ p.edgeDelay.IsUsable
  | _ => True

/-- A program waits for a future. -/
def Expects (s : Scheduler Program Action) (source : FutureId) : Program → Prop
  | leave _ => s.bareKind? source = some .sleep
  | fanOut _ => s.bareKind? source = some .sleep
  | join _ children => s.bareKind? source = some (.gathering children)
  | conclude _ => s.IsVisit source
  | _ => False

end Program

/-- A job that a scheduler may hold in a session. -/
def Job.Fits (s : Scheduler Program Action) : Job Action → Prop
  | resume task => s.waiter? task = none ∧ ∃ pr, s.program? task = some pr ∧ pr.isQueued = true
  | wake task source => task < source ∧ s.waiter? task = some source ∧
      ∃ pr, s.program? task = some pr ∧ pr.Expects s source
  | _ => True

namespace Scheduler

/-- Programs, jobs and what tasks wait for fit together. -/
structure Fitting (p : Plan) (s : Scheduler Program Action) : Prop where
  proper : ∀ {id pr}, s.program? id = some pr → pr.Proper p s id
  gathered : ∀ {id children}, s.bareKind? id = some (.gathering children) →
    ∃ depth, ∀ c ∈ children, s.IsVisitAt depth c
  jobs : ∀ {job}, job ∈ s.jobs → job.Fits s
  waiter : ∀ {t source}, s.waiter? t = some source → .wake t source ∈ s.jobs

variable {p : Plan} {s s' awake : Scheduler Program Action} {id t x : FutureId} {job : Job Action}

/-- A visit has the program of one. -/
theorem isVisit_iff : s.IsVisit id ↔ ∃ pr v, s.program? id = some pr ∧ pr.visit? = some v := by
  simp only [IsVisit, visit?_eq_some_iff]
  exact ⟨fun ⟨v, pr, h⟩ => ⟨pr, v, h⟩, fun ⟨pr, v, h⟩ => ⟨v, pr, h⟩⟩

/-- What is a visit at some depth is a visit. -/
theorem IsVisitAt.isVisit {depth : Nat} (h : s.IsVisitAt depth id) : s.IsVisit id :=
  h.imp fun _ => And.left

/-- What stays the same visit stays a visit at its depth. -/
theorem IsVisitAt.mono {depth : Nat} (h : s.IsVisitAt depth id)
    (hvisit : ∀ c v, s.visit? c = some v → s'.visit? c = some v) : s'.IsVisitAt depth id := by
  obtain ⟨v, hv, hdepth⟩ := h
  exact ⟨v, hvisit id v hv, hdepth⟩

/-- A visit is a future. -/
theorem IsVisit.lt (h : s.IsVisit id) : id < s.futures.length := by
  obtain ⟨pr, v, hpr, -⟩ := isVisit_iff.1 h
  exact lt_of_program? hpr

/-- What has the same program makes the same visit. -/
theorem visit?_congr (h : s'.program? id = s.program? id) : s'.visit? id = s.visit? id := by
  rw [visit?, visit?, h]

/-- What has the same program is as much a visit. -/
theorem isVisit_congr (h : s'.program? id = s.program? id) : s'.IsVisit id ↔ s.IsVisit id := by
  rw [IsVisit, IsVisit, visit?_congr h]

/-- All visits stay what they are when one task goes on with another program of the same visit. -/
theorem visit?_of_instructed {pr next : Program} {c : FutureId} {v : Visit} (hpr : s.program? id = some pr)
    (hsame : next.visit? = pr.visit?) (hnext : s'.program? id = some next)
    (hrest : ∀ j pr, j ≠ id → s.program? j = some pr → s'.program? j = some pr)
    (hc : s.visit? c = some v) : s'.visit? c = some v := by
  obtain ⟨pr', hpr', hv⟩ := visit?_eq_some_iff.1 hc
  by_cases heq : c = id
  · rw [heq] at hpr' ⊢
    cases hpr.symm.trans hpr'
    exact visit?_eq_some_iff.2 ⟨next, hnext, hsame.trans hv⟩
  · exact visit?_eq_some_iff.2 ⟨pr', hrest c pr' heq hpr', hv⟩

/-- What has no program is not a task. -/
theorem ne_of_bareKind? {pr : Program} {j : FutureId} {o : BareKind Program}
    (hpr : s.program? id = some pr) (ho : s.bareKind? j = some o) (hnone : o.program? = none) : j ≠ id := by
  rintro rfl
  cases (bareKind?_eq_task_iff.2 hpr).symm.trans ho
  cases hnone

end Scheduler

open Scheduler

variable {p : Plan} {s s' : Scheduler Program Action} {id x : FutureId} {job : Job Action}

/-- A program stays proper as long as visits stay what they are. -/
theorem Program.Proper.mono {pr : Program} (h : pr.Proper p s id)
    (hvisit : ∀ c v, s.visit? c = some v → s'.visit? c = some v) : pr.Proper p s' id := by
  cases pr with
  | join v children =>
    obtain ⟨hdepth, hchildren, hdelays⟩ := h
    exact ⟨hdepth, fun c hc => ⟨(hchildren c hc).1, (hchildren c hc).2.mono hvisit⟩, hdelays⟩
  | enter | leave | fanOut | call | conclude => exact h

/-- A program waits for the same as long as visits and other futures stay what they are. -/
theorem Program.Expects.mono {pr : Program} (h : pr.Expects s x)
    (hvisit : ∀ c v, s.visit? c = some v → s'.visit? c = some v)
    (hbare : ∀ j o, s.bareKind? j = some o → o.program? = none → s'.bareKind? j = some o) :
    pr.Expects s' x := by
  cases pr with
  | leave | fanOut | join => exact hbare x _ h rfl
  | conclude => exact h.imp fun v => hvisit x v
  | enter | call => exact h

/-- A job still fits if its task has the same program and waits for the same. -/
theorem Job.Fits.mono (h : job.Fits s)
    (hprogram : ∀ t, job.task? = some t → s'.program? t = s.program? t ∧ s'.waiter? t = s.waiter? t)
    (hvisit : ∀ c v, s.visit? c = some v → s'.visit? c = some v)
    (hbare : ∀ j o, s.bareKind? j = some o → o.program? = none → s'.bareKind? j = some o) :
    job.Fits s' := by
  cases job with
  | resume t =>
    obtain ⟨hsame, hwaiter⟩ := hprogram t rfl
    obtain ⟨hnone, pr, hpr, hqueued⟩ := h
    exact ⟨hwaiter.trans hnone, pr, hsame.trans hpr, hqueued⟩
  | wake t source =>
    obtain ⟨hsame, hwaiter⟩ := hprogram t rfl
    obtain ⟨hlt, hsource, pr, hpr, hexpects⟩ := h
    exact ⟨hlt, hwaiter.trans hsource, pr, hsame.trans hpr, hexpects.mono hvisit hbare⟩
  | count | elapse | act => exact h

namespace Scheduler

variable {awake : Scheduler Program Action} {t : FutureId}

/-- Visits at work of a fitting scheduler wait for nothing but sleeps. -/
theorem Fitting.awaitsSleeps (h : s.Fitting p) : s.AwaitsSleeps := by
  refine ⟨fun {t x pr n} hwake hpr hstage => ?_⟩
  obtain ⟨-, -, pr', hpr', hexpects⟩ := h.jobs hwake
  cases hpr.symm.trans hpr'
  cases pr with
  | leave | fanOut => exact hexpects
  | enter => exact hexpects.elim
  | join | call | conclude => cases hstage

/-- The task of a job has a program. -/
theorem Fitting.exists_program? (h : s.Fitting p) (hjob : job ∈ s.jobs) (htask : job.task? = some t) :
    ∃ pr, s.program? t = some pr := by
  have hfits := h.jobs hjob
  cases job with
  | resume =>
    cases htask
    obtain ⟨-, pr, hpr, -⟩ := hfits
    exact ⟨pr, hpr⟩
  | wake =>
    cases htask
    obtain ⟨-, -, pr, hpr, -⟩ := hfits
    exact ⟨pr, hpr⟩
  | count | elapse | act => cases htask

/-- The children of a gathering are visits. -/
theorem Fitting.isVisit_of_mem (h : s.Fitting p) {children : List FutureId} {c : FutureId}
    (hg : s.bareKind? id = some (.gathering children)) (hc : c ∈ children) : s.IsVisit c := by
  obtain ⟨depth, hall⟩ := h.gathered hg
  exact (hall c hc).isVisit

/-- The visits that follow a visit have higher numbers. -/
theorem Fitting.child (h : s.Fitting p) {v : Visit} {children : List FutureId} {c : FutureId}
    (hpr : s.program? id = some (.join v children)) (hc : c ∈ children) : id < c ∧ s.IsVisit c := by
  obtain ⟨-, hchildren, -⟩ := h.proper hpr
  exact ⟨(hchildren c hc).1, (hchildren c hc).2.isVisit⟩

/-- A caller that has not begun waits for nothing. -/
theorem Fitting.waiter?_of_call (h : s.Fitting p) {caller : Nat} {graph : Except LoadError Snapshot}
    (hpr : s.program? id = some (.call caller graph)) : s.waiter? id = none := by
  cases hwaiter : s.waiter? id with
  | none => rfl
  | some y =>
    obtain ⟨-, -, pr, hpr', hexpects⟩ := h.jobs (h.waiter hwaiter)
    cases hpr.symm.trans hpr'
    exact hexpects.elim

/-- What is kept fits. -/
theorem Fitting.keeps (h : s.Fitting p) (hs : s.Keeps s') : s'.Fitting p := by
  have hvisit : ∀ c v, s.visit? c = some v → s'.visit? c = some v := fun c v =>
    (visit?_congr (hs.program c)).trans
  have hbare : ∀ j o, s.bareKind? j = some o → o.program? = none → s'.bareKind? j = some o :=
    fun j o ho _ => (hs.bareKind j).trans ho
  refine ⟨fun {j pr} hpr => ?_, fun {j children} hg => ?_, fun hjob => ?_, fun {t x} hx => ?_⟩
  · exact (h.proper ((hs.program j).symm.trans hpr)).mono hvisit
  · exact (h.gathered ((hs.bareKind j).symm.trans hg)).imp fun depth hall c hc => (hall c hc).mono hvisit
  · exact (h.jobs (hs.jobs.subset hjob)).mono (fun t _ => ⟨hs.program t, hs.waiter t⟩) hvisit hbare
  · exact hs.jobs.symm.subset (h.waiter ((hs.waiter t).symm.trans hx))

/-- What is left when a job is taken from the queue that is no task's turn fits. -/
theorem Fitting.drop (h : s.Fitting p) {rest : List (Job Action)} (hready : s.ready = job :: rest)
    (htask : job.task? = none) : (s.drop rest).Fitting p where
  proper := h.proper
  gathered := h.gathered
  jobs hjob := by
    refine h.jobs ?_
    rw [jobs_drop hready]
    exact List.mem_cons_of_mem _ hjob
  waiter {t x} hx := by
    have hwake : .wake t x ∈ s.jobs := h.waiter hx
    rw [jobs_drop hready] at hwake
    refine (List.mem_cons.1 hwake).resolve_left ?_
    rintro rfl
    cases htask

/-- A task that takes its turn waits for nothing and leaves the rest fitting. -/
theorem Fitting.takes (h : s.Fitting p) {b : FutureId} (hs : s.Sound b fun _ => False)
    (htakes : s.Takes id awake) : awake.Fitting p := by
  have hshrinks := htakes.shrinks
  have hprogram := htakes.program?
  have hvisit : ∀ c v, s.visit? c = some v → awake.visit? c = some v := fun c v =>
    (visit?_congr (hprogram c)).trans
  have hwaiter : ∀ t, t ≠ id → awake.waiter? t = s.waiter? t := by
    obtain ⟨job, rest, hready, htask, rfl⟩ := htakes
    intro t hne
    rw [waiter?_awaken, if_neg hne.symm]
    rfl
  refine ⟨fun {j pr} hpr => ?_, fun {j children} hg => ?_, fun {job} hjob => ?_, fun {t x} hx => ?_⟩
  · exact (h.proper ((hprogram j).symm.trans hpr)).mono hvisit
  · exact (h.gathered ((hshrinks.bareKind j).symm.trans hg)).imp fun depth hall c hc => (hall c hc).mono hvisit
  · refine (h.jobs (hshrinks.jobs hjob)).mono (fun t ht => ⟨hprogram t, hwaiter t fun heq => ?_⟩) hvisit
      fun j o ho _ => (hshrinks.bareKind j).trans ho
    exact htakes.idle hs hjob (heq ▸ ht)
  · obtain ⟨hold, hkept⟩ := hshrinks.waiter t x hx
    exact hkept (h.waiter hold)

/-- A scheduler stays fitting when a task without jobs changes and futures come that fit. -/
theorem Fitting.grow (h : s.Fitting p) (hidle : ∀ job ∈ s.jobs, job.task? ≠ some id)
    (hprogram : ∀ j pr, j ≠ id → s.program? j = some pr →
      s'.program? j = some pr ∧ s'.waiter? j = s.waiter? j)
    (hvisit : ∀ c v, s.visit? c = some v → s'.visit? c = some v)
    (hbare : ∀ j o, s.bareKind? j = some o → o.program? = none → s'.bareKind? j = some o)
    (hproper : ∀ j pr, s'.program? j = some pr → s.program? j = some pr ∨ pr.Proper p s' j)
    (hgathered : ∀ j children, s'.bareKind? j = some (.gathering children) →
      s.bareKind? j = some (.gathering children) ∨ ∃ depth, ∀ c ∈ children, s'.IsVisitAt depth c)
    (hjobs : ∀ job ∈ s'.jobs, job ∈ s.jobs ∨ job.Fits s') (hkept : s.jobs ⊆ s'.jobs)
    (hwaits : ∀ t x, s'.waiter? t = some x → s.waiter? t = some x ∨ .wake t x ∈ s'.jobs) :
    s'.Fitting p := by
  refine ⟨fun {j pr} hpr => ?_, fun {j children} hg => ?_, fun {job} hjob => ?_, fun {t x} hx => ?_⟩
  · exact (hproper j pr hpr).elim (fun hold => (h.proper hold).mono hvisit) fun hnew => hnew
  · refine (hgathered j children hg).elim (fun hold => ?_) fun hnew => hnew
    exact (h.gathered hold).imp fun depth hall c hc => (hall c hc).mono hvisit
  · refine (hjobs job hjob).elim (fun hold => ?_) fun hnew => hnew
    refine (h.jobs hold).mono (fun t ht => ?_) hvisit hbare
    obtain ⟨pr, hpr⟩ := h.exists_program? hold ht
    obtain ⟨hsame, hwaiter⟩ := hprogram t pr (fun heq => hidle job hold (heq ▸ ht)) hpr
    exact ⟨hsame.trans hpr.symm, hwaiter⟩
  · exact (hwaits t x hx).elim (fun hold => hkept (h.waiter hold)) fun hnew => hnew

/-- A task goes on only behind a delay that can be waited for. -/
theorem Goes.isUsable {next : Program} {d : Delay} (h : s.Goes id next d s') : d.IsUsable := by
  rintro e rfl
  cases h

/-- A visit that goes on behind a delay fits. -/
theorem Fitting.goes (h : s.Fitting p) (hidle : ∀ job ∈ s.jobs, job.task? ≠ some id)
    (hnone : s.waiter? id = none) {pr next : Program} {d : Delay} (hpr : s.program? id = some pr)
    (hnext : pr.Continues p next d) (hgoes : s.Goes id next d s') : s'.Fitting p := by
  have hlt := lt_of_program? hpr
  have hprogram := hgoes.program? hpr
  have hself : s'.program? id = some next := (hprogram id).trans (if_pos rfl)
  have hrest : ∀ j pr', j ≠ id → s.program? j = some pr' → s'.program? j = some pr' :=
    fun j pr' hne hj => (hprogram j).trans ((if_neg hne).trans hj)
  have hvisit : ∀ c v, s.visit? c = some v → s'.visit? c = some v := fun c v =>
    visit?_of_instructed hpr hnext.visit?_eq hself hrest
  have hproper : next.Proper p s' id := by
    have hold := h.proper hpr
    cases hnext with
    | enter hdepth => exact ⟨hdepth, hgoes.isUsable⟩
    | leave hinner => exact ⟨hold.1, hinner, hold.2, hgoes.isUsable⟩
  have hpropers : ∀ j pr', s'.program? j = some pr' → s.program? j = some pr' ∨ pr'.Proper p s' j := by
    intro j pr' hj
    rw [hprogram] at hj
    split at hj
    · next heq =>
      cases hj
      exact Or.inr (heq ▸ hproper)
    · exact Or.inl hj
  have hgathered : ∀ j children, s'.bareKind? j = some (.gathering children) →
      s.bareKind? j = some (.gathering children) ∨ ∃ depth, ∀ c ∈ children, s'.IsVisitAt depth c :=
    fun j children hg => Or.inl (hgoes.gathering hpr hg)
  have hqueued : next.isQueued = true := by cases hnext <;> rfl
  have hexpects : ∀ {x}, s'.bareKind? x = some .sleep → next.Expects s' x := fun hx => by cases hnext <;> exact hx
  cases hgoes with
  | pause =>
    have hjobs := jobs_pause (s := s) (i := id) next
    have hwaiter : ∀ t, ((s.instruct id next).push (.resume id)).waiter? t = s.waiter? t :=
      fun _ => waiter?_pause next
    refine h.grow hidle (fun j pr' hne hj => ⟨hrest j pr' hne hj, hwaiter j⟩) hvisit (fun j o ho hno => ?_)
      hpropers hgathered (fun job hjob => ?_) (fun job hjob => hjobs.symm.subset (List.mem_cons_of_mem _ hjob))
      fun t x hx => Or.inl ((hwaiter t).symm.trans hx)
    · exact (bareKind?_instruct hpr next).trans ((if_neg (ne_of_bareKind? hpr ho hno)).trans ho)
    · rcases List.mem_cons.1 (hjobs.subset hjob) with rfl | hmem
      · exact Or.inr ⟨(hwaiter id).trans hnone, next, hself, hqueued⟩
      · exact Or.inl hmem
  | sleep microseconds =>
    have hjobs : (s.doze id next microseconds).jobs.Perm
        (.wake id s.futures.length :: .elapse s.futures.length :: s.jobs) := jobs_doze
    have hwaiter : ∀ t, (s.doze id next microseconds).waiter? t =
        if t = id then some s.futures.length else s.waiter? t := fun t => waiter?_doze hpr
    refine h.grow hidle (fun j pr' hne hj => ⟨hrest j pr' hne hj, (hwaiter j).trans (if_neg hne)⟩) hvisit
      (fun j o ho hno => ?_) hpropers hgathered (fun job hjob => ?_) (fun job hjob => ?_) fun t x hx => ?_
    · rw [bareKind?_doze hpr, if_neg (Nat.ne_of_lt (lt_of_bareKind? ho)), if_neg (ne_of_bareKind? hpr ho hno), ho]
    · rcases List.mem_cons.1 (hjobs.subset hjob) with rfl | hmem
      · have hsleep : (s.doze id next microseconds).bareKind? s.futures.length = some .sleep :=
          (bareKind?_doze hpr).trans (if_pos rfl)
        exact Or.inr ⟨hlt, (hwaiter id).trans (if_pos rfl), next, hself, hexpects hsleep⟩
      · rcases List.mem_cons.1 hmem with rfl | hmem
        · exact Or.inr trivial
        · exact Or.inl hmem
    · exact hjobs.symm.subset (List.mem_cons_of_mem _ (List.mem_cons_of_mem _ hjob))
    · rw [hwaiter] at hx
      split at hx
      · next heq =>
        cases hx
        exact Or.inr (heq ▸ hjobs.symm.subset List.mem_cons_self)
      · exact Or.inl hx

/-- A new task of a branch is that of a visit that follows, one edge deeper. -/
theorem program?_branch_of_mem_fresh {v : Visit} {c : FutureId} (hpr : s.program? id = some (.fanOut v))
    (hc : c ∈ s.fresh ((Engine.followers v).map Program.enter).length) :
    ∃ v', (s.branch id ((Engine.followers v).map .enter) (.join v)).program? c = some (.enter v') ∧
      v'.depth = v.depth + 1 := by
  obtain ⟨hge, hlt⟩ := mem_fresh.1 hc
  have hne : c ≠ id := Nat.ne_of_gt (Nat.lt_of_lt_of_le (lt_of_program? hpr) hge)
  obtain ⟨pr, hpr'⟩ : ∃ pr, ((Engine.followers v).map Program.enter)[c - s.futures.length]? = some pr :=
    ⟨_, List.getElem?_eq_getElem (by lia)⟩
  obtain ⟨v', hv', rfl⟩ := List.mem_map.1 (List.mem_of_getElem? hpr')
  refine ⟨v', ?_, Engine.depth_of_mem_followers hv'⟩
  rw [program?_branch _ _ hpr, if_neg hne, if_neg (Nat.not_lt.2 hge), hpr']

/-- A visit that branches fits, with those that follow it. -/
theorem Fitting.branch (h : s.Fitting p) (hidle : ∀ job ∈ s.jobs, job.task? ≠ some id) {v : Visit}
    (hpr : s.program? id = some (.fanOut v)) :
    (s.branch id ((Engine.followers v).map .enter) (.join v)).Fitting p := by
  have hlt := lt_of_program? hpr
  have hfresh := fun c => program?_branch_of_mem_fresh (c := c) hpr
  have henter : ∀ pr ∈ (Engine.followers v).map Program.enter, ∃ v', pr = .enter v' := by
    intro pr hmem
    obtain ⟨v', -, rfl⟩ := List.mem_map.1 hmem
    exact ⟨v', rfl⟩
  generalize (Engine.followers v).map Program.enter = programs at hfresh henter ⊢
  generalize hs' : s.branch id programs (.join v) = s' at hfresh ⊢
  have hjobs : s'.jobs.Perm (.wake id (s.futures.length + programs.length) ::
      (s.fresh programs.length).map (.count (s.futures.length + programs.length)) ++
      ((s.fresh programs.length).map .resume ++ s.jobs)) := hs' ▸ jobs_branch programs _
  have hwaiter : ∀ t, s'.waiter? t = if t = id then some (s.futures.length + programs.length) else s.waiter? t :=
    fun t => hs' ▸ waiter?_branch hpr
  have hprogram : ∀ j, s'.program? j = if j = id then some (.join v (s.fresh programs.length))
      else if j < s.futures.length then s.program? j else programs[j - s.futures.length]? :=
    fun j => hs' ▸ program?_branch _ _ hpr
  have hbare : ∀ j, s'.bareKind? j = if j = id then some (.task (.join v (s.fresh programs.length)))
      else if j < s.futures.length then s.bareKind? j
      else if j = s.futures.length + programs.length then some (.gathering (s.fresh programs.length))
      else (programs[j - s.futures.length]?).map .task := fun j => hs' ▸ bareKind?_branch hpr
  have hself : s'.program? id = some (.join v (s.fresh programs.length)) := (hprogram id).trans (if_pos rfl)
  have hsame : (Program.join v (s.fresh programs.length)).visit? = (Program.fanOut v).visit? := rfl
  have hrest : ∀ j pr, j ≠ id → s.program? j = some pr → s'.program? j = some pr := by
    intro j pr hne hj
    rw [hprogram, if_neg hne, if_pos (lt_of_program? hj), hj]
  have hchild : ∀ c ∈ s.fresh programs.length, s'.IsVisitAt (v.depth + 1) c := by
    intro c hc
    obtain ⟨v', hv', hdepth⟩ := hfresh c hc
    exact ⟨v', visit?_eq_some_iff.2 ⟨_, hv', rfl⟩, hdepth⟩
  refine h.grow hidle (fun j pr hne hj => ⟨hrest j pr hne hj, (hwaiter j).trans (if_neg hne)⟩)
    (fun c v' => visit?_of_instructed hpr hsame hself hrest) (fun j o ho hno => ?_)
    (fun j pr hj => ?_) (fun j children hg => ?_) (fun job hjob => ?_) (fun job hjob => ?_) fun t x hx => ?_
  · rw [hbare, if_neg (ne_of_bareKind? hpr ho hno), if_pos (lt_of_bareKind? ho), ho]
  · rw [hprogram] at hj
    split at hj
    · next heq =>
      cases hj
      obtain ⟨hdepth, -, hdelays⟩ := h.proper hpr
      refine Or.inr ⟨hdepth, fun c hc => ⟨?_, hchild c hc⟩, hdelays⟩
      have hge := (mem_fresh.1 hc).1
      lia
    · split at hj
      · exact Or.inl hj
      · obtain ⟨v', rfl⟩ := henter pr (List.mem_of_getElem? hj)
        exact Or.inr trivial
  · rw [hbare] at hg
    split at hg
    · cases hg
    · split at hg
      · exact Or.inl hg
      · split at hg
        · cases hg
          exact Or.inr ⟨_, hchild⟩
        · obtain ⟨pr, -, hcontra⟩ := Option.map_eq_some_iff.1 hg
          cases hcontra
  · rcases List.mem_append.1 (hjobs.subset hjob) with hmem | hmem
    · rcases List.mem_cons.1 hmem with rfl | hmem
      · refine Or.inr ⟨by lia, (hwaiter id).trans (if_pos rfl), _, hself, ?_⟩
        change s'.bareKind? _ = _
        rw [hbare, if_neg (by lia), if_neg (by lia), if_pos rfl]
      · obtain ⟨c, -, rfl⟩ := List.mem_map.1 hmem
        exact Or.inr trivial
    · rcases List.mem_append.1 hmem with hmem | hmem
      · obtain ⟨c, hc, rfl⟩ := List.mem_map.1 hmem
        obtain ⟨v', hv', -⟩ := hfresh c hc
        have hge := (mem_fresh.1 hc).1
        refine Or.inr ⟨?_, _, hv', rfl⟩
        rw [hwaiter, if_neg (by lia), waiter?_of_length_le hge]
      · exact Or.inl hmem
  · exact hjobs.symm.subset (List.mem_append_right _ (List.mem_append_right _ hjob))
  · rw [hwaiter] at hx
    split at hx
    · next heq =>
      cases hx
      exact Or.inr (heq ▸ hjobs.symm.subset (List.mem_append_left _ List.mem_cons_self))
    · exact Or.inl hx

/-- A new task whose first turn is queued fits. -/
theorem Fitting.spawn (h : s.Fitting p) {pr : Program} (hqueued : pr.isQueued = true)
    (hproper : ∀ s' id, pr.Proper p s' id) : (s.spawn pr).2.Fitting p := by
  have hold : ∀ {j pr'}, s.program? j = some pr' → (s.spawn pr).2.program? j = some pr' := fun hj => by
    rw [program?_spawn, if_neg (Nat.ne_of_lt (lt_of_program? hj)), hj]
  have hidle : ∀ job ∈ s.jobs, job.task? ≠ some s.futures.length := by
    intro job hjob htask
    obtain ⟨pr', hpr'⟩ := h.exists_program? hjob htask
    exact Nat.lt_irrefl _ (lt_of_program? hpr')
  refine h.grow hidle (fun j pr' _ hj => ⟨hold hj, waiter?_spawn⟩) (fun c v hc => ?_) (fun j o ho _ => ?_)
    (fun j pr' hj => ?_) (fun j children hg => ?_) (fun job hjob => ?_)
    (fun job hjob => jobs_spawn.symm.subset (List.mem_cons_of_mem _ hjob))
    fun t x hx => Or.inl (waiter?_spawn.symm.trans hx)
  · obtain ⟨pr', hpr', hv⟩ := visit?_eq_some_iff.1 hc
    exact visit?_eq_some_iff.2 ⟨pr', hold hpr', hv⟩
  · rw [bareKind?_spawn, if_neg (Nat.ne_of_lt (lt_of_bareKind? ho)), ho]
  · rw [program?_spawn] at hj
    split at hj
    · cases hj
      exact Or.inr (hproper _ _)
    · exact Or.inl hj
  · rw [bareKind?_spawn] at hg
    split at hg
    · cases hg
    · exact Or.inl hg
  · rcases List.mem_cons.1 (jobs_spawn.subset hjob) with rfl | hmem
    · exact Or.inr ⟨waiter?_spawn.trans (waiter?_of_length_le (Nat.le_refl _)), pr,
        program?_spawn.trans (if_pos rfl), hqueued⟩
    · exact Or.inl hmem

/-- A caller that waits for a visit fits. -/
theorem Fitting.defer (h : s.Fitting p) (hidle : ∀ job ∈ s.jobs, job.task? ≠ some id) {pr : Program}
    (hpr : s.program? id = some pr) (hcaller : pr.isCaller = true) (caller : Nat) (hx : s.IsVisit x)
    (hlt : id < x) : (s.defer id (.conclude caller) x).Fitting p := by
  have hprogram : ∀ j, (s.defer id (.conclude caller) x).program? j =
      if j = id then some (.conclude caller) else s.program? j := by
    intro j
    rw [program?_eq_bind, bareKind?_defer hpr, program?_eq_bind]
    split <;> rfl
  have hwaiter : ∀ t, (s.defer id (.conclude caller) x).waiter? t =
      if t = id then some x else s.waiter? t := fun t => waiter?_defer hpr
  have hjobs : (s.defer id (.conclude caller) x).jobs.Perm (.wake id x :: s.jobs) := jobs_defer hx.lt
  have hrest : ∀ j pr', j ≠ id → s.program? j = some pr' →
      (s.defer id (.conclude caller) x).program? j = some pr' :=
    fun j pr' hne hj => (hprogram j).trans ((if_neg hne).trans hj)
  have hvisit : ∀ c v, s.visit? c = some v → (s.defer id (.conclude caller) x).visit? c = some v := by
    have hsame : (Program.conclude caller).visit? = pr.visit? := by cases pr <;> cases hcaller <;> rfl
    exact fun c v => visit?_of_instructed hpr hsame ((hprogram id).trans (if_pos rfl)) hrest
  refine h.grow hidle (fun j pr' hne hj => ⟨hrest j pr' hne hj, (hwaiter j).trans (if_neg hne)⟩) hvisit
    (fun j o ho hno => ?_) (fun j pr' hj => ?_) (fun j children hg => ?_) (fun job hjob => ?_)
    (fun job hjob => hjobs.symm.subset (List.mem_cons_of_mem _ hjob)) fun t y hy => ?_
  · rw [bareKind?_defer hpr, if_neg (ne_of_bareKind? hpr ho hno), ho]
  · rw [hprogram] at hj
    split at hj
    · cases hj
      exact Or.inr trivial
    · exact Or.inl hj
  · rw [bareKind?_defer hpr] at hg
    split at hg
    · cases hg
    · exact Or.inl hg
  · rcases List.mem_cons.1 (hjobs.subset hjob) with rfl | hmem
    · exact Or.inr ⟨hlt, (hwaiter id).trans (if_pos rfl), _, (hprogram id).trans (if_pos rfl), hx.imp fun v =>
        hvisit x v⟩
    · exact Or.inl hmem
  · rw [hwaiter] at hy
    split at hy
    · next heq =>
      cases hy
      exact Or.inr (heq ▸ hjobs.symm.subset List.mem_cons_self)
    · exact Or.inl hy

end Scheduler

end PipelineGraph.Simulation
