import PipelineGraph.Proofs.Simulation.VisitsAtWork

/-!
# New callers and new runs

A caller that asks for a simulation leaves a run at work as it is. Once the caller has made the root of its
own run and waits for that, this run is at work, with the first turn of its root ahead and with all that was
there before on the other side.
-/

namespace PipelineGraph.Simulation

namespace Scheduler

variable {p q : Plan} {s s' awake : Scheduler Program Action} {a c id t x R low : FutureId} {job : Job Action}
  {rest : List (Job Action)} {slot due slot' due' n : Nat} {held : FutureId → Prop}

/-! ## New tasks -/

/-- A caller that asks for a simulation branches into nothing. -/
theorem branched_spawn (caller : Nat) (graph : Except LoadError Snapshot) :
    (s.spawn (.call caller graph)).2.Branched a c ↔ s.Branched a c := by
  have hprogram : ∀ {j}, (s.spawn (.call caller graph)).2.program? j =
      if j = s.futures.length then some (.call caller graph) else s.program? j := program?_spawn
  by_cases heq : a = s.futures.length
  · subst heq
    refine iff_of_false ?_ fun hb => Nat.lt_irrefl _ hb.lt
    rintro ⟨v, children, hpr, -⟩
    rw [hprogram, if_pos rfl] at hpr
    cases hpr
  · exact branched_congr (hprogram.trans (if_neg heq))

/-- The two sides stay apart when a caller asks for a simulation. -/
theorem SplitsAt.spawn (h : s.SplitsAt R) (hfits : s.Fitting p) (caller : Nat) (graph : Except LoadError Snapshot) :
    (s.spawn (.call caller graph)).2.SplitsAt R where
  wake {t x} hmem := by
    have hold := (List.mem_cons.1 (jobs_spawn.subset hmem)).resolve_left fun hcontra => by cases hcontra
    obtain ⟨pr, hpr⟩ := hfits.exists_program? hold rfl
    have hlt := lt_of_program? hpr
    exact (h.wake hold).imp_left (isCaller_congr ((goesOnAlone_spawn _).program (Nat.ne_of_lt hlt) hlt)).2
  gathering {g children} hg := by
    rw [bareKind?_spawn] at hg
    split at hg
    · cases hg
    · exact h.gathering hg
  branched hb := h.branched ((branched_spawn caller graph).1 hb)

/-- Visits stay stopped when a caller asks for a simulation. -/
theorem IsStopped.spawn (h : t < s.futures.length → s.IsStopped q t) (caller : Nat)
    (graph : Except LoadError Snapshot) :
    (s.spawn (.call caller graph)).2.IsStopped q t := by
  have hprogram : ∀ {j}, (s.spawn (.call caller graph)).2.program? j =
      if j = s.futures.length then some (.call caller graph) else s.program? j := program?_spawn
  by_cases heq : t = s.futures.length
  · exact isStopped_of_not_active (hprogram.trans (if_pos heq)) rfl
  · by_cases hlt : t < s.futures.length
    · exact (h hlt).goesOnAlone (goesOnAlone_spawn _) heq hlt
    · intro job _ _ pr hpr _
      rw [hprogram, if_neg heq, program?_of_length_le (Nat.le_of_not_lt hlt)] at hpr
      cases hpr

/-- Visits stay interrupted when a caller asks for another simulation. -/
theorem IsInterrupted.spawn (h : s.IsInterrupted R) (hfits : s.Fitting p) (caller : Nat)
    (graph : Except LoadError Snapshot) :
    (s.spawn (.call caller graph)).2.IsInterrupted R where
  splitsAt := h.splitsAt.spawn hfits caller graph
  isStopped t ht q := .spawn (fun _ => h.isStopped t ht q) caller graph

/-- What has failed stays so when a caller asks for another simulation. -/
theorem HasFailed.spawn (h : s.HasFailed R) (caller : Nat) (graph : Except LoadError Snapshot) :
    (s.spawn (.call caller graph)).2.HasFailed R := by
  obtain ⟨x, f, hx, hcaller, hend⟩ := h
  refine ⟨x, f, hx, fun hcontra => hcaller ?_, ending?_spawn.trans hend⟩
  obtain ⟨future, hfuture, -⟩ := ending?_eq_some_iff.1 hend
  have hlt := lt_of_future? hfuture
  exact (isCaller_congr ((goesOnAlone_spawn _).program (Nat.ne_of_lt hlt) hlt)).1 hcontra

/-- A run stays at work when a caller asks for another one. -/
theorem IsAtWork.spawn (h : s.IsAtWork p R slot due) (hfits : s.Fitting p) (hs : s.Sound 0 held)
    (hR : R < s.futures.length) (caller : Nat) (graph : Except LoadError Snapshot) :
    (s.spawn (.call caller graph)).2.IsAtWork p R slot due := by
  have halone := goesOnAlone_spawn (s := s) (.call caller graph)
  have hprogram : ∀ {j}, (s.spawn (.call caller graph)).2.program? j =
      if j = s.futures.length then some (.call caller graph) else s.program? j := program?_spawn
  have hvisit : ∀ {t}, (s.spawn (.call caller graph)).2.IsVisit t → t ≠ s.futures.length ∧ s.IsVisit t := by
    intro t hv
    have hne : t ≠ s.futures.length := by
      rintro rfl
      obtain ⟨pr, v, hpr, hpr'⟩ := isVisit_iff.1 hv
      rw [hprogram, if_pos rfl] at hpr
      cases hpr
      cases hpr'
    exact ⟨hne, (isVisit_congr (hprogram.trans (if_neg hne))).1 hv⟩
  have hidle : ∀ job ∈ s.jobs, job.task? ≠ some s.futures.length := by
    intro job hjob htask
    obtain ⟨pr, hpr⟩ := hfits.exists_program? hjob htask
    exact Nat.lt_irrefl _ (lt_of_program? hpr)
  refine ⟨fun t ht => (h.old t ht).goesOnAlone halone (by lia) (by lia), fun {t} ht hv => ?_, fun {x i} hx he => ?_,
    fun {x} hx ha => ?_, fun {t} ht hv hlive => ?_, h.splitsAt.spawn hfits caller graph, ?_⟩
  · rw [mustCancel, task?_eq_bind, future?_spawn, if_neg (hvisit hv).1, ← task?_eq_bind]
    exact h.must ht (hvisit hv).2
  · have hcaller := h.ending hx (ending?_spawn.symm.trans he)
    exact (isCaller_congr (halone.program (Nat.ne_of_lt hcaller.lt) hcaller.lt)).2 hcaller
  · obtain ⟨g, hg, hasked⟩ := ha
    refine h.asked hx ⟨g, ?_, hasked⟩
    obtain ⟨f, hf, hk⟩ := kind?_eq_some_iff.1 hg
    rw [future?_spawn] at hf
    split at hf
    · cases hf
      cases hk
    · exact kind?_eq_some_iff.2 ⟨f, hf, hk⟩
  · obtain ⟨a, hb, ha, hlivea⟩ := h.parent ht (hvisit hv).2 (ending?_spawn.symm.trans hlive)
    exact ⟨a, (branched_spawn caller graph).2 hb, ha, ending?_spawn.trans hlivea⟩
  · refine h.inStep.grow rfl (fun job hjob k hk => ?_) (l := [.resume s.futures.length]) rfl (fun job hjob k hk => ?_)
      (m := []) (List.append_nil _).symm fun t ht => by cases ht
    · refine hasSlot_of_idle hs hidle (fun j pr hne hj => (hprogram.trans (if_neg hne)).trans hj) (fun t x hmem => ?_)
        (List.mem_append_left _ hjob) hk
      exact Or.inl ((List.mem_cons.1 (jobs_spawn.subset hmem)).resolve_left fun hcontra => by cases hcontra)
    · cases List.mem_singleton.1 hjob
      cases hk with
      | turn _ htask hpr hstage =>
        cases htask
        rw [hprogram, if_pos rfl] at hpr
        cases hpr
        cases hstage

/-! ## The root of a run -/

section Root

variable {v : Visit} {caller : Nat} {pr : Program} (hpr : s.program? id = some pr) (hR : R = s.futures.length)
  (hs' : s' = (s.spawn (.enter v)).2.defer id (.conclude caller) R)

include hpr hR hs'

/-- A caller that has made the root of its run is to conclude that, and the root has its first turn ahead. -/
theorem bareKind?_root (j : FutureId) : s'.bareKind? j =
    if j = id then some (.task (.conclude caller)) else if j = R then some (.task (.enter v)) else s.bareKind? j := by
  have hpr₁ : (s.spawn (.enter v)).2.program? id = some pr := by
    rw [program?_spawn, if_neg (Nat.ne_of_lt (lt_of_program? hpr)), hpr]
  rw [hs', bareKind?_defer hpr₁, bareKind?_spawn, hR]

/-- The programs are those before, and those of the caller and the root. -/
theorem program?_root (j : FutureId) : s'.program? j =
    if j = id then some (.conclude caller) else if j = R then some (.enter v) else s.program? j := by
  rw [program?_eq_bind, bareKind?_root hpr hR hs', program?_eq_bind]
  split
  · rfl
  · split <;> rfl

omit hpr in
/-- The jobs are those of the root's first turn and of the caller's next one, besides those that were there. -/
theorem mem_jobs_root (hjob : job ∈ s'.jobs) : job = .wake id R ∨ job = .resume R ∨ job ∈ s.jobs := by
  have hlt : R < (s.spawn (.enter v)).2.futures.length := by
    rw [length_spawn, hR]
    exact Nat.lt_succ_self _
  rw [hs'] at hjob
  refine (List.mem_cons.1 ((jobs_defer hlt).subset hjob)).imp_right fun hmem => ?_
  exact hR ▸ List.mem_cons.1 (jobs_spawn.subset hmem)

/-- What was there before the root of a run stands below it when a caller has made it and waits for it. -/
theorem splitsAt_root (hfits : s.Fitting p) (hs : s.Sound 0 held) : s'.SplitsAt R := by
  have hsplits := splitsAt_length hs hfits
  rw [← hR] at hsplits
  refine ⟨fun {t x} hmem => ?_, fun {g children} hg => ?_, fun {a c} hb => ?_⟩
  · rcases mem_jobs_root hR hs' hmem with heq | heq | hmem
    · cases heq
      exact Or.inl ⟨_, (program?_root hpr hR hs' _).trans (if_pos rfl), rfl⟩
    · cases heq
    · obtain ⟨pr', hpr'⟩ := hfits.exists_program? hmem rfl
      exact Or.inr (iff_of_true (hR ▸ lt_of_program? hpr') (hR ▸ hs.source_lt hmem rfl))
  · rw [bareKind?_root hpr hR hs'] at hg
    split at hg
    · cases hg
    · split at hg
      · cases hg
      · exact hsplits.gathering hg
  · obtain ⟨v', children, hpr', hc⟩ := hb
    rw [program?_root hpr hR hs'] at hpr'
    split at hpr'
    · cases hpr'
    · split at hpr'
      · cases hpr'
      · exact hsplits.branched ⟨v', children, hpr', hc⟩

/-- Visits stay stopped as a caller makes the root of its run. -/
theorem AllStopped.root (h : s.AllStopped p) (ht : t < R) : s'.IsStopped p t := by
  by_cases heq : t = id
  · exact isStopped_of_not_active ((program?_root hpr hR hs' t).trans (if_pos heq)) rfl
  · have hlength : (s.spawn (.enter v)).2.futures.length = R + 1 := length_spawn.trans (by rw [hR])
    have hpr₁ : (s.spawn (.enter v)).2.program? id = some pr := by
      rw [program?_spawn, if_neg (Nat.ne_of_lt (lt_of_program? hpr)), hpr]
    rw [hs']
    refine IsStopped.goesOnAlone ?_ (goesOnAlone_defer hpr₁ _
      (Nat.lt_of_lt_of_eq (Nat.lt_succ_self _) hlength.symm)) heq
      (by rw [hlength]; lia)
    exact (h t).goesOnAlone (goesOnAlone_spawn _) (by lia) (by lia)

/-- The only visit from its number on is the root. -/
theorem eq_root_of_program? {pr' : Program} (hid : id < R) (ht : R ≤ t) (hpr' : s'.program? t = some pr') :
    t = R ∧ pr' = .enter v := by
  rw [program?_root hpr hR hs', if_neg (by lia)] at hpr'
  split at hpr'
  · next heq => exact ⟨heq, (Option.some.inj hpr').symm⟩
  · rw [program?_of_length_le (hR ▸ ht)] at hpr'
    cases hpr'

/-- The only slot of the run is that of its root's first turn. -/
theorem hasSlot_root (hfits : s.Fitting p) (hjob : job ∈ s'.jobs) {k : Nat} (hk : job.HasSlot R s' k) :
    k = 2 * (3 * v.depth) + 1 ∧ job = .resume R := by
  have hid : id < R := hR ▸ lt_of_program? hpr
  have hturn : ∀ {job t}, job ∈ s'.jobs → job.task? = some t → R ≤ t → job = .resume R := by
    intro job t hjob htask ht
    rcases mem_jobs_root hR hs' hjob with rfl | rfl | hmem
    · cases htask
      exact absurd hid (Nat.not_lt_of_le ht)
    · rfl
    · obtain ⟨pr', hpr'⟩ := hfits.exists_program? hmem htask
      exact absurd (lt_of_program? hpr') (by lia)
  cases hk with
  | turn ht htask hpr' hstage =>
    obtain ⟨-, rfl⟩ := eq_root_of_program? hpr hR hs' hid ht hpr'
    cases hstage
    exact ⟨rfl, hturn hjob htask ht⟩
  | elapse ht hwake => cases hturn hwake rfl ht

/-- The visits of a run are in step as soon as its root is made. -/
theorem inStep_root (hfits : s.Fitting p) (hs : s.Sound 0 held) (htimers : s'.timers = s.timers)
    (hnow : s'.now = s.now) :
    s'.InStep p R (2 * (3 * v.depth) + 1) (s.now + (p.wait? (2 * (3 * v.depth) + 1)).getD 0) := by
  have hsub : s'.ready ++ s'.timers.map (·.job) ⊆ s'.jobs := fun job hjob => List.mem_append_left _ hjob
  refine ⟨⟨s'.ready, [], (List.append_nil _).symm, fun job hjob k hk => ?_, fun job hjob => by cases hjob⟩,
    fun timer ht k hk => ?_⟩
  · obtain ⟨rfl, -⟩ := hasSlot_root hpr hR hs' hfits (hsub (List.mem_append_left _ hjob)) hk
    refine ⟨rfl, fun time htime => ?_⟩
    rw [htime, hnow]
    rfl
  · have hmem : timer.job ∈ s'.timers.map (·.job) := List.mem_map_of_mem ht
    obtain ⟨-, hjob⟩ := hasSlot_root hpr hR hs' hfits (hsub (List.mem_append_right _ hmem)) hk
    rw [htimers] at ht
    have htask := (hs.timer (t := timer) ht).2
    rw [hjob] at htask
    cases htask

end Root

/-- A run is at work as soon as its root is made and its caller waits for that. -/
theorem AllStopped.begin {v : Visit} (h : s.AllStopped p) (hfits : s.Fitting p) (hs : s.Sound 0 held)
    (hcalm : s.mustCancel id = false) {pr : Program} (hpr : s.program? id = some pr) (caller : Nat) :
    ∃ due, ((s.spawn (.enter v)).2.defer id (.conclude caller) s.futures.length).IsAtWork p s.futures.length
      (2 * (3 * v.depth) + 1) due := by
  generalize hR' : s.futures.length = R
  have hR := hR'.symm
  have hid : id < R := hR ▸ lt_of_program? hpr
  have hmust₁ : ∀ j, j ≠ R → (s.spawn (.enter v)).2.mustCancel j = s.mustCancel j := by
    intro j hne
    rw [mustCancel, task?_eq_bind, future?_spawn, if_neg (hR ▸ hne), ← task?_eq_bind, mustCancel]
  have hattend : (s.spawn (.enter v)).2.defer id (.conclude caller) R =
      (s.spawn (.enter v)).2.attend id (.conclude caller) R :=
    defer_eq ((hmust₁ id (Nat.ne_of_lt hid)).trans hcalm)
  obtain ⟨htimers, hnow⟩ : ((s.spawn (.enter v)).2.defer id (.conclude caller) R).timers = s.timers ∧
      ((s.spawn (.enter v)).2.defer id (.conclude caller) R).now = s.now := timers_defer
  generalize hlaunch : (s.spawn (.enter v)).2.defer id (.conclude caller) R = s' at hattend htimers hnow ⊢
  have hs' := hlaunch.symm
  have hending : ∀ x, s'.ending? x = s.ending? x := by
    intro x
    rw [hattend, attend, ending?_whenEnded, ending?_modifyTask, ending?_spawn]
  have hfresh : ∀ {x}, R ≤ x → s.ending? x = none := fun hx => ending?_of_length_le (hR ▸ hx)
  have hroot : ∀ {t pr'}, R ≤ t → s'.program? t = some pr' → t = R ∧ pr' = .enter v :=
    eq_root_of_program? hpr hR hs' hid
  refine ⟨_, fun t => h.root hpr hR hs', fun {t} ht hv => ?_, fun {x i} hx he => ?_,
    fun {x} hx ha => ?_, fun {t} ht hv => ?_, splitsAt_root hpr hR hs' hfits hs,
      inStep_root hpr hR hs' hfits hs htimers hnow⟩
  · obtain ⟨pr', v', hpr', -⟩ := isVisit_iff.1 hv
    rw [(hroot ht hpr').1, hattend, mustCancel_attend, mustCancel, task?_eq_bind, future?_spawn, if_pos hR]
    rfl
  · rw [hending, hfresh hx] at he
    cases he
  · obtain ⟨g, hg, -⟩ := ha
    have hg' := bareKind?_eq_gathering_iff.2 ⟨g, hg, rfl⟩
    rw [bareKind?_root hpr hR hs', if_neg (by lia)] at hg'
    split at hg'
    · cases hg'
    · exact absurd (lt_of_bareKind? hg') (by lia)
  · obtain ⟨pr', v', hpr', -⟩ := isVisit_iff.1 hv
    exact absurd (hroot (Nat.le_of_lt ht) hpr').1 (Nat.ne_of_gt ht)

end Scheduler

end PipelineGraph.Simulation
