import PipelineGraph.Proofs.Simulation.RunsAtWork

/-!
# The visits of a run at work

The visits of a run at work go on in step, and branch into visits that follow them. The ways from the root
lead to all of them. So a request to cancel the root reaches them all, and when one visit is too deep then so
are all that have not ended.
-/

namespace PipelineGraph.Simulation

open Relation

namespace Scheduler

variable {p q : Plan} {s s' awake : Scheduler Program Action} {a c id t x R low : FutureId} {job : Job Action}
  {rest : List (Job Action)} {slot due slot' due' n : Nat} {held : FutureId → Prop}

/-! ## Visits that go on -/

/-- The two sides stay apart when a visit above goes on. -/
theorem SplitsAt.goesOnAlone (h : s.SplitsAt R) (hs : GoesOnAlone id s s') (hfits : s'.Fitting p) (hid : R ≤ id)
    (hlt : id < s.futures.length)
    (hwake : ∀ x, .wake id x ∈ s'.jobs → s.futures.length ≤ x)
    (hfresh : ∀ t pr, s.futures.length ≤ t → s'.program? t = some pr → ∃ v, pr = .enter v)
    (hgathering : ∀ g children, s'.bareKind? g = some (.gathering children) →
      s.bareKind? g = some (.gathering children) ∨ s.futures.length ≤ g ∧ ∀ c ∈ children, s.futures.length ≤ c)
    (hbranched : ∀ c, s'.Branched id c → s.futures.length ≤ c) : s'.SplitsAt R where
  wake {t x} hmem := by
    by_cases heq : t = id
    · subst heq
      exact Or.inr (iff_of_false (Nat.not_lt_of_le hid) (by have := hwake x hmem; lia))
    · obtain ⟨-, -, pr, hpr, hexpects⟩ := hfits.jobs hmem
      by_cases hold : t < s.futures.length
      · exact (h.wake (hs.jobs hmem rfl heq hold)).imp_left (isCaller_congr (hs.program heq hold)).2
      · obtain ⟨v, rfl⟩ := hfresh t pr (Nat.le_of_not_lt hold) hpr
        exact hexpects.elim
  gathering {g children} hg c hc := by
    rcases hgathering g children hg with hold | ⟨hge, hnew⟩
    · exact h.gathering hold c hc
    · have := hnew c hc
      exact iff_of_false (by lia) (by lia)
  branched {a c} hb := by
    by_cases heq : a = id
    · subst heq
      have := hbranched c hb
      exact iff_of_false (Nat.not_lt_of_le hid) (by lia)
    · by_cases hold : a < s.futures.length
      · exact h.branched ((branched_congr (hs.program heq hold)).1 hb)
      · obtain ⟨v, children, hpr, -⟩ := hb
        obtain ⟨v', hcontra⟩ := hfresh a _ (Nat.le_of_not_lt hold) hpr
        cases hcontra

/-- The two sides stay apart when a visit above goes on behind a delay. -/
theorem SplitsAt.goes {pr next : Program} {d : Delay} (h : s.SplitsAt R)
    (hidle : ∀ job ∈ s.jobs, job.task? ≠ some id) (hid : R ≤ id) (hpr : s.program? id = some pr)
    (hnext : pr.Continues p next d) (hgoes : s.Goes id next d s') (hfits : s'.Fitting p) : s'.SplitsAt R := by
  have hlt := lt_of_program? hpr
  have hprogram := hgoes.program? hpr
  refine h.goesOnAlone (hgoes.goesOnAlone hpr) hfits hid hlt (fun x hmem => ?_) (fun t pr' ht hpr' => ?_)
    (fun g children hg => Or.inl (hgoes.gathering hpr hg)) fun c hb => ?_
  · cases hgoes with
    | pause =>
      refine absurd rfl (hidle _ ((jobs_modifyTask _).subset
        ((List.mem_cons.1 (jobs_push.subset hmem)).resolve_left ?_)))
      exact fun hcontra => by cases hcontra
    | sleep =>
      rcases List.mem_cons.1 (jobs_doze.subset hmem) with heq | hmem
      · cases heq
        exact Nat.le_refl _
      · refine absurd rfl (hidle _ ((List.mem_cons.1 hmem).resolve_left fun hcontra => ?_))
        cases hcontra
  · rw [hprogram, if_neg (by lia), program?_of_length_le ht] at hpr'
    cases hpr'
  · obtain ⟨v, children, hpr', -⟩ := hb
    rw [hprogram, if_pos rfl] at hpr'
    cases hnext <;> cases hpr'

/-- The two sides stay apart when a visit above branches. -/
theorem SplitsAt.branch {v : Visit} (h : s.SplitsAt R) (hidle : ∀ job ∈ s.jobs, job.task? ≠ some id) (hid : R ≤ id)
    (hpr : s.program? id = some (.fanOut v))
    (hfits : (s.branch id ((Engine.followers v).map .enter) (.join v)).Fitting p) :
    (s.branch id ((Engine.followers v).map .enter) (.join v)).SplitsAt R := by
  have hlt := lt_of_program? hpr
  have hmade : ∀ pr ∈ (Engine.followers v).map Program.enter, ∃ v', pr = .enter v' := by
    intro pr hpr
    obtain ⟨v', -, rfl⟩ := List.mem_map.1 hpr
    exact ⟨v', rfl⟩
  generalize (Engine.followers v).map Program.enter = programs at hfits hmade ⊢
  have hprogram := fun j => program?_branch (j := j) programs (.join v) hpr
  refine h.goesOnAlone (goesOnAlone_branch hpr programs (.join v)) hfits hid hlt (fun x hmem => ?_)
    (fun t pr ht hpr' => ?_)
    (fun g children hg => ?_) fun c hb => ?_
  · rcases List.mem_append.1 ((jobs_branch programs _).subset hmem) with hmem | hmem
    · rcases List.mem_cons.1 hmem with heq | hmem
      · cases heq
        exact Nat.le_add_right _ _
      · obtain ⟨c, -, hcontra⟩ := List.mem_map.1 hmem
        cases hcontra
    · rcases List.mem_append.1 hmem with hmem | hmem
      · obtain ⟨c, -, hcontra⟩ := List.mem_map.1 hmem
        cases hcontra
      · exact absurd rfl (hidle _ hmem)
  · rw [hprogram, if_neg (by lia), if_neg (by lia)] at hpr'
    exact hmade pr (List.mem_of_getElem? hpr')
  · rw [bareKind?_branch hpr] at hg
    split at hg
    · cases hg
    · split at hg
      · exact Or.inl hg
      · split at hg
        · cases hg
          exact Or.inr ⟨by lia, fun c hc => (mem_fresh.1 hc).1⟩
        · obtain ⟨pr, -, hcontra⟩ := Option.map_eq_some_iff.1 hg
          cases hcontra
  · obtain ⟨v', children, hpr', hc⟩ := hb
    rw [hprogram, if_pos rfl] at hpr'
    cases hpr'
    exact (mem_fresh.1 hc).1

/-- A run stays at work when one of its visits goes on. -/
theorem IsAtWork.goesOnAlone (h : s.IsAtWork p R slot due) (hs : GoesOnAlone id s s')
    (hrequestsNothing : s.RequestsNothing s')
    (hsplits : s'.SplitsAt R) (hid : R ≤ id) (hlt : id < s.futures.length) (hvisit : s.IsVisit id)
    (hlive : s.ending? id = none) (hnot : ∀ c, ¬ s.Branched id c)
    (hnew : ∀ t, s.futures.length ≤ t → s'.IsVisit t → s'.Branched id t)
    (hending : ∀ x, s'.ending? x = s.ending? x) (hstep : s'.InStep p R slot due) : s'.IsAtWork p R slot due where
  old t ht := (h.old t ht).goesOnAlone hs (by lia) (by lia)
  must {t} ht hv := by
    cases hm : s'.mustCancel t with
    | false => rfl
    | true =>
      have hold := hrequestsNothing.mustCancel t hm
      refine hold.symm.trans (h.must ht ?_)
      by_cases heq : t = id
      · exact heq ▸ hvisit
      · have hlt' : t < s.futures.length := by
          by_contra hge
          simp [mustCancel, task?, kind?, future?_eq_none_iff.2 (Nat.le_of_not_lt hge)] at hold
        exact (isVisit_congr (hs.program heq hlt')).1 hv
  ending {x i} hx he := by
    have hcaller := h.ending hx ((hending x).symm.trans he)
    have hne : x ≠ id := fun heq => hvisit.not_isCaller (heq ▸ hcaller)
    exact (isCaller_congr (hs.program hne hcaller.lt)).2 hcaller
  asked hx ha := h.asked hx (hrequestsNothing.asked _ ha)
  parent {t} ht hv hlive' := by
    by_cases hold : t < s.futures.length
    · have hv' : s.IsVisit t := by
        by_cases heq : t = id
        · exact heq ▸ hvisit
        · exact (isVisit_congr (hs.program heq hold)).1 hv
      obtain ⟨a, hb, ha, hlivea⟩ := h.parent ht hv' ((hending t).symm.trans hlive')
      have hne : a ≠ id := fun heq => hnot t (heq ▸ hb)
      exact ⟨a, (branched_congr (hs.program hne hb.lt)).2 hb, ha, (hending a).trans hlivea⟩
    · exact ⟨id, hnew t (Nat.le_of_not_lt hold) hv, hid, (hending id).trans hlive⟩
  splitsAt := hsplits
  inStep := hstep

/-- A run stays at work when one of its visits goes on behind a delay. -/
theorem IsAtWork.goes {pr next : Program} {d : Delay} (h : s.IsAtWork p R (2 * n + 1) due)
    (hdue : ∀ time, p.wait? (2 * n + 1) = some time → s.now + time = due) (hs : s.Sound 0 fun j => j = id)
    (hidle : ∀ job ∈ s.jobs, job.task? ≠ some id) (hid : R ≤ id) (hpr : s.program? id = some pr)
    (hlive : s.ending? id = none) (hnext : pr.Continues p next d) (hstage : next.stage? = some (n + 1))
    (hdelay : p.delayBehind n = d) (hgoes : s.Goes id next d s') (hfits : s'.Fitting p) :
    s'.IsAtWork p R (2 * n + 1) due := by
  have hactive : pr.isActive = true := by cases hnext <;> rfl
  have hvisit := isVisit_of_isActive hpr hactive
  have hcalm := h.must hid hvisit
  have hlt := lt_of_program? hpr
  have hprogram := hgoes.program? hpr
  have hrequestsNothing := hgoes.requestsNothing hcalm hpr
  have halone := hgoes.goesOnAlone hpr
  refine h.goesOnAlone halone hrequestsNothing (h.splitsAt.goes hidle hid hpr hnext hgoes hfits) hid hlt hvisit
    hlive ?_ (fun t ht hv => ?_)
    (fun x => hgoes.ending? hcalm hlt) (h.inStep.goes hdue hid hs hidle hcalm hpr hstage hdelay hgoes)
  · rintro c ⟨v, children, hpr', -⟩
    cases hpr.symm.trans hpr'
    cases hactive
  · obtain ⟨pr', v, hpr', -⟩ := isVisit_iff.1 hv
    rw [hprogram, if_neg (by lia), program?_of_length_le ht] at hpr'
    cases hpr'

/-- A run stays at work when one of its visits branches. -/
theorem IsAtWork.branch {v : Visit} (h : s.IsAtWork p R (2 * (3 * v.depth + 2) + 1) due)
    (hs : s.Sound 0 fun j => j = id) (hidle : ∀ job ∈ s.jobs, job.task? ≠ some id) (hid : R ≤ id)
    (hpr : s.program? id = some (.fanOut v)) (hlive : s.ending? id = none)
    (hfits : (s.branch id ((Engine.followers v).map .enter) (.join v)).Fitting p) :
    (s.branch id ((Engine.followers v).map .enter) (.join v)).IsAtWork p R (2 * (3 * v.depth + 2) + 1) due := by
  have hvisit := isVisit_of_isActive hpr rfl
  have hcalm := h.must hid hvisit
  have hlt := lt_of_program? hpr
  have hstep := h.inStep.branch hs hidle hcalm hpr
  have hsplits := h.splitsAt.branch hidle hid hpr hfits
  generalize (Engine.followers v).map Program.enter = programs at hstep hsplits ⊢
  have hprogram := fun j => program?_branch (j := j) programs (.join v) hpr
  refine h.goesOnAlone (goesOnAlone_branch hpr programs (.join v))
    (requestsNothing_branch hcalm hpr programs (.join v)) hsplits hid hlt
    hvisit hlive ?_ (fun t ht hv => ?_) (fun x => ending?_branch hcalm hlt) hstep
  · rintro c ⟨v', children, hpr', -⟩
    cases hpr.symm.trans hpr'
  · obtain ⟨pr, v', hpr', -⟩ := isVisit_iff.1 hv
    rw [hprogram, if_neg (by lia), if_neg (by lia)] at hpr'
    obtain ⟨hlt', -⟩ := List.getElem?_eq_some_iff.1 hpr'
    exact ⟨v, _, (hprogram id).trans (if_pos rfl), mem_fresh.2 ⟨ht, by lia⟩⟩

/-! ## The ways from the root -/

/-- A visit that waits for the visits that follow it waits for their gathering. -/
theorem Fitting.exists_gathering (hfits : s.Fitting p) (hs : s.Sound 0 held) (hheld : ¬ held a) {v : Visit}
    {children : List FutureId} (hpr : s.program? a = some (.join v children)) (hlive : s.ending? a = none) :
    ∃ g, .wake a g ∈ s.jobs ∧ s.waiter? a = some g ∧ s.bareKind? g = some (.gathering children) := by
  obtain ⟨job, hjob, htask⟩ := hs.exists_job (Nat.zero_le a) hheld hpr hlive
  have hfit := hfits.jobs hjob
  cases job with
  | resume =>
    cases htask
    obtain ⟨-, pr, hpr', hqueued⟩ := hfit
    cases hpr.symm.trans hpr'
    cases hqueued
  | wake _ g =>
    cases htask
    obtain ⟨-, hwaiter, pr, hpr', hexpects⟩ := hfit
    cases hpr.symm.trans hpr'
    exact ⟨g, hjob, hwaiter, hexpects⟩
  | count | elapse | act => cases htask

/-- A run at work has a way from its root to each of its visits that have not ended. -/
theorem IsAtWork.path (h : s.IsAtWork p R slot due) (hfits : s.Fitting p) (hs : s.Sound 0 held)
    (hheld : ∀ a, held a → ∀ c, ¬ s.Branched a c) (ht : R ≤ t) (hvisit : s.IsVisit t)
    (hlive : s.ending? t = none) : ReflTransGen s.Links R t := by
  -- By induction on the number of the visit, which is higher than that of the visit it follows.
  induction t using Nat.strong_induction_on with
  | _ t ih =>
    rcases Nat.eq_or_lt_of_le ht with rfl | hlt
    · exact .refl
    · obtain ⟨a, hb, ha, hlivea⟩ := h.parent hlt hvisit hlive
      have hnot : ¬ held a := fun hheld' => hheld a hheld' t hb
      obtain ⟨v, children, hpr, hc⟩ := hb
      obtain ⟨g, hwake, hwaiter, hg⟩ := hfits.exists_gathering hs hnot hpr hlivea
      have hvisita : s.IsVisit a := isVisit_iff.2 ⟨_, v, hpr, rfl⟩
      have hRg : R ≤ g := by
        have hside := (h.splitsAt.wake hwake).resolve_left hvisita.not_isCaller
        lia
      have hliveg : s.ending? g = none := by
        cases he : s.ending? g with
        | none => rfl
        | some e =>
          obtain ⟨f, hf, hend⟩ := ending?_eq_some_iff.1 he
          obtain ⟨gs, hk, hchildren⟩ := bareKind?_eq_gathering_iff.1 hg
          cases e with
          | ok =>
            obtain ⟨f', hf', hk'⟩ := kind?_eq_some_iff.1 hk
            cases hf.symm.trans hf'
            have hok := hs.children_ok (Nat.zero_le g) hf hk' hend t (hchildren ▸ hc)
            cases hlive.symm.trans hok
          | error i =>
            obtain ⟨pr, hpr', -⟩ := h.ending hRg he
            cases (bareKind?_eq_task_iff.2 hpr').symm.trans hg
      have hup : ReflTransGen s.Links R a := ih a (hfits.child hpr hc).1 ha hvisita hlivea
      exact (hup.tail ⟨hlivea, Or.inl hwaiter⟩).tail ⟨hliveg, Or.inr ⟨children, hg, hc⟩⟩

/-- Once its root has ended, all visits of a run are stopped. -/
theorem IsAtWork.allStopped_of_ended (h : s.IsAtWork p R slot due) (hfits : s.Fitting p) (hs : s.Sound 0 fun _ => False)
    (hended : s.ending? R ≠ none) : s.AllStopped p := by
  intro t
  rcases Nat.lt_or_ge t R with hlt | hge
  · exact h.old t hlt
  · intro job hjob htask pr hpr hactive
    obtain ⟨-, -, hlive, -⟩ := hs.live_of_mem hjob htask
    have hpath := h.path hfits hs (fun _ hheld => hheld.elim) hge (isVisit_of_isActive hpr hactive) hlive
    rcases hpath.cases_head with rfl | ⟨y, hlink, -⟩
    · exact absurd hlive hended
    · exact absurd hlink.1 hended

/-- A request that comes to the root of a run at work, or on the way to it, bars the run. -/
theorem IsAtWork.interrupted_of_cancel (h : s.IsAtWork p R slot due) (hfits : s.Fitting p) (hp : p.IsShallow)
    (hs : s.Sound 0 held) (hheld : ∀ a, held a → ∀ c, ¬ s.Branched a c) (hx : ReflTransGen s.Links x R) :
    (s.cancel x).2.IsInterrupted R ∧ ∀ {t pr}, R ≤ t → s.program? t = some pr → pr.isActive = true →
      s.ending? t = none → (s.cancel x).2.IsReached t := by
  have hreached : ∀ {t pr}, R ≤ t → s.program? t = some pr → pr.isActive = true → s.ending? t = none →
      (s.cancel x).2.IsReached t := fun ht hpr hactive hlive =>
    hfits.isReached_cancel hp (hx.trans (h.path hfits hs hheld ht (isVisit_of_isActive hpr hactive) hlive)) hlive hpr
      hactive
  have hasks := asks_cancel (s := s) x
  refine ⟨⟨h.splitsAt.shrinks hasks.addsNoTurn.shrinks, fun t ht q => ?_⟩, hreached⟩
  intro job hjob htask pr hpr hactive
  obtain ⟨-, -, hlive, -⟩ := hs.live_of_mem (hasks.keeps.jobs.subset hjob) htask
  have hreach := hreached ht ((hasks.keeps.program t).symm.trans hpr) hactive hlive
  exact hreach.isStopped (hfits.keeps hasks.keeps) job hjob htask pr hpr hactive

/-- A task that waits for nothing keeps a request to cancel it. -/
theorem cancel_of_waiter?_none {pr : Program} (hpr : s.program? x = some pr) (hlive : s.ending? x = none)
    (hwaiter : s.waiter? x = none) : s.cancel x = (.taken, s.markCancel x) := by
  obtain ⟨state, ht, -⟩ := Option.map_eq_some_iff.1 hpr
  obtain ⟨f, hf, hk⟩ := kind?_eq_some_iff.1 (task?_eq_some_iff.1 ht)
  have hnone : f.ending = none := by
    simpa [ending?, hf] using hlive
  have hidle : state.waiter = none := by
    simpa [waiter?, ht] using hwaiter
  simp [Scheduler.cancel, maxRequestDepth, Scheduler.cancelWithin, hf, hnone, hk, hidle]

/-- A run at work stays so when a caller is cancelled, unless that is the run's own, which bars the run. -/
theorem IsAtWork.cancel (h : s.IsAtWork p R slot due) (hfits : s.Fitting p) (hp : p.IsShallow) (hs : s.Sound 0 held)
    (hheld : ∀ a, held a → ∀ c, ¬ s.Branched a c) (hx : x = R ∨ s.IsCaller x)
    (hawaited : ∀ c, s.program? x = some (.conclude c) → s.ending? x = none → s.waiter? x = some R) :
    (s.cancel x).2.IsAtWork p R slot due ∨ (s.cancel x).2.IsInterrupted R ∧ ∀ {t pr}, R ≤ t → s.program? t = some pr →
      pr.isActive = true → s.ending? t = none → (s.cancel x).2.IsReached t := by
  cases he : s.ending? x with
  | some e =>
    rw [cancel_of_ended (by simp [he])]
    exact Or.inl h
  | none =>
    rcases hx with rfl | hcaller
    · exact Or.inr (h.interrupted_of_cancel hfits hp hs hheld .refl)
    · obtain ⟨pr, hpr, hpr'⟩ := id hcaller
      cases pr with
      | enter | leave | fanOut | join => cases hpr'
      | conclude c =>
        exact Or.inr (h.interrupted_of_cancel hfits hp hs hheld (.single ⟨he, Or.inl (hawaited c hpr he)⟩))
      | call c graph =>
        rw [cancel_of_waiter?_none hpr he (hfits.waiter?_of_call hpr)]
        exact Or.inl (h.markCancel (Or.inr hcaller))

/-- Nothing interrupts the turns of the visits of a run at work. -/
theorem IsAtWork.interrupt? (h : s.IsAtWork p R slot due) (hfits : s.Fitting p) (hjob : job ∈ s.jobs)
    (htask : job.task? = some id) (hid : R ≤ id) (hvisit : s.IsVisit id) : s.interrupt? id job = none := by
  cases hin : s.interrupt? id job with
  | none => rfl
  | some i =>
    rcases exists_interrupt?_iff.1 ⟨i, hin⟩ with hmust | ⟨x, i, hsource, hend⟩
    · exact absurd (hmust.symm.trans (h.must hid hvisit)) (by decide)
    · obtain rfl := Job.eq_wake htask hsource
      have hside := (h.splitsAt.wake hjob).resolve_left hvisit.not_isCaller
      obtain ⟨-, -, pr, -, hexpects⟩ := hfits.jobs hjob
      exact absurd (h.ending (by lia) hend) (not_isCaller_of_expects hexpects)

/-- When the visits of a run are in step and one of them turns out too deep, all are stopped. -/
theorem allStopped_of_deep (hold : ∀ t < R, s.IsStopped p t) (hstep : s.InStep p R (2 * (3 * n) + 1) due)
    (hfits : s.Fitting p) (hs : s.Sound 0 fun _ => False) (hdeep : p.maxDepth < n) : s.AllStopped p := by
  intro t
  rcases Nat.lt_or_ge t R with hlt | hge
  · exact hold t hlt
  · intro job hjob htask pr hpr hactive
    obtain ⟨m, hstage⟩ := Program.exists_stage hactive
    obtain ⟨-, -, hlive, -⟩ := hs.live_of_mem hjob htask
    obtain ⟨job', hjob', k, hk, hslots⟩ := hs.exists_hasSlot hfits.awaitsSleeps (fun _ => Nat.zero_le _)
      (Nat.zero_le t) hge hpr
      hlive hstage
    have hle := hstep.le_of_hasSlot hjob' hslots
    have hproper := hfits.proper hpr
    refine Or.inl ?_
    cases pr with
    | enter v =>
      cases hstage
      change p.maxDepth < v.depth
      omega
    | leave v =>
      cases hstage
      exact absurd (by omega) hproper.1
    | fanOut v =>
      cases hstage
      exact absurd (by omega) hproper.1
    | join | call | conclude => cases hactive

end Scheduler

end PipelineGraph.Simulation
