import PipelineGraph.Proofs.Simulation.StoppedVisits

/-!
# Runs at work

While nothing interrupts a run its visits go in step, each of them but the root follows one that still
waits for it, and nothing is left of earlier runs but visits that are stopped. Such a run is at work
until a request to cancel comes or a visit turns out too deep, and then all its visits are stopped at once: the ways
from the root lead to all its visits.
-/

namespace PipelineGraph.Simulation

open Relation

namespace Scheduler

/-- A task is that of a caller. -/
def IsCaller (s : Scheduler Program Action) (id : FutureId) : Prop :=
  ∃ pr, s.program? id = some pr ∧ pr.isCaller = true

/-- A visit has branched into another one. -/
def Branched (s : Scheduler Program Action) (a c : FutureId) : Prop :=
  ∃ v children, s.program? a = some (.join v children) ∧ c ∈ children

variable {p q : Plan} {s s' awake : Scheduler Program Action} {a c id t x R low : FutureId} {job : Job Action}
  {rest : List (Job Action)} {slot due slot' due' n : Nat} {held : FutureId → Prop}

/-- A visit is no caller. -/
theorem IsVisit.not_isCaller (h : s.IsVisit id) : ¬ s.IsCaller id := by
  rintro ⟨pr, hpr, hcaller⟩
  obtain ⟨pr', v, hpr', hv⟩ := isVisit_iff.1 h
  cases hpr.symm.trans hpr'
  cases pr <;> cases hcaller <;> cases hv

/-- A caller is a future. -/
theorem IsCaller.lt (h : s.IsCaller id) : id < s.futures.length := by
  obtain ⟨pr, hpr, -⟩ := h
  exact lt_of_program? hpr

/-- A future with a branch is a future. -/
theorem Branched.lt (h : s.Branched a c) : a < s.futures.length := by
  obtain ⟨v, children, hpr, -⟩ := h
  exact lt_of_program? hpr

/-- A visit at work is a visit. -/
theorem isVisit_of_isActive {pr : Program} (hpr : s.program? id = some pr) (hactive : pr.isActive = true) :
    s.IsVisit id := by
  cases pr with
  | enter v | leave v | fanOut v => exact isVisit_iff.2 ⟨_, v, hpr, rfl⟩
  | join | call | conclude => cases hactive

/-- Nobody waits for a caller. -/
theorem not_isCaller_of_expects {pr : Program} (h : pr.Expects s x) : ¬ s.IsCaller x := by
  have hplain : ∀ {o}, s.bareKind? x = some o → o.program? = none → ¬ s.IsCaller x := by
    rintro o ho hnone ⟨pr', hpr', -⟩
    cases (bareKind?_eq_task_iff.2 hpr').symm.trans ho
    cases hnone
  cases pr with
  | leave | fanOut | join => exact hplain h rfl
  | conclude => exact IsVisit.not_isCaller h
  | enter | call => exact h.elim

/-- What has the same program is as much a caller. -/
theorem isCaller_congr (h : s'.program? id = s.program? id) : s'.IsCaller id ↔ s.IsCaller id := by
  rw [IsCaller, IsCaller, h]

/-- What has the same program has branched into the same. -/
theorem branched_congr (h : s'.program? a = s.program? a) : s'.Branched a c ↔ s.Branched a c := by
  rw [Branched, Branched, h]

/-! ## Two sides -/

/-- Visits and what they wait for stand on the same side of a number, as do gatherings and their
children. -/
structure SplitsAt (R : FutureId) (s : Scheduler Program Action) : Prop where
  wake : ∀ {t x}, .wake t x ∈ s.jobs → s.IsCaller t ∨ (t < R ↔ x < R)
  gathering : ∀ {g children}, s.bareKind? g = some (.gathering children) → ∀ c ∈ children, (g < R ↔ c < R)
  branched : ∀ {a c}, s.Branched a c → (a < R ↔ c < R)

/-- The two sides stay apart as a scheduler shrinks. -/
theorem SplitsAt.shrinks (h : s.SplitsAt R) (hs : s.Shrinks s') : s'.SplitsAt R where
  wake hwake := (h.wake (hs.jobs hwake)).imp_left (isCaller_congr (program?_congr (hs.bareKind _))).2
  gathering hg := h.gathering ((hs.bareKind _).symm.trans hg)
  branched hb := h.branched ((branched_congr (program?_congr (hs.bareKind _))).1 hb)

/-- All that a scheduler holds stands on one side of the next number. -/
theorem splitsAt_length {b : FutureId} (hs : s.Sound b held) (hfits : s.Fitting p) : s.SplitsAt s.futures.length where
  wake hwake := by
    obtain ⟨pr, hpr⟩ := hfits.exists_program? hwake rfl
    exact Or.inr (iff_of_true (lt_of_program? hpr) (hs.source_lt hwake rfl))
  gathering hg c hc := iff_of_true (lt_of_bareKind? hg) (hfits.isVisit_of_mem hg hc).lt
  branched := by
    rintro a c ⟨v, children, hpr, hc⟩
    exact iff_of_true (lt_of_program? hpr) (hfits.child hpr hc).2.lt

/-! ## Runs at work -/

/-- The run whose root has a number is at work. -/
structure IsAtWork (p : Plan) (R : FutureId) (slot due : Nat) (s : Scheduler Program Action) : Prop where
  old : ∀ t < R, s.IsStopped p t
  must : ∀ {t}, R ≤ t → s.IsVisit t → s.mustCancel t = false
  ending : ∀ {x i}, R ≤ x → s.ending? x = some (.error i) → s.IsCaller x
  asked : ∀ {x}, R ≤ x → ¬ s.isAsked x
  parent : ∀ {t}, R < t → s.IsVisit t → s.ending? t = none → ∃ a, s.Branched a t ∧ R ≤ a ∧ s.ending? a = none
  splitsAt : s.SplitsAt R
  inStep : s.InStep p R slot due

/-- All visits of the run whose root has a number are interrupted in the turns ahead of them, whatever the
greatest depth is. -/
structure IsInterrupted (R : FutureId) (s : Scheduler Program Action) : Prop where
  splitsAt : s.SplitsAt R
  isStopped : ∀ t, R ≤ t → ∀ q, s.IsStopped q t

/-- Something of the run whose root has a number has failed. -/
def HasFailed (R : FutureId) (s : Scheduler Program Action) : Prop :=
  ∃ x f, R ≤ x ∧ ¬ s.IsCaller x ∧ s.ending? x = some (.error (.fault f))

/-- Visits stay interrupted in a scheduler that adds no turn. -/
theorem IsInterrupted.addsNoTurn (h : s.IsInterrupted R) (hs : s.AddsNoTurn s') : s'.IsInterrupted R where
  splitsAt := h.splitsAt.shrinks hs.shrinks
  isStopped t ht q := (h.isStopped t ht q).addsNoTurn hs

/-- What has failed stays so in a scheduler that adds no turn. -/
theorem HasFailed.addsNoTurn (h : s.HasFailed R) (hs : s.AddsNoTurn s') : s'.HasFailed R := by
  obtain ⟨x, f, hx, hcaller, hend⟩ := h
  exact ⟨x, f, hx, fun hcontra => hcaller ((isCaller_congr (program?_congr (hs.shrinks.bareKind x))).1 hcontra),
    hs.ending hend⟩

/-- A visit that ends with a fault has failed. -/
theorem hasFailed_complete {f : Fault} (hid : R ≤ id) (hvisit : s.IsVisit id) (hlive : s.ending? id = none) :
    (s.complete id (.error (.fault f))).HasFailed R := by
  refine ⟨id, f, hid, fun hcontra => hvisit.not_isCaller ?_, ?_⟩
  · exact (isCaller_congr ((keeps_complete id _).program id)).1 hcontra
  · exact ending?_complete_of_live hvisit.lt hlive _

/-- Where the visits of a run are interrupted and those of earlier ones stopped, all are stopped. -/
theorem IsInterrupted.allStopped (h : s.IsInterrupted R) (hold : ∀ t < R, s.IsStopped p t) : s.AllStopped p := fun t =>
  (Nat.lt_or_ge t R).elim (hold t) fun ht => h.isStopped t ht p

/-- A run stays at work in a scheduler that adds no turn if nothing of the run is interrupted. -/
theorem IsAtWork.addsNoTurn (h : s.IsAtWork p R slot due) (hs : s.AddsNoTurn s')
    (hmust : ∀ t, R ≤ t → s.IsVisit t → s'.mustCancel t = true → s.mustCancel t = true)
    (hasked : ∀ x, R ≤ x → s'.isAsked x → s.isAsked x)
    (hending : ∀ x i, R ≤ x → s'.ending? x = some (.error i) → s.ending? x = some (.error i) ∨ s.IsCaller x)
    (hover : ∀ a c, R ≤ a → s.Branched a c → s.ending? c = none → s.ending? a = none → s'.ending? a = none)
    (hstep : s'.InStep p R slot' due') : s'.IsAtWork p R slot' due' where
  old t ht := (h.old t ht).addsNoTurn hs
  must {t} ht hv := by
    have hold := (isVisit_congr (program?_congr (hs.shrinks.bareKind t))).1 hv
    cases hm : s'.mustCancel t with
    | false => rfl
    | true => exact (hmust t ht hold hm).symm.trans (h.must ht hold)
  ending hx he := (isCaller_congr (program?_congr (hs.shrinks.bareKind _))).2
    ((hending _ _ hx he).elim (h.ending hx) fun hcaller => hcaller)
  asked hx ha := h.asked hx (hasked _ hx ha)
  parent {t} ht hv hlive := by
    have hnone : s.ending? t = none := by
      cases he : s.ending? t with
      | none => rfl
      | some e => exact (hs.ending he).symm.trans hlive
    obtain ⟨a, hb, ha, hlivea⟩ :=
      h.parent ht ((isVisit_congr (program?_congr (hs.shrinks.bareKind t))).1 hv) hnone
    exact ⟨a, (branched_congr (program?_congr (hs.shrinks.bareKind a))).2 hb, ha, hover a t ha hb hnone hlivea⟩
  splitsAt := h.splitsAt.shrinks hs.shrinks
  inStep := hstep

/-- A run stays at work when the clock moves. -/
theorem IsAtWork.advance (h : s.IsAtWork p R slot due) (hready : s.ready = []) (hadvance : s.advance? = some s') :
    ∃ slot' due', s'.IsAtWork p R slot' due' := by
  have hrequestsNothing := requestsNothing_advance hadvance
  obtain ⟨slot', due', -, hstep⟩ := h.inStep.advance hready hadvance
  refine ⟨slot', due', h.addsNoTurn (addsNoTurn_advance hadvance) (fun t _ _ => hrequestsNothing.mustCancel t)
    (fun x _ => hrequestsNothing.asked x) (fun x i _ he => Or.inl ?_) (fun a c _ _ _ hlive => ?_) hstep⟩
  · exact (ending?_advance hadvance).symm.trans he
  · exact (ending?_advance hadvance).trans hlive

/-- A run stays at work when a job that is no task's turn is taken from the queue; one that is of the run
is of the slot then. -/
theorem IsAtWork.drop (h : s.IsAtWork p R slot due) (hready : s.ready = job :: rest) (htask : job.task? = none) :
    ∃ slot' due', (∀ k, job.HasSlot R s k → k = slot') ∧ (s.drop rest).IsAtWork p R slot' due' := by
  obtain ⟨slot', due', -, hhead, hstep⟩ := h.inStep.take hready
  refine ⟨slot', due', fun k hk => (hhead k hk).1, h.addsNoTurn (addsNoTurn_drop hready htask) (fun _ _ _ hm => hm)
    (fun _ _ ha => ha) (fun _ _ _ he => Or.inl he) (fun _ _ _ _ _ hlive => hlive) hstep⟩

/-- A run stays at work when a task takes its turn; one of a visit of the run is at the slot. -/
theorem IsAtWork.takes (h : s.IsAtWork p R slot due) {b : FutureId} (hs : s.Sound b fun _ => False)
    (hready : s.ready = job :: rest) (htask : job.task? = some id) :
    ∃ slot' due', (∀ k, job.HasSlot R s k → k = slot' ∧ ∀ time, p.wait? slot' = some time → s.now + time = due') ∧
      ((s.drop rest).awaken id).IsAtWork p R slot' due' := by
  have htakes : s.Takes id ((s.drop rest).awaken id) := ⟨job, rest, hready, htask, rfl⟩
  obtain ⟨slot', due', -, hhead, hstep⟩ := h.inStep.take hready
  refine ⟨slot', due', hhead, h.addsNoTurn (htakes.addsNoTurn hs) (fun t _ _ => htakes.requestsNothing.mustCancel t)
    (fun x _ => htakes.requestsNothing.asked x) (fun x i _ he => Or.inl ?_) (fun a c _ _ _ hlive => ?_) hstep.awaken⟩
  · exact (htakes.ending? x).symm.trans he
  · exact (htakes.ending? a).trans hlive

/-- A run stays at work when a future ends that is not the run's, or ends well with what follows it. -/
theorem IsAtWork.complete (h : s.IsAtWork p R slot due) {e : Ending}
    (hwell : R ≤ id → s.IsCaller id ∨ e = .ok ())
    (hover : R ≤ id → ∀ c, s.Branched id c → s.ending? c ≠ none)
    (hstep : (s.complete id e).InStep p R slot due) : (s.complete id e).IsAtWork p R slot due := by
  have hrequestsNothing := requestsNothing_complete (s := s) id e
  refine h.addsNoTurn (addsNoTurn_complete id e) (fun t _ _ => hrequestsNothing.mustCancel t)
    (fun x _ => hrequestsNothing.asked x)
    (fun x i hx he => ?_) (fun a c ha hb hc hlive => ?_) hstep
  · rcases ending?_complete_cases (s := s) (i := id) (j := x) e with hsame | ⟨rfl, -, hend⟩
    · exact Or.inl (hsame.symm.trans he)
    · refine Or.inr ((hwell hx).resolve_right ?_)
      rintro rfl
      cases hend.symm.trans he
  · rcases ending?_complete_cases (s := s) (i := id) (j := a) e with hsame | ⟨rfl, -, -⟩
    · exact hsame.trans hlive
    · exact absurd hc (hover ha c hb)

/-- A run stays at work when a child is counted. -/
theorem IsAtWork.countChild (h : s.IsAtWork p R slot due) (hs : s.Sound 0 held) (hfits : s.Fitting p)
    (hid : ∃ children, s.bareKind? id = some (.gathering children) ∧ c ∈ children) :
    (s.countChild id c).IsAtWork p R slot due := by
  obtain ⟨children, hg, hc⟩ := hid
  have hrequestsNothing := requestsNothing_countChild (s := s) id c
  have hvisit := hfits.isVisit_of_mem hg hc
  refine h.addsNoTurn (addsNoTurn_countChild id c) (fun t _ _ => hrequestsNothing.mustCancel t)
    (fun x _ => hrequestsNothing.asked x)
    (fun x i hx he => ?_) (fun a c' _ hb _ hlive => ?_) (h.inStep.countChild hfits.awaitsSleeps hs ?_)
  · rcases ending?_countChild (s := s) (i := id) (c := c) (j := x) with hsame | ⟨rfl, -, hend⟩
    · exact Or.inl (hsame.symm.trans he)
    · have hx' : R ≤ c := Nat.le_of_not_lt fun hlt => absurd ((h.splitsAt.gathering hg c hc).2 hlt)
        (Nat.not_lt_of_le hx)
      rcases hend with ⟨i, hchild, -⟩ | ⟨hasked, -⟩ | hok
      · exact absurd (h.ending hx' hchild) hvisit.not_isCaller
      · exact absurd hasked (h.asked hx)
      · cases hok.symm.trans he
  · rcases ending?_countChild (s := s) (i := id) (c := c) (j := a) with hsame | ⟨rfl, -, -⟩
    · exact hsame.trans hlive
    · obtain ⟨v, cs, hpr, -⟩ := hb
      cases (bareKind?_eq_task_iff.2 hpr).symm.trans hg
  · rw [hg]
    exact fun hcontra => by cases hcontra

/-- A run stays at work when a caller is to keep a request to cancel it. -/
theorem IsAtWork.markCancel (h : s.IsAtWork p R slot due) (hid : t < R ∨ s.IsCaller t) :
    (s.markCancel t).IsAtWork p R slot due := by
  refine h.addsNoTurn (asks_markCancel t).addsNoTurn (fun j hj hv hm => ?_) (fun _ _ => isAsked_modifyTask)
    (fun x i _ he => Or.inl ((ending?_modifyTask _).symm.trans he))
    (fun a c _ _ _ hlive => (ending?_modifyTask _).trans hlive) (h.inStep.keeps (keeps_markCancel t) rfl rfl rfl)
  rw [mustCancel_markCancel] at hm
  split at hm
  · next heq =>
    subst heq
    exact absurd hid (not_or_intro (Nat.not_lt_of_le hj) hv.not_isCaller)
  · exact hm

/-- A run stays at work when a gathering of an earlier one is asked to cancel. -/
theorem IsAtWork.requestCancel (h : s.IsAtWork p R slot due) (hid : id < R) :
    (s.modifyGathering id fun g => { g with cancelRequested := true }).IsAtWork p R slot due := by
  have hkeeps : s.Keeps (s.modifyGathering id fun g => { g with cancelRequested := true }) :=
    keeps_modifyGathering fun _ => rfl
  have htask : ∀ j, (s.modifyGathering id fun g => { g with cancelRequested := true }).task? j = s.task? j :=
    fun j => task?_modifyGathering _
  refine h.addsNoTurn (addsNoTurn_of_task? hkeeps htask fun he => (ending?_modifyGathering _).trans he)
    (fun j hj hv hm => ?_) (fun x hx ha => ?_) (fun x i _ he => Or.inl ((ending?_modifyGathering _).symm.trans he))
    (fun a c _ _ _ hlive => (ending?_modifyGathering _).trans hlive) (h.inStep.keeps hkeeps rfl rfl rfl)
  · rw [mustCancel, htask] at hm
    exact hm
  · obtain ⟨g, hg, hasked⟩ := ha
    rw [kind?, future?_modifyGathering, if_neg (by lia)] at hg
    exact ⟨g, hg, hasked⟩

/-- A run stays at work when visits of an earlier one are asked to cancel. -/
theorem IsAtWork.cancelWithin (h : s.IsAtWork p R slot due) (hs : s.Sound 0 held) (hfits : s.Fitting p) (depth : Nat)
    (hid : id < R) (hvisit : s.IsVisit id) : (cancelWithin depth id s).2.IsAtWork p R slot due := by
  -- The request stays among the futures of earlier runs.
  have hall : s.Keeps (Scheduler.cancelWithin depth id s).2 ∧ (Scheduler.cancelWithin depth id s).2.Sound 0 held ∧
      (Scheduler.cancelWithin depth id s).2.IsAtWork p R slot due := by
    apply cancelWithin_induction_on (Q := fun s' => s.Keeps s' ∧ s'.Sound 0 held ∧ s'.IsAtWork p R slot due)
      (T := fun x => x < R ∧ ¬ s.IsCaller x)
    · rintro s' x ⟨hkeeps, hs', h'⟩ ⟨hx, -⟩ hsleep -
      refine ⟨hkeeps.trans (keeps_complete x _), hs'.complete (Or.inr hsleep) (fun hcontra => by cases hcontra), ?_⟩
      refine h'.complete (fun hcontra => absurd hx (Nat.not_lt_of_le hcontra))
        (fun hcontra => absurd hx (Nat.not_lt_of_le hcontra)) (h'.inStep.complete _ fun job hjob k hk => ?_)
      obtain ⟨t, pr, n, ht, rfl, hwake, hpr, hstage, -⟩ := hs'.wake_of_callback hjob hk
      refine absurd ((h'.splitsAt.wake hwake).resolve_left ?_ |>.2 hx) (Nat.not_lt_of_le ht)
      rintro ⟨pr', hpr', hcaller⟩
      cases hpr.symm.trans hpr'
      cases pr <;> cases hcaller <;> cases hstage
    · rintro s₁ s' x g - ⟨hkeeps, hs', h'⟩ ⟨hx, -⟩ -
      exact ⟨hkeeps.trans (keeps_modifyGathering fun _ => rfl), hs'.requestCancel, h'.requestCancel hx⟩
    · rintro s₁ s' x t - ⟨hkeeps, hs', h'⟩ ⟨hx, -⟩ -
      exact ⟨hkeeps.trans (keeps_markCancel x), hs'.modifyTask _, h'.markCancel (Or.inl hx)⟩
    · rintro s' x g ⟨hkeeps, -, h'⟩ ⟨hx, -⟩ hg c hc
      have hg' := bareKind?_eq_gathering_iff.2 ⟨g, hg, rfl⟩
      refine ⟨(h'.splitsAt.gathering hg' c hc).1 hx, fun hcaller => ?_⟩
      exact ((hfits.keeps hkeeps).isVisit_of_mem hg' hc).not_isCaller ((isCaller_congr (hkeeps.program c)).2 hcaller)
    · rintro s' x t source ⟨hkeeps, -, h'⟩ ⟨hx, hcaller⟩ ht hsource
      have hwaiter : s'.waiter? x = some source := by
        rw [waiter?, task?_eq_some_iff.2 ht, Option.bind_some, hsource]
      have hwake := (hfits.keeps hkeeps).waiter hwaiter
      obtain ⟨-, -, pr, -, hexpects⟩ := (hfits.keeps hkeeps).jobs hwake
      refine ⟨((h'.splitsAt.wake hwake).resolve_left fun hc => ?_).1 hx, fun hc => ?_⟩
      · exact hcaller ((isCaller_congr (hkeeps.program x)).1 hc)
      · exact not_isCaller_of_expects hexpects ((isCaller_congr (hkeeps.program source)).2 hc)
    · exact ⟨Keeps.refl s, hs, h⟩
    · exact ⟨hid, hvisit.not_isCaller⟩
  exact hall.2.2

/-- A run stays at work when several visits of an earlier one are asked to cancel. -/
theorem IsAtWork.cancelAll (h : s.IsAtWork p R slot due) (hs : s.Sound 0 held) (hfits : s.Fitting p)
    {ids : List FutureId}
    (hids : ∀ c ∈ ids, c < R ∧ s.IsVisit c) : (s.cancelAll ids).IsAtWork p R slot due := by
  induction ids generalizing s with
  | nil => exact h
  | cons c ids ih =>
    obtain ⟨⟨hc, hvisit⟩, hrest⟩ := List.forall_mem_cons.1 hids
    have hkeeps : s.Keeps (s.cancel c).2 := (asks_cancel c).keeps
    refine ih (h.cancelWithin hs hfits _ hc hvisit) (hs.cancelWithin _ c) (hfits.keeps hkeeps) fun c' hc' => ?_
    exact ⟨(hrest c' hc').1, (isVisit_congr (hkeeps.program c')).2 (hrest c' hc').2⟩

end Scheduler

end PipelineGraph.Simulation
