import PipelineGraph.Proofs.Simulation.WellFormedSessions

/-!
# Regular schedulers

A session has at most one run under way, with one caller that waits for it. Either all visits are
stopped, or the run is at work; and once no run is under way all visits are stopped, whatever is left of
earlier ones.
-/

namespace PipelineGraph.Simulation

open Relation

namespace Scheduler

/-- All visits are stopped, and in the run under way something has failed or the visits are interrupted. -/
structure HasStopped (p : Plan) (run : Option FutureId) (s : Scheduler Program Action) : Prop where
  allStopped : s.AllStopped p
  stopped : ∀ R, run = some R → s.HasFailed R ∨ s.IsInterrupted R

/-- The scheduler of a session with a run under way, or none, and callers, whose plan is shallow. -/
structure Regular (p : Plan) (run : Option FutureId) (callers : List FutureId) (held : FutureId → Prop)
    (s : Scheduler Program Action) : Prop where
  shallow : p.IsShallow
  sound : s.Sound 0 held
  fitting : s.Fitting p
  callers : ∀ x ∈ callers, s.IsCaller x
  awaited : s.RunIsAwaited run held
  phase : s.HasStopped p run ∨ ∃ R slot due, run = some R ∧ s.IsAtWork p R slot due

variable {p : Plan} {s s' awake : Scheduler Program Action} {run : Option FutureId} {callers : List FutureId}
  {held held' : FutureId → Prop} {id t x R : FutureId} {job : Job Action} {rest : List (Job Action)} {e : Ending}

/-- What is regular is well-formed. -/
theorem Regular.wellFormed (h : s.Regular p run callers held) : s.WellFormed p run callers held :=
  ⟨h.sound, h.fitting, h.callers, h.awaited⟩

/-- What has stopped stays so in a scheduler that adds no turn. -/
theorem HasStopped.addsNoTurn (h : s.HasStopped p run) (hs : s.AddsNoTurn s') : s'.HasStopped p run where
  allStopped := h.allStopped.addsNoTurn hs
  stopped R hrun := (h.stopped R hrun).imp (fun hfailed => hfailed.addsNoTurn hs) fun hinterrupted =>
    hinterrupted.addsNoTurn hs

/-- A run under way that is interrupted has stopped, if the visits of earlier ones are stopped. -/
theorem IsInterrupted.hasStopped (h : s.IsInterrupted R) (hold : ∀ t < R, s.IsStopped p t) : s.HasStopped p (some R) :=
  ⟨h.allStopped hold, fun _ hR => Or.inr (Option.some.inj hR ▸ h)⟩

/-- A run under way in which something has failed has stopped, if all visits are stopped. -/
theorem HasFailed.hasStopped (h : s.HasFailed R) (hallStopped : s.AllStopped p) : s.HasStopped p (some R) :=
  ⟨hallStopped, fun _ hR => Or.inl (Option.some.inj hR ▸ h)⟩

/-- What is well-formed is regular in a shallow plan if it has stopped or a run is at work. -/
theorem WellFormed.regular (h : s.WellFormed p run callers held) (hp : p.IsShallow)
    (hphase : s.HasStopped p run ∨ ∃ R slot due, run = some R ∧ s.IsAtWork p R slot due) :
    s.Regular p run callers held :=
  ⟨hp, h.sound, h.fitting, h.callers, h.awaited, hphase⟩

/-- What has stopped stays so in a scheduler that adds no turn, and a run at work stays so or stops. -/
theorem Regular.phase_of_addsNoTurn (h : s.Regular p run callers held) (hs : s.AddsNoTurn s')
    (hphase : ∀ R slot due, run = some R → s.IsAtWork p R slot due →
      s'.HasStopped p run ∨ ∃ slot due, s'.IsAtWork p R slot due) :
    s'.HasStopped p run ∨ ∃ R slot due, run = some R ∧ s'.IsAtWork p R slot due := by
  rcases h.phase with hallStopped | ⟨R, slot, due, hrun, hatWork⟩
  · exact Or.inl (hallStopped.addsNoTurn hs)
  · exact (hphase R slot due hrun hatWork).imp_right fun ⟨slot, due, hl⟩ => ⟨R, slot, due, hrun, hl⟩

/-- The clock keeps a scheduler regular. -/
theorem Regular.advance (h : s.Regular p run callers fun _ => False) (hready : s.ready = [])
    (hadvance : s.advance? = some s') : s'.Regular p run callers fun _ => False :=
  (h.wellFormed.advance hadvance).regular h.shallow <| h.phase_of_addsNoTurn (addsNoTurn_advance hadvance)
    fun _ _ _ _ hl =>
    Or.inr (hl.advance hready hadvance)

/-- The end of a sleep keeps a scheduler regular. -/
theorem Regular.elapse (h : s.Regular p run callers fun _ => False) (hready : s.ready = .elapse x :: rest) :
    ((s.drop rest).complete x (.ok ())).Regular p run callers fun _ => False := by
  have hsleep : s.bareKind? x = some .sleep :=
    bareKind?_eq_sleep_iff.2 (h.sound.elapse_sleep (mem_jobs_of_ready hready))
  refine (h.wellFormed.elapse hready).regular h.shallow <|
    h.phase_of_addsNoTurn ((addsNoTurn_drop hready rfl).trans (addsNoTurn_complete x _)) fun R slot due _ hl => ?_
  obtain ⟨slot', due', hhead, hl'⟩ := hl.drop hready rfl
  refine Or.inr ⟨slot', due', hl'.complete (fun _ => Or.inr rfl) (fun _ c hb => ?_)
    (hl'.inStep.elapse h.sound hready hhead)⟩
  obtain ⟨v, children, hpr, -⟩ := hb
  cases (bareKind?_eq_task_iff.2 hpr).symm.trans hsleep

/-- A child that is counted keeps a scheduler regular. -/
theorem Regular.countChild {g c : FutureId} (h : s.Regular p run callers fun _ => False)
    (hready : s.ready = .count g c :: rest) :
    ((s.drop rest).countChild g c).Regular p run callers fun _ => False := by
  obtain ⟨-, gs, hg, hc⟩ := h.sound.count_child (mem_jobs_of_ready hready)
  refine (h.wellFormed.countChild hready).regular h.shallow <|
    h.phase_of_addsNoTurn ((addsNoTurn_drop hready rfl).trans (addsNoTurn_countChild g c)) fun R slot due _ hl => ?_
  obtain ⟨slot', due', -, hl'⟩ := hl.drop hready rfl
  exact Or.inr ⟨slot', due', hl'.countChild (h.sound.pop hready) (h.fitting.drop hready rfl)
    ⟨gs.children, bareKind?_eq_gathering_iff.2 ⟨gs, hg, rfl⟩, hc⟩⟩

/-- To take an action from the queue keeps a scheduler regular. -/
theorem Regular.drop {a : Action} (h : s.Regular p run callers fun _ => False) (hready : s.ready = .act a :: rest) :
    (s.drop rest).Regular p run callers fun _ => False := by
  refine (h.wellFormed.drop hready).regular h.shallow <| h.phase_of_addsNoTurn (addsNoTurn_drop hready rfl)
    fun R slot due _ hl => ?_
  obtain ⟨slot', due', -, hl'⟩ := hl.drop hready rfl
  exact Or.inr ⟨slot', due', hl'⟩

/-! ## Requests to cancel -/

/-- A run at work stays so or is interrupted, when requests come for it or for callers. -/
theorem IsAtWork.cancelCallers {slot due : Nat} (h : s.IsAtWork p R slot due) (hfits : s.Fitting p) (hp : p.IsShallow)
    (hs : s.Sound 0 held) (hheld : ∀ a, held a → ∀ c, ¬ s.Branched a c)
    (hawaited : ∀ K, s.AwaitsRun K → s.waiter? K = some R) {xs : List FutureId}
    (hxs : ∀ x ∈ xs, x = R ∨ s.IsCaller x) :
    (s.cancelAll xs).IsAtWork p R slot due ∨ (s.cancelAll xs).IsInterrupted R ∧ ∀ {t pr}, R ≤ t →
      s.program? t = some pr →
      pr.isActive = true → s.ending? t = none → (s.cancelAll xs).IsReached t := by
  induction xs generalizing s with
  | nil => exact Or.inl h
  | cons x xs ih =>
    obtain ⟨hx, hrest⟩ := List.forall_mem_cons.1 hxs
    have hasks := asks_cancel (s := s) x
    have hprogram := hasks.keeps.program
    have hlive : ∀ {t pr}, s.program? t = some pr → (s.cancel x).2.ending? t = s.ending? t := fun hpr =>
      hasks.ending_of_ne_sleep fun hsleep => by cases (bareKind?_eq_task_iff.2 hpr).symm.trans hsleep
    rcases h.cancel hfits hp hs hheld hx fun c hpr hnone =>
      hawaited x ⟨c, hpr, hnone⟩ with hl | ⟨hinterrupted, hreached⟩
    · refine (ih hl (hfits.keeps hasks.keeps) (hs.cancelWithin _ x) (fun a ha c hb => hheld a ha c ?_) (fun K hK => ?_)
        fun y hy => (hrest y hy).imp_right (isCaller_congr (hprogram y)).2).imp_right fun ⟨hinterrupted, hreached⟩ =>
          ⟨hinterrupted, fun ht hpr hactive hnone =>
            hreached ht ((hprogram _).trans hpr) hactive ((hlive hpr).trans hnone)⟩
      · exact (branched_congr (hprogram a)).1 hb
      · obtain ⟨c, hpr, hnone⟩ := hK
        have hpr' := (hprogram K).symm.trans hpr
        exact (hasks.keeps.waiter K).trans (hawaited K ⟨c, hpr', (hlive hpr').symm.trans hnone⟩)
    · have hmore := asks_cancelAll (s := (s.cancel x).2) xs
      exact Or.inr ⟨hinterrupted.addsNoTurn hmore.addsNoTurn, fun ht hpr hactive hnone =>
        (hreached ht hpr hactive hnone).asks hmore⟩

/-- Requests to cancel the run or callers keep a scheduler regular. -/
theorem Regular.cancelAll (h : s.Regular p run callers held) (hheld : ∀ a, held a → ∀ c, ¬ s.Branched a c)
    (hawaited : ∀ K, s.AwaitsRun K → ¬ held K) {xs : List FutureId}
    (hxs : ∀ x ∈ xs, run = some x ∨ x ∈ callers) : (s.cancelAll xs).Regular p run callers held := by
  refine (h.wellFormed.cancelAll xs).regular h.shallow <|
    h.phase_of_addsNoTurn (asks_cancelAll xs).addsNoTurn fun R slot due hrun hl => ?_
  obtain ⟨-, K, -, hwaiter, hunique⟩ := h.awaited.root R hrun
  have haddsNoTurn := (asks_cancelAll (s := s) xs).addsNoTurn
  refine (hl.cancelCallers h.fitting h.shallow h.sound hheld (fun t ht => ?_) fun x hx => ?_).symm.imp
    (fun ⟨hinterrupted, _⟩ => hrun ▸ hinterrupted.hasStopped fun t ht => (hl.old t ht).addsNoTurn haddsNoTurn)
      fun hl' => ⟨slot, due, hl'⟩
  · rw [hunique t ht]
    exact hwaiter (hunique t ht ▸ hawaited t ht)
  · rcases hxs x hx with hroot | hcaller
    · exact Or.inl (Option.some.inj (hroot.symm.trans hrun))
    · exact Or.inr (h.callers x hcaller)

/-! ## Turns that end -/

/-- A scheduler stays regular, apart from a task that takes its turn. -/
theorem Regular.takes (h : s.Regular p run callers fun _ => False) (hready : s.ready = job :: rest)
    (htask : job.task? = some id) : ((s.drop rest).awaken id).Regular p run callers fun j => j = id := by
  have htakes : s.Takes id ((s.drop rest).awaken id) := ⟨job, rest, hready, htask, rfl⟩
  refine (h.wellFormed.takes hready htask).regular h.shallow <|
    h.phase_of_addsNoTurn (htakes.addsNoTurn h.sound) fun R slot due _ hl => ?_
  obtain ⟨slot', due', -, hl'⟩ := hl.takes h.sound hready htask
  exact Or.inr ⟨slot', due', hl'⟩

/-- A run stays at work when a task ends that is not the run's, or ends well with what follows it. -/
theorem IsAtWork.endTask {slot due : Nat} (h : s.IsAtWork p R slot due) (hfits : s.Fitting p) (hs : s.Sound 0 held)
    {pr : Program} (hpr : s.program? id = some pr) {e : Ending} (hwell : R ≤ id → s.IsCaller id ∨ e = .ok ())
    (hover : R ≤ id → ∀ c, s.Branched id c → s.ending? c ≠ none) : (s.complete id e).IsAtWork p R slot due := by
  refine h.complete hwell hover (h.inStep.complete_of_ne_sleep hfits.awaitsSleeps hs ?_ e)
  rw [bareKind?_eq_task_iff.2 hpr]
  exact fun hcontra => by cases hcontra

/-- A task that awaits no run keeps a scheduler regular when it ends. -/
theorem Regular.complete (h : s.Regular p run callers fun j => j = id) {pr : Program}
    (hpr : s.program? id = some pr) (hnot : ∀ caller, pr ≠ .conclude caller) (e : Ending)
    (hphase : ∀ R slot due, run = some R → s.IsAtWork p R slot due →
      (s.complete id e).HasStopped p run ∨ ∃ slot due, (s.complete id e).IsAtWork p R slot due) :
    (s.complete id e).Regular p run callers fun _ => False :=
  (h.wellFormed.complete hpr hnot e).regular h.shallow (h.phase_of_addsNoTurn (addsNoTurn_complete id e) hphase)

/-- A turn in which a task of an earlier run ends, or a caller, or a visit whose children have ended well,
keeps a scheduler regular. -/
theorem Regular.ends (h : s.Regular p run callers fun _ => False) (hready : s.ready = job :: rest)
    (htask : job.task? = some id) {pr : Program} (hpr : s.program? id = some pr)
    (hnot : ∀ caller, pr ≠ .conclude caller) (e : Ending)
    (hwell : ∀ R slot due, s.IsAtWork p R slot due → R ≤ id →
      (s.IsCaller id ∨ e = .ok ()) ∧ ∀ c, s.Branched id c → s.ending? c ≠ none) :
    (((s.drop rest).awaken id).complete id e).Regular p run callers fun _ => False := by
  have htakes : s.Takes id ((s.drop rest).awaken id) := ⟨job, rest, hready, htask, rfl⟩
  have hawake := h.takes hready htask
  have hprogram := htakes.program?
  refine hawake.complete ((hprogram id).trans hpr) hnot e fun R slot due hrun _ => ?_
  rcases h.phase with hstopped | ⟨R', slot', due', hrun', hl⟩
  · exact Or.inl ((hstopped.addsNoTurn (htakes.addsNoTurn h.sound)).addsNoTurn (addsNoTurn_complete id e))
  · cases hrun.symm.trans hrun'
    obtain ⟨slot, due, -, hl'⟩ := hl.takes h.sound hready htask
    refine Or.inr ⟨slot, due, hl'.endTask hawake.fitting hawake.sound ((hprogram id).trans hpr) (fun hid => ?_)
      fun hid c hb => ?_⟩
    · exact (hwell _ _ _ hl hid).1.imp_left (isCaller_congr (hprogram id)).2
    · rw [htakes.ending?]
      exact (hwell _ _ _ hl hid).2 c ((branched_congr (hprogram id)).1 hb)

/-- A turn in which a visit at work or a new caller is interrupted keeps a scheduler regular. -/
theorem Regular.halt (h : s.Regular p run callers fun _ => False) (hready : s.ready = job :: rest)
    (htask : job.task? = some id) {pr : Program} (hpr : s.program? id = some pr) (hqueued : pr.isQueued = true)
    {i : Interrupt} (hinterrupt : s.interrupt? id job = some i) :
    (((s.drop rest).awaken id).complete id (.error i)).Regular p run callers fun _ => False := by
  have hjob : job ∈ s.jobs := mem_jobs_of_ready hready
  refine h.ends hready htask hpr (fun caller heq => ?_) _ fun R slot due hl hid => ⟨Or.inl ?_, ?_⟩
  · subst heq
    cases hqueued
  · have hvisit : pr.isActive = true → False := fun hactive => by
      cases (hl.interrupt? h.fitting hjob htask hid (isVisit_of_isActive hpr hactive)).symm.trans hinterrupt
    cases pr with
    | enter | leave | fanOut => exact (hvisit rfl).elim
    | call => exact ⟨_, hpr, rfl⟩
    | join | conclude => cases hqueued
  · rintro c ⟨v, children, hpr', -⟩
    cases hpr.symm.trans hpr'
    cases hqueued

/-- A visit that has branched keeps a scheduler regular when it ends as its children have. -/
theorem Regular.join (h : s.Regular p run callers fun _ => False) (hready : s.ready = job :: rest)
    (htask : job.task? = some id) {v : Visit} {children : List FutureId}
    (hpr : s.program? id = some (.join v children)) (hcalm : s.interrupt? id job = none) :
    (((s.drop rest).awaken id).complete id (.ok ())).Regular p run callers fun _ => False := by
  have hjob : job ∈ s.jobs := mem_jobs_of_ready hready
  refine h.ends hready htask hpr (fun caller heq => by cases heq) _ fun R slot due _ _ => ⟨Or.inr rfl, ?_⟩
  rintro c ⟨v', children', hpr', hc⟩
  cases hpr.symm.trans hpr'
  have hfit := h.fitting.jobs hjob
  cases job with
  | count | elapse | act => cases htask
  | resume =>
    cases htask
    obtain ⟨-, pr, hpr', hqueued⟩ := hfit
    cases hpr.symm.trans hpr'
    cases hqueued
  | wake _ g =>
    cases htask
    obtain ⟨-, -, pr, hpr', hexpects⟩ := hfit
    cases hpr.symm.trans hpr'
    have hg : s.bareKind? g = some (.gathering children) := hexpects
    have hqueued : .wake id g ∈ s.ready := hready ▸ List.mem_cons_self
    have hended : s.ending? g ≠ none := h.sound.ready_source hqueued rfl
    cases he : s.ending? g with
    | none => exact absurd he hended
    | some e =>
      cases e with
      | error i =>
        have hinterrupt : ∃ i, s.interrupt? id (.wake id g) = some i :=
          exists_interrupt?_iff.2 (Or.inr ⟨g, i, rfl, he⟩)
        obtain ⟨i', hi'⟩ := hinterrupt
        cases hcalm.symm.trans hi'
      | ok =>
        obtain ⟨f, hf, hend⟩ := ending?_eq_some_iff.1 he
        obtain ⟨gs, hk, hchildren⟩ := bareKind?_eq_gathering_iff.1 hg
        obtain ⟨f', hf', hk'⟩ := kind?_eq_some_iff.1 hk
        cases hf.symm.trans hf'
        rw [h.sound.children_ok (Nat.zero_le g) hf hk' hend c (hchildren ▸ hc)]
        exact Option.some_ne_none _

/-- A visit that turns out too deep keeps a scheduler regular. -/
theorem Regular.deep (h : s.Regular p run callers fun _ => False) (hready : s.ready = job :: rest)
    (htask : job.task? = some id) {v : Visit} (hpr : s.program? id = some (.enter v)) (hdeep : p.maxDepth < v.depth)
    (f : Fault) :
    (((s.drop rest).awaken id).complete id (.error (.fault f))).Regular p run callers fun _ => False := by
  have htakes : s.Takes id ((s.drop rest).awaken id) := ⟨job, rest, hready, htask, rfl⟩
  have hawake := h.takes hready htask
  have hpr' := (htakes.program? id).trans hpr
  obtain ⟨state, ht⟩ := exists_kind?_of_program? hpr'
  refine hawake.complete hpr' (fun caller heq => by cases heq) _ fun R slot due hrun _ => ?_
  rcases h.phase with hstopped | ⟨R', slot', due', hrun', hl⟩
  · exact Or.inl ((hstopped.addsNoTurn (htakes.addsNoTurn h.sound)).addsNoTurn (addsNoTurn_complete id _))
  · cases hrun.symm.trans hrun'
    obtain ⟨slot, due, hhead, hl'⟩ := hl.takes h.sound hready htask
    rcases Nat.lt_or_ge id R with hold | hid
    · exact Or.inr ⟨slot, due, hl'.endTask hawake.fitting hawake.sound hpr'
        (fun hcontra => absurd hold (Nat.not_lt_of_le hcontra)) fun hcontra => absurd hold (Nat.not_lt_of_le hcontra)⟩
    · -- The visits go in step, so all of them are as deep by now.
      obtain ⟨rfl, -⟩ := hhead _ (.turn hid htask hpr rfl)
      have hne : ((s.drop rest).awaken id).bareKind? id ≠ some .sleep := by
        rw [bareKind?_eq_task_iff.2 hpr']
        exact fun hcontra => by cases hcontra
      have hfailed : (((s.drop rest).awaken id).complete id (.error (.fault f))).HasFailed R :=
        hasFailed_complete hid (isVisit_of_isActive hpr' rfl) ((htakes.ending? id).trans (htakes.live h.sound).2)
      exact Or.inl (hrun ▸ hfailed.hasStopped (allStopped_of_deep
        (fun t ht => (hl'.old t ht).addsNoTurn (addsNoTurn_complete id _))
        (hl'.inStep.complete_of_ne_sleep hawake.fitting.awaitsSleeps hawake.sound hne _)
        (hawake.fitting.keeps (keeps_complete id _)) (hawake.sound.endHeld ht (Nat.zero_le id) _) hdeep))

/-- A visit that is interrupted as it waits for its children keeps a scheduler regular. -/
theorem Regular.abandon (h : s.Regular p run callers fun _ => False) (hready : s.ready = job :: rest)
    (htask : job.task? = some id) {v : Visit} {children : List FutureId}
    (hpr : s.program? id = some (.join v children)) {i : Interrupt} (hinterrupt : s.interrupt? id job = some i) :
    ((((s.drop rest).awaken id).cancelAll children).complete id (.error i)).Regular p run callers fun _ => False := by
  have hjob : job ∈ s.jobs := mem_jobs_of_ready hready
  have htakes : s.Takes id ((s.drop rest).awaken id) := ⟨job, rest, hready, htask, rfl⟩
  have hawake := h.takes hready htask
  have hpr' := (htakes.program? id).trans hpr
  have hasks := asks_cancelAll (s := (s.drop rest).awaken id) children
  -- The children are those of an earlier run, for nothing interrupts the visits of a run at work.
  have hl : ∀ R slot due, run = some R → s.IsAtWork p R slot due → ∃ slot due, id < R ∧
      (((s.drop rest).awaken id).cancelAll children).IsAtWork p R slot due := by
    intro R slot due _ hl
    obtain ⟨slot', due', -, hl'⟩ := hl.takes h.sound hready htask
    have hid : id < R := by
      refine Nat.lt_of_not_le fun hcontra => ?_
      have hvisit : s.IsVisit id := isVisit_iff.2 ⟨_, v, hpr, rfl⟩
      cases (hl.interrupt? h.fitting hjob htask hcontra hvisit).symm.trans hinterrupt
    refine ⟨slot', due', hid, hl'.cancelAll hawake.sound hawake.fitting fun c hc => ⟨?_, ?_⟩⟩
    · exact (hl'.splitsAt.branched ⟨v, children, hpr', hc⟩).1 hid
    · exact (hawake.fitting.child hpr' hc).2
  have hregular : (((s.drop rest).awaken id).cancelAll children).Regular p run callers fun j => j = id := by
    refine (hawake.wellFormed.cancelAll children).regular h.shallow <|
      hawake.phase_of_addsNoTurn hasks.addsNoTurn fun R slot due hrun _ => ?_
    rcases h.phase with hstopped | ⟨R', slot', due', hrun', hatWork⟩
    · exact Or.inl ((hstopped.addsNoTurn (htakes.addsNoTurn h.sound)).addsNoTurn hasks.addsNoTurn)
    · cases hrun.symm.trans hrun'
      obtain ⟨slot, due, -, hl'⟩ := hl R slot' due' hrun' hatWork
      exact Or.inr ⟨slot, due, hl'⟩
  have hpr'' := (hasks.keeps.program id).trans hpr'
  refine hregular.complete hpr'' (fun caller heq => by cases heq) _ fun R slot due hrun _ => ?_
  rcases h.phase with hstopped | ⟨R', slot', due', hrun', hatWork⟩
  · exact Or.inl (((hstopped.addsNoTurn (htakes.addsNoTurn h.sound)).addsNoTurn hasks.addsNoTurn).addsNoTurn
      (addsNoTurn_complete id _))
  · cases hrun.symm.trans hrun'
    obtain ⟨slot, due, hid, hl'⟩ := hl R slot' due' hrun' hatWork
    exact Or.inr ⟨slot, due, hl'.endTask hregular.fitting hregular.sound hpr''
      (fun hcontra => absurd hid (Nat.not_lt_of_le hcontra)) fun hcontra => absurd hid (Nat.not_lt_of_le hcontra)⟩

/-! ## Visits at work -/

/-- A visit whose turn is neither interrupted nor too deep is one of the run at work. -/
theorem Regular.at_work (h : s.Regular p run callers held) (hready : s.ready = job :: rest)
    (htask : job.task? = some id) {pr : Program} (hpr : s.program? id = some pr) (hactive : pr.isActive = true)
    (hcalm : s.interrupt? id job = none) (hnot : ¬ pr.IsDeep p) :
    ∃ R slot due, run = some R ∧ R ≤ id ∧ s.IsAtWork p R slot due := by
  have hloud : ¬ s.IsStopped p id := by
    intro hstops
    rcases hstops job (mem_jobs_of_ready hready) htask pr hpr hactive with hdeep | ⟨i, hi⟩
    · exact hnot hdeep
    · cases hcalm.symm.trans hi
  obtain ⟨R, slot, due, hrun, hl⟩ := h.phase.resolve_left fun hstopped => hloud (hstopped.allStopped id)
  exact ⟨R, slot, due, hrun, Nat.le_of_not_lt fun hlt => hloud (hl.old id hlt), hl⟩

/-- Requests to cancel that come in the turn of a visit of the run at work leave the run at work, or they
bar it and the visit keeps one of them. -/
theorem Regular.work (h : s.Regular p run callers fun _ => False) (hready : s.ready = job :: rest)
    (htask : job.task? = some id) {pr : Program} (hpr : s.program? id = some pr) (hactive : pr.isActive = true)
    (hcalm : s.interrupt? id job = none) (hnot : ¬ pr.IsDeep p) {xs : List FutureId}
    (hxs : ∀ x ∈ xs, run = some x ∨ x ∈ callers) (hs' : s' = ((s.drop rest).awaken id).cancelAll xs) :
    s'.Regular p run callers (fun j => j = id) ∧ ∃ R n due, run = some R ∧ R ≤ id ∧ pr.stage? = some n ∧
      (∀ time, p.wait? (2 * n + 1) = some time → s'.now + time = due) ∧
      (s'.IsAtWork p R (2 * n + 1) due ∨ (∀ t < R, s'.IsStopped p t) ∧ s'.IsInterrupted R ∧
        s'.mustCancel id = true) := by
  have htakes : s.Takes id ((s.drop rest).awaken id) := ⟨job, rest, hready, htask, rfl⟩
  have hawake := h.takes hready htask
  have hpr' := (htakes.program? id).trans hpr
  have hvisit : ((s.drop rest).awaken id).IsVisit id := isVisit_of_isActive hpr' hactive
  have hheld : ∀ a, a = id → ∀ c, ¬ ((s.drop rest).awaken id).Branched a c := by
    rintro a rfl c ⟨v, children, hcontra, -⟩
    cases hpr'.symm.trans hcontra
    cases hactive
  have hawaited : ∀ K, ((s.drop rest).awaken id).AwaitsRun K → K ≠ id := fun K hK => hK.ne_visit hvisit
  obtain ⟨R, slot, due, hrun, hid, hl⟩ := h.at_work hready htask hpr hactive hcalm hnot
  obtain ⟨slot', due', hhead, hl'⟩ := hl.takes h.sound hready htask
  obtain ⟨n, hstage⟩ := Program.exists_stage hactive
  obtain ⟨rfl, hdue⟩ := hhead _ (.turn hid htask hpr hstage)
  have hnow : s'.now = s.now := by
    rw [hs']
    exact (timers_cancelAll xs).2
  subst hs'
  refine ⟨hawake.cancelAll hheld hawaited hxs, R, n, due', hrun, hid, hstage, fun time htime => ?_, ?_⟩
  · rw [hnow]
    exact hdue time htime
  · obtain ⟨-, K, -, hwaiter, hunique⟩ := hawake.awaited.root R hrun
    refine (hl'.cancelCallers hawake.fitting h.shallow hawake.sound hheld (fun t ht => ?_) fun x hx => ?_).imp_right
      fun ⟨hinterrupted, hreached⟩ => ⟨fun t ht => (hl'.old t ht).addsNoTurn (asks_cancelAll xs).addsNoTurn,
        hinterrupted, ?_⟩
    · rw [hunique t ht]
      exact hwaiter (hunique t ht ▸ hawaited t ht)
    · rcases hxs x hx with hroot | hcaller
      · exact Or.inl (Option.some.inj (hroot.symm.trans hrun))
      · exact Or.inr (hawake.callers x hcaller)
    · have hreach := hreached hid hpr' hactive ((htakes.ending? id).trans (htakes.live h.sound).2)
      refine hreach.resolve_right fun ⟨y, hy, _⟩ => ?_
      rw [(asks_cancelAll xs).keeps.waiter, waiter?_awaken, if_pos rfl] at hy
      cases hy

section Work

variable (h : s.Regular p run callers fun _ => False) (hready : s.ready = job :: rest) (htask : job.task? = some id)
  (hcalm : s.interrupt? id job = none) {xs : List FutureId} (hxs : ∀ x ∈ xs, run = some x ∨ x ∈ callers)
  (hawake : awake = ((s.drop rest).awaken id).cancelAll xs)

include h hready htask hcalm hxs hawake

/-- A visit that goes on behind a delay keeps a scheduler regular. -/
theorem Regular.goes {pr next : Program} {d : Delay} (hpr : s.program? id = some pr) (hnext : pr.Continues p next d)
    (hgoes : awake.Goes id next d s') : s'.Regular p run callers fun _ => False := by
  obtain ⟨hactive, hnot⟩ := hnext.at_work
  obtain ⟨hregular, R, n, due, hrun, hid, hstage, hdue, hphase⟩ := h.work hready htask hpr hactive hcalm hnot hxs hawake
  obtain ⟨hpr', -, hlive, hidle⟩ := h.sound.asked_turn hready htask hpr hawake
  have hwellFormed := h.wellFormed.goes hready htask hawake hpr hnext hgoes
  refine hwellFormed.regular h.shallow ?_
  rcases hphase with hl | ⟨hold, hinterrupted, hmust⟩
  · obtain ⟨m, hstage', hstage'', hdelay⟩ := hnext.stage
    cases hstage.symm.trans hstage'
    exact Or.inr ⟨R, _, due, hrun,
      hl.goes hdue hregular.sound hidle hid hpr' hlive hnext hstage'' hdelay hgoes hwellFormed.fitting⟩
  · refine Or.inl (hrun ▸ IsInterrupted.hasStopped ⟨?_, fun t ht q => ?_⟩ fun t ht => ?_)
    · exact hinterrupted.splitsAt.goes hidle hid hpr' hnext hgoes hwellFormed.fitting
    · exact .goes (fun _ => hinterrupted.isStopped t ht q) hmust hpr' hgoes hwellFormed.fitting
    · exact .goes (fun _ => hold t ht) hmust hpr' hgoes hwellFormed.fitting

/-- A visit that cannot wait for its delay keeps a scheduler regular when it fails. -/
theorem Regular.unusable {pr next : Program} {d : Delay} (hpr : s.program? id = some pr) (hnext : pr.Continues p next d)
    (hd : ¬ d.IsUsable) (f : Fault) : (awake.complete id (.error (.fault f))).Regular p run callers fun _ => False := by
  obtain ⟨hactive, hnot⟩ := hnext.at_work
  obtain ⟨hregular, R, n, due, hrun, hid, -, -, hphase⟩ := h.work hready htask hpr hactive hcalm hnot hxs hawake
  obtain ⟨hpr', -, hlive, hidle⟩ := h.sound.asked_turn hready htask hpr hawake
  refine hregular.complete hpr' (fun caller heq => ?_) _ fun R' slot due' hrun' _ => Or.inl ?_
  · subst heq
    cases hactive
  cases hrun.symm.trans hrun'
  have hvisit := isVisit_of_isActive hpr' hactive
  rcases hphase with hl | ⟨hold, hinterrupted, -⟩
  · -- No visit has got past its delays, so the root is the only one.
    have hbranched : ∀ a c, ¬ awake.Branched a c := by
      rintro a c ⟨v, children, ha, -⟩
      obtain ⟨-, -, hdwell, hedge⟩ := hregular.fitting.proper ha
      cases hnext with
      | enter => exact hd hdwell
      | leave => exact hd hedge
    have honly : ∀ t, R < t → awake.IsVisit t → awake.ending? t ≠ none := by
      intro t ht hv hlive
      obtain ⟨a, hb, -⟩ := hl.parent ht hv hlive
      exact hbranched a t hb
    have hroot : id = R := by
      refine (Nat.eq_or_lt_of_le hid).elim Eq.symm fun hlt => ?_
      exact absurd hlive (honly id hlt hvisit)
    have hallStopped : awake.AllStopped p := by
      intro t
      rcases Nat.lt_trichotomy t R with hlt | heq | hgt
      · exact hl.old t hlt
      · exact isStopped_of_idle (heq.trans hroot.symm ▸ hidle)
      · intro job hjob htask' pr' hpr'' hactive'
        obtain ⟨-, -, hlive, -⟩ := hregular.sound.live_of_mem hjob htask'
        exact absurd hlive (honly t hgt (isVisit_of_isActive hpr'' hactive'))
    exact hrun ▸ (hasFailed_complete hid hvisit hlive).hasStopped (hallStopped.addsNoTurn (addsNoTurn_complete id _))
  · exact hrun ▸ (hinterrupted.hasStopped hold).addsNoTurn (addsNoTurn_complete id _)

/-- A visit that branches keeps a scheduler regular. -/
theorem Regular.fork {v : Visit} (hpr : s.program? id = some (.fanOut v)) :
    (awake.branch id ((Engine.followers v).map .enter) (.join v)).Regular p run callers fun _ => False := by
  obtain ⟨hregular, R, n, due, hrun, hid, hstage, hdue, hphase⟩ :=
    h.work hready htask hpr rfl hcalm (fun hdeep => hdeep) hxs hawake
  obtain ⟨hpr', -, hlive, hidle⟩ := h.sound.asked_turn hready htask hpr hawake
  have hwellFormed := h.wellFormed.fork hready htask hawake hpr
  refine hwellFormed.regular h.shallow ?_
  rcases hphase with hl | ⟨hold, hinterrupted, hmust⟩
  · cases hstage
    exact Or.inr ⟨R, _, due, hrun, hl.branch hregular.sound hidle hid hpr' hlive hwellFormed.fitting⟩
  · refine Or.inl (hrun ▸ IsInterrupted.hasStopped ⟨?_, fun t ht q => ?_⟩ fun t ht => ?_)
    · exact hinterrupted.splitsAt.branch hidle hid hpr' hwellFormed.fitting
    · exact .branch (fun _ => hinterrupted.isStopped t ht q) h.shallow hmust hpr' hwellFormed.fitting
    · exact .branch (fun _ => hold t ht) h.shallow hmust hpr' hwellFormed.fitting

/-- A visit that ends without branching keeps a scheduler regular. -/
theorem Regular.leaf {v : Visit} (hpr : s.program? id = some (.leave v)) :
    (awake.endTask id).Regular p run callers fun _ => False := by
  obtain ⟨hregular, R, n, due, hrun, hid, -, -, hphase⟩ :=
    h.work hready htask hpr rfl hcalm (fun hdeep => hdeep) hxs hawake
  obtain ⟨hpr', -⟩ := h.sound.asked_turn hready htask hpr hawake
  refine hregular.complete hpr' (fun caller heq => by cases heq) _ fun R' slot due' hrun' _ => ?_
  cases hrun.symm.trans hrun'
  rcases hphase with hl | ⟨hold, hinterrupted, -⟩
  · refine Or.inr ⟨_, _, hl.endTask hregular.fitting hregular.sound hpr' (fun _ => Or.inr ?_) fun _ c hb => ?_⟩
    · rw [hl.must hid (isVisit_of_isActive hpr' rfl)]
      rfl
    · obtain ⟨v', children, hcontra, -⟩ := hb
      cases hpr'.symm.trans hcontra
  · exact Or.inl (hrun ▸ (hinterrupted.hasStopped hold).addsNoTurn (addsNoTurn_complete id _))

end Work

/-! ## Callers -/

/-- A caller that asks for a simulation keeps a scheduler regular. -/
theorem Regular.spawn (h : s.Regular p run callers fun _ => False) (caller : Nat) (graph : Except LoadError Snapshot) :
    (s.spawn (.call caller graph)).2.Regular p run (callers ++ [s.futures.length]) fun _ => False := by
  refine (h.wellFormed.spawn caller graph).regular h.shallow <| h.phase.imp
    (fun hstopped => ⟨fun t => .spawn (fun _ => hstopped.allStopped t) caller graph, fun R hrun => ?_⟩)
    fun ⟨R, slot, due, hrun, hl⟩ => ⟨R, slot, due, hrun, ?_⟩
  · exact (hstopped.stopped R hrun).imp (fun hfailed => hfailed.spawn caller graph) fun hinterrupted =>
      hinterrupted.spawn h.fitting caller graph
  · exact hl.spawn h.fitting h.sound (h.awaited.root R hrun).1.lt caller graph

section Call

variable (h : s.Regular p run callers fun _ => False) (hready : s.ready = job :: rest) (htask : job.task? = some id)
  {caller : Nat} {graph : Except LoadError Snapshot} (hpr : s.program? id = some (.call caller graph))
  {xs : List FutureId} (hxs : ∀ x ∈ xs, run = some x ∨ x ∈ callers)
  (hawake : awake = ((s.drop rest).awaken id).cancelAll xs)

include h hready htask hpr hxs hawake

/-- A caller in its first turn leaves a scheduler regular, apart from itself. -/
theorem Regular.call : awake.Regular p run callers fun j => j = id := by
  have htakes : s.Takes id ((s.drop rest).awaken id) := ⟨job, rest, hready, htask, rfl⟩
  have hpr' := (htakes.program? id).trans hpr
  subst hawake
  refine (h.takes hready htask).cancelAll (fun a ha c hb => ?_) (fun K hK heq => ?_) hxs
  · subst ha
    obtain ⟨v, children, hcontra, -⟩ := hb
    cases hpr'.symm.trans hcontra
  · subst heq
    obtain ⟨caller', hcontra, -⟩ := hK
    cases hpr'.symm.trans hcontra

/-- A caller that is answered in its first turn keeps a scheduler regular. -/
theorem Regular.answer : (awake.endTask id).Regular p run callers fun _ => False := by
  have hregular := h.call hready htask hpr hxs hawake
  obtain ⟨hpr', -⟩ := h.sound.asked_turn hready htask hpr hawake
  refine hregular.complete hpr' (fun caller heq => by cases heq) _ fun R slot due _ hl => Or.inr ⟨slot, due, ?_⟩
  refine hl.endTask hregular.fitting hregular.sound hpr' (fun _ => Or.inl ⟨_, hpr', rfl⟩) ?_
  rintro - c ⟨v, children, hcontra, -⟩
  cases hpr'.symm.trans hcontra

/-- A caller that makes the root of a run and waits for it keeps a scheduler regular. -/
theorem Regular.launch (hrun : run = none) (v : Visit) :
    ((awake.spawn (.enter v)).2.defer id (.conclude caller) awake.futures.length).Regular p
      (some awake.futures.length) callers fun _ => False := by
  have hregular := h.call hready htask hpr hxs hawake
  obtain ⟨hpr', -⟩ := h.sound.asked_turn hready htask hpr hawake
  have hwellFormed := h.wellFormed.launch hready htask hawake hrun hpr v
  have hstopped := hregular.phase.resolve_right fun ⟨R, _, _, hcontra, _⟩ => by
    rw [hrun] at hcontra
    cases hcontra
  refine hwellFormed.regular h.shallow ?_
  by_cases hmust : awake.mustCancel id = true
  · have hsplits : ((awake.spawn (.enter v)).2.defer id (.conclude caller) awake.futures.length).SplitsAt
        awake.futures.length := splitsAt_root hpr' rfl rfl hregular.fitting hregular.sound
    refine Or.inl (IsInterrupted.hasStopped ⟨hsplits, fun t ht q => ?_⟩ fun t _ => ?_)
    · exact .defer (fun hlt => absurd hlt (Nat.not_lt_of_le ht)) h.shallow hmust hpr' rfl hwellFormed.fitting
    · exact .defer (fun _ => hstopped.allStopped t) h.shallow hmust hpr' rfl hwellFormed.fitting
  · obtain ⟨due, hl⟩ := hstopped.allStopped.begin (v := v) hregular.fitting hregular.sound
      (by simpa using hmust) hpr' caller
    exact Or.inr ⟨_, _, due, rfl, hl⟩

end Call

/-- A caller that concludes its run keeps a scheduler regular, whose visits are all stopped then. -/
theorem Regular.conclude (h : s.Regular p run callers fun _ => False) (hready : s.ready = job :: rest)
    (htask : job.task? = some id) {caller : Nat} (hpr : s.program? id = some (.conclude caller)) (xs : List FutureId)
    (e : Ending) : ((((s.drop rest).awaken id).cancelAll xs).complete id e).Regular p none callers fun _ => False := by
  have hwellFormed := h.wellFormed.conclude hready htask hpr xs e
  obtain ⟨R, hrun, -, hended⟩ := h.wellFormed.wake_of_conclude hready htask hpr
  have htakes : s.Takes id ((s.drop rest).awaken id) := ⟨job, rest, hready, htask, rfl⟩
  have hasks := asks_cancelAll (s := (s.drop rest).awaken id) xs
  have haddsNoTurn := ((htakes.addsNoTurn h.sound).trans hasks.addsNoTurn).trans (addsNoTurn_complete id e)
  have hallStopped : s.AllStopped p := by
    rcases h.phase with hstopped | ⟨R', slot, due, hrun', hl⟩
    · exact hstopped.allStopped
    · cases hrun.symm.trans hrun'
      exact hl.allStopped_of_ended h.fitting h.sound hended
  exact hwellFormed.regular h.shallow (Or.inl ⟨hallStopped.addsNoTurn haddsNoTurn, fun _ hcontra => by cases hcontra⟩)

end Scheduler

end PipelineGraph.Simulation
