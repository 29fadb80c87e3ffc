import PipelineGraph.Proofs.Simulation.StepKinds

/-!
# Callers and their runs

Whatever the listener does, callers wait only for the run under way, and one of them does as long as there
is one. The rest goes with that: each task that has not ended has one job, and each job and each waiting
fits the program of its task.
-/

namespace PipelineGraph.Simulation

open Relation

namespace Scheduler

/-- A caller waits for its run or is about to conclude it. -/
def AwaitsRun (s : Scheduler Program Action) (t : FutureId) : Prop :=
  ∃ caller, s.program? t = some (.conclude caller) ∧ s.ending? t = none

/-- Callers wait only for the run under way, if there is one, and one of them does. -/
structure RunIsAwaited (run : Option FutureId) (held : FutureId → Prop) (s : Scheduler Program Action) : Prop where
  idle : run = none → ∀ t, ¬ s.AwaitsRun t
  root : ∀ R, run = some R → s.IsVisit R ∧
    ∃ K, s.AwaitsRun K ∧ (¬ held K → s.waiter? K = some R) ∧ ∀ t, s.AwaitsRun t → t = K

/-- The scheduler of a session with a run under way, or none, and callers, whatever its listener does. -/
structure WellFormed (p : Plan) (run : Option FutureId) (callers : List FutureId) (held : FutureId → Prop)
    (s : Scheduler Program Action) : Prop where
  sound : s.Sound 0 held
  fitting : s.Fitting p
  callers : ∀ x ∈ callers, s.IsCaller x
  awaited : s.RunIsAwaited run held

variable {p : Plan} {s s' awake : Scheduler Program Action} {run : Option FutureId} {callers : List FutureId}
  {held held' : FutureId → Prop} {id t x R : FutureId} {job : Job Action} {rest : List (Job Action)} {e : Ending}

/-- Callers wait for the same run as long as they do and the rest comes to nothing new. -/
theorem RunIsAwaited.mono (h : s.RunIsAwaited run held) (hvisit : ∀ R, s.IsVisit R → s'.IsVisit R)
    (hback : ∀ t, s'.AwaitsRun t → s.AwaitsRun t)
    (hkeep : ∀ t, s.AwaitsRun t → s'.AwaitsRun t ∧ (¬ held' t → ¬ held t ∧ s'.waiter? t = s.waiter? t)) :
    s'.RunIsAwaited run held' where
  idle hrun t ht := h.idle hrun t (hback t ht)
  root R hrun := by
    obtain ⟨hR, K, hK, hwaiter, hunique⟩ := h.root R hrun
    obtain ⟨hK', hwaiter'⟩ := hkeep K hK
    refine ⟨hvisit R hR, K, hK', fun hheld => ?_, fun t ht => hunique t (hback t ht)⟩
    exact (hwaiter' hheld).2.trans (hwaiter (hwaiter' hheld).1)

/-- Callers wait for the same run in a scheduler of the same bare kinds in which none of them ends. -/
theorem RunIsAwaited.bareKind (h : s.RunIsAwaited run held) (hbare : ∀ j, s'.bareKind? j = s.bareKind? j)
    (hstays : ∀ {j e}, s.ending? j = some e → s'.ending? j = some e)
    (hlive : ∀ t, s.AwaitsRun t → s'.ending? t = none)
    (hwaiter : ∀ t, s.AwaitsRun t → ¬ held' t → ¬ held t ∧ s'.waiter? t = s.waiter? t) : s'.RunIsAwaited run held' := by
  have hprogram : ∀ j, s'.program? j = s.program? j := fun j => program?_congr (hbare j)
  refine h.mono (fun R => (isVisit_congr (hprogram R)).2) ?_ fun t ht => ⟨?_, hwaiter t ht⟩
  · rintro t ⟨caller, hpr, hnone⟩
    refine ⟨caller, (hprogram t).symm.trans hpr, ?_⟩
    cases he : s.ending? t with
    | none => rfl
    | some e => exact (hstays he).symm.trans hnone
  · obtain ⟨caller, hpr, -⟩ := id ht
    exact ⟨caller, (hprogram t).trans hpr, hlive t ht⟩

/-- A caller is neither a sleep nor a gathering. -/
theorem AwaitsRun.bareKind (h : s.AwaitsRun t) : ∃ caller, s.bareKind? t = some (.task (.conclude caller)) := by
  obtain ⟨caller, hpr, -⟩ := h
  exact ⟨caller, bareKind?_eq_task_iff.2 hpr⟩

/-- A caller that awaits its run still does when requests to cancel come. -/
theorem AwaitsRun.asks (h : s.AwaitsRun t) (hs : s.Asks s') : s'.ending? t = none := by
  obtain ⟨caller, ho⟩ := h.bareKind
  obtain ⟨-, -, hnone⟩ := h
  refine (hs.ending_of_ne_sleep fun hsleep => ?_).trans hnone
  cases ho.symm.trans hsleep

/-- A caller that awaits its run is no visit. -/
theorem AwaitsRun.ne_visit (h : s.AwaitsRun t) (hvisit : s.IsVisit id) : t ≠ id := by
  rintro rfl
  obtain ⟨caller, hpr, -⟩ := h
  exact hvisit.not_isCaller ⟨_, hpr, rfl⟩

/-- A scheduler that adds no turn stays well-formed if no caller ends. -/
theorem WellFormed.addsNoTurn (h : s.WellFormed p run callers held) (hs : s.AddsNoTurn s') (hsound : s'.Sound 0 held')
    (hfits : s'.Fitting p) (hlive : ∀ t, s.AwaitsRun t → s'.ending? t = none)
    (hwaiter : ∀ t, s.AwaitsRun t → ¬ held' t → ¬ held t ∧ s'.waiter? t = s.waiter? t) :
    s'.WellFormed p run callers held' where
  sound := hsound
  fitting := hfits
  callers x hx := (isCaller_congr (program?_congr (hs.shrinks.bareKind x))).2 (h.callers x hx)
  awaited := h.awaited.bareKind hs.shrinks.bareKind hs.ending hlive hwaiter

/-! ## Steps without a turn -/

/-- The clock keeps a scheduler well-formed. -/
theorem WellFormed.advance (h : s.WellFormed p run callers fun _ => False) (hadvance : s.advance? = some s') :
    s'.WellFormed p run callers fun _ => False := by
  refine h.addsNoTurn (addsNoTurn_advance hadvance) (h.sound.advance hadvance)
    (h.fitting.keeps (keeps_advance hadvance))
    (fun t ht => ?_) fun t _ hheld => ⟨hheld, (keeps_advance hadvance).waiter t⟩
  obtain ⟨caller, -, hnone⟩ := ht
  exact (ending?_advance hadvance).trans hnone

/-- The end of a sleep keeps a scheduler well-formed. -/
theorem WellFormed.elapse (h : s.WellFormed p run callers fun _ => False) (hready : s.ready = .elapse x :: rest) :
    ((s.drop rest).complete x (.ok ())).WellFormed p run callers fun _ => False := by
  have hjob : .elapse x ∈ s.jobs := mem_jobs_of_ready hready
  have hsleep : s.bareKind? x = some .sleep := bareKind?_eq_sleep_iff.2 (h.sound.elapse_sleep hjob)
  have hkeeps := keeps_complete (s := s.drop rest) x (.ok ())
  refine h.addsNoTurn ((addsNoTurn_drop hready rfl).trans (addsNoTurn_complete x _)) (h.sound.elapse hready)
    ((h.fitting.drop hready rfl).keeps hkeeps) (fun t ht => ?_) fun t _ hheld => ⟨hheld, hkeeps.waiter t⟩
  obtain ⟨caller, ho⟩ := ht.bareKind
  obtain ⟨-, -, hnone⟩ := ht
  rw [ending?_complete, if_neg, ending?_drop, hnone]
  rintro rfl
  cases ho.symm.trans hsleep

/-- A child that is counted keeps a scheduler well-formed. -/
theorem WellFormed.countChild {g c : FutureId} (h : s.WellFormed p run callers fun _ => False)
    (hready : s.ready = .count g c :: rest) : ((s.drop rest).countChild g c).WellFormed p run callers fun _ =>
    False := by
  have hjob : .count g c ∈ s.jobs := mem_jobs_of_ready hready
  obtain ⟨-, gs, hg, -⟩ := h.sound.count_child hjob
  have hgathering : s.bareKind? g = some (.gathering gs.children) := bareKind?_eq_gathering_iff.2 ⟨gs, hg, rfl⟩
  have hkeeps := keeps_countChild (s := s.drop rest) g c
  refine h.addsNoTurn ((addsNoTurn_drop hready rfl).trans (addsNoTurn_countChild g c)) (h.sound.countChild hready)
    ((h.fitting.drop hready rfl).keeps hkeeps) (fun t ht => ?_) fun t _ hheld => ⟨hheld, hkeeps.waiter t⟩
  obtain ⟨caller, ho⟩ := ht.bareKind
  obtain ⟨-, -, hnone⟩ := ht
  rcases ending?_countChild (s := s.drop rest) (i := g) (c := c) (j := t) with hsame | ⟨rfl, -⟩
  · exact hsame.trans hnone
  · cases ho.symm.trans hgathering

/-- To take an action from the queue keeps a scheduler well-formed. -/
theorem WellFormed.drop {a : Action} (h : s.WellFormed p run callers fun _ => False)
    (hready : s.ready = .act a :: rest) :
    (s.drop rest).WellFormed p run callers fun _ => False := by
  have hsound : (s.drop rest).Sound 0 fun _ => False := by
    have hpop := h.sound.pop hready
    have hheld : (fun id => False ∨ (Job.act a).subject? = some id) = fun _ => False := by
      funext id
      simp [Job.subject?]
    exact hheld ▸ hpop
  refine h.addsNoTurn (addsNoTurn_drop hready rfl) hsound (h.fitting.drop hready rfl) (fun t ht => ?_)
    fun t _ hheld => ⟨hheld, rfl⟩
  obtain ⟨-, -, hnone⟩ := ht
  exact hnone

/-- Requests to cancel keep a scheduler well-formed. -/
theorem WellFormed.cancelAll (h : s.WellFormed p run callers held) (xs : List FutureId) :
    (s.cancelAll xs).WellFormed p run callers held := by
  have hasks := asks_cancelAll (s := s) xs
  exact h.addsNoTurn hasks.addsNoTurn (h.sound.cancelAll xs) (h.fitting.keeps hasks.keeps) (fun t ht => ht.asks hasks)
    fun t _ ht => ⟨ht, hasks.keeps.waiter t⟩

/-! ## Turns -/

/-- A task whose turn comes waits for nothing, has not ended and has no other turn ahead, whatever requests
to cancel come in its turn. -/
theorem Sound.asked_turn (h : s.Sound 0 fun _ => False) (hready : s.ready = job :: rest)
    (htask : job.task? = some id) {pr : Program} (hpr : s.program? id = some pr) {xs : List FutureId}
    (hawake : awake = ((s.drop rest).awaken id).cancelAll xs) : awake.program? id = some pr ∧
      awake.waiter? id = none ∧ awake.ending? id = none ∧ ∀ job ∈ awake.jobs, job.task? ≠ some id := by
  have htakes : s.Takes id ((s.drop rest).awaken id) := ⟨job, rest, hready, htask, rfl⟩
  have hasks := asks_cancelAll (s := (s.drop rest).awaken id) xs
  rw [← hawake] at hasks
  have hpr' := (htakes.program? id).trans hpr
  refine ⟨(hasks.keeps.program id).trans hpr', ?_, ?_, fun job hjob => htakes.idle h (hasks.keeps.jobs.subset hjob)⟩
  · rw [hasks.keeps.waiter, waiter?_awaken, if_pos rfl]
  · refine (hasks.ending_of_ne_sleep fun hsleep => ?_).trans ((htakes.ending? id).trans (htakes.live h).2)
    cases (bareKind?_eq_task_iff.2 hpr').symm.trans hsleep

/-- A scheduler stays well-formed, apart from a task that takes its turn. -/
theorem WellFormed.takes (h : s.WellFormed p run callers fun _ => False) (hready : s.ready = job :: rest)
    (htask : job.task? = some id) : ((s.drop rest).awaken id).WellFormed p run callers fun j => j = id := by
  have htakes : s.Takes id ((s.drop rest).awaken id) := ⟨job, rest, hready, htask, rfl⟩
  refine h.addsNoTurn (htakes.addsNoTurn h.sound) (htakes.sound h.sound) (h.fitting.takes h.sound htakes)
    (fun t ht => ?_)
    fun t _ hne => ⟨fun hcontra => hcontra, ?_⟩
  · obtain ⟨-, -, hnone⟩ := ht
    exact (htakes.ending? t).trans hnone
  · rw [waiter?_awaken, if_neg (Ne.symm hne)]
    rfl

/-- A task that awaits no run keeps a scheduler well-formed when it ends. -/
theorem WellFormed.complete (h : s.WellFormed p run callers fun j => j = id) {pr : Program}
    (hpr : s.program? id = some pr)
    (hnot : ∀ caller, pr ≠ .conclude caller) (e : Ending) :
    (s.complete id e).WellFormed p run callers fun _ => False := by
  obtain ⟨state, ht⟩ := exists_kind?_of_program? hpr
  have hkeeps := keeps_complete (s := s) id e
  have hwaits : ∀ t, s.AwaitsRun t → t ≠ id := by
    rintro t ⟨caller, hpr', -⟩ rfl
    cases hpr.symm.trans hpr'
    exact hnot caller rfl
  refine h.addsNoTurn (addsNoTurn_complete id e) (h.sound.endHeld ht (Nat.zero_le id) e) (h.fitting.keeps hkeeps)
    (fun t ht => ?_) fun t ht _ => ⟨hwaits t ht, hkeeps.waiter t⟩
  have hne := hwaits t ht
  obtain ⟨-, -, hnone⟩ := ht
  rw [ending?_complete, if_neg hne.symm, hnone]

/-- A task that awaits no run keeps a scheduler well-formed when it ends in its turn, whatever requests to cancel
come in that. -/
theorem WellFormed.ends (h : s.WellFormed p run callers fun _ => False) (hready : s.ready = job :: rest)
    (htask : job.task? = some id) {pr : Program} (hpr : s.program? id = some pr)
    (hnot : ∀ caller, pr ≠ .conclude caller) (xs : List FutureId)
    (hawake : awake = ((s.drop rest).awaken id).cancelAll xs) (e : Ending) :
    (awake.complete id e).WellFormed p run callers fun _ => False := by
  have hpr' := (h.sound.asked_turn hready htask hpr hawake).1
  subst hawake
  exact ((h.takes hready htask).cancelAll xs).complete hpr' hnot e

/-- A visit that goes on keeps a scheduler well-formed. -/
theorem WellFormed.goesOnAlone (h : s.WellFormed p run callers fun j => j = id) (hs : GoesOnAlone id s s')
    (hsound : s'.Sound 0 fun _ => False) (hfits : s'.Fitting p) (hvisit : s.IsVisit id) (hself : s'.IsVisit id)
    (hnew : ∀ t caller, s.futures.length ≤ t → s'.program? t ≠ some (.conclude caller)) :
    s'.WellFormed p run callers fun _ => False where
  sound := hsound
  fitting := hfits
  callers x hx := by
    have hcaller := h.callers x hx
    have hne : x ≠ id := fun heq => hvisit.not_isCaller (heq ▸ hcaller)
    exact (isCaller_congr (hs.program hne hcaller.lt)).2 hcaller
  awaited := by
    refine h.awaited.mono (fun R hR => ?_) (fun t ht => ?_) fun t ht => ?_
    · by_cases heq : R = id
      · exact heq ▸ hself
      · exact (isVisit_congr (hs.program heq hR.lt)).2 hR
    · have hne := ht.ne_visit hself
      obtain ⟨caller, hpr, hnone⟩ := ht
      have hlt : t < s.futures.length := Nat.lt_of_not_le fun hge => hnew t caller hge hpr
      refine ⟨caller, (hs.program hne hlt).symm.trans hpr, ?_⟩
      cases he : s.ending? t with
      | none => rfl
      | some e => exact (hs.ending he).symm.trans hnone
    · have hne := ht.ne_visit hvisit
      obtain ⟨caller, ho⟩ := ht.bareKind
      obtain ⟨caller', hpr, hnone⟩ := ht
      refine ⟨⟨caller', (hs.program hne (lt_of_program? hpr)).trans hpr, ?_⟩, fun _ => ⟨hne, hs.waiter hne⟩⟩
      exact (hs.live (fun hsleep => by cases ho.symm.trans hsleep) (lt_of_program? hpr)).trans hnone

section Asked

variable (h : s.WellFormed p run callers fun _ => False) (hready : s.ready = job :: rest) (htask : job.task? = some id)
  {xs : List FutureId} (hawake : awake = ((s.drop rest).awaken id).cancelAll xs)

include h hready htask hawake

/-- A visit that goes on behind a delay keeps a scheduler well-formed. -/
theorem WellFormed.goes {pr next : Program} {d : Delay} (hpr : s.program? id = some pr) (hnext : pr.Continues p next d)
    (hgoes : awake.Goes id next d s') : s'.WellFormed p run callers fun _ => False := by
  have hwellFormed := hawake ▸ (h.takes hready htask).cancelAll xs
  obtain ⟨hpr', hwaiter, hlive, hidle⟩ := h.sound.asked_turn hready htask hpr hawake
  obtain ⟨state, ht⟩ := exists_kind?_of_program? hpr'
  have hactive := hnext.at_work.1
  have hprogram := hgoes.program? hpr'
  have hself : s'.IsVisit id := by
    obtain ⟨pr₀, v, hpr₀, hv⟩ := isVisit_iff.1 (isVisit_of_isActive hpr' hactive)
    cases hpr'.symm.trans hpr₀
    exact isVisit_iff.2 ⟨next, v, (hprogram id).trans (if_pos rfl), hnext.visit?_eq.trans hv⟩
  refine hwellFormed.goesOnAlone (hgoes.goesOnAlone hpr') (hgoes.sound hwellFormed.sound ht (Nat.zero_le id) hlive)
    (hwellFormed.fitting.goes hidle hwaiter hpr' hnext hgoes) (isVisit_of_isActive hpr' hactive) hself
    fun t caller hge hcontra => ?_
  have hlt := lt_of_program? hpr'
  rw [hprogram, if_neg (by lia), program?_of_length_le hge] at hcontra
  cases hcontra

/-- A visit that branches keeps a scheduler well-formed. -/
theorem WellFormed.fork {v : Visit} (hpr : s.program? id = some (.fanOut v)) :
    (awake.branch id ((Engine.followers v).map .enter) (.join v)).WellFormed p run callers fun _ => False := by
  have hwellFormed := hawake ▸ (h.takes hready htask).cancelAll xs
  obtain ⟨hpr', -, hlive, hidle⟩ := h.sound.asked_turn hready htask hpr hawake
  obtain ⟨state, ht⟩ := exists_kind?_of_program? hpr'
  have hne : (Engine.followers v).map Program.enter ≠ [] := by
    have htargets := (hwellFormed.fitting.proper hpr').2.1
    intro hcontra
    refine htargets ?_
    rw [← Engine.map_id_followers, List.map_eq_nil_iff.1 hcontra, List.map_nil]
  have hprogram := fun j => program?_branch (j := j) ((Engine.followers v).map .enter) (.join v) hpr'
  refine hwellFormed.goesOnAlone (goesOnAlone_branch hpr' _ _)
    (hwellFormed.sound.branchHeld ht (Nat.zero_le id) hlive hne _)
    (hwellFormed.fitting.branch hidle hpr') (isVisit_of_isActive hpr' rfl)
    (isVisit_iff.2 ⟨_, v, (hprogram id).trans (if_pos rfl), rfl⟩) fun t caller hge hcontra => ?_
  have hlt := lt_of_program? hpr'
  rw [hprogram, if_neg (by lia), if_neg (by lia)] at hcontra
  obtain ⟨v', -, hcontra⟩ := List.mem_map.1 (List.mem_of_getElem? hcontra)
  cases hcontra

/-- A caller that makes the root of a run and waits for it keeps a scheduler well-formed. -/
theorem WellFormed.launch (hrun : run = none) {caller : Nat} {graph : Except LoadError Snapshot}
    (hpr : s.program? id = some (.call caller graph)) (v : Visit) :
    ((awake.spawn (.enter v)).2.defer id (.conclude caller) awake.futures.length).WellFormed p
      (some awake.futures.length) callers fun _ => False := by
  have hwellFormed := hawake ▸ (h.takes hready htask).cancelAll xs
  obtain ⟨hpr', -, hlive, hidle⟩ := h.sound.asked_turn hready htask hpr hawake
  have hlt := lt_of_program? hpr'
  have hlength : (awake.spawn (.enter v)).2.futures.length = awake.futures.length + 1 := length_spawn
  have hprogram₁ : ∀ {j}, (awake.spawn (.enter v)).2.program? j =
      if j = awake.futures.length then some (.enter v) else awake.program? j := program?_spawn
  have hpr₁ : (awake.spawn (.enter v)).2.program? id = some (.call caller graph) := by
    rw [hprogram₁, if_neg (Nat.ne_of_lt hlt), hpr']
  have hroot : (awake.spawn (.enter v)).2.IsVisit awake.futures.length :=
    isVisit_iff.2 ⟨_, v, hprogram₁.trans (if_pos rfl), rfl⟩
  have hidle₁ : ∀ job ∈ (awake.spawn (.enter v)).2.jobs, job.task? ≠ some id := by
    intro job hjob htask
    rcases List.mem_cons.1 (jobs_spawn.subset hjob) with rfl | hmem
    · cases htask
      exact Nat.lt_irrefl _ hlt
    · exact hidle job hmem htask
  have hfits₁ : (awake.spawn (.enter v)).2.Fitting p := hwellFormed.fitting.spawn rfl fun _ _ => trivial
  have hfits := hfits₁.defer hidle₁ hpr₁ rfl caller hroot hlt
  have hsound : (awake.spawn (.enter v)).2.Sound 0 fun j => j = id :=
    hwellFormed.sound.spawn (fun j hj => hj ▸ hlt) _
  obtain ⟨state, ht⟩ := exists_kind?_of_program? hpr₁
  have hdefer := goesOnAlone_defer (x := awake.futures.length) hpr₁ (.conclude caller) hroot.lt
  have hprogram : ∀ j, ((awake.spawn (.enter v)).2.defer id (.conclude caller) awake.futures.length).program? j =
      if j = id then some (.conclude caller) else (awake.spawn (.enter v)).2.program? j := by
    intro j
    rw [program?_eq_bind, bareKind?_defer hpr₁, program?_eq_bind]
    split <;> rfl
  refine ⟨hsound.deferHeld ht (Nat.zero_le id) (ending?_spawn.trans hlive) _ hroot.lt, hfits, fun x hx => ?_,
    ⟨fun hcontra => (by cases hcontra), fun R hR => ?_⟩⟩
  · by_cases heq : x = id
    · exact ⟨_, (hprogram x).trans (if_pos heq), rfl⟩
    · have hcaller := hwellFormed.callers x hx
      refine (isCaller_congr ((hprogram x).trans ((if_neg heq).trans ?_))).2 hcaller
      rw [hprogram₁, if_neg (Nat.ne_of_lt hcaller.lt)]
  · cases hR
    refine ⟨(isVisit_congr ((hprogram _).trans (if_neg (Nat.ne_of_gt hlt)))).2 hroot, id,
      ⟨caller, (hprogram id).trans (if_pos rfl), ?_⟩, fun _ => (waiter?_defer hpr₁).trans (if_pos rfl), fun t ht => ?_⟩
    · refine (hdefer.live (fun hsleep => ?_) (lt_of_program? hpr₁)).trans (ending?_spawn.trans hlive)
      cases (bareKind?_eq_task_iff.2 hpr₁).symm.trans hsleep
    · by_contra hne
      obtain ⟨caller', hprt, hnone⟩ := ht
      rw [hprogram, if_neg hne, hprogram₁] at hprt
      split at hprt
      · cases hprt
      · refine hwellFormed.awaited.idle hrun t ⟨caller', hprt, ?_⟩
        cases he : awake.ending? t with
        | none => rfl
        | some e => exact (hdefer.ending (ending?_spawn.trans he)).symm.trans hnone

end Asked

/-- A caller that asks for a simulation keeps a scheduler well-formed. -/
theorem WellFormed.spawn (h : s.WellFormed p run callers fun _ => False) (caller : Nat)
    (graph : Except LoadError Snapshot) :
    (s.spawn (.call caller graph)).2.WellFormed p run (callers ++ [s.futures.length]) fun _ => False := by
  have halone := goesOnAlone_spawn (s := s) (.call caller graph)
  have hprogram : ∀ {j}, (s.spawn (.call caller graph)).2.program? j =
      if j = s.futures.length then some (.call caller graph) else s.program? j := program?_spawn
  have hold : ∀ {j}, j < s.futures.length → (s.spawn (.call caller graph)).2.program? j = s.program? j := fun hj =>
    halone.program (Nat.ne_of_lt hj) hj
  refine ⟨h.sound.spawn (fun _ hcontra => hcontra.elim) _, h.fitting.spawn rfl fun _ _ => trivial, fun x hx => ?_,
    h.awaited.mono (fun R hR => (isVisit_congr (hold hR.lt)).2 hR) (fun t ht => ?_) fun t ht => ⟨?_, fun _ =>
      ⟨fun hcontra => hcontra, waiter?_spawn⟩⟩⟩
  · rcases List.mem_append.1 hx with hx | hx
    · exact (isCaller_congr (hold (h.callers x hx).lt)).2 (h.callers x hx)
    · rw [List.mem_singleton.1 hx]
      exact ⟨_, hprogram.trans (if_pos rfl), rfl⟩
  · obtain ⟨caller', hpr, hnone⟩ := ht
    rw [hprogram] at hpr
    split at hpr
    · cases hpr
    · exact ⟨caller', hpr, ending?_spawn.symm.trans hnone⟩
  · obtain ⟨caller', hpr, hnone⟩ := ht
    exact ⟨caller', (hold (lt_of_program? hpr)).trans hpr, ending?_spawn.trans hnone⟩

/-- A caller concludes its run when that has ended. -/
theorem WellFormed.wake_of_conclude (h : s.WellFormed p run callers fun _ => False) (hready : s.ready = job :: rest)
    (htask : job.task? = some id) {caller : Nat} (hpr : s.program? id = some (.conclude caller)) :
    ∃ R, run = some R ∧ job = .wake id R ∧ s.ending? R ≠ none := by
  have hjob : job ∈ s.jobs := mem_jobs_of_ready hready
  have hawaits : s.AwaitsRun id := ⟨caller, hpr, (h.sound.live_of_mem hjob htask).2.2.1⟩
  cases hrun : run with
  | none => exact absurd hawaits (h.awaited.idle hrun id)
  | some R =>
    obtain ⟨-, K, -, hwaiter, hunique⟩ := h.awaited.root R hrun
    have hwaits : s.waiter? id = some R := hunique id hawaits ▸ hwaiter fun hcontra => hcontra
    have hfit := h.fitting.jobs hjob
    cases job with
    | count | elapse | act => cases htask
    | resume =>
      cases htask
      obtain ⟨-, pr, hcontra, hqueued⟩ := hfit
      cases hpr.symm.trans hcontra
      cases hqueued
    | wake _ x =>
      cases htask
      obtain ⟨-, hx, -⟩ := hfit
      obtain rfl : x = R := Option.some.inj (hx.symm.trans hwaits)
      have hqueued : .wake id x ∈ s.ready := hready ▸ List.mem_cons_self
      exact ⟨x, rfl, rfl, h.sound.ready_source hqueued rfl⟩

/-- A caller that concludes its run keeps a scheduler well-formed, and no caller awaits a run then. -/
theorem WellFormed.conclude (h : s.WellFormed p run callers fun _ => False) (hready : s.ready = job :: rest)
    (htask : job.task? = some id) {caller : Nat} (hpr : s.program? id = some (.conclude caller)) (xs : List FutureId)
    (e : Ending) :
    ((((s.drop rest).awaken id).cancelAll xs).complete id e).WellFormed p none callers fun _ => False := by
  have htakes : s.Takes id ((s.drop rest).awaken id) := ⟨job, rest, hready, htask, rfl⟩
  have hasks := asks_cancelAll (s := (s.drop rest).awaken id) xs
  have haddsNoTurn := ((htakes.addsNoTurn h.sound).trans hasks.addsNoTurn).trans (addsNoTurn_complete id e)
  have hawaits : s.AwaitsRun id := ⟨caller, hpr, (htakes.live h.sound).2⟩
  have hpr' := (hasks.keeps.program id).trans ((htakes.program? id).trans hpr)
  obtain ⟨state, ht⟩ := exists_kind?_of_program? hpr'
  have hkeeps := keeps_complete (s := ((s.drop rest).awaken id).cancelAll xs) id e
  obtain ⟨R, hrun, -⟩ := h.wake_of_conclude hready htask hpr
  obtain ⟨-, K, -, -, hunique⟩ := h.awaited.root R hrun
  refine ⟨(((htakes.sound h.sound).cancelAll xs)).endHeld ht (Nat.zero_le id) e,
    (((h.fitting.takes h.sound htakes).keeps hasks.keeps).keeps hkeeps), fun x hx => ?_,
    ⟨fun _ t ht => ?_, fun R' hcontra => by cases hcontra⟩⟩
  · exact (isCaller_congr (program?_congr (haddsNoTurn.shrinks.bareKind x))).2 (h.callers x hx)
  · obtain ⟨caller', hprt, hnone⟩ := ht
    have hold : s.AwaitsRun t := by
      refine ⟨caller', (program?_congr (haddsNoTurn.shrinks.bareKind t)).symm.trans hprt, ?_⟩
      cases he : s.ending? t with
      | none => rfl
      | some e => exact (haddsNoTurn.ending he).symm.trans hnone
    have heq : t = id := (hunique t hold).trans (hunique id hawaits).symm
    subst heq
    obtain ⟨f, hf, -⟩ := kind?_eq_some_iff.1 ht
    rw [ending?_complete, if_pos rfl, hf] at hnone
    cases hnone

end Scheduler

end PipelineGraph.Simulation
