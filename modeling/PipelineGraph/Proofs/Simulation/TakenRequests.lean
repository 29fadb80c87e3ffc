import PipelineGraph.Proofs.Simulation.WellFormedSessions

/-!
# Requests that are taken

A request to cancel that a future has taken stays with it, or with one of those to which it was passed on,
until these end. So a run whose root has taken a request ends by it: nothing of it goes on meanwhile, and
nothing of it fails any more.
-/

namespace PipelineGraph.Simulation

open Relation

namespace Scheduler

/-- A future has taken a request to cancel: it has ended by that, it is a task that keeps it, or it has passed
it on to what has taken it. -/
inductive HasTakenRequest (s : Scheduler Program Action) : FutureId → Prop
  | ended {x} (hend : s.ending? x = some (.error .cancelled)) : HasTakenRequest s x
  | marked {x} (hlive : s.ending? x = none) (hmust : s.mustCancel x = true) : HasTakenRequest s x
  | passed {x y} (hlink : s.Links x y) (h : HasTakenRequest s y) : HasTakenRequest s x

variable {p : Plan} {s s' s'' awake : Scheduler Program Action} {id t x y g c R : FutureId} {job : Job Action}
  {rest : List (Job Action)} {held : FutureId → Prop} {callers : List FutureId} {e : Ending} {i : Interrupt}

/-- What has taken a request ends by no other cause. -/
theorem HasTakenRequest.eq_cancelled (h : s.HasTakenRequest x) (he : s.ending? x = some e) : e = .error .cancelled := by
  cases h with
  | ended hend => exact Option.some.inj (he.symm.trans hend)
  | marked hlive => cases he.symm.trans hlive
  | passed hlink => cases he.symm.trans hlink.1

/-- A task that a request has reached has taken it. -/
theorem IsReached.hasTakenRequest (h : s.IsReached t) (hlive : s.ending? t = none) : s.HasTakenRequest t := by
  rcases h with hmust | ⟨y, hy, hend⟩
  · exact .marked hlive hmust
  · exact .passed ⟨hlive, Or.inl hy⟩ (.ended hend)

/-- A request interrupts the turn of a task that has taken it. -/
theorem HasTakenRequest.interrupt? (h : s.HasTakenRequest t) (hfits : s.Fitting p) (hs : s.Sound 0 fun _ => False)
    (hready : s.ready = job :: rest) (htask : job.task? = some t) : s.interrupt? t job = some .cancelled := by
  have hjob : job ∈ s.jobs := mem_jobs_of_ready hready
  obtain ⟨-, -, hlive, -⟩ := hs.live_of_mem hjob htask
  cases h with
  | ended hend => cases hlive.symm.trans hend
  | marked _ hmust => exact if_pos hmust
  | @passed _ y hlink hy =>
    have hfit := hfits.jobs hjob
    obtain ⟨-, hwaiter | ⟨children, hg, -⟩⟩ := hlink
    · cases job with
      | count | elapse | act => cases htask
      | resume =>
        cases htask
        cases hwaiter.symm.trans hfit.1
      | wake _ z =>
        cases htask
        cases hwaiter.symm.trans hfit.2.1
        have hqueued : .wake t y ∈ s.ready := hready ▸ List.mem_cons_self
        obtain ⟨e, he⟩ := Option.ne_none_iff_exists'.1 (hs.ready_source hqueued rfl)
        rw [hy.eq_cancelled he] at he
        unfold Scheduler.interrupt?
        split
        · rfl
        · rw [Job.source?, Option.bind_some, he]
          rfl
    · obtain ⟨pr, hpr⟩ := hfits.exists_program? hjob htask
      cases (bareKind?_eq_task_iff.2 hpr).symm.trans hg

/-! ## What is left alone -/

/-- From one scheduler to another a single future is dealt with. The others stay as they are, apart from sleeps
that may end and from requests that tasks may get. -/
structure ChangesOnly (id : FutureId) (s s' : Scheduler Program Action) : Prop where
  bareKind : ∀ {j}, j ≠ id → j < s.futures.length → s'.bareKind? j = s.bareKind? j
  must : ∀ {j}, j ≠ id → s.mustCancel j = true → s'.mustCancel j = true
  waiter : ∀ {j}, j ≠ id → s'.waiter? j = s.waiter? j
  ending : ∀ {j e}, s.ending? j = some e → s'.ending? j = some e
  live : ∀ {j}, j ≠ id → j < s.futures.length → s.bareKind? j ≠ some .sleep → s'.ending? j = s.ending? j

/-- Two changes that deal with a single future deal with it alone. -/
theorem ChangesOnly.trans (h : ChangesOnly id s s') (h' : ChangesOnly id s' s'')
    (hlength : s.futures.length ≤ s'.futures.length) :
    ChangesOnly id s s'' where
  bareKind hne hlt := (h'.bareKind hne (Nat.lt_of_lt_of_le hlt hlength)).trans (h.bareKind hne hlt)
  must hne hmust := h'.must hne (h.must hne hmust)
  waiter hne := (h'.waiter hne).trans (h.waiter hne)
  ending he := h'.ending (h.ending he)
  live hne hlt hsleep := (h'.live hne (Nat.lt_of_lt_of_le hlt hlength) ((h.bareKind hne hlt).trans_ne hsleep)).trans
    (h.live hne hlt hsleep)

/-- A task that goes on is the only one that is dealt with. -/
theorem GoesOnAlone.changesOnly (h : GoesOnAlone id s s') : ChangesOnly id s s' :=
  ⟨h.bareKind, h.must, fun hne => h.waiter hne, h.ending, fun _ hlt hsleep => h.live hsleep hlt⟩

/-- Requests to cancel leave all alone but sleeps. -/
theorem Asks.changesOnly (h : s.Asks s') (id : FutureId) : ChangesOnly id s s' :=
  ⟨fun _ _ => h.keeps.bareKind _, fun _ => h.must, fun _ => h.keeps.waiter _, h.ending_stays,
    fun _ _ => h.ending_of_ne_sleep⟩

/-- The queue leaves all futures alone. -/
theorem changesOnly_drop (rest : List (Job Action)) (id : FutureId) : ChangesOnly id s (s.drop rest) :=
  ⟨fun _ _ => rfl, fun _ hmust => hmust, fun _ => rfl, fun he => he, fun _ _ _ => rfl⟩

/-- A future that ends leaves the others alone. -/
theorem changesOnly_complete (id : FutureId) (e : Ending) : ChangesOnly id s (s.complete id e) where
  bareKind _ _ := (keeps_complete id e).bareKind _
  must _ hmust := by
    rw [mustCancel, task?_complete]
    exact hmust
  waiter _ := (keeps_complete id e).waiter _
  ending he := ending?_complete_of_ended he e
  live hne _ _ := by rw [ending?_complete, if_neg hne.symm]

/-- A task that takes its turn leaves the others alone. -/
theorem Takes.changesOnly (h : s.Takes id awake) : ChangesOnly id s awake where
  bareKind _ _ := h.shrinks.bareKind _
  must {j} hne hmust := by
    obtain ⟨job', rest, -, -, rfl⟩ := h
    rw [mustCancel_awaken, if_neg hne.symm]
    exact hmust
  waiter {j} hne := by
    obtain ⟨job', rest, -, -, rfl⟩ := h
    rw [waiter?_awaken, if_neg hne.symm]
    rfl
  ending he := (h.ending? _).trans he
  live _ _ _ := h.ending? _

/-- The clock leaves all alone. -/
theorem changesOnly_advance (h : s.advance? = some s') (id : FutureId) : ChangesOnly id s s' where
  bareKind _ _ := (keeps_advance h).bareKind _
  must {j} _ hmust := by
    obtain ⟨time, -, rfl⟩ := Option.map_eq_some_iff.1 h
    exact hmust
  waiter _ := (keeps_advance h).waiter _
  ending he := (ending?_advance h).trans he
  live _ _ _ := ending?_advance h

/-- A gathering that counts a child leaves the other futures alone. -/
theorem changesOnly_countChild (g c : FutureId) : ChangesOnly g s (s.countChild g c) where
  bareKind _ _ := (keeps_countChild g c).bareKind _
  must _ hmust := by
    rw [mustCancel, task?_countChild]
    exact hmust
  waiter _ := (keeps_countChild g c).waiter _
  ending he := (addsNoTurn_countChild g c).ending he
  live hne _ _ := (ending?_countChild (c := c)).resolve_right fun hcontra => hne hcontra.1

/-- Requests are passed on as before by what is left alone. -/
theorem ChangesOnly.links (h : ChangesOnly id s s') (hlink : s.Links x y) (hne : x ≠ id) : s'.Links x y := by
  obtain ⟨hlive, hwaiter | ⟨children, hg, hy⟩⟩ := hlink
  · obtain ⟨pr, hpr⟩ := exists_program?_of_waiter? hwaiter
    have hsleep : s.bareKind? x ≠ some .sleep := fun hcontra => by
      cases (bareKind?_eq_task_iff.2 hpr).symm.trans hcontra
    exact ⟨(h.live hne (lt_of_program? hpr) hsleep).trans hlive, Or.inl ((h.waiter hne).trans hwaiter)⟩
  · have hlt := lt_of_bareKind? hg
    have hsleep : s.bareKind? x ≠ some .sleep := fun hcontra => by cases hg.symm.trans hcontra
    exact ⟨(h.live hne hlt hsleep).trans hlive, Or.inr ⟨children, (h.bareKind hne hlt).trans hg, hy⟩⟩

/-- Who keeps a request is a task. -/
theorem exists_program?_of_mustCancel (h : s.mustCancel x = true) : ∃ pr, s.program? x = some pr := by
  cases ht : s.task? x with
  | none => simp [mustCancel, ht] at h
  | some state => exact ⟨state.program, by rw [program?, ht]; rfl⟩

/-- Sleeps keep no requests and pass none on. -/
theorem HasTakenRequest.ended_of_sleep (h : s.HasTakenRequest x) (hsleep : s.bareKind? x = some .sleep) :
    s.ending? x = some (.error .cancelled) := by
  have htask : ∀ {pr}, s.program? x ≠ some pr := fun hpr => by
    cases (bareKind?_eq_task_iff.2 hpr).symm.trans hsleep
  cases h with
  | ended hend => exact hend
  | marked _ hmust => exact absurd (exists_program?_of_mustCancel hmust).choose_spec htask
  | passed hlink =>
    obtain ⟨-, hwaiter | ⟨children, hg, -⟩⟩ := hlink
    · exact absurd (exists_program?_of_waiter? hwaiter).choose_spec htask
    · cases hg.symm.trans hsleep

/-- What has taken a request is a future. -/
theorem HasTakenRequest.lt (h : s.HasTakenRequest x) : x < s.futures.length := by
  cases h with
  | ended hend =>
    obtain ⟨f, hf, -⟩ := ending?_eq_some_iff.1 hend
    exact lt_of_future? hf
  | marked _ hmust =>
    obtain ⟨pr, hpr⟩ := exists_program?_of_mustCancel hmust
    exact lt_of_program? hpr
  | passed hlink =>
    obtain ⟨-, hwaiter | ⟨children, hg, -⟩⟩ := hlink
    · obtain ⟨pr, hpr⟩ := exists_program?_of_waiter? hwaiter
      exact lt_of_program? hpr
    · exact lt_of_bareKind? hg

/-- What has taken a request has still taken it when a single future is dealt with, if that one still has, or
if the request was not passed on to it. -/
theorem HasTakenRequest.changesOnly {D : FutureId → Prop} (h : s.HasTakenRequest x) (hs : ChangesOnly id s s')
    (hx : D x)
    (hD : ∀ y z, D y → s.Links y z → D z)
    (hid : D id → s.ending? id = none →
      (s.mustCancel id = true ∨ ∃ y, s.Links id y ∧ s.HasTakenRequest y ∧ s'.HasTakenRequest y) →
        s'.HasTakenRequest id) :
    s'.HasTakenRequest x := by
  -- By induction on the way along which the request was passed on.
  induction h with
  | ended hend => exact .ended (hs.ending hend)
  | @marked x hlive hmust =>
    by_cases heq : x = id
    · subst heq
      exact hid hx hlive (Or.inl hmust)
    · obtain ⟨pr, hpr⟩ := exists_program?_of_mustCancel hmust
      refine .marked ((hs.live heq (lt_of_program? hpr) fun hcontra => ?_).trans hlive) (hs.must heq hmust)
      cases (bareKind?_eq_task_iff.2 hpr).symm.trans hcontra
  | @passed x y hlink hy ih =>
    have hy' := ih (hD x y hx hlink)
    by_cases heq : x = id
    · subst heq
      exact hid hx hlink.1 (Or.inr ⟨y, hlink, hy, hy'⟩)
    · exact .passed (hs.links hlink heq) hy'

/-- What keeps a request, or has passed it on, has taken it. -/
theorem hasTakenRequest_of_cause (hlive : s.ending? x = none)
    (h : s.mustCancel x = true ∨ ∃ y, s.Links x y ∧ s.HasTakenRequest y ∧ s'.HasTakenRequest y) :
    s.HasTakenRequest x := by
  rcases h with hmust | ⟨y, hlink, hy, -⟩
  · exact .marked hlive hmust
  · exact .passed hlink hy

/-- What has taken a request has still taken it when no future is dealt with that was there before. -/
theorem HasTakenRequest.changesOnly_all (h : s.HasTakenRequest x) (hs : ChangesOnly s.futures.length s s') :
    s'.HasTakenRequest x :=
  h.changesOnly (D := fun _ => True) hs trivial (fun _ _ _ _ => trivial) fun _ hlive hcause =>
    absurd (hasTakenRequest_of_cause hlive hcause).lt (Nat.lt_irrefl _)

/-- What has taken a request has still taken it when more of them come. -/
theorem HasTakenRequest.asks (h : s.HasTakenRequest x) (hs : s.Asks s') : s'.HasTakenRequest x :=
  h.changesOnly_all (hs.changesOnly s.futures.length)

/-! ## Taking a request -/

/-- A request that is passed on to the children of a gathering is taken by one of them, if it is taken. -/
theorem hasTakenRequest_askEach {room : Nat} {children : List FutureId}
    (hfirst : ∀ c (s : Scheduler Program Action), (cancelWithin room c s).1 = .taken →
      (cancelWithin room c s).2.HasTakenRequest c)
    (h : (askEach (cancelWithin room) children s).1 = .taken) :
    ∃ c ∈ children, (askEach (cancelWithin room) children s).2.HasTakenRequest c := by
  induction children generalizing s with
  | nil => cases h
  | cons c rest ih =>
    have hhead := hfirst c s
    have hasks := asks_askEach (s := (cancelWithin room c s).2) room rest
    have hrest := @ih (cancelWithin room c s).2
    rw [askEach] at h ⊢
    generalize cancelWithin room c s = first at h hhead hasks hrest ⊢
    obtain ⟨reply, s₁⟩ := first
    dsimp only at hasks hrest
    generalize hlast : askEach (cancelWithin room) rest s₁ = last at h hasks hrest
    obtain ⟨answer, s₂⟩ := last
    cases reply with
    | tooDeep => cases h
    | refused | taken =>
      simp only [hlast] at h ⊢
      cases answer with
      | tooDeep => cases h
      | taken =>
        obtain ⟨c', hc', htaken⟩ := hrest rfl
        exact ⟨c', List.mem_cons_of_mem c hc', htaken⟩
      | refused => exact ⟨c, List.mem_cons_self, (hhead h).asks hasks⟩

/-- A task that has not ended keeps a request that is not passed on. -/
theorem hasTakenRequest_markCancel {pr : Program} (hpr : s.program? x = some pr) (hlive : s.ending? x = none)
    (hs : s.Asks s') : (s'.markCancel x).HasTakenRequest x := by
  obtain ⟨state, ht, -⟩ := Option.map_eq_some_iff.1 ((hs.keeps.program x).trans hpr)
  refine .marked ((ending?_modifyTask _).trans ((hs.ending_of_ne_sleep fun hcontra => ?_).trans hlive)) ?_
  · cases (bareKind?_eq_task_iff.2 hpr).symm.trans hcontra
  · rw [mustCancel_markCancel, if_pos rfl, ht]
    rfl

/-- A future has taken a request to cancel if it says so. -/
theorem hasTakenRequest_of_taken {room : Nat} (h : (cancelWithin room x s).1 = .taken) :
    (cancelWithin room x s).2.HasTakenRequest x := by
  induction room generalizing x s with
  | zero => cases h
  | succ room ih =>
    cases hf : s.future? x with
    | none => simp [cancelWithin, hf] at h
    | some f =>
      by_cases hended : f.ending.isSome = true
      · simp [cancelWithin, hf, hended] at h
      have hlive : s.ending? x = none := by simpa [ending?, hf] using hended
      cases hk : f.kind with
      | sleep => exact .ended (ending?_of_taken (bareKind?_eq_sleep_iff.2 (kind?_eq_some_iff.2 ⟨f, hf, hk⟩)) h)
      | gathering g =>
        have hg : s.bareKind? x = some (.gathering g.children) :=
          bareKind?_eq_gathering_iff.2 ⟨g, kind?_eq_some_iff.2 ⟨f, hf, hk⟩, rfl⟩
        have hasks := asks_askEach (s := s) room g.children
        have hchild : (askEach (cancelWithin room) g.children s).1 = .taken →
            ∃ c ∈ g.children, (askEach (cancelWithin room) g.children s).2.HasTakenRequest c :=
          hasTakenRequest_askEach fun _ _ => ih
        simp only [cancelWithin, hf, hended, hk, Bool.false_eq_true, if_false] at h ⊢
        generalize askEach (cancelWithin room) g.children s = answer at h hasks hchild ⊢
        obtain ⟨reply, s'⟩ := answer
        cases reply with
        | refused | tooDeep => cases h
        | taken =>
          obtain ⟨c, hc, htaken⟩ := hchild rfl
          have hlink : s.Links x c := ⟨hlive, Or.inr ⟨g.children, hg, hc⟩⟩
          exact .passed ((hlink.asks hasks).asks (asks_requestCancel x)) (htaken.asks (asks_requestCancel x))
      | task state =>
        have ht : s.task? x = some state := task?_eq_some_iff.2 (kind?_eq_some_iff.2 ⟨f, hf, hk⟩)
        have hpr : s.program? x = some state.program := by rw [program?, ht]; rfl
        simp only [cancelWithin, hf, hended, hk, Bool.false_eq_true, if_false] at h ⊢
        cases hsource : state.waiter with
        | none => exact hasTakenRequest_markCancel hpr hlive (Asks.refl s)
        | some source =>
          have hlink : s.Links x source := ⟨hlive, Or.inl (by rw [waiter?, ht, Option.bind_some, hsource])⟩
          have hasks := asks_cancelWithin (s := s) room source
          have hthere := @ih s source
          simp only [hsource] at h ⊢
          generalize cancelWithin room source s = answer at h hasks hthere ⊢
          obtain ⟨reply, s'⟩ := answer
          cases reply with
          | refused => exact hasTakenRequest_markCancel hpr hlive hasks
          | taken => exact .passed (hlink.asks hasks) (hthere rfl)
          | tooDeep => cases h

/-- A task that has not ended takes every request, if that does not go too deep. -/
theorem cancel_of_live {pr : Program} (hpr : s.program? x = some pr) (hlive : s.ending? x = none)
    (hdeep : (s.cancel x).1 ≠ .tooDeep) : (s.cancel x).1 = .taken := by
  obtain ⟨state, ht, -⟩ := Option.map_eq_some_iff.1 hpr
  obtain ⟨f, hf, hk⟩ := kind?_eq_some_iff.1 (task?_eq_some_iff.1 ht)
  have hnone : f.ending = none := by
    simpa [ending?, hf] using hlive
  rw [cancel, maxRequestDepth, cancelWithin] at hdeep ⊢
  simp only [hf, hnone, hk, Option.isSome_none, Bool.false_eq_true, if_false] at hdeep ⊢
  cases hsource : state.waiter with
  | none => rfl
  | some source =>
    simp only [hsource] at hdeep ⊢
    generalize cancelWithin _ source s = answer at hdeep ⊢
    obtain ⟨reply, s'⟩ := answer
    cases reply with
    | refused | taken => rfl
    | tooDeep => exact absurd rfl hdeep

/-- A task that has not ended takes one of several requests if that is for it. -/
theorem hasTakenRequest_cancelAll {xs : List FutureId} (hfits : s.Fitting p) (hp : p.IsShallow) (hx : x ∈ xs)
    {pr : Program} (hpr : s.program? x = some pr) (hlive : s.ending? x = none) :
      (s.cancelAll xs).HasTakenRequest x := by
  induction xs generalizing s with
  | nil => cases hx
  | cons y xs ih =>
    rcases List.mem_cons.1 hx with rfl | hx
    · exact (hasTakenRequest_of_taken (cancel_of_live hpr hlive (hfits.cancel_ne_tooDeep hp))).asks (asks_cancelAll xs)
    · have hasks := asks_cancel (s := s) y
      refine ih (hfits.keeps hasks.keeps) hx ((hasks.keeps.program x).trans hpr)
        ((hasks.ending_of_ne_sleep fun hcontra => ?_).trans hlive)
      cases (bareKind?_eq_task_iff.2 hpr).symm.trans hcontra

/-! ## Turns in which a request is taken -/

section Turn

variable {pr : Program} (h : s.HasTakenRequest x) (hpr : s.program? id = some pr) (hwaiter : s.waiter? id = none)

include hwaiter hpr

/-- A task that waits for nothing has not passed on what it has taken. -/
theorem mustCancel_of_cause (hcause : s.mustCancel id = true ∨ ∃ y, s.Links id y ∧ s.HasTakenRequest y ∧
    s'.HasTakenRequest y) :
    s.mustCancel id = true := by
  refine hcause.resolve_right ?_
  rintro ⟨y, ⟨-, hcontra | ⟨children, hg, -⟩⟩, -⟩
  · cases hwaiter.symm.trans hcontra
  · cases (bareKind?_eq_task_iff.2 hpr).symm.trans hg

include h

/-- A task that ends in its turn is cancelled if it has taken a request. -/
theorem HasTakenRequest.endTask (hlive : s.ending? id = none) : (s.endTask id).HasTakenRequest x := by
  refine h.changesOnly (D := fun _ => True) (changesOnly_complete id _) trivial (fun _ _ _ _ => trivial)
    fun _ _ hcause => ?_
  have hmust := mustCancel_of_cause hpr hwaiter hcause
  refine .ended ((ending?_complete_of_live (lt_of_program? hpr) hlive _).trans ?_)
  rw [if_pos hmust]

/-- A visit has still taken a request as it goes on behind a delay. -/
theorem HasTakenRequest.goes {next : Program} {d : Delay} (hgoes : s.Goes id next d s') : s'.HasTakenRequest x := by
  have halone := hgoes.goesOnAlone hpr
  refine h.changesOnly (D := fun _ => True) halone.changesOnly trivial (fun _ _ _ _ => trivial) fun _ hlive hcause => ?_
  refine (hgoes.isReached (mustCancel_of_cause hpr hwaiter hcause) hpr).hasTakenRequest ?_
  refine (halone.live (fun hcontra => ?_) (lt_of_program? hpr)).trans hlive
  cases (bareKind?_eq_task_iff.2 hpr).symm.trans hcontra

omit hpr in
/-- A visit that has taken a request passes it on as it branches. -/
theorem HasTakenRequest.branch (hp : p.IsShallow) {v : Visit} (hpr : s.program? id = some (.fanOut v))
    (hne : (Engine.followers v) ≠ [])
    (hfits : (s.branch id ((Engine.followers v).map .enter) (.join v)).Fitting p) :
    (s.branch id ((Engine.followers v).map .enter) (.join v)).HasTakenRequest x := by
  refine h.changesOnly (D := fun _ => True) (goesOnAlone_branch hpr _ _).changesOnly trivial (fun _ _ _ _ => trivial)
    fun _ hlive hcause => ?_
  have hmust := mustCancel_of_cause hpr hwaiter hcause
  have hlt := lt_of_program? hpr
  have hpos : 0 < ((Engine.followers v).map Program.enter).length := by
    rw [List.length_map]
    exact List.length_pos_iff.2 hne
  have hfirst : s.futures.length ∈ s.fresh ((Engine.followers v).map Program.enter).length :=
    mem_fresh.2 ⟨Nat.le_refl _, Nat.lt_add_of_pos_right hpos⟩
  have hreached := isReached_branch hp hmust hpr hfits hfirst
  generalize (Engine.followers v).map Program.enter = programs at hpos hfirst hreached
  -- The gathering and its first child have not ended, for they are new.
  have hnew : ∀ j, s.futures.length ≤ j →
      ((s.spawnAll programs).2.gather (s.fresh programs.length)).2.bareKind? j ≠ some .sleep →
      (s.branch id programs (.join v)).ending? j = none := fun j hj hsleep =>
    (ending?_branch_of_ne_sleep hpr programs _ hsleep).trans (ending?_of_length_le hj)
  refine .passed ⟨?_, Or.inl ((waiter?_branch hpr).trans (if_pos rfl))⟩
    (.passed ⟨?_, Or.inr ⟨s.fresh programs.length, ?_, hfirst⟩⟩ (hreached.hasTakenRequest ?_))
  · refine ((goesOnAlone_branch hpr programs _).live (fun hcontra => ?_) hlt).trans hlive
    cases (bareKind?_eq_task_iff.2 hpr).symm.trans hcontra
  · refine hnew _ (Nat.le_add_right _ _) ?_
    rw [bareKind?_gather_spawnAll, if_neg (by lia), if_pos rfl]
    exact fun hcontra => by cases hcontra
  · rw [bareKind?_branch hpr, if_neg (by lia), if_neg (by lia), if_pos rfl]
  · refine hnew _ (Nat.le_refl _) ?_
    rw [bareKind?_gather_spawnAll, if_neg (Nat.lt_irrefl _), if_neg (by lia)]
    intro hcontra
    obtain ⟨pr, -, hcontra⟩ := Option.map_eq_some_iff.1 hcontra
    cases hcontra

end Turn

end Scheduler

end PipelineGraph.Simulation
