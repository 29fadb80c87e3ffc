import PipelineGraph.Proofs.Simulation.Fitting

/-!
# How far a request to cancel goes

A task passes a request to cancel on to what it waits for, and a gathering to its children, as long as
they have not ended. From a visit to those that follow it a request goes through two futures, so the
greatest depth bounds how many futures it goes through. Where that is within the bound for requests, none
goes too deep, and a request reaches every visit at work that it can come to.
-/

namespace PipelineGraph.Simulation

open Relation

/-- A plan whose greatest depth leaves room for requests to cancel: they may go through a caller, and at each
depth through a visit and the gathering of those that follow it. -/
def Plan.IsShallow (p : Plan) : Prop :=
  2 * p.maxDepth + 4 ≤ Scheduler.maxRequestDepth

instance (p : Plan) : Decidable p.IsShallow :=
  inferInstanceAs (Decidable (_ ≤ _))

namespace Scheduler

section Asks

variable {P A : Type} {s s' s'' : Scheduler P A} {id j : FutureId}

/-- Requests to cancel lead from one scheduler to another: more tasks keep a request, and some sleeps
have ended. -/
structure Asks (s s' : Scheduler P A) : Prop where
  keeps : s.Keeps s'
  must : ∀ {j}, s.mustCancel j = true → s'.mustCancel j = true
  ending : ∀ j, s'.ending? j = s.ending? j ∨
    s.bareKind? j = some .sleep ∧ s.ending? j = none ∧ s'.ending? j = some (.error .cancelled)

/-- Without a request a scheduler stays as it is. -/
theorem Asks.refl (s : Scheduler P A) : s.Asks s :=
  ⟨Keeps.refl s, fun h => h, fun _ => Or.inl rfl⟩

/-- Requests after requests are requests. -/
theorem Asks.trans (h : s.Asks s') (h' : s'.Asks s'') : s.Asks s'' where
  keeps := h.keeps.trans h'.keeps
  must hj := h'.must (h.must hj)
  ending j := by
    rcases h.ending j with hsame | ⟨hsleep, hnone, hend⟩
    · rcases h'.ending j with hsame' | ⟨hsleep, hnone, hend⟩
      · exact Or.inl (hsame'.trans hsame)
      · exact Or.inr ⟨(h.keeps.bareKind j).symm.trans hsleep, hsame.symm.trans hnone, hend⟩
    · rcases h'.ending j with hsame' | ⟨-, hcontra, -⟩
      · exact Or.inr ⟨hsleep, hnone, hsame'.trans hend⟩
      · rw [hend] at hcontra
        cases hcontra

/-- What has ended stays so. -/
theorem Asks.ending_stays (h : s.Asks s') {e : Ending} (he : s.ending? j = some e) : s'.ending? j = some e := by
  rcases h.ending j with hsame | ⟨-, hnone, -⟩
  · exact hsame.trans he
  · rw [hnone] at he
    cases he

/-- What is no sleep ends by no request. -/
theorem Asks.ending_of_ne_sleep (h : s.Asks s') (hj : s.bareKind? j ≠ some .sleep) :
    s'.ending? j = s.ending? j :=
  (h.ending j).resolve_right fun hcontra => hj hcontra.1

/-- A task that is marked is to be cancelled, and no other one. -/
theorem mustCancel_markCancel :
    (s.markCancel id).mustCancel j = if id = j then (s.task? j).isSome else s.mustCancel j := by
  simp only [mustCancel, markCancel, task?_modifyTask]
  split
  · cases s.task? j <;> rfl
  · rfl

/-- A task that is marked keeps a request. -/
theorem asks_markCancel (id : FutureId) : s.Asks (s.markCancel id) where
  keeps := keeps_markCancel id
  must {j} hj := by
    rw [mustCancel_markCancel]
    split
    · cases ht : s.task? j with
      | none => simp [mustCancel, ht] at hj
      | some t => rfl
    · exact hj
  ending j := Or.inl (ending?_modifyTask _)

/-- A gathering that is asked to cancel asks. -/
theorem asks_requestCancel (id : FutureId) :
    s.Asks (s.modifyGathering id fun g => { g with cancelRequested := true }) where
  keeps := keeps_modifyGathering fun _ => rfl
  must {j} hj := by
    rw [mustCancel, task?_modifyGathering]
    exact hj
  ending j := Or.inl (ending?_modifyGathering _)

/-- A request to cancel asks, wherever it travels. -/
theorem asks_cancelWithin (depth : Nat) (id : FutureId) : s.Asks (cancelWithin depth id s).2 := by
  apply cancelWithin_induction (Q := fun s' => s.Asks s')
  · refine fun s' id h hsleep hlive => h.trans ⟨keeps_complete id _, fun {j} hj => ?_, fun j => ?_⟩
    · rw [mustCancel, task?_complete]
      exact hj
    · rcases ending?_complete_cases (s := s') (i := id) (j := j) (.error .cancelled) with
        hsame | ⟨rfl, hnone, hend⟩
      · exact Or.inl hsame
      · exact Or.inr ⟨bareKind?_eq_sleep_iff.2 hsleep, hnone, hend⟩
  · exact fun s' id h => h.trans (asks_requestCancel id)
  · exact fun s' id h => h.trans (asks_markCancel id)
  · exact Asks.refl s

/-- A request to cancel asks. -/
theorem asks_cancel (id : FutureId) : s.Asks (s.cancel id).2 :=
  asks_cancelWithin maxRequestDepth id

/-- Requests are made one after the other. -/
theorem cancelAll_append (ids ids' : List FutureId) : s.cancelAll (ids ++ ids') = (s.cancelAll ids).cancelAll ids' :=
  List.foldl_append

/-- Requests to cancel several futures ask. -/
theorem asks_cancelAll (ids : List FutureId) : s.Asks (s.cancelAll ids) := by
  induction ids generalizing s with
  | nil => exact Asks.refl s
  | cons id rest ih => exact (asks_cancel id).trans ih

/-- Requests to several futures ask, however far they go. -/
theorem asks_askEach (room : Nat) (ids : List FutureId) : s.Asks (askEach (cancelWithin room) ids s).2 :=
  askEach_induction (Q := fun s' => s.Asks s') (fun id _ _ h => h.trans (asks_cancelWithin room id)) (Asks.refl s)

/-- Requests to several futures do not go too deep if none does. -/
theorem askEach_ne_tooDeep {room : Nat} {ids : List FutureId}
    (h : ∀ id ∈ ids, ∀ s', s.Asks s' → (cancelWithin room id s').1 ≠ .tooDeep) :
    (askEach (cancelWithin room) ids s).1 ≠ .tooDeep := by
  induction ids generalizing s with
  | nil => exact fun hcontra => by cases hcontra
  | cons id rest ih =>
    have hfirst := h id List.mem_cons_self s (Asks.refl s)
    refine fun hcontra => ih (fun id' hid' s' hs' => ?_) ((askEach_cons_of_ne hfirst).2.1 hcontra)
    exact h id' (List.mem_cons_of_mem _ hid') s' ((asks_cancelWithin room id).trans hs')

end Asks

/-! ## How deep requests go -/

variable {p : Plan} {s s' : Scheduler Program Action} {x y t : FutureId}

/-- A future that has not ended passes requests on to another one. -/
def Links (s : Scheduler Program Action) (x y : FutureId) : Prop :=
  s.ending? x = none ∧
    (s.waiter? x = some y ∨ ∃ children, s.bareKind? x = some (.gathering children) ∧ y ∈ children)

/-- How many futures a request goes through at most that begins with a visit at some depth. -/
def visitSpan (p : Plan) (depth : Nat) : Nat :=
  2 * (p.maxDepth + 1 - depth).toNat + 1

/-- How many futures a request goes through at most that begins with some future. -/
def span (p : Plan) (s : Scheduler Program Action) (x : FutureId) : Nat :=
  match s.bareKind? x with
  | some (.task pr) => pr.visit?.elim (visitSpan p 0 + 1) fun v => visitSpan p v.depth
  | some (.gathering children) => (children.head?.bind s.visit?).elim 1 fun v => visitSpan p v.depth + 1
  | _ => 1

/-- A request goes through no more futures from a deeper visit on. -/
theorem visitSpan_le (depth : Nat) : visitSpan p depth ≤ visitSpan p 0 := by
  unfold visitSpan
  lia

/-- What a request to the task of a visit goes through depends on the depth of the visit. -/
theorem span_of_visit {v : Visit} (hx : s.visit? x = some v) : s.span p x = visitSpan p v.depth := by
  obtain ⟨pr, hpr, hv⟩ := visit?_eq_some_iff.1 hx
  simp only [span, bareKind?_eq_task_iff.2 hpr, hv, Option.elim_some]

/-- A request to a caller goes through one future more than one to a visit at the start. -/
theorem span_of_caller {pr : Program} (hpr : s.program? x = some pr) (hv : pr.visit? = none) :
    s.span p x = visitSpan p 0 + 1 := by
  simp only [span, bareKind?_eq_task_iff.2 hpr, hv, Option.elim_none]

/-- A request to a sleep goes no further. -/
theorem span_of_sleep (hx : s.bareKind? x = some .sleep) : s.span p x = 1 := by
  simp only [span, hx]

/-- A request goes through one future at least. -/
theorem span_pos : 0 < s.span p x := by
  unfold span
  split
  · next pr _ => cases pr.visit? <;> exact Nat.succ_pos _
  · next children _ => cases children.head?.bind s.visit? <;> exact Nat.succ_pos _
  · exact Nat.one_pos

/-- A request that begins with a caller may go through the most futures. -/
theorem span_le : s.span p x ≤ visitSpan p 0 + 1 := by
  unfold span
  split
  · next pr _ =>
    cases pr.visit? with
    | none => exact Nat.le_refl _
    | some v => exact Nat.le_succ_of_le (visitSpan_le v.depth)
  · next children _ =>
    cases children.head?.bind s.visit? with
    | none => exact Nat.succ_le_succ (Nat.zero_le _)
    | some v => exact Nat.succ_le_succ (visitSpan_le v.depth)
  · exact Nat.succ_le_succ (Nat.zero_le _)

/-- What is kept has the same spans. -/
theorem Keeps.span (h : s.Keeps s') : s'.span p x = s.span p x := by
  have hvisit : s'.visit? = s.visit? := funext fun y => visit?_congr (h.program y)
  rw [Scheduler.span, Scheduler.span, h.bareKind, hvisit]

/-- Who waits is a task. -/
theorem exists_program?_of_waiter? (h : s.waiter? x = some y) : ∃ pr, s.program? x = some pr := by
  obtain ⟨state, ht, -⟩ := Option.bind_eq_some_iff.1 h
  exact ⟨state.program, by rw [program?, ht]; rfl⟩

/-- What passes requests on is a future. -/
theorem Links.lt (h : s.Links x y) : x < s.futures.length := by
  obtain ⟨-, hwaiter | ⟨children, hg, -⟩⟩ := h
  · obtain ⟨pr, hpr⟩ := exists_program?_of_waiter? hwaiter
    exact lt_of_program? hpr
  · exact lt_of_bareKind? hg

/-- The children of a gathering have one span, one below that of the gathering. -/
theorem Fitting.span_gathering (h : s.Fitting p) {children : List FutureId}
    (hg : s.bareKind? x = some (.gathering children)) (hy : y ∈ children) : s.span p x = s.span p y + 1 := by
  obtain ⟨depth, hall⟩ := h.gathered hg
  obtain ⟨c, rest, rfl⟩ := List.exists_cons_of_ne_nil (List.ne_nil_of_mem hy)
  obtain ⟨v, hv, hvdepth⟩ := hall c List.mem_cons_self
  obtain ⟨v', hv', hvdepth'⟩ := hall y hy
  rw [span_of_visit hv', hvdepth', ← hvdepth]
  simp only [span, hg, List.head?_cons, Option.bind_some, hv, Option.elim_some]

/-- A request goes on to futures of smaller spans. -/
theorem Fitting.span_lt (h : s.Fitting p) (hlink : s.Links x y) : s.span p y < s.span p x := by
  obtain ⟨-, hwaiter | ⟨children, hg, hy⟩⟩ := hlink
  · obtain ⟨-, -, pr, hpr, hexpects⟩ := h.jobs (h.waiter hwaiter)
    have hself : ∀ {v}, pr.visit? = some v → s.span p x = visitSpan p v.depth := fun hv =>
      span_of_visit (visit?_eq_some_iff.2 ⟨pr, hpr, hv⟩)
    -- A visit that has begun is not too deep, so those that follow it could be visited.
    have hroom : ∀ {v : Visit}, ¬ p.maxDepth < v.depth → visitSpan p (v.depth + 1) + 2 = visitSpan p v.depth := by
      intro v hdepth
      unfold visitSpan
      lia
    cases pr with
    | leave v | fanOut v =>
      rw [span_of_sleep hexpects, hself rfl, ← hroom (h.proper hpr).1]
      exact Nat.succ_lt_succ (Nat.succ_pos _)
    | join v children =>
      obtain ⟨hdepth, hchildren, -⟩ := h.proper hpr
      rw [hself rfl, ← hroom hdepth]
      cases children with
      | nil =>
        have hy : s.span p y = 1 := by
          simp only [span, show s.bareKind? y = some (.gathering []) from hexpects, List.head?_nil, Option.bind_none,
            Option.elim_none]
        rw [hy]
        exact Nat.succ_lt_succ (Nat.succ_pos _)
      | cons c rest =>
        obtain ⟨-, v', hv', hdepth'⟩ := hchildren c List.mem_cons_self
        rw [h.span_gathering hexpects List.mem_cons_self, span_of_visit hv', hdepth']
        exact Nat.lt_succ_self _
    | conclude =>
      obtain ⟨v, hv⟩ := hexpects
      rw [span_of_caller hpr rfl, span_of_visit hv]
      exact Nat.lt_succ_of_le (visitSpan_le v.depth)
    | enter | call => exact hexpects.elim
  · rw [h.span_gathering hg hy]
    exact Nat.lt_succ_self _

/-! ## What a request reaches -/

/-- A request to cancel has reached a task: it keeps the request, or what it waits for has ended. -/
def IsReached (s : Scheduler Program Action) (t : FutureId) : Prop :=
  s.mustCancel t = true ∨ ∃ y, s.waiter? t = some y ∧ s.ending? y = some (.error .cancelled)

/-- What a request has reached stays so. -/
theorem IsReached.asks (h : s.IsReached t) (hs : s.Asks s') : s'.IsReached t :=
  h.imp hs.must fun ⟨y, hy, hend⟩ => ⟨y, (hs.keeps.waiter t).trans hy, hs.ending_stays hend⟩

/-- Requests do not cut off the ways along which they travel. -/
theorem Links.asks (h : s.Links x y) (hs : s.Asks s') : s'.Links x y := by
  obtain ⟨hlive, hlink⟩ := h
  have hne : s.bareKind? x ≠ some .sleep := by
    intro hsleep
    rcases hlink with hwaiter | ⟨children, hg, -⟩
    · obtain ⟨pr, hpr⟩ := exists_program?_of_waiter? hwaiter
      cases (bareKind?_eq_task_iff.2 hpr).symm.trans hsleep
    · cases hg.symm.trans hsleep
  refine ⟨(hs.ending_of_ne_sleep hne).trans hlive, hlink.imp (hs.keeps.waiter x).trans ?_⟩
  exact fun ⟨children, hg, hy⟩ => ⟨children, (hs.keeps.bareKind x).trans hg, hy⟩

/-- A request that is passed on to the children of a gathering reaches what it reaches from one of them. -/
theorem isReached_askEach {room : Nat} {children : List FutureId} (hy : y ∈ children)
    (hdeep : ∀ c ∈ children, ∀ s', s.Asks s' → (cancelWithin room c s').1 ≠ .tooDeep)
    (hreach : ∀ s', s.Asks s' → (cancelWithin room y s').2.IsReached t) (hs : s.Asks s') :
    (askEach (cancelWithin room) children s').2.IsReached t := by
  induction children generalizing s' with
  | nil => cases hy
  | cons c rest ih =>
    have hfirst := asks_cancelWithin (s := s') room c
    rw [(askEach_cons_of_ne (hdeep c List.mem_cons_self s' hs)).1]
    rcases List.mem_cons.1 hy with rfl | hy
    · exact (hreach s' hs).asks (asks_askEach room rest)
    · exact ih hy (fun c' hc' => hdeep c' (List.mem_cons_of_mem _ hc')) (hs.trans hfirst)

/-- A sleep that takes a request has ended by it. -/
theorem ending?_of_taken {room : Nat} (hsleep : s.bareKind? x = some .sleep)
    (htaken : (cancelWithin room x s).1 = .taken) :
    (cancelWithin room x s).2.ending? x = some (.error .cancelled) := by
  cases room with
  | zero => cases htaken
  | succ room =>
    obtain ⟨f, hf, hk⟩ := kind?_eq_some_iff.1 (bareKind?_eq_sleep_iff.1 hsleep)
    simp only [cancelWithin, hf] at htaken ⊢
    by_cases hended : f.ending.isSome = true
    · rw [if_pos hended] at htaken
      cases htaken
    · rw [if_neg hended, hk]
      rw [ending?_complete, if_pos rfl, hf]
      cases hnone : f.ending with
      | none => simp [hnone]
      | some e => simp [hnone] at hended

/-- A request goes on with less room to futures of spans within that. -/
theorem Fitting.span_le_of_links (h : s.Fitting p) {room : Nat} (hlink : s.Links x y)
    (hroom : s.span p x ≤ room + 1) (hs : s.Asks s') : s'.span p y ≤ room :=
  hs.keeps.span.trans_le (Nat.le_of_lt_succ ((h.span_lt hlink).trans_le hroom))

/-- A request with room for the span of its future does not go too deep. -/
theorem Fitting.cancelWithin_ne_tooDeep (h : s.Fitting p) {room : Nat} (hroom : s.span p x ≤ room) :
    (cancelWithin room x s).1 ≠ .tooDeep := by
  induction room generalizing s x with
  | zero => exact absurd hroom (Nat.not_le_of_lt span_pos)
  | succ room ih =>
    have hnext : ∀ {y s'}, s.Links x y → s.Asks s' → (cancelWithin room y s').1 ≠ .tooDeep := fun hlink hs =>
      ih (h.keeps hs.keeps) (h.span_le_of_links hlink hroom hs)
    rw [cancelWithin]
    split
    · exact Reply.noConfusion
    · next f hf =>
      split
      · exact Reply.noConfusion
      · next hlive =>
        have hnone : s.ending? x = none := by
          simpa [ending?, hf] using hlive
        split
        · exact Reply.noConfusion
        · next g hk =>
          have hg : s.bareKind? x = some (.gathering g.children) :=
            bareKind?_eq_gathering_iff.2 ⟨g, kind?_eq_some_iff.2 ⟨f, hf, hk⟩, rfl⟩
          have hall := askEach_ne_tooDeep (s := s) fun c hc s' hs => hnext ⟨hnone, Or.inr ⟨_, hg, hc⟩⟩ hs
          split
          · exact Reply.noConfusion
          · exact hall
        · next state hk =>
          split
          · exact Reply.noConfusion
          · next source hsource =>
            have hwaiter : s.waiter? x = some source := by
              rw [waiter?, task?_eq_some_iff.2 (kind?_eq_some_iff.2 ⟨f, hf, hk⟩), Option.bind_some, hsource]
            have hthere := hnext ⟨hnone, Or.inl hwaiter⟩ (Asks.refl s)
            split
            · exact Reply.noConfusion
            · exact hthere

/-- A request that comes to a visit at work reaches it. -/
theorem Fitting.isReached_of_visit (h : s.Fitting p) {room : Nat} (hlive : s.ending? t = none) {pr : Program}
    (hpr : s.program? t = some pr) (hactive : pr.isActive = true) (hroom : s.span p t ≤ room + 1) :
    (cancelWithin (room + 1) t s).2.IsReached t := by
  obtain ⟨state, ht, rfl⟩ := Option.map_eq_some_iff.1 hpr
  obtain ⟨f, hf, hk⟩ := kind?_eq_some_iff.1 (task?_eq_some_iff.1 ht)
  have hnone : f.ending = none := by
    simpa [ending?, hf] using hlive
  have hmarked : ∀ {s' : Scheduler Program Action}, s.Keeps s' → (s'.markCancel t).IsReached t := by
    intro s' hs
    obtain ⟨state', ht', -⟩ := Option.map_eq_some_iff.1 ((hs.program t).trans hpr)
    refine Or.inl ?_
    rw [mustCancel_markCancel, if_pos rfl, ht']
    rfl
  simp only [cancelWithin, hf, hnone, hk, Option.isSome_none, Bool.false_eq_true, if_false]
  cases hsource : state.waiter with
  | none => exact hmarked (Keeps.refl s)
  | some source =>
    have hwaiter : s.waiter? t = some source := by
      rw [waiter?, ht, Option.bind_some, hsource]
    obtain ⟨-, -, pr', hpr', hexpects⟩ := h.jobs (h.waiter hwaiter)
    cases hpr.symm.trans hpr'
    have hsleep : s.bareKind? source = some .sleep := by
      cases hp : state.program with
      | leave | fanOut => rwa [hp] at hexpects
      | enter | call =>
        rw [hp] at hexpects
        exact hexpects.elim
      | join | conclude =>
        rw [hp] at hactive
        cases hactive
    have hasks := asks_cancelWithin (s := s) room source
    have hdeep := h.cancelWithin_ne_tooDeep (h.span_le_of_links ⟨hlive, Or.inl hwaiter⟩ hroom (Asks.refl s))
    have htaken : (cancelWithin room source s).1 = .taken →
        (cancelWithin room source s).2.ending? source = some (.error .cancelled) := ending?_of_taken hsleep
    dsimp only
    generalize cancelWithin room source s = answer at hasks hdeep htaken
    obtain ⟨reply, s'⟩ := answer
    cases reply with
    | refused => exact hmarked hasks.keeps
    | taken => exact Or.inr ⟨source, (hasks.keeps.waiter t).trans hwaiter, htaken rfl⟩
    | tooDeep => exact absurd rfl hdeep

/-- A request reaches what it reaches from one of the futures to which it is passed on. -/
theorem Fitting.isReached_of_links (h : s.Fitting p) {room : Nat} (hlink : s.Links x y)
    (hroom : s.span p x ≤ room + 1) (hnext : ∀ s', s.Asks s' → (cancelWithin room y s').2.IsReached t) :
    (cancelWithin (room + 1) x s).2.IsReached t := by
  have hdeep : ∀ {c s'}, s.Links x c → s.Asks s' → (cancelWithin room c s').1 ≠ .tooDeep := fun hlink hs =>
    (h.keeps hs.keeps).cancelWithin_ne_tooDeep (h.span_le_of_links hlink hroom hs)
  obtain ⟨f, hf⟩ : ∃ f, s.future? x = some f := ⟨_, List.getElem?_eq_getElem hlink.lt⟩
  obtain ⟨hlive, hway⟩ := hlink
  have hnone : f.ending = none := by
    simpa [ending?, hf] using hlive
  simp only [cancelWithin, hf, hnone, Option.isSome_none, Bool.false_eq_true, if_false]
  rcases hway with hwaiter | ⟨children, hg, hy⟩
  · obtain ⟨state, ht, hsource⟩ := Option.bind_eq_some_iff.1 hwaiter
    obtain ⟨f', hf', hk⟩ := kind?_eq_some_iff.1 (task?_eq_some_iff.1 ht)
    cases hf.symm.trans hf'
    simp only [hk, hsource]
    have hthere := hnext s (Asks.refl s)
    split
    · next hrefused =>
      rw [hrefused] at hthere
      exact hthere.asks (asks_markCancel x)
    · exact hthere
  · obtain ⟨g, hkind, rfl⟩ := bareKind?_eq_gathering_iff.1 hg
    obtain ⟨f', hf', hk⟩ := kind?_eq_some_iff.1 hkind
    cases hf.symm.trans hf'
    simp only [hk]
    have hall := isReached_askEach hy (fun c hc s' hs => hdeep ⟨hlive, Or.inr ⟨_, hg, hc⟩⟩ hs) hnext (Asks.refl s)
    split
    · next htaken =>
      rw [htaken] at hall
      exact hall.asks (asks_requestCancel x)
    · exact hall

/-- A request with room for the span of its future reaches every visit at work that it can come to. -/
theorem Fitting.isReached_cancelWithin (h : s.Fitting p) {room : Nat} (hpath : ReflTransGen s.Links x t)
    (hlive : s.ending? t = none) {pr : Program} (hpr : s.program? t = some pr) (hactive : pr.isActive = true)
    (hroom : s.span p x ≤ room) : (cancelWithin room x s).2.IsReached t := by
  induction room generalizing s x with
  | zero => exact absurd hroom (Nat.not_le_of_lt span_pos)
  | succ room ih =>
    rcases hpath.cases_head with rfl | ⟨y, hlink, hrest⟩
    · exact h.isReached_of_visit hlive hpr hactive hroom
    · refine h.isReached_of_links hlink hroom fun s' hs => ?_
      refine ih (h.keeps hs.keeps) (hrest.lift (fun z => z) fun _ _ hl => hl.asks hs) ?_
        ((hs.keeps.program t).trans hpr)
        (h.span_le_of_links hlink hroom hs)
      refine (hs.ending_of_ne_sleep fun hsleep => ?_).trans hlive
      cases (bareKind?_eq_task_iff.2 hpr).symm.trans hsleep

/-! ## Shallow plans -/

/-- Every request has room for its span if the greatest depth leaves it. -/
theorem span_le_of_isShallow (hp : p.IsShallow) : s.span p x ≤ maxRequestDepth := by
  refine span_le.trans ?_
  unfold Plan.IsShallow maxRequestDepth at hp
  unfold visitSpan maxRequestDepth
  lia

/-- No request goes too deep in a shallow plan. -/
theorem Fitting.cancel_ne_tooDeep (h : s.Fitting p) (hp : p.IsShallow) : (s.cancel x).1 ≠ .tooDeep :=
  h.cancelWithin_ne_tooDeep (span_le_of_isShallow hp)

/-- Requests to several futures do not go too deep in a shallow plan either. -/
theorem Fitting.cancelEach_ne_tooDeep (h : s.Fitting p) (hp : p.IsShallow) {ids : List FutureId} :
    (s.cancelEach ids).1 ≠ .tooDeep :=
  askEach_ne_tooDeep fun _ _ _ hs' => (h.keeps hs'.keeps).cancel_ne_tooDeep hp

/-- A request reaches every visit at work that it can come to in a shallow plan. -/
theorem Fitting.isReached_cancel (h : s.Fitting p) (hp : p.IsShallow) (hpath : ReflTransGen s.Links x t)
    (hlive : s.ending? t = none) {pr : Program} (hpr : s.program? t = some pr) (hactive : pr.isActive = true) :
    (s.cancel x).2.IsReached t :=
  h.isReached_cancelWithin hpath hlive hpr hactive (span_le_of_isShallow hp)

end Scheduler

end PipelineGraph.Simulation
