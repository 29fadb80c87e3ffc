import PipelineGraph.Proofs.Simulation.Futures

/-!
# Soundness of a scheduler

A task that has not ended has exactly one turn ahead of it, in the queue or behind the end of what
it waits for; a sleep that has not ended has a timer or a job that ends it; a gathering that has
not ended still has a child to count. So whatever waits is let go on some time, and nothing is
let go on twice.

While a future is being dealt with these rules are suspended for it: the future is held. Each
operation of the scheduler keeps a scheduler sound, and some of them release what is held.
-/

namespace PipelineGraph.Simulation

variable {P A : Type}

namespace FutureKind

/-- Two kinds that differ at most in how far a future is and in requests to cancel it. -/
def Alike : FutureKind P → FutureKind P → Prop
  | .sleep, .sleep => True
  | .gathering g, .gathering g' => g'.children = g.children
  | .task _, .task _ => True
  | _, _ => False

variable {k k' : FutureKind P}

/-- A kind is alike to itself. -/
theorem Alike.refl (k : FutureKind P) : k.Alike k := by
  cases k <;> simp [Alike]

/-- Kinds are alike to each other. -/
theorem Alike.symm (h : k.Alike k') : k'.Alike k := by
  cases k <;> cases k' <;> simp_all [Alike]

/-- What is like a sleep is one. -/
theorem Alike.eq_sleep (h : k.Alike .sleep) : k = .sleep := by
  cases k <;> simp_all [Alike]

/-- What is like a task is one. -/
theorem Alike.exists_task {t : TaskState P} (h : k.Alike (.task t)) : ∃ t₀, k = .task t₀ := by
  cases k <;> simp_all [Alike]

/-- What is like a gathering is one of the same children. -/
theorem Alike.exists_gathering {g : GatheringState} (h : k.Alike (.gathering g)) :
    ∃ g₀, k = .gathering g₀ ∧ g.children = g₀.children := by
  cases k <;> simp_all [Alike]

end FutureKind

namespace Scheduler

/-- How many turns of a task are ahead. -/
def turns (s : Scheduler P A) (task : FutureId) : Nat :=
  s.jobs.countP fun job => job.task? = some task

/-- How many children a gathering still has to count. -/
def counts (s : Scheduler P A) (gathering : FutureId) : Nat :=
  s.jobs.countP fun job => job.gathering? = some gathering

/-- What holds of a future that is not held. -/
structure Fits (s : Scheduler P A) (id : FutureId) (f : Future P A) : Prop where
  sleep : f.kind = .sleep → f.ending = none → .elapse id ∈ s.ready ++ s.timers.map (·.job)
  task : ∀ t, f.kind = .task t → s.turns id = if f.ending = none then 1 else 0
  gathering : ∀ g, f.kind = .gathering g → g.counted + s.counts id = g.children.length
  waiting : ∀ g, f.kind = .gathering g → f.ending = none → g.counted < g.children.length
  children : ∀ g, f.kind = .gathering g → f.ending = none →
    ∀ c ∈ g.children, .count id c ∈ s.jobs ∨ s.ending? c = some (.ok ())

/-- The jobs and the futures from number `b` on fit together, apart from the futures held. -/
structure Sound (b : FutureId) (held : FutureId → Prop) (s : Scheduler P A) : Prop where
  base : b ≤ s.futures.length
  callback_source : ∀ {id f job}, s.future? id = some f → job ∈ f.callbacks → job.source? = some id
  callbacks_ended : ∀ {id f}, s.future? id = some f → f.ending ≠ none → f.callbacks = []
  ready_source : ∀ {id job}, job ∈ s.ready → job.source? = some id → s.ending? id ≠ none
  timer : ∀ {t}, t ∈ s.timers → t.job.source? = none ∧ t.job.task? = none
  turn_task : ∀ {id job}, job ∈ s.jobs → job.task? = some id →
    b ≤ id ∧ ∃ t, s.kind? id = some (.task t)
  count_child : ∀ {id c}, .count id c ∈ s.jobs →
    b ≤ id ∧ ∃ g, s.kind? id = some (.gathering g) ∧ c ∈ g.children
  elapse_sleep : ∀ {id}, .elapse id ∈ s.jobs → s.kind? id = some .sleep
  /-- A gathering ends well only when all its children have. -/
  children_ok : ∀ {id f g}, b ≤ id → s.future? id = some f → f.kind = .gathering g →
    f.ending = some (.ok ()) → ∀ c ∈ g.children, s.ending? c = some (.ok ())
  /-- A task that is held has no turn ahead. -/
  idle : ∀ {id t}, b ≤ id → held id → s.kind? id = some (.task t) → s.turns id = 0
  fits : ∀ {id f}, b ≤ id → ¬ held id → s.future? id = some f → s.Fits id f

variable {s s' : Scheduler P A} {b i id : FutureId} {held held' : FutureId → Prop} {job : Job A}
  {f : Future P A}

/-- A future still fits if its turns and counts are the same and endings have stayed. -/
theorem Fits.mono {f' : Future P A} (h : s.Fits id f) (hkind : f'.kind = f.kind)
    (hending : f'.ending = f.ending)
    (hqueue : .elapse id ∈ s.ready ++ s.timers.map (·.job) →
      .elapse id ∈ s'.ready ++ s'.timers.map (·.job))
    (hturns : s'.turns id = s.turns id) (hcounts : s'.counts id = s.counts id)
    (hmem : ∀ c, .count id c ∈ s.jobs → .count id c ∈ s'.jobs)
    (hok : ∀ c, s.ending? c = some (.ok ()) → s'.ending? c = some (.ok ())) : s'.Fits id f' where
  sleep hk hlive := hqueue (h.sleep (hkind ▸ hk) (hending ▸ hlive))
  task t hk := by
    rw [hturns, hending]
    exact h.task t (hkind ▸ hk)
  gathering g hk := by
    rw [hcounts]
    exact h.gathering g (hkind ▸ hk)
  waiting g hk hlive := h.waiting g (hkind ▸ hk) (hending ▸ hlive)
  children g hk hlive c hc := (h.children g (hkind ▸ hk) (hending ▸ hlive) c hc).imp (hmem c) (hok c)

/-- A task fits if it has one turn ahead until it has ended. -/
theorem Fits.of_task {t : TaskState P} (hk : f.kind = .task t)
    (hturns : s.turns id = if f.ending = none then 1 else 0) : s.Fits id f where
  sleep hk' _ := by cases hk.symm.trans hk'
  task _ _ := hturns
  gathering _ hk' := by cases hk.symm.trans hk'
  waiting _ hk' _ := by cases hk.symm.trans hk'
  children _ hk' _ := by cases hk.symm.trans hk'

/-- A sleep fits if the job that ends it is on its way until it has ended. -/
theorem Fits.of_sleep (hk : f.kind = .sleep)
    (hqueue : f.ending = none → .elapse id ∈ s.ready ++ s.timers.map (·.job)) : s.Fits id f where
  sleep _ := hqueue
  task _ hk' := by cases hk.symm.trans hk'
  gathering _ hk' := by cases hk.symm.trans hk'
  waiting _ hk' _ := by cases hk.symm.trans hk'
  children _ hk' _ := by cases hk.symm.trans hk'

/-- A gathering fits if it accounts for all its children, and has some left until it has ended. -/
theorem Fits.of_gathering {g : GatheringState} (hk : f.kind = .gathering g)
    (hsum : g.counted + s.counts id = g.children.length)
    (hlive : f.ending = none → g.counted < g.children.length ∧
      ∀ c ∈ g.children, .count id c ∈ s.jobs ∨ s.ending? c = some (.ok ())) : s.Fits id f where
  sleep hk' _ := by cases hk.symm.trans hk'
  task _ hk' := by cases hk.symm.trans hk'
  gathering g' hk' := by
    cases hk.symm.trans hk'
    exact hsum
  waiting g' hk' hend := by
    cases hk.symm.trans hk'
    exact (hlive hend).1
  children g' hk' hend := by
    cases hk.symm.trans hk'
    exact (hlive hend).2

/-- A job behind the end of a future waits for that, and the future has not ended. -/
theorem Sound.of_mem_callbacks (h : Sound b held s) (hjob : job ∈ s.callbacks id) :
    job.source? = some id ∧ job ∈ s.jobs ∧ s.ending? id = none := by
  unfold callbacks at hjob
  cases hf : s.future? id with
  | none =>
    rw [hf] at hjob
    cases hjob
  | some f =>
    rw [hf] at hjob
    refine ⟨h.callback_source hf hjob, ?_, ?_⟩
    · exact List.mem_append_right _ (List.mem_flatMap.2 ⟨f, List.mem_of_getElem? hf, hjob⟩)
    · rw [ending?, hf, Option.bind_some]
      by_contra hended
      rw [Option.map_some, Option.getD_some, h.callbacks_ended hf hended] at hjob
      cases hjob

/-- A job is queued, behind a timer, or behind the end of a future that has not ended. -/
theorem Sound.mem_jobs_cases (h : Sound b held s) (hjob : job ∈ s.jobs) :
    job ∈ s.ready ++ s.timers.map (·.job) ∨ ∃ source, job.source? = some source ∧ s.ending? source = none := by
  refine (List.mem_append.1 hjob).imp_right fun hbehind => ?_
  obtain ⟨f, hf, hmem⟩ := List.mem_flatMap.1 hbehind
  obtain ⟨i, hi, rfl⟩ := List.getElem_of_mem hf
  have hfuture : s.future? i = some s.futures[i] := List.getElem?_eq_getElem hi
  have hcallback : job ∈ s.callbacks i := by
    rw [callbacks, hfuture]
    exact hmem
  obtain ⟨hsource, -, hlive⟩ := h.of_mem_callbacks hcallback
  exact ⟨i, hsource, hlive⟩

/-- There are no jobs for futures that do not exist. -/
theorem Sound.turns_length (h : Sound b held s) : s.turns s.futures.length = 0 := by
  refine List.countP_eq_zero.2 fun job hjob htask => ?_
  obtain ⟨-, t, ht⟩ := h.turn_task hjob (of_decide_eq_true htask)
  obtain ⟨f, hf, -⟩ := kind?_eq_some_iff.1 ht
  exact Nat.lt_irrefl _ (lt_of_future? hf)

/-- A future that is not there has no child ahead. -/
theorem Sound.counts_length (h : Sound b held s) : s.counts s.futures.length = 0 := by
  refine List.countP_eq_zero.2 fun job hjob hcount => ?_
  cases job with
  | count g c =>
    obtain rfl : g = s.futures.length := Option.some.inj (of_decide_eq_true hcount)
    obtain ⟨-, g', hg', -⟩ := h.count_child hjob
    obtain ⟨f, hf, -⟩ := kind?_eq_some_iff.1 hg'
    exact Nat.lt_irrefl _ (lt_of_future? hf)
  | resume | wake | elapse | act => simp [Job.gathering?] at hcount

/-- What is held may be let go if it fits. -/
theorem Sound.release (h : Sound b held s) (hsub : ∀ id, held' id → held id)
    (hfits : ∀ id f, b ≤ id → held id → ¬ held' id → s.future? id = some f → s.Fits id f) :
    Sound b held' s where
  base := h.base
  callback_source := h.callback_source
  callbacks_ended := h.callbacks_ended
  ready_source := h.ready_source
  timer := h.timer
  turn_task := h.turn_task
  count_child := h.count_child
  elapse_sleep := h.elapse_sleep
  children_ok := h.children_ok
  idle hb hheld ht := h.idle hb (hsub _ hheld) ht
  fits {id f} hb hheld hf := by
    by_cases hid : held id
    · exact hfits id f hb hid hheld hf
    · exact h.fits hb hid hf

/-! ## The end of a future -/

section Complete

variable (ending : Ending)

/-- When a future ends every future is what it was, or is the one that ends. -/
theorem future?_complete_cases (hf : (s.complete i ending).future? id = some f) :
    s.future? id = some f ∨ i = id ∧ ∃ f₀, s.future? i = some f₀ ∧ f = f₀.endWith ending := by
  rw [future?_complete] at hf
  split at hf
  · next hid =>
    subst hid
    obtain ⟨f₀, hf₀, rfl⟩ := Option.map_eq_some_iff.1 hf
    exact Or.inr ⟨rfl, f₀, hf₀, rfl⟩
  · exact Or.inl hf

/-- When a future ends its callbacks are queued. -/
theorem mem_ready_complete (hjob : job ∈ (s.complete i ending).ready) : job ∈ s.ready ∨ job ∈ s.callbacks i := by
  rw [ready_complete] at hjob
  split at hjob
  · exact Or.inl hjob
  · exact List.mem_append.1 hjob

/-- What is queued or behind a timer stays so when a future ends. -/
theorem mem_queue_complete (hjob : job ∈ s.ready ++ s.timers.map (·.job)) :
    job ∈ (s.complete i ending).ready ++ (s.complete i ending).timers.map (·.job) := by
  rw [timers_complete, ready_complete]
  split
  · exact hjob
  · rcases List.mem_append.1 hjob with hjob | hjob
    · exact List.mem_append_left _ (List.mem_append_left _ hjob)
    · exact List.mem_append_right _ hjob

variable {ending}

/-- What is queued when a future ends waits for what has ended. -/
theorem Sound.ready_source_complete (h : Sound b held s) (hjob : job ∈ (s.complete i ending).ready)
    (hsource : job.source? = some id) : (s.complete i ending).ending? id ≠ none := by
  rcases mem_ready_complete ending hjob with hjob | hjob
  · obtain ⟨e, he⟩ := Option.ne_none_iff_exists'.1 (h.ready_source hjob hsource)
    exact Option.ne_none_iff_exists'.2 ⟨e, ending?_complete_of_ended he ending⟩
  · cases hf : s.future? i with
    | none => simp [callbacks, hf] at hjob
    | some f =>
      have hjob : job ∈ f.callbacks := by simpa [callbacks, hf] using hjob
      obtain rfl : i = id := Option.some.inj ((h.callback_source hf hjob).symm.trans hsource)
      simp [ending?_complete, hf]

/-- A gathering has ended well only if all its children have, when a future has ended. -/
theorem Sound.children_ok_complete (h : Sound b held s)
    (hok : ending = .ok () → s.ending? i = none → ∀ g, s.kind? i = some (.gathering g) →
      ∀ c ∈ g.children, s.ending? c = some (.ok ()))
    {g : GatheringState} (hb : b ≤ id) (hf : (s.complete i ending).future? id = some f) (hkind : f.kind = .gathering g)
    (hend : f.ending = some (.ok ())) {c : FutureId} (hc : c ∈ g.children) : s.ending? c = some (.ok ()) := by
  rcases future?_complete_cases ending hf with hf | ⟨rfl, f₀, hf₀, rfl⟩
  · exact h.children_ok hb hf hkind hend c hc
  · rw [Future.kind_endWith] at hkind
    rw [Future.ending_endWith] at hend
    cases hended : f₀.ending with
    | none =>
      rw [hended] at hend
      refine hok (Option.some.inj hend) ?_ g (kind?_eq_some_iff.2 ⟨f₀, hf₀, hkind⟩) c hc
      simp [ending?, hf₀, hended]
    | some e =>
      rw [hended] at hend
      exact h.children_ok hb hf₀ hkind (hended.trans hend) c hc

/-- A future that is not held still fits when one that is held, or a sleep, has ended. -/
theorem Sound.fits_complete (h : Sound b held s) (hi : held i ∨ s.kind? i = some .sleep) (hb : b ≤ id)
    (hheld : ¬ held id) (hf : (s.complete i ending).future? id = some f) : (s.complete i ending).Fits id f := by
  have hjobs := s.jobs_complete (i := i) ending
  rcases future?_complete_cases ending hf with hf | ⟨rfl, f₀, hf₀, rfl⟩
  · exact (h.fits hb hheld hf).mono rfl rfl (mem_queue_complete ending) (hjobs.countP_eq _) (hjobs.countP_eq _)
      (fun c => hjobs.mem_iff.2) fun c hc => ending?_complete_of_ended hc ending
  · obtain hsleep : f₀.kind = .sleep := by
      obtain ⟨f₁, hf₁, hkind⟩ := kind?_eq_some_iff.1 (hi.resolve_left hheld)
      rwa [Option.some.inj (hf₀.symm.trans hf₁)]
    constructor
    · intro _ hlive
      simp [Future.ending_endWith] at hlive
    all_goals
      intro x hx
      rw [Future.kind_endWith, hsleep] at hx
      cases hx

/-- To end a future that is held, or a sleep, keeps a scheduler sound. -/
theorem Sound.complete (h : Sound b held s) (hi : held i ∨ s.kind? i = some .sleep)
    (hok : ending = .ok () → s.ending? i = none → ∀ g, s.kind? i = some (.gathering g) →
      ∀ c ∈ g.children, s.ending? c = some (.ok ())) :
    Sound b held (s.complete i ending) := by
  have hjobs := s.jobs_complete (i := i) ending
  refine ⟨?_, ?_, ?_, h.ready_source_complete, ?_, ?_, ?_, ?_, ?_, ?_, h.fits_complete hi⟩
  · rw [length_complete]
    exact h.base
  · intro id f job hf hjob
    rcases future?_complete_cases ending hf with hf | ⟨rfl, f₀, hf₀, rfl⟩
    · exact h.callback_source hf hjob
    · rw [Future.callbacks_endWith] at hjob
      split at hjob
      · exact h.callback_source hf₀ hjob
      · cases hjob
  · intro id f hf hended
    rcases future?_complete_cases ending hf with hf | ⟨rfl, f₀, hf₀, rfl⟩
    · exact h.callbacks_ended hf hended
    · rw [Future.callbacks_endWith]
      split
      · next hsome => exact h.callbacks_ended hf₀ (Option.isSome_iff_ne_none.1 hsome)
      · rfl
  · rw [timers_complete]
    exact h.timer
  · intro id job hjob htask
    rw [kind?_complete]
    exact h.turn_task (hjobs.mem_iff.1 hjob) htask
  · intro id c hcount
    rw [kind?_complete]
    exact h.count_child (hjobs.mem_iff.1 hcount)
  · intro id hjob
    rw [kind?_complete]
    exact h.elapse_sleep (hjobs.mem_iff.1 hjob)
  · exact fun hb hf hkind hend c hc =>
      ending?_complete_of_ended (h.children_ok_complete hok hb hf hkind hend hc) ending
  · intro id t hb hheld ht
    rw [kind?_complete] at ht
    exact (hjobs.countP_eq _).trans (h.idle hb hheld ht)

end Complete

/-! ## Changes of a future -/

section Modify

variable {F : Future P A → Future P A}
  (hF : ∀ f, (F f).ending = f.ending ∧ (F f).callbacks = f.callbacks ∧ f.kind.Alike (F f).kind)

include hF

/-- A change of how far a future is ends none. -/
theorem ending?_modifyFuture (id : FutureId) : (s.modifyFuture i F).ending? id = s.ending? id := by
  unfold ending?
  rw [future?_modifyFuture]
  split
  · cases s.future? id with
    | none => rfl
    | some f => exact (hF f).1
  · rfl

/-- Every future is like what it was before a change of how far one is. -/
theorem exists_future?_of_modifyFuture (hf : (s.modifyFuture i F).future? id = some f) :
    ∃ f₀, s.future? id = some f₀ ∧ f.ending = f₀.ending ∧ f.callbacks = f₀.callbacks ∧ f₀.kind.Alike f.kind := by
  rw [future?_modifyFuture] at hf
  split at hf
  · obtain ⟨f₀, hf₀, rfl⟩ := Option.map_eq_some_iff.1 hf
    exact ⟨f₀, hf₀, hF f₀⟩
  · exact ⟨f, hf, rfl, rfl, FutureKind.Alike.refl f.kind⟩

/-- Every future is like that behind a change of how far one is. -/
theorem exists_kind?_modifyFuture {kind : FutureKind P} (hk : s.kind? id = some kind) :
    ∃ kind', (s.modifyFuture i F).kind? id = some kind' ∧ kind'.Alike kind := by
  obtain ⟨f, hf, rfl⟩ := kind?_eq_some_iff.1 hk
  unfold kind?
  rw [future?_modifyFuture, hf]
  split
  · exact ⟨(F f).kind, rfl, (hF f).2.2.symm⟩
  · exact ⟨f.kind, rfl, FutureKind.Alike.refl f.kind⟩

/-- A future still fits if it is like what it was, and has counted as many children. -/
theorem Fits.modify {f₀ : Future P A} (h : s.Fits id f₀) (hend : f.ending = f₀.ending) (halike : f₀.kind.Alike f.kind)
    (hcounted : ∀ g g₀, f.kind = .gathering g → f₀.kind = .gathering g₀ → g.counted = g₀.counted) :
    (s.modifyFuture i F).Fits id f := by
  have hjobs := s.jobs_modifyFuture (i := i) fun f => (hF f).2.1
  refine ⟨fun hk hlive => ?_, fun t hk => ?_, fun g hk => ?_, fun g hk hlive => ?_,
    fun g hk hlive c hc => ?_⟩ <;> rw [hk] at halike
  · exact h.sleep halike.eq_sleep (hend ▸ hlive)
  · obtain ⟨t₀, ht₀⟩ := halike.exists_task
    rw [turns, hjobs.countP_eq, hend]
    exact h.task t₀ ht₀
  · obtain ⟨g₀, hg₀, hchildren⟩ := halike.exists_gathering
    rw [counts, hjobs.countP_eq, hchildren, hcounted g g₀ hk hg₀]
    exact h.gathering g₀ hg₀
  · obtain ⟨g₀, hg₀, hchildren⟩ := halike.exists_gathering
    rw [hchildren, hcounted g g₀ hk hg₀]
    exact h.waiting g₀ hg₀ (hend ▸ hlive)
  · obtain ⟨g₀, hg₀, hchildren⟩ := halike.exists_gathering
    rw [ending?_modifyFuture hF]
    exact (h.children g₀ hg₀ (hend ▸ hlive) c (hchildren ▸ hc)).imp_left hjobs.mem_iff.2

/-- A change of how far a future is keeps a scheduler sound, if no more is counted or the future is
held. -/
theorem Sound.modify (h : Sound b held s)
    (hcounted : held i ∨ ∀ f g g', f.kind = .gathering g → (F f).kind = .gathering g' →
      g'.counted = g.counted) :
    Sound b held (s.modifyFuture i F) := by
  have hjobs := s.jobs_modifyFuture (i := i) fun f => (hF f).2.1
  refine ⟨?_, ?_, ?_, ?_, h.timer, ?_, ?_, ?_, ?_, ?_, ?_⟩
  · rw [length_modifyFuture]
    exact h.base
  · intro id f job hf hjob
    obtain ⟨f₀, hf₀, -, hcallbacks, -⟩ := exists_future?_of_modifyFuture hF hf
    exact h.callback_source hf₀ (hcallbacks ▸ hjob)
  · intro id f hf hended
    obtain ⟨f₀, hf₀, hend, hcallbacks, -⟩ := exists_future?_of_modifyFuture hF hf
    rw [hcallbacks]
    exact h.callbacks_ended hf₀ (hend ▸ hended)
  · intro id job hjob hsource
    rw [ending?_modifyFuture hF]
    exact h.ready_source hjob hsource
  · intro id job hjob htask
    obtain ⟨hb, t, ht⟩ := h.turn_task (hjobs.mem_iff.1 hjob) htask
    obtain ⟨kind, hk, halike⟩ := exists_kind?_modifyFuture hF ht
    obtain ⟨t', rfl⟩ := halike.exists_task
    exact ⟨hb, t', hk⟩
  · intro id c hcount
    obtain ⟨hb, g, hg, hc⟩ := h.count_child (hjobs.mem_iff.1 hcount)
    obtain ⟨kind, hk, halike⟩ := exists_kind?_modifyFuture hF hg
    obtain ⟨g', rfl, hchildren⟩ := halike.exists_gathering
    exact ⟨hb, g', hk, hchildren ▸ hc⟩
  · intro id hjob
    obtain ⟨kind, hk, halike⟩ := exists_kind?_modifyFuture hF (h.elapse_sleep (hjobs.mem_iff.1 hjob))
    rw [hk, halike.eq_sleep]
  · intro id f g hb hf hk hend c hc
    obtain ⟨f₀, hf₀, hend₀, -, halike⟩ := exists_future?_of_modifyFuture hF hf
    rw [hk] at halike
    obtain ⟨g₀, hg₀, hchildren⟩ := halike.exists_gathering
    rw [ending?_modifyFuture hF]
    exact h.children_ok hb hf₀ hg₀ (hend₀ ▸ hend) c (hchildren ▸ hc)
  · intro id t hb hheld ht
    obtain ⟨f, hf, hk⟩ := kind?_eq_some_iff.1 ht
    obtain ⟨f₀, hf₀, -, -, halike⟩ := exists_future?_of_modifyFuture hF hf
    rw [hk] at halike
    obtain ⟨t₀, ht₀⟩ := halike.exists_task
    exact (hjobs.countP_eq _).trans (h.idle hb hheld (kind?_eq_some_iff.2 ⟨f₀, hf₀, ht₀⟩))
  · intro id f hb hheld hf
    obtain ⟨f₀, hf₀, hend, -, halike⟩ := exists_future?_of_modifyFuture hF hf
    refine (h.fits hb hheld hf₀).modify hF hend halike fun g g₀ hk hk₀ => ?_
    rw [future?_modifyFuture, hf₀] at hf
    split at hf
    · next hid =>
      subst hid
      obtain rfl : F f₀ = f := Option.some.inj hf
      exact hcounted.resolve_left hheld f₀ g₀ g hk₀ hk
    · obtain rfl : f₀ = f := Option.some.inj hf
      cases hk.symm.trans hk₀
      rfl

end Modify

/-- A change of what a task does next keeps a scheduler sound. -/
theorem Sound.modifyTask (h : Sound b held s) (F : TaskState P → TaskState P) :
    Sound b held (s.modifyTask i F) := by
  refine Sound.modify (fun f => ?_) h (Or.inr fun f g g' hk hk' => ?_)
  · cases hk : f.kind <;> simp [FutureKind.Alike, hk]
  · rw [hk] at hk'
    cases hk.symm.trans hk'
    rfl

/-- A request to cancel a gathering keeps a scheduler sound. -/
theorem Sound.requestCancel (h : Sound b held s) :
    Sound b held (s.modifyGathering i fun g => { g with cancelRequested := true }) := by
  refine Sound.modify (fun f => ?_) h (Or.inr fun f g g' hk hk' => ?_)
  · cases hk : f.kind <;> simp [FutureKind.Alike, hk]
  · rw [hk] at hk'
    cases hk'
    rfl

end Scheduler

end PipelineGraph.Simulation
