import PipelineGraph.Proofs.Simulation.Soundness

/-!
# New futures in a sound scheduler

A new future is held until the job that ends it, lets it go on or counts for it is there. A job that is
queued when a future has ended is put behind the future, or in the queue if the future has ended.
-/

namespace PipelineGraph.Simulation

variable {P A : Type}

namespace Scheduler

variable {s s' : Scheduler P A} {b i id : FutureId} {held held' : FutureId → Prop} {job : Job A}
  {f : Future P A}

/-- A new future is held at first. -/
theorem Sound.make (h : Sound b held s) (kind : FutureKind P) :
    Sound b (fun id => held id ∨ id = s.futures.length) (s.make kind).2 := by
  have hcases : ∀ {id f}, (s.make kind).2.future? id = some f →
      s.future? id = some f ∨ id = s.futures.length ∧ f = { kind } := by
    intro id f hf
    rw [future?_make] at hf
    split at hf
    · next hid => exact Or.inr ⟨hid, (Option.some.inj hf).symm⟩
    · exact Or.inl hf
  have hkind : ∀ {id k}, s.kind? id = some k → (s.make kind).2.kind? id = some k := by
    intro id k hk
    obtain ⟨f, hf, -⟩ := kind?_eq_some_iff.1 hk
    rw [kind?_make, if_neg (Nat.ne_of_lt (lt_of_future? hf)), hk]
  exact
    { base := by
        rw [length_make]
        exact Nat.le_succ_of_le h.base
      callback_source := by
        intro id f job hf hjob
        rcases hcases hf with hf | ⟨rfl, rfl⟩
        · exact h.callback_source hf hjob
        · cases hjob
      callbacks_ended := by
        intro id f hf hended
        rcases hcases hf with hf | ⟨rfl, rfl⟩
        · exact h.callbacks_ended hf hended
        · rfl
      ready_source := by
        intro id job hjob hsource
        rw [ending?_make]
        exact h.ready_source hjob hsource
      timer := h.timer
      turn_task := by
        intro id job hjob htask
        rw [jobs_make] at hjob
        obtain ⟨hb, t, ht⟩ := h.turn_task hjob htask
        exact ⟨hb, t, hkind ht⟩
      count_child := by
        intro id c hcount
        rw [jobs_make] at hcount
        obtain ⟨hb, g, hg, hc⟩ := h.count_child hcount
        exact ⟨hb, g, hkind hg, hc⟩
      elapse_sleep := by
        intro id hjob
        rw [jobs_make] at hjob
        exact hkind (h.elapse_sleep hjob)
      children_ok := by
        intro id f g hb hf hk hend c hc
        rw [ending?_make]
        rcases hcases hf with hf | ⟨rfl, rfl⟩
        · exact h.children_ok hb hf hk hend c hc
        · cases hend
      idle := by
        intro id t hb hheld ht
        rw [turns, jobs_make]
        by_cases hid : id = s.futures.length
        · rw [hid]
          exact h.turns_length
        · rw [kind?_make, if_neg hid] at ht
          exact h.idle hb (hheld.resolve_right hid) ht
      fits := by
        intro id f hb hheld hf
        rw [not_or] at hheld
        rcases hcases hf with hf | ⟨rfl, rfl⟩
        · exact (h.fits hb hheld.1 hf).mono rfl rfl (fun h => h) (by rw [turns, turns, jobs_make])
            (by rw [counts, counts, jobs_make]) (fun c => by rw [jobs_make]; exact fun h => h)
            fun c => by rw [ending?_make]; exact fun h => h
        · exact absurd rfl hheld.2 }

/-- Queue a job behind the end of what it waits for, or at once. -/
def notify (s : Scheduler P A) (job : Job A) : Scheduler P A :=
  match job.source? with
  | some id => s.whenEnded id job
  | none => s.push job

/-- A job that is made is one more. -/
theorem jobs_notify (hsource : ∀ id, job.source? = some id → id < s.futures.length) :
    (s.notify job).jobs.Perm (job :: s.jobs) := by
  unfold notify
  split
  · next id hid => exact jobs_whenEnded (hsource id hid) job
  · exact jobs_push

/-- A callback ends nothing. -/
@[simp] theorem ending?_notify : (s.notify job).ending? id = s.ending? id := by
  unfold notify
  split
  · exact ending?_whenEnded job
  · rfl

/-- A callback changes the kind of no future. -/
@[simp] theorem kind?_notify : (s.notify job).kind? id = s.kind? id := by
  unfold notify
  split
  · exact kind?_whenEnded job
  · rfl

/-- A callback makes no future. -/
@[simp] theorem length_notify : (s.notify job).futures.length = s.futures.length := by
  unfold notify
  split
  · exact length_whenEnded job
  · rfl

/-- A callback leaves the timers. -/
@[simp] theorem timers_notify : (s.notify job).timers = s.timers := by
  unfold notify
  split
  · exact timers_whenEnded job
  · rfl

/-- A job that is made is queued only when what it waits for has ended. -/
theorem mem_ready_notify {job' : Job A} (h : job' ∈ (s.notify job).ready) :
    job' ∈ s.ready ∨ job' = job ∧ ∀ id, job.source? = some id → s.ending? id ≠ none := by
  unfold notify at h
  split at h
  · next id hid =>
    rw [ready_whenEnded] at h
    split at h
    · next hended =>
      rcases List.mem_append.1 h with h | h
      · exact Or.inl h
      · refine Or.inr ⟨List.mem_singleton.1 h, fun id' hid' => ?_⟩
        rw [← Option.some.inj (hid.symm.trans hid')]
        exact Option.isSome_iff_ne_none.1 hended
    · exact Or.inl h
  · next hnone =>
    rcases List.mem_append.1 h with h | h
    · exact Or.inl h
    · exact Or.inr ⟨List.mem_singleton.1 h, fun id hid => by rw [hnone] at hid; cases hid⟩

/-- What was queued is queued when a further job is made. -/
theorem ready_subset_notify : s.ready ⊆ (s.notify job).ready := by
  unfold notify
  split
  · rw [ready_whenEnded]
    split
    · exact List.subset_append_left _ _
    · exact List.Subset.refl _
  · exact List.subset_append_left _ _

/-- A job that is made changes at most the jobs behind the end of what it waits for. -/
theorem future?_notify (h : (s.notify job).future? id = some f) :
    ∃ f₀, s.future? id = some f₀ ∧ f.kind = f₀.kind ∧ f.ending = f₀.ending ∧
      (f.callbacks = f₀.callbacks ∨
        job.source? = some id ∧ f₀.ending = none ∧ f.callbacks = f₀.callbacks ++ [job]) := by
  unfold notify at h
  split at h
  · next source hsource =>
    rw [future?_whenEnded] at h
    split at h
    · next hid =>
      subst hid
      obtain ⟨f₀, hf₀, rfl⟩ := Option.map_eq_some_iff.1 h
      refine ⟨f₀, hf₀, Future.kind_notify, Future.ending_notify, ?_⟩
      rw [Future.callbacks_notify]
      split
      · exact Or.inl rfl
      · next hlive => exact Or.inr ⟨hsource, by simpa using hlive, rfl⟩
    · exact ⟨f, h, rfl, rfl, Or.inl rfl⟩
  · exact ⟨f, h, rfl, rfl, Or.inl rfl⟩

/-- A job that is made is one more turn of its task. -/
theorem turns_notify (hsource : ∀ id, job.source? = some id → id < s.futures.length) :
    (s.notify job).turns id = s.turns id + if job.task? = some id then 1 else 0 := by
  rw [turns, (jobs_notify hsource).countP_eq, List.countP_cons]
  simp [turns]

/-- A job that is made is no count of another gathering. -/
theorem counts_notify (hsource : ∀ id, job.source? = some id → id < s.futures.length)
    (hne : job.gathering? ≠ some id) : (s.notify job).counts id = s.counts id := by
  rw [counts, (jobs_notify hsource).countP_eq, List.countP_cons, if_neg fun hcontra => hne (of_decide_eq_true hcontra)]
  rfl

/-- A future that fits still fits when a job of others is made. -/
theorem Fits.notify (h : s.Fits id f) {f' : Future P A} (hkind : f'.kind = f.kind) (hending : f'.ending = f.ending)
    (hsource : ∀ id, job.source? = some id → id < s.futures.length) (hturn : job.task? ≠ some id)
    (hcount : job.gathering? ≠ some id) : (s.notify job).Fits id f' := by
  refine h.mono hkind hending (fun hmem => ?_) (by rw [turns_notify hsource, if_neg hturn]; rfl)
    (counts_notify hsource hcount) (fun c hc => (jobs_notify hsource).mem_iff.2 (List.mem_cons_of_mem _ hc))
    fun c => by rw [ending?_notify]; exact fun h => h
  rw [timers_notify]
  rcases List.mem_append.1 hmem with hmem | hmem
  · exact List.mem_append_left _ (ready_subset_notify hmem)
  · exact List.mem_append_right _ hmem

/-- A job for a future that is held keeps a scheduler sound; it releases a task. -/
theorem Sound.notify (h : Sound b held s) (job : Job A)
    (hsource : ∀ id, job.source? = some id → id < s.futures.length)
    (hturn : ∀ id, job.task? = some id →
      b ≤ id ∧ held id ∧ s.ending? id = none ∧ ∃ t, s.kind? id = some (.task t))
    (hcount : ∀ id c, job = .count id c →
      b ≤ id ∧ held id ∧ ∃ g, s.kind? id = some (.gathering g) ∧ c ∈ g.children)
    (hsleep : ∀ id, job ≠ .elapse id) :
    Sound b (fun id => held id ∧ job.task? ≠ some id) (s.notify job) := by
  have hjobs := jobs_notify hsource
  have hgathering : ∀ {id}, ¬ held id → job.gathering? ≠ some id := by
    intro id hid hg
    cases job with
    | count g c => exact hid (hcount id c (by rw [Option.some.inj hg])).2.1
    | resume | wake | elapse | act => cases hg
  exact
    { base := by
        rw [length_notify]
        exact h.base
      callback_source := by
        intro id f job' hf hjob
        obtain ⟨f₀, hf₀, -, -, hcallbacks | ⟨hid, -, hcallbacks⟩⟩ := future?_notify hf <;>
          rw [hcallbacks] at hjob
        · exact h.callback_source hf₀ hjob
        · rcases List.mem_append.1 hjob with hjob | hjob
          · exact h.callback_source hf₀ hjob
          · rwa [List.mem_singleton.1 hjob]
      callbacks_ended := by
        intro id f hf hended
        obtain ⟨f₀, hf₀, -, hend, hcallbacks | ⟨-, hlive, -⟩⟩ := future?_notify hf
        · rw [hcallbacks]
          exact h.callbacks_ended hf₀ (hend ▸ hended)
        · exact absurd (hend.trans hlive) hended
      ready_source := by
        intro id job' hjob hid
        rw [ending?_notify]
        rcases mem_ready_notify hjob with hjob | ⟨rfl, hended⟩
        · exact h.ready_source hjob hid
        · exact hended id hid
      timer := by
        rw [timers_notify]
        exact h.timer
      turn_task := by
        intro id job' hjob htask
        rw [kind?_notify]
        rcases List.mem_cons.1 (hjobs.mem_iff.1 hjob) with rfl | hjob
        · exact ⟨(hturn id htask).1, (hturn id htask).2.2.2⟩
        · exact h.turn_task hjob htask
      count_child := by
        intro id c hjob
        rw [kind?_notify]
        rcases List.mem_cons.1 (hjobs.mem_iff.1 hjob) with heq | hjob
        · exact ⟨(hcount id c heq.symm).1, (hcount id c heq.symm).2.2⟩
        · exact h.count_child hjob
      elapse_sleep := by
        intro id hjob
        rw [kind?_notify]
        rcases List.mem_cons.1 (hjobs.mem_iff.1 hjob) with heq | hjob
        · exact absurd heq.symm (hsleep id)
        · exact h.elapse_sleep hjob
      children_ok := by
        intro id f g hb hf hk hend c hc
        obtain ⟨f₀, hf₀, hkind, hending, -⟩ := future?_notify hf
        rw [ending?_notify]
        exact h.children_ok hb hf₀ (hkind ▸ hk) (hending ▸ hend) c hc
      idle := by
        intro id t hb hheld ht
        rw [kind?_notify] at ht
        rw [turns_notify hsource, if_neg hheld.2, h.idle hb hheld.1 ht]
      fits := by
        intro id f hb hheld hf
        obtain ⟨f₀, hf₀, hkind, hending, -⟩ := future?_notify hf
        by_cases hid : held id
        · have htask : job.task? = some id := Classical.not_not.1 fun hne => hheld ⟨hid, hne⟩
          obtain ⟨-, -, hlive, t, ht⟩ := hturn id htask
          obtain ⟨f₁, hf₁, hk₁⟩ := kind?_eq_some_iff.1 ht
          obtain rfl : f₀ = f₁ := Option.some.inj (hf₀.symm.trans hf₁)
          have hnone : f.ending = none := by
            rw [hending]
            simpa [ending?, hf₀] using hlive
          exact .of_task (hkind.trans hk₁) (by rw [turns_notify hsource, if_pos htask, h.idle hb hid ht, if_pos hnone])
        · exact (h.fits hb hid hf₀).notify hkind hending hsource (fun htask => hid (hturn id htask).2.1)
            (hgathering hid) }

/-- A timer that ends a sleep keeps a scheduler sound. -/
theorem Sound.setTimer (h : Sound b held s) (deadline : Nat) (hi : s.kind? i = some .sleep) :
    Sound b held (s.setTimer deadline (.elapse i)) := by
  have hjobs : (s.setTimer deadline (.elapse i)).jobs.Perm (.elapse i :: s.jobs) := jobs_setTimer deadline
  have hnew : ∀ {job}, job ∈ (s.setTimer deadline (.elapse i)).jobs → job = .elapse i ∨ job ∈ s.jobs :=
    fun hjob => List.mem_cons.1 (hjobs.mem_iff.1 hjob)
  have hturns : ∀ id, (s.setTimer deadline (.elapse i)).turns id = s.turns id := fun id =>
    hjobs.countP_eq _
  refine ⟨h.base, h.callback_source, h.callbacks_ended, h.ready_source, ?_, ?_, ?_, ?_, h.children_ok,
    ?_, ?_⟩
  · intro t ht
    rcases List.mem_append.1 ht with ht | ht
    · exact h.timer ht
    · rw [List.mem_singleton.1 ht]
      exact ⟨rfl, rfl⟩
  · intro id job hjob htask
    rcases hnew hjob with rfl | hjob
    · cases htask
    · exact h.turn_task hjob htask
  · intro id c hjob
    exact h.count_child ((hnew hjob).resolve_left fun hcontra => by cases hcontra)
  · intro id hjob
    rcases hnew hjob with heq | hjob
    · cases heq
      exact hi
    · exact h.elapse_sleep hjob
  · intro id t hb hheld ht
    rw [hturns, h.idle hb hheld ht]
  · intro id f hb hheld hf
    refine (h.fits hb hheld hf).mono rfl rfl (fun hmem => ?_) (hturns id) (hjobs.countP_eq _)
      (fun c hc => hjobs.mem_iff.2 (List.mem_cons_of_mem _ hc)) fun c hc => hc
    rcases List.mem_append.1 hmem with hmem | hmem
    · exact List.mem_append_left _ hmem
    · refine List.mem_append_right _ ?_
      rw [Scheduler.setTimer, List.map_append]
      exact List.mem_append_left _ hmem

/-! ## Tasks, sleeps and gatherings -/

/-- A new task has its first turn ahead. -/
theorem Sound.spawn (h : Sound b held s) (hheld : ∀ id, held id → id < s.futures.length)
    (program : P) : Sound b held (s.spawn program).2 := by
  have hnew : (s.make (.task { program })).2.kind? s.futures.length = some (.task { program }) := by
    rw [kind?_make, if_pos rfl]
  have hnone : s.future? s.futures.length = none := future?_eq_none_iff.2 (Nat.le_refl _)
  have hlive : (s.make (.task { program })).2.ending? s.futures.length = none := by
    rw [ending?_make, ending?, hnone]
    rfl
  have hnotify := (h.make (.task { program })).notify (.resume s.futures.length)
    (fun id hid => by cases hid) (fun id hid => by cases hid; exact ⟨h.base, Or.inr rfl, hlive, _, hnew⟩)
    (fun id c hcontra => by cases hcontra) fun id hcontra => by cases hcontra
  refine hnotify.release (fun id hid => ⟨Or.inl hid, fun hcontra => ?_⟩) ?_
  · cases hcontra
    exact Nat.lt_irrefl _ (hheld _ hid)
  · rintro id f - ⟨hid | rfl, hne⟩ hnot -
    · exact absurd hid hnot
    · exact absurd rfl hne

/-- New tasks have their first turns ahead. -/
theorem Sound.spawnAll (h : Sound b held s) (hheld : ∀ id, held id → id < s.futures.length)
    (programs : List P) : Sound b held (s.spawnAll programs).2 := by
  induction programs generalizing s with
  | nil => exact h
  | cons program rest ih =>
    refine ih (h.spawn hheld program) fun id hid => ?_
    exact Nat.lt_of_lt_of_le (hheld id hid) (by simp [Scheduler.push])

/-- A new sleep has its timer. -/
theorem Sound.sleep (h : Sound b held s) (microseconds : Nat) : Sound b held (s.sleep microseconds).2 := by
  have hnew : (s.make .sleep).2.kind? s.futures.length = some .sleep := by
    rw [kind?_make, if_pos rfl]
  refine ((h.make .sleep).setTimer (s.now + microseconds) hnew).release (fun id hid => Or.inl hid) ?_
  rintro id f - (hid | rfl) hnot hf
  · exact absurd hid hnot
  · have hkind : f.kind = .sleep := by
      rw [future?_setTimer, future?_make, if_pos rfl] at hf
      rw [← Option.some.inj hf]
    exact .of_sleep hkind fun _ => List.mem_append_right _ (by simp [Scheduler.setTimer])

/-- A gathering that waits for its children has a job behind the end of each. -/
theorem jobs_gather {children : List FutureId} (hchildren : ∀ c ∈ children, c < s.futures.length)
    (g : FutureId) : (children.foldl (fun s c => s.whenEnded c (.count g c)) s).jobs.Perm
      (children.map (.count g) ++ s.jobs) := by
  induction children generalizing s with
  | nil => exact List.Perm.refl _
  | cons c rest ih =>
    obtain ⟨hc, hrest⟩ := List.forall_mem_cons.1 hchildren
    refine (ih fun c' hc' => ?_).trans ?_
    · rw [length_whenEnded]
      exact hrest c' hc'
    · refine ((jobs_whenEnded hc _).append_left _).trans ?_
      exact List.perm_middle

/-- Behind the ends of children a scheduler stays sound, with the gathering that counts them held. -/
theorem Sound.countAll {g : FutureId} {children rest : List FutureId} (h : Sound b held s) (hb : b ≤ g)
    (hheld : held g) (hkind : s.kind? g = some (.gathering { children })) (hsub : rest ⊆ children)
    (hlt : ∀ c ∈ rest, c < s.futures.length) :
    Sound b held (rest.foldl (fun s c => s.whenEnded c (.count g c)) s) ∧
      (rest.foldl (fun s c => s.whenEnded c (.count g c)) s).kind? g = some (.gathering { children }) := by
  induction rest generalizing s with
  | nil => exact ⟨h, hkind⟩
  | cons c rest ih =>
    obtain ⟨hc, hrest⟩ := List.cons_subset.1 hsub
    obtain ⟨hcount, hlt⟩ := List.forall_mem_cons.1 hlt
    have hnotify := h.notify (.count g c) (fun id hid => by cases hid; exact hcount)
      (fun id hid => by cases hid) (fun id c' heq => by cases heq; exact ⟨hb, hheld, _, hkind, hc⟩)
      fun id hcontra => by cases hcontra
    refine ih (hnotify.release (fun id hid => ⟨hid, fun hcontra => by cases hcontra⟩)
      fun id f _ hid hnot _ => absurd hid.1 hnot) ?_ hrest ?_
    · rw [kind?_whenEnded, hkind]
    · rwa [length_whenEnded]

/-- A new gathering counts each of its children once. -/
theorem Sound.gather (h : Sound b held s) {children : List FutureId} (hne : children ≠ [])
    (hchildren : ∀ c ∈ children, c < s.futures.length) : Sound b held (s.gather children).2 := by
  have hlt : ∀ c ∈ children, c < (s.make (.gathering { children })).2.futures.length := by
    intro c hc
    rw [length_make]
    exact Nat.lt_succ_of_lt (hchildren c hc)
  have hnew : (s.make (.gathering { children })).2.kind? s.futures.length =
      some (.gathering { children }) := by
    rw [kind?_make, if_pos rfl]
  obtain ⟨hsound, hkind⟩ := (h.make (.gathering { children })).countAll h.base (Or.inr rfl) hnew
    (List.Subset.refl _) hlt
  have hjobs : (s.gather children).2.jobs.Perm (children.map (.count s.futures.length) ++ s.jobs) := by
    have hperm := jobs_gather hlt s.futures.length
    rwa [jobs_make] at hperm
  have hcounts : (s.gather children).2.counts s.futures.length = children.length := by
    have hold : s.jobs.countP (fun job => job.gathering? = some s.futures.length) = 0 := h.counts_length
    rw [counts, hjobs.countP_eq, List.countP_append, hold, Nat.add_zero, List.countP_map]
    exact List.countP_eq_length.2 fun c _ => by simp [Job.gathering?]
  refine hsound.release (fun id hid => Or.inl hid) ?_
  rintro id f hb (hid | rfl) hnot hf
  · exact absurd hid hnot
  · have hk : f.kind = .gathering { children } := by
      obtain ⟨f', hf', hk⟩ := kind?_eq_some_iff.1 hkind
      rwa [Option.some.inj (hf.symm.trans hf')]
    refine .of_gathering hk ((Nat.zero_add _).trans hcounts) fun _ => ⟨List.length_pos_iff.2 hne, fun c hc => ?_⟩
    exact Or.inl (hjobs.mem_iff.2 (List.mem_append_left _ (List.mem_map_of_mem hc)))

end Scheduler

end PipelineGraph.Simulation
