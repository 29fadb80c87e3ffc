import PipelineGraph.Proofs.Simulation.Propagation
import PipelineGraph.Proofs.Simulation.SoundMaking

/-!
# Steps of a sound scheduler

A job that is taken from the queue leaves what it is for held, and what the job does lets it go: a
sleep ends, a gathering counts a child, a task waits for a future. The clock moves without holding
anything.
-/

namespace PipelineGraph.Simulation

variable {P A : Type}

namespace Scheduler

variable {s s' : Scheduler P A} {b i id : FutureId} {held held' : FutureId → Prop} {job : Job A}
  {f : Future P A}

/-- What the first job of the queue is about is held once the job is taken from the queue. -/
theorem Sound.pop {rest : List (Job A)} (h : Sound b held s) (hready : s.ready = job :: rest) :
    Sound b (fun id => held id ∨ job.subject? = some id) { s with ready := rest } := by
  have hjobs : s.jobs = job :: ({ s with ready := rest } : Scheduler P A).jobs := by
    simp [jobs, hready]
  have hmem : ∀ {job'}, job' ∈ ({ s with ready := rest } : Scheduler P A).jobs → job' ∈ s.jobs := by
    intro job' hjob
    rw [hjobs]
    exact List.mem_cons_of_mem _ hjob
  have hturns : ∀ id, s.turns id = ({ s with ready := rest } : Scheduler P A).turns id +
      if job.task? = some id then 1 else 0 := by
    intro id
    rw [turns, hjobs, List.countP_cons]
    simp [turns]
  refine ⟨h.base, h.callback_source, h.callbacks_ended, ?_, h.timer, ?_, ?_, ?_, h.children_ok, ?_, ?_⟩
  · intro id job' hjob hsource
    refine h.ready_source ?_ hsource
    rw [hready]
    exact List.mem_cons_of_mem _ hjob
  · exact fun hjob htask => h.turn_task (hmem hjob) htask
  · exact fun hjob => h.count_child (hmem hjob)
  · exact fun hjob => h.elapse_sleep (hmem hjob)
  · intro id t hb hheld ht
    by_cases hid : held id
    · have hzero := h.idle hb hid ht
      rw [hturns] at hzero
      exact Nat.eq_zero_of_add_eq_zero_right hzero
    · have hsubject := hheld.resolve_left hid
      obtain ⟨f, hf, hk⟩ := kind?_eq_some_iff.1 ht
      have hone := (h.fits hb hid hf).task t hk
      rw [hturns] at hone
      have hfirst : job ∈ s.jobs := hjobs ▸ List.mem_cons_self
      cases job with
      | resume | wake =>
        cases hsubject
        simp only [Job.task?, if_true] at hone
        split at hone
        · exact Nat.succ.inj hone
        · cases hone
      | count g c =>
        cases hsubject
        obtain ⟨-, g', hg', -⟩ := h.count_child hfirst
        cases ht.symm.trans hg'
      | elapse x =>
        cases hsubject
        cases ht.symm.trans (h.elapse_sleep hfirst)
      | act => cases hsubject
  · intro id f hb hheld hf
    obtain ⟨hid, hsubject⟩ := not_or.1 hheld
    have hcounts : s.counts id = ({ s with ready := rest } : Scheduler P A).counts id := by
      rw [counts, hjobs, List.countP_cons,
        if_neg fun hcontra => hsubject (Job.subject?_of_gathering? (of_decide_eq_true hcontra))]
      rfl
    refine (h.fits hb hid hf).mono rfl rfl (fun hqueue => ?_) ?_ hcounts.symm (fun c hc => ?_)
      fun c hc => hc
    · rw [hready, List.cons_append] at hqueue
      refine (List.mem_cons.1 hqueue).resolve_left fun heq => hsubject ?_
      rw [← heq]
      rfl
    · rw [hturns, if_neg fun hcontra => hsubject (Job.subject?_of_task? hcontra)]
      rfl
    · rw [hjobs] at hc
      refine (List.mem_cons.1 hc).resolve_left fun heq => hsubject ?_
      rw [← heq]
      rfl

/-- The task of a job has not ended. -/
theorem Sound.live_of_mem (h : Sound b held s) (hjob : job ∈ s.jobs) (htask : job.task? = some id) :
    b ≤ id ∧ ¬ held id ∧ s.ending? id = none ∧ ∃ t, s.kind? id = some (.task t) := by
  obtain ⟨hb, t, ht⟩ := h.turn_task hjob htask
  have hpos : 0 < s.turns id := List.countP_pos_iff.2 ⟨job, hjob, decide_eq_true htask⟩
  have hid : ¬ held id := fun hheld => Nat.lt_irrefl 0 (h.idle hb hheld ht ▸ hpos)
  obtain ⟨f, hf, hk⟩ := kind?_eq_some_iff.1 ht
  have hturns := (h.fits hb hid hf).task t hk
  refine ⟨hb, hid, ?_, t, ht⟩
  rw [ending?, hf, Option.bind_some]
  by_contra hended
  rw [if_neg hended] at hturns
  rw [hturns] at hpos
  exact Nat.lt_irrefl 0 hpos

/-- A gathering that has not ended has a child to count. -/
theorem Sound.exists_count (h : Sound b held s) (hb : b ≤ id) (hid : ¬ held id) {g : GatheringState}
    (hg : s.kind? id = some (.gathering g)) (hlive : s.ending? id = none) :
    ∃ c ∈ g.children, .count id c ∈ s.jobs := by
  obtain ⟨f, hf, hkind⟩ := kind?_eq_some_iff.1 hg
  have hgathering := h.fits hb hid hf
  rw [ending?, hf, Option.bind_some] at hlive
  have hmore := hgathering.waiting g hkind hlive
  have hsum := hgathering.gathering g hkind
  obtain ⟨job, hjob, hcount⟩ := List.countP_pos_iff.1 (show 0 < s.counts id by lia)
  cases job with
  | resume | wake | elapse | act => simp [Job.gathering?] at hcount
  | count y c =>
    cases Option.some.inj (of_decide_eq_true hcount)
    obtain ⟨-, g', hg', hmem⟩ := h.count_child hjob
    cases hg.symm.trans hg'
    exact ⟨c, hmem, hjob⟩

/-- A sleep whose time is up ends. -/
theorem Sound.elapse {rest : List (Job A)} (h : Sound b (fun _ => False) s)
    (hready : s.ready = .elapse i :: rest) :
    Sound b (fun _ => False) (({ s with ready := rest } : Scheduler P A).complete i (.ok ())) := by
  have hsleep : s.kind? i = some .sleep := h.elapse_sleep (by simp [jobs, hready])
  refine ((h.pop hready).complete (Or.inr hsleep) fun _ _ g hg => ?_).release (fun _ hid => hid.elim) ?_
  · cases hsleep.symm.trans hg
  · rintro id f - (hid | hid) - hf
    · exact hid.elim
    · cases hid
      rw [future?_complete, if_pos rfl] at hf
      obtain ⟨f₀, hf₀, rfl⟩ := Option.map_eq_some_iff.1 hf
      obtain ⟨f₁, hf₁, hk⟩ := kind?_eq_some_iff.1 hsleep
      obtain rfl : f₀ = f₁ := Option.some.inj (hf₀.symm.trans hf₁)
      refine .of_sleep ?_ fun hlive => ?_
      · rw [Future.kind_endWith, hk]
      · simp [Future.ending_endWith] at hlive

/-- The clock moves on to a sound scheduler. -/
theorem Sound.advance (h : Sound b held s) (hadvance : s.advance? = some s') : Sound b held s' := by
  have hjobs := jobs_advance hadvance
  obtain ⟨time, -, rfl⟩ := Option.map_eq_some_iff.1 hadvance
  refine ⟨h.base, h.callback_source, h.callbacks_ended, ?_, fun ht => h.timer (List.mem_filter.1 ht).1,
    fun hjob => h.turn_task (hjobs.mem_iff.1 hjob), fun hjob => h.count_child (hjobs.mem_iff.1 hjob),
    fun hjob => h.elapse_sleep (hjobs.mem_iff.1 hjob), h.children_ok, ?_, ?_⟩
  · intro id job hjob hsource
    rcases List.mem_append.1 hjob with hjob | hjob
    · exact h.ready_source hjob hsource
    · obtain ⟨t, ht, rfl⟩ := List.mem_map.1 hjob
      rw [(h.timer (List.mem_filter.1 ht).1).1] at hsource
      cases hsource
  · intro id t hb hheld ht
    exact (hjobs.countP_eq _).trans (h.idle hb hheld ht)
  · intro id f hb hheld hf
    refine (h.fits hb hheld hf).mono rfl rfl (fun hqueue => ?_) (hjobs.countP_eq _) (hjobs.countP_eq _)
      (fun c => hjobs.mem_iff.2) fun c hc => hc
    rcases List.mem_append.1 hqueue with hqueue | hqueue
    · exact List.mem_append_left _ (List.mem_append_left _ hqueue)
    · obtain ⟨t, ht, hjob⟩ := List.mem_map.1 hqueue
      by_cases hdue : t.deadline ≤ time
      · refine List.mem_append_left _ (List.mem_append_right _ (List.mem_map.2 ⟨t, ?_, hjob⟩))
        exact List.mem_filter.2 ⟨ht, decide_eq_true hdue⟩
      · refine List.mem_append_right _ (List.mem_map.2 ⟨t, ?_, hjob⟩)
        exact List.mem_filter.2 ⟨ht, decide_eq_true (Nat.lt_of_not_le hdue)⟩

/-- A gathering that is held is let go if it has ended or has more children to count. -/
theorem Sound.release_gathering {g : GatheringState} (h : Sound b (fun id => False ∨ some i = some id) s)
    (hsum : g.counted + s.counts i = g.children.length)
    (hi : ∀ f, s.future? i = some f → f.kind = .gathering g ∧ (f.ending = none → g.counted < g.children.length ∧
      ∀ c ∈ g.children, .count i c ∈ s.jobs ∨ s.ending? c = some (.ok ()))) : Sound b (fun _ => False) s := by
  refine h.release (fun _ hid => hid.elim) ?_
  rintro id f - (hid | hid) - hf
  · exact hid.elim
  · cases hid
    obtain ⟨hkind, hlive⟩ := hi f hf
    exact .of_gathering hkind hsum hlive

/-- A gathering that is held may end, well only if all its children have. -/
theorem Sound.complete_gathering {g : GatheringState} (h : Sound b (fun id => False ∨ some i = some id) s)
    (hsum : g.counted + s.counts i = g.children.length) (hkind : s.kind? i = some (.gathering g)) {ending : Ending}
    (hok : ending = .ok () → s.ending? i = none → ∀ c ∈ g.children, s.ending? c = some (.ok ())) :
    Sound b (fun _ => False) (s.complete i ending) := by
  have hcounts : (s.complete i ending).counts i = s.counts i := by
    rw [counts, (jobs_complete ending).countP_eq]
    rfl
  refine Sound.release_gathering (h.complete (Or.inl (Or.inr rfl)) fun heq hend g' hg' => ?_)
    (hcounts.symm ▸ hsum) fun f hf => ?_
  · cases hkind.symm.trans hg'
    exact hok heq hend
  · obtain ⟨f₀, hf₀, hk₀⟩ := kind?_eq_some_iff.1 hkind
    rw [future?_complete, if_pos rfl, hf₀] at hf
    obtain rfl := Option.some.inj hf
    refine ⟨Future.kind_endWith.trans hk₀, fun hlive => ?_⟩
    simp [Future.ending_endWith] at hlive

/-- A child that has ended is counted. -/
theorem Sound.countChild {rest : List (Job A)} {c : FutureId} (h : Sound b (fun _ => False) s)
    (hready : s.ready = .count i c :: rest) :
    Sound b (fun _ => False) (({ s with ready := rest } : Scheduler P A).countChild i c) := by
  have hfirst : .count i c ∈ s.jobs := by simp [jobs, hready]
  obtain ⟨hb, g, hg, hc⟩ := h.count_child hfirst
  obtain ⟨f, hf, hk⟩ := kind?_eq_some_iff.1 hg
  have hfits := h.fits hb (fun hid => hid) hf
  obtain ⟨e, he⟩ : ∃ e, s.ending? c = some e :=
    Option.ne_none_iff_exists'.1 (h.ready_source (by rw [hready]; exact List.mem_cons_self) rfl)
  let s₀ : Scheduler P A := { s with ready := rest }
  let s₁ := s₀.modifyGathering i fun g => { g with counted := g.counted + 1 }
  have hs₁ : Sound b (fun id => False ∨ some i = some id) s₁ := by
    refine Sound.modify (fun f => ?_) (h.pop hready) (Or.inl (Or.inr rfl))
    cases hk : f.kind <;> simp [FutureKind.Alike, hk]
  have hf₁ : s₁.future? i = some { f with kind := .gathering { g with counted := g.counted + 1 } } := by
    have hf₀ : s₀.future? i = some f := hf
    rw [future?_modifyGathering, if_pos rfl, hf₀]
    simp [Future.mapGathering, hk]
  have hkind₁ := kind?_eq_some_iff.2 ⟨_, hf₁, rfl⟩
  have hjobs : s.jobs.Perm (.count i c :: s₁.jobs) := by
    have hpop : s.jobs = .count i c :: s₀.jobs := by simp [jobs, hready, s₀]
    rw [hpop]
    exact (jobs_modifyGathering _).symm.cons _
  have hending : ∀ id, s₁.ending? id = s.ending? id := fun id => ending?_modifyGathering _
  have hcounts : s.counts i = s₁.counts i + 1 := by
    rw [counts, hjobs.countP_eq, List.countP_cons]
    simp [counts, Job.gathering?]
  have hsum : g.counted + 1 + s₁.counts i = g.children.length := by
    have hold := hfits.gathering g hk
    omega
  have hchildren : s₁.ending? i = none → e = .ok () → ∀ c' ∈ g.children,
      .count i c' ∈ s₁.jobs ∨ s₁.ending? c' = some (.ok ()) := by
    intro hlive hok c' hc'
    have hlive : f.ending = none := by
      rw [hending] at hlive
      simpa [ending?, hf] using hlive
    rw [hending]
    rcases hfits.children g hk hlive c' hc' with hjob | hend
    · rcases List.mem_cons.1 (hjobs.mem_iff.1 hjob) with heq | hjob
      · cases heq
        exact Or.inr (hok ▸ he)
      · exact Or.inl hjob
    · exact Or.inr hend
  have hending₁ := (hending c).trans he
  unfold Scheduler.countChild
  dsimp only
  rw [hkind₁, hending₁]
  cases e with
  | error e => exact hs₁.complete_gathering hsum hkind₁ fun hcontra => by cases hcontra
  | ok =>
    dsimp only
    split
    · next hall =>
      refine hs₁.complete_gathering hsum hkind₁ fun _ hlive c' hc' => ?_
      refine (hchildren hlive rfl c' hc').resolve_left fun hjob => ?_
      have hpos : 0 < s₁.counts i := List.countP_pos_iff.2 ⟨_, hjob, decide_eq_true rfl⟩
      omega
    · next hmore =>
      refine hs₁.release_gathering (g := { g with counted := g.counted + 1 }) hsum fun f' hf' => ?_
      obtain rfl := Option.some.inj (hf₁.symm.trans hf')
      have hlt : g.counted + 1 < g.children.length := by omega
      refine ⟨rfl, fun hlive => ⟨hlt, hchildren ?_ rfl⟩⟩
      simpa [ending?, hf₁] using hlive

/-- A task that waits for a future is let go when that has ended. -/
theorem Sound.await {source : FutureId} (h : Sound b held s) (hb : b ≤ i) (hheld : held i)
    (hlive : s.ending? i = none) {t : TaskState P} (ht : s.kind? i = some (.task t))
    (hsource : source < s.futures.length) :
    Sound b (fun id => held id ∧ id ≠ i) (s.await i source) := by
  have hmodified := h.modifyTask (i := i) fun t => { t with waiter := some source }
  have htask : (s.modifyTask i fun t => { t with waiter := some source }).kind? i =
      some (.task { t with waiter := some source }) := by
    rw [← task?_eq_some_iff, task?_modifyTask, if_pos rfl, task?_eq_some_iff.2 ht]
    rfl
  have hlive' : (s.modifyTask i fun t => { t with waiter := some source }).ending? i = none := by
    rw [ending?_modifyTask, hlive]
  have hlt : source < (s.modifyTask i fun t => { t with waiter := some source }).futures.length := by
    rw [Scheduler.modifyTask, length_modifyFuture]
    exact hsource
  have hnotify := hmodified.notify (.wake i source) (fun id hid => by cases hid; exact hlt)
    (fun id hid => by cases hid; exact ⟨hb, hheld, hlive', _, htask⟩)
    (fun id c hcontra => by cases hcontra) fun id hcontra => by cases hcontra
  have hwaits : Sound b (fun id => held id ∧ id ≠ i)
      ((s.modifyTask i fun t => { t with waiter := some source }).whenEnded source (.wake i source)) := by
    refine hnotify.release (fun id hid => ⟨hid.1, fun heq => hid.2 (Option.some.inj heq).symm⟩) ?_
    rintro id f - ⟨hid, hne⟩ hnot -
    exact absurd ⟨hid, fun heq => hne (by rw [heq]; rfl)⟩ hnot
  have hcancel := hwaits.cancel source
  simp only [Scheduler.await]
  split
  · split
    · next htaken =>
      rw [htaken] at hcancel
      exact hcancel.modifyTask _
    · next hnot =>
      rw [hnot] at hcancel
      exact hcancel
  · exact hwaits

end Scheduler

end PipelineGraph.Simulation
