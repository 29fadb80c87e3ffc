import PipelineGraph.Proofs.Simulation.VisitTree

/-!
# What waits for what

The program of a task tells what kind of job brings its next turn: a visit that is about to begin
is queued, one that dwells or crosses its edges is queued or waits for a sleep, one that has
branched waits for the gathering of its children, and the caller waits for the root. No two tasks
wait for the same future.
-/

namespace PipelineGraph.Simulation

/-- A program waits for a future. -/
def Program.Awaits (r : Run) (s : Scheduler Program Action) (source : FutureId) : Program → Prop
  | leave _ => r.base < source ∧ s.bareKind? source = some .sleep
  | fanOut _ => r.base < source ∧ s.bareKind? source = some .sleep
  | join _ children => r.base < source ∧ s.bareKind? source = some (.gathering children)
  | conclude _ => source = r.root
  | _ => False

/-- A job that a scheduler may hold in a run. -/
def Job.Suits (r : Run) (s : Scheduler Program Action) : Job Action → Prop
  | resume task => ∃ pr, s.program? task = some pr ∧ pr.isActive = true
  | wake task source => ∃ pr, s.program? task = some pr ∧ pr.Awaits r s source
  | act _ => False
  | _ => True

variable {r : Run} {s s' : Scheduler Program Action} {id task source : FutureId} {job : Job Action}

/-- A program that waits for a future still does if that is the same. -/
theorem Program.Awaits.mono {pr : Program} (h : pr.Awaits r s source)
    (hbare : ∀ o, s.bareKind? source = some o → o.program? = none →
      s'.bareKind? source = some o) : pr.Awaits r s' source := by
  cases pr with
  | leave | fanOut | join => exact ⟨h.1, hbare _ h.2 rfl⟩
  | conclude => exact h
  | enter | call => exact h

/-- A job still suits if the program of its task and what it waits for are the same. -/
theorem Job.Suits.mono (h : job.Suits r s)
    (hprogram : ∀ task, job.task? = some task → s'.program? task = s.program? task)
    (hbare : ∀ source o, s.bareKind? source = some o → o.program? = none →
      s'.bareKind? source = some o) : job.Suits r s' := by
  cases job with
  | resume task =>
    obtain ⟨pr, hpr, hactive⟩ := h
    exact ⟨pr, (hprogram task rfl).trans hpr, hactive⟩
  | wake task source =>
    obtain ⟨pr, hpr, hawaits⟩ := h
    exact ⟨pr, (hprogram task rfl).trans hpr, hawaits.mono (hbare source)⟩
  | count | elapse | act => exact h

namespace Scheduler

/-! ## Turns that are taken -/

section Takes

variable {awake : Scheduler Program Action}

/-- A task that takes a turn waits for nothing more than before. -/
theorem Takes.shrinks (h : s.Takes id awake) : s.Shrinks awake := by
  obtain ⟨job, rest, hready, htask, rfl⟩ := h
  exact shrinks_awaken hready htask

/-- A task that takes its turn keeps no request to cancel it. -/
theorem Takes.mustCancel (h : s.Takes id awake) : awake.mustCancel id = false := by
  obtain ⟨job, rest, hready, htask, rfl⟩ := h
  rw [mustCancel_awaken, if_pos rfl]

/-- A task that takes a turn leaves all programs. -/
theorem Takes.program? (h : s.Takes id awake) (j : FutureId) : awake.program? j = s.program? j :=
  program?_congr (h.shrinks.bareKind j)

/-- Dropping ready jobs ends nothing. -/
@[simp] theorem ending?_drop (rest : List (Job Action)) : (s.drop rest).ending? id = s.ending? id :=
  rfl

/-- A task that takes a turn ends nothing. -/
theorem Takes.ending? (h : s.Takes id awake) (j : FutureId) : awake.ending? j = s.ending? j := by
  obtain ⟨job, rest, hready, htask, rfl⟩ := h
  exact ending?_modifyTask _

/-- A task that takes its turn is held by a sound scheduler. -/
theorem Takes.sound {b : FutureId} (h : s.Takes id awake) (hs : s.Sound b fun _ => False) :
    awake.Sound b fun j => j = id := by
  obtain ⟨job, rest, hready, htask, rfl⟩ := h
  have hsubject := Job.subject?_of_task? htask
  have hheld : (fun j => False ∨ job.subject? = some j) = fun j => j = id := by
    funext j
    rw [hsubject]
    simp [eq_comm]
  exact hheld ▸ (hs.pop hready).modifyTask _

/-- A task that takes its turn has no other one ahead. -/
theorem Takes.idle {b : FutureId} (h : s.Takes id awake) (hs : s.Sound b fun _ => False)
    (hjob : job ∈ awake.jobs) : job.task? ≠ some id := by
  intro htask
  obtain ⟨hb, t, ht⟩ := (h.sound hs).turn_task hjob htask
  have hturns := (h.sound hs).idle hb rfl ht
  exact List.countP_eq_zero.1 hturns job hjob (decide_eq_true htask)

/-- A task that takes its turn has not ended. -/
theorem Takes.live {b : FutureId} (h : s.Takes id awake) (hs : s.Sound b fun _ => False) :
    b ≤ id ∧ s.ending? id = none := by
  obtain ⟨job, rest, hready, htask, -⟩ := h
  have hjob : job ∈ s.jobs := mem_jobs_of_ready hready
  obtain ⟨hb, -, hlive, -⟩ := hs.live_of_mem hjob htask
  exact ⟨hb, hlive⟩

end Takes

/-! ## Jobs -/

/-- All jobs suit the programs of their tasks. -/
structure Waiting (r : Run) (s : Scheduler Program Action) : Prop where
  suits : ∀ {job}, job ∈ s.jobs → job.Suits r s
  unique : ∀ {t t' source}, .wake t source ∈ s.jobs → .wake t' source ∈ s.jobs → t = t'
  waiter : ∀ {t source}, r.base ≤ t → s.waiter? t = some source → .wake t source ∈ s.jobs

/-- What a task waits for is a future. -/
theorem Waiting.source_lt (h : s.Waiting r) (htree : s.Tree r) (hwake : .wake task source ∈ s.jobs) :
    source < s.futures.length := by
  obtain ⟨pr, -, hawaits⟩ := h.suits hwake
  cases pr with
  | leave | fanOut | join => exact lt_of_bareKind? hawaits.2
  | conclude =>
    obtain ⟨pr, hpr, -⟩ := visit?_eq_some_iff.1 htree.root
    exact hawaits ▸ lt_of_program? hpr
  | enter | call => exact hawaits.elim

/-- What a task of a run waits for belongs to the run. -/
theorem Waiting.base_lt_source (h : s.Waiting r) (hwake : .wake task source ∈ s.jobs) : r.base < source := by
  obtain ⟨pr, -, hawaits⟩ := h.suits hwake
  cases pr with
  | leave | fanOut | join => exact hawaits.1
  | conclude =>
    have hroot : source = r.root := hawaits
    rw [hroot]
    exact r.base_lt_root
  | enter | call => exact hawaits.elim

/-- A scheduler that shrinks has only jobs that suit. -/
theorem Waiting.shrinks (h : s.Waiting r) (hs : s.Shrinks s') : s'.Waiting r where
  suits hjob := (h.suits (hs.jobs hjob)).mono (fun t _ => program?_congr (hs.bareKind t))
    fun source o ho _ => (hs.bareKind source).trans ho
  unique ht ht' := h.unique (hs.jobs ht) (hs.jobs ht')
  waiter ht hsource := by
    obtain ⟨hsource, hjobs⟩ := hs.waiter _ _ hsource
    exact hjobs (h.waiter ht hsource)

/-- A task that goes on behind a new future waits for that and for nothing else. -/
theorem Waiting.defers (h : s.Waiting r) (htree : s.Tree r)
    (hidle : ∀ job ∈ s.jobs, job.task? ≠ some id) (hnew : s.futures.length ≤ source)
    (hsuits : (Job.wake id source).Suits r s')
    (hadded : ∀ job ∈ s'.jobs, job = .wake id source ∨ job ∈ s.jobs ∨
      job.Suits r s' ∧ ∀ t x, job ≠ .wake t x)
    (hkept : .wake id source ∈ s'.jobs ∧ s.jobs ⊆ s'.jobs)
    (hprogram : ∀ j pr, j ≠ id → s.program? j = some pr → s'.program? j = some pr)
    (hbare : ∀ j o, s.bareKind? j = some o → o.program? = none → s'.bareKind? j = some o)
    (hwaiter : ∀ j, s'.waiter? j = if j = id then some source else s.waiter? j) : s'.Waiting r := by
  have hold : ∀ t x, .wake t x ∈ s'.jobs → t = id ∧ x = source ∨ .wake t x ∈ s.jobs := by
    intro t x hmem
    rcases hadded _ hmem with heq | hmem | ⟨-, hnot⟩
    · cases heq
      exact Or.inl ⟨rfl, rfl⟩
    · exact Or.inr hmem
    · exact absurd rfl (hnot t x)
  refine ⟨fun {job} hjob => ?_, fun {t t' x} ht ht' => ?_, fun {t x} ht hx => ?_⟩
  · rcases hadded job hjob with rfl | hmem | ⟨hjob, -⟩
    · exact hsuits
    · refine (h.suits hmem).mono (fun t ht => ?_) hbare
      have hne : t ≠ id := fun heq => hidle job hmem (heq ▸ ht)
      have hsome : ∃ pr, s.program? t = some pr := by
        have hsuits := h.suits hmem
        cases job with
        | resume | wake =>
          cases ht
          obtain ⟨pr, hpr, -⟩ := hsuits
          exact ⟨pr, hpr⟩
        | count | elapse | act => cases ht
      obtain ⟨pr, hpr⟩ := hsome
      rw [hpr, hprogram t pr hne hpr]
    · exact hjob
  · have hlt : ∀ {t x}, .wake t x ∈ s.jobs → x ≠ source := fun hmem =>
      Nat.ne_of_lt (Nat.lt_of_lt_of_le (h.source_lt htree hmem) hnew)
    rcases hold t x ht with ⟨rfl, rfl⟩ | hmem
    · rcases hold t' x ht' with ⟨rfl, -⟩ | hmem'
      · rfl
      · exact absurd rfl (hlt hmem')
    · rcases hold t' x ht' with ⟨rfl, rfl⟩ | hmem'
      · exact absurd rfl (hlt hmem)
      · exact h.unique hmem hmem'
  · rw [hwaiter] at hx
    split at hx
    · next heq =>
      cases hx
      exact heq ▸ hkept.1
    · exact hkept.2 (h.waiter ht hx)

/-- A visit goes on behind a delay with a job that suits. -/
theorem Waiting.goes (h : s.Waiting r) (htree : s.Tree r) {pr next : Program} {d d' : Delay}
    (hid : r.base < id) (hpr : s.program? id = some pr) (hnext : pr.Continues r.plan next d)
    (hidle : ∀ job ∈ s.jobs, job.task? ≠ some id)
    (hgoes : s.Goes id next d' s') : s'.Waiting r := by
  have hlt := lt_of_program? hpr
  have hself : ∀ o, s.bareKind? id = some o → o.program? ≠ none := by
    intro o ho hnone
    rw [bareKind?_eq_task_iff.2 hpr] at ho
    cases ho
    cases hnone
  cases hgoes with
  | pause =>
    have hjobs := jobs_pause (s := s) (i := id) next
    have hwaiter : ∀ t, ((s.instruct id next).push (.resume id)).waiter? t = s.waiter? t :=
      fun _ => waiter?_pause next
    have hold : ∀ {t x}, .wake t x ∈ ((s.instruct id next).push (.resume id)).jobs →
        .wake t x ∈ s.jobs := fun hmem =>
      (List.mem_cons.1 (hjobs.subset hmem)).resolve_left fun heq => by cases heq
    refine ⟨fun {job} hjob => ?_, fun ht ht' => h.unique (hold ht) (hold ht'), fun ht hsource => ?_⟩
    · rcases List.mem_cons.1 (hjobs.subset hjob) with rfl | hmem
      · refine ⟨next, (program?_instruct hpr next).trans (if_pos rfl), ?_⟩
        cases hnext <;> rfl
      · refine (h.suits hmem).mono (fun t ht => ?_) fun j o ho hnone => ?_
        · refine (program?_instruct hpr next).trans (if_neg fun heq => ?_)
          exact hidle job hmem (heq ▸ ht)
        · refine (bareKind?_instruct hpr next).trans ((if_neg fun heq => ?_).trans ho)
          exact hself o (heq ▸ ho) hnone
    · rw [hwaiter] at hsource
      exact hjobs.symm.subset (List.mem_cons_of_mem _ (h.waiter ht hsource))
  | sleep microseconds =>
    have hjobs : (s.doze id next microseconds).jobs.Perm
        (.wake id s.futures.length :: .elapse s.futures.length :: s.jobs) := jobs_doze
    refine h.defers htree hidle (Nat.le_refl _) ?_ (fun job hjob => ?_) ⟨?_, fun job hjob => ?_⟩
      (fun j pr' hne hj => ?_) (fun j o ho hnone => ?_) fun j => waiter?_doze hpr
    · refine ⟨next, (program?_doze hpr).trans (if_pos rfl), ?_⟩
      have hsleep : (s.doze id next microseconds).bareKind? s.futures.length = some .sleep :=
        (bareKind?_doze hpr).trans (if_pos rfl)
      cases hnext <;> exact ⟨Nat.lt_trans hid hlt, hsleep⟩
    · rcases List.mem_cons.1 (hjobs.subset hjob) with heq | hmem
      · exact Or.inl heq
      · rcases List.mem_cons.1 hmem with rfl | hmem
        · exact Or.inr (Or.inr ⟨trivial, fun _ _ heq => by cases heq⟩)
        · exact Or.inr (Or.inl hmem)
    · exact hjobs.symm.subset List.mem_cons_self
    · exact hjobs.symm.subset (List.mem_cons_of_mem _ (List.mem_cons_of_mem _ hjob))
    · rw [program?_doze hpr, if_neg hne, hj]
    · have hne : j ≠ id := fun heq => hself o (heq ▸ ho) hnone
      rw [bareKind?_doze hpr, if_neg (Nat.ne_of_lt (lt_of_bareKind? ho)), if_neg hne, ho]

/-- A visit that branches waits with jobs that suit. -/
theorem Waiting.branch (h : s.Waiting r) (htree : s.Tree r) {v : Visit} (hid : r.base < id)
    (hpr : s.program? id = some (.fanOut v))
    (hidle : ∀ job ∈ s.jobs, job.task? ≠ some id) :
    (s.branch id ((Engine.followers v).map .enter) (.join v)).Waiting r := by
  have hlt := lt_of_program? hpr
  generalize hprograms : (Engine.followers v).map Program.enter = programs
  have hjobs : (s.branch id programs (.join v)).jobs.Perm _ := jobs_branch _ _
  refine h.defers htree hidle (Nat.le_add_right _ programs.length) ?_ (fun job hjob => ?_)
    ⟨?_, fun job hjob => ?_⟩ (fun j pr' hne hj => ?_) (fun j o ho hnone => ?_)
    fun j => waiter?_branch hpr
  · refine ⟨.join v (s.fresh programs.length), (program?_branch _ _ hpr).trans (if_pos rfl), ?_, ?_⟩
    · lia
    · rw [bareKind?_branch hpr, if_neg (by lia), if_neg (by lia), if_pos rfl]
  · rcases List.mem_append.1 (hjobs.subset hjob) with hmem | hmem
    · rcases List.mem_cons.1 hmem with heq | hmem
      · exact Or.inl heq
      · obtain ⟨c, -, rfl⟩ := List.mem_map.1 hmem
        exact Or.inr (Or.inr ⟨trivial, fun _ _ heq => by cases heq⟩)
    · rcases List.mem_append.1 hmem with hmem | hmem
      · obtain ⟨c, hc, rfl⟩ := List.mem_map.1 hmem
        obtain ⟨hge, hlt'⟩ := mem_fresh.1 hc
        have hi : c - s.futures.length < programs.length := by lia
        refine Or.inr (Or.inr ⟨⟨programs[c - s.futures.length], ?_, ?_⟩, fun _ _ heq => by cases heq⟩)
        · rw [program?_branch _ _ hpr, if_neg (by lia), if_neg (by lia), List.getElem?_eq_getElem hi]
        · have hmem : programs[c - s.futures.length] ∈ (Engine.followers v).map Program.enter := by
            rw [hprograms]
            exact List.getElem_mem hi
          obtain ⟨v', -, heq⟩ := List.mem_map.1 hmem
          rw [← heq]
          rfl
      · exact Or.inr (Or.inl hmem)
  · exact hjobs.symm.subset (List.mem_append_left _ List.mem_cons_self)
  · exact hjobs.symm.subset (List.mem_append_right _ (List.mem_append_right _ hjob))
  · rw [program?_branch _ _ hpr, if_neg hne, if_pos (lt_of_program? hj), hj]
  · rw [bareKind?_branch hpr, if_neg, if_pos (lt_of_bareKind? ho), ho]
    rintro rfl
    rw [bareKind?_eq_task_iff.2 hpr] at ho
    cases ho
    cases hnone

end Scheduler

end PipelineGraph.Simulation
