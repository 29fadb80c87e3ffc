import PipelineGraph.Proofs.Simulation.Mirroring

/-!
# Schedulers that mirror others

Whatever is done to two schedulers at once, futures that are made, asked to cancel, counted and ended, the
one keeps mirroring the other.
-/

namespace PipelineGraph.Simulation

variable {M : Mirror} {places places' aside : List FutureId} {i j i' j' : FutureId}

namespace Scheduler

variable {s s' : Scheduler Program Action}

namespace Mirrors

variable (h : s.Mirrors M places aside s')

include h

/-- A place is not taken twice. -/
theorem stands_iff (hij : Stands places i j) (hij' : Stands places i' j') : i = i' ↔ j = j' := by
  have hnodup : places.Nodup := (List.nodup_append'.1 (h.taken.nodup_iff.2 List.nodup_range)).1
  rw [← List.getElem?_inj (List.getElem?_eq_some_iff.1 hij).1 hnodup, hij, hij', Option.some.injEq]

/-- A place is not aside. -/
theorem not_mem_aside (hij : Stands places i j) : j ∉ aside :=
  (List.nodup_append'.1 (h.taken.nodup_iff.2 List.nodup_range)).2.2 (List.mem_of_getElem? hij)

/-- A future and its place have the same ending. -/
theorem ending? (hij : Stands places i j) : s'.ending? j = s.ending? i := by
  obtain ⟨f, f', hf, hf', hm⟩ := h.futures hij
  rw [Scheduler.ending?, Scheduler.ending?, hf, hf']
  exact hm.ending

/-- A future has ended just if the one at its place has. -/
theorem hasEnded (hij : Stands places i j) : s'.hasEnded j = s.hasEnded i :=
  congrArg Option.isSome (h.ending? hij)

/-- A future and the one at its place are of mirrored kinds. -/
theorem kind? (hij : Stands places i j) : ∃ kind kind', s.kind? i = some kind ∧ s'.kind? j = some kind' ∧
    kind.Mirrors M places kind' := by
  obtain ⟨f, f', hf, hf', hm⟩ := h.futures hij
  refine ⟨f.kind, f'.kind, ?_, ?_, hm.kind⟩
  · rw [Scheduler.kind?, hf, Option.map_some]
  · rw [Scheduler.kind?, hf', Option.map_some]

/-- A task and the one at its place are in mirrored states. -/
theorem task? (hij : Stands places i j) : Option.Rel (TaskState.Mirrors M places) (s.task? i) (s'.task? j) := by
  obtain ⟨kind, kind', hk, hk', hm⟩ := h.kind? hij
  rw [Scheduler.task?, Scheduler.task?, hk, hk']
  cases hm with
  | sleep | gathering => exact .none
  | task ht => exact .some ht

/-- A task keeps a request to cancel it just if the one at its place does. -/
theorem mustCancel (hij : Stands places i j) : s'.mustCancel j = s.mustCancel i := by
  have htask := h.task? hij
  rw [Scheduler.mustCancel, Scheduler.mustCancel]
  generalize s.task? i = t, s'.task? j = t' at htask
  cases htask with
  | none => rfl
  | some ht => exact ht.mustCancel

/-! ## Changes of futures -/

/-- A change of a future is mirrored at its place. -/
theorem modifyFuture (hij : Stands places i j) {F F' : Future Program Action → Future Program Action}
    (hF : ∀ f f', f.Mirrors M places f' → (F f).Mirrors M places (F' f')) :
    (s.modifyFuture i F).Mirrors M places aside (s'.modifyFuture j F') where
  now := h.now
  ready := h.ready
  timers := h.timers
  length := h.length.trans (length_modifyFuture _).symm
  taken := (length_modifyFuture (s := s') F').symm ▸ h.taken
  futures {i' j'} hij' := by
    obtain ⟨f, f', hf, hf', hm⟩ := h.futures hij'
    simp only [future?_modifyFuture, h.stands_iff hij hij', hf, hf']
    split
    · exact ⟨F f, F' f', rfl, rfl, hF f f' hm⟩
    · exact ⟨f, f', rfl, rfl, hm⟩
  asides y hy := by
    have hne : j ≠ y := fun heq => h.not_mem_aside hij (heq ▸ hy)
    rw [future?_modifyFuture, if_neg hne]
    exact h.asides y hy

/-- A change of a task is mirrored at its place. -/
theorem modifyTask (hij : Stands places i j) {F F' : TaskState Program → TaskState Program}
    (hF : ∀ t t', t.Mirrors M places t' → (F t).Mirrors M places (F' t')) :
    (s.modifyTask i F).Mirrors M places aside (s'.modifyTask j F') := by
  refine h.modifyFuture hij fun f f' ⟨hkind, hending, hcallbacks⟩ => ?_
  obtain ⟨kind, ending, callbacks⟩ := f
  obtain ⟨kind', ending', callbacks'⟩ := f'
  cases hkind with
  | sleep => exact ⟨.sleep, hending, hcallbacks⟩
  | gathering hg => exact ⟨.gathering hg, hending, hcallbacks⟩
  | task ht => exact ⟨.task (hF _ _ ht), hending, hcallbacks⟩

/-- A change of a gathering is mirrored at its place. -/
theorem modifyGathering (hij : Stands places i j) {F : GatheringState → GatheringState}
    (hF : ∀ g g', g.Mirrors places g' → (F g).Mirrors places (F g')) :
    (s.modifyGathering i F).Mirrors M places aside (s'.modifyGathering j F) := by
  refine h.modifyFuture hij fun f f' ⟨hkind, hending, hcallbacks⟩ => ?_
  obtain ⟨kind, ending, callbacks⟩ := f
  obtain ⟨kind', ending', callbacks'⟩ := f'
  cases hkind with
  | sleep => exact ⟨.sleep, hending, hcallbacks⟩
  | gathering hg => exact ⟨.gathering (hF _ _ hg), hending, hcallbacks⟩
  | task ht => exact ⟨.task ht, hending, hcallbacks⟩

/-- Mirrored jobs are put at the ends of both queues. -/
theorem enqueue {jobs jobs' : List (Job Action)} (hjobs : List.Forall₂ (Job.Mirrors M places) jobs jobs') :
    Mirrors M places aside { s with ready := s.ready ++ jobs } { s' with ready := s'.ready ++ jobs' } where
  now := h.now
  ready := h.ready.append (.of_forall₂ hjobs)
  timers := h.timers
  length := h.length
  taken := h.taken
  futures := h.futures
  asides := h.asides

/-- A mirrored job may be put into both queues. -/
theorem push {job job' : Job Action} (hjob : job.Mirrors M places job') :
    (s.push job).Mirrors M places aside (s'.push job') :=
  h.enqueue (.cons hjob .nil)

/-- Timers for mirrored jobs may be set for the same time. -/
theorem setTimer {deadline deadline' : Nat} (hdeadline : deadline' = deadline) {job job' : Job Action}
    (hjob : job.Mirrors M places job') :
    (s.setTimer deadline job).Mirrors M places aside (s'.setTimer deadline' job') where
  now := h.now
  ready := h.ready
  timers := List.rel_append h.timers (.cons ⟨hdeadline, hjob⟩ .nil)
  length := h.length
  taken := h.taken
  futures := h.futures
  asides := h.asides

/-- A future and the one at its place may end alike. -/
theorem complete (hij : Stands places i j) (ending : Ending) :
    (s.complete i ending).Mirrors M places aside (s'.complete j ending) := by
  obtain ⟨f, f', hf, hf', hm⟩ := h.futures hij
  simp only [Scheduler.complete, hf, hf', hm.ending]
  split
  · exact h
  · refine enqueue (h.modifyFuture hij ?_) hm.callbacks
    exact fun f f' hm => ⟨hm.kind, rfl, .nil⟩

/-- Mirrored jobs may be put behind the ends of a future and the one at its place. -/
theorem whenEnded (hij : Stands places i j) {job job' : Job Action} (hjob : job.Mirrors M places job') :
    (s.whenEnded i job).Mirrors M places aside (s'.whenEnded j job') := by
  simp only [Scheduler.whenEnded, h.hasEnded hij]
  split
  · exact h.push hjob
  · exact h.modifyFuture hij fun f f' hm => ⟨hm.kind, hm.ending, List.rel_append hm.callbacks (.cons hjob .nil)⟩

/-- Ends of children are counted alike. -/
theorem countEach (hij : Stands places i j) {cs cs' : List FutureId} (hcs : List.Forall₂ (Stands places) cs cs') :
    (cs.foldl (fun t c => t.whenEnded c (.count i c)) s).Mirrors M places aside
      (cs'.foldl (fun t c => t.whenEnded c (.count j c)) s') := by
  induction hcs generalizing s s' with
  | nil => exact h
  | cons hc _ ih => exact ih (h.whenEnded hc (.count hij hc))

/-! ## Requests to cancel -/

/-- A mark is put on both tasks. -/
theorem markCancel (hij : Stands places i j) : (s.markCancel i).Mirrors M places aside (s'.markCancel j) :=
  h.modifyTask hij fun _ _ ht => ⟨ht.program, rfl, ht.waiter⟩

end Mirrors

/-- Requests to several futures are answered alike if each of them is. -/
theorem mirrors_askEach {ask : FutureId → Scheduler Program Action → Reply × Scheduler Program Action}
    {cs cs' : List FutureId} (hcs : List.Forall₂ (Stands places) cs cs')
    (hask : ∀ {s s' c c'}, s.Mirrors M places aside s' → Stands places c c' →
      (ask c' s').1 = (ask c s).1 ∧ (ask c s).2.Mirrors M places aside (ask c' s').2)
    (h : s.Mirrors M places aside s') :
    (askEach ask cs' s').1 = (askEach ask cs s).1 ∧
      (askEach ask cs s).2.Mirrors M places aside (askEach ask cs' s').2 := by
  induction hcs generalizing s s' with
  | nil => exact ⟨rfl, h⟩
  | @cons c c' rest rest' hc _ ih =>
    obtain ⟨hreply, hfirst⟩ := hask h hc
    obtain ⟨hanswer, hlast⟩ := ih hfirst
    rcases hx : ask c s with ⟨reply, s₁⟩
    rcases hx' : ask c' s' with ⟨reply', s₁'⟩
    simp only [hx, hx'] at hreply hfirst hanswer hlast
    subst hreply
    rcases hy : askEach ask rest s₁ with ⟨answer, s₂⟩
    rcases hy' : askEach ask rest' s₁' with ⟨answer', s₂'⟩
    simp only [hy, hy'] at hanswer hlast
    subst hanswer
    cases reply' with
    | tooDeep => simpa only [askEach, hx, hx', true_and] using hfirst
    | refused | taken => cases answer' <;> simpa only [askEach, hx, hx', hy, hy', true_and] using hlast

/-- A request to cancel travels alike at the places of the futures. -/
theorem Mirrors.cancelWithin (h : s.Mirrors M places aside s') (room : Nat) (hij : Stands places i j) :
    (cancelWithin room j s').1 = (cancelWithin room i s).1 ∧
      (cancelWithin room i s).2.Mirrors M places aside (cancelWithin room j s').2 := by
  induction room generalizing s s' i j with
  | zero => exact ⟨rfl, h⟩
  | succ room ih =>
    obtain ⟨⟨kind, ending, callbacks⟩, ⟨kind', ending', callbacks'⟩, hf, hf', hkind, hending, -⟩ := h.futures hij
    cases hending
    simp only [Scheduler.cancelWithin, hf, hf']
    split
    · exact ⟨rfl, h⟩
    · cases hkind with
      | sleep => exact ⟨rfl, h.complete hij _⟩
      | @gathering g g' hg =>
        obtain ⟨hreply, hm⟩ := mirrors_askEach hg.children (fun h hc => ih h hc) h
        dsimp only
        generalize askEach (Scheduler.cancelWithin room) g.children s = x,
          askEach (Scheduler.cancelWithin room) g'.children s' = x' at hreply hm
        obtain ⟨reply, t⟩ := x
        obtain ⟨reply', t'⟩ := x'
        cases hreply
        cases reply with
        | taken => exact ⟨rfl, hm.modifyGathering hij fun _ _ hg => ⟨hg.children, hg.counted, rfl⟩⟩
        | refused | tooDeep => exact ⟨rfl, hm⟩
      | @task t t' ht =>
        obtain ⟨program, mustCancel, waiter⟩ := t
        obtain ⟨program', mustCancel', waiter'⟩ := t'
        have hwaiter := ht.waiter
        cases hwaiter with
        | none => exact ⟨rfl, h.markCancel hij⟩
        | @some source source' hx =>
          obtain ⟨hreply, hm⟩ := ih h hx
          dsimp only
          generalize Scheduler.cancelWithin room source s = x, Scheduler.cancelWithin room source' s' = x' at hreply hm
          obtain ⟨reply, t⟩ := x
          obtain ⟨reply', t'⟩ := x'
          cases hreply
          cases reply with
          | refused => exact ⟨rfl, hm.markCancel hij⟩
          | taken | tooDeep => exact ⟨rfl, hm⟩

/-- A request to cancel is answered alike. -/
theorem Mirrors.cancel (h : s.Mirrors M places aside s') (hij : Stands places i j) :
    (s'.cancel j).1 = (s.cancel i).1 ∧ (s.cancel i).2.Mirrors M places aside (s'.cancel j).2 :=
  h.cancelWithin maxRequestDepth hij

/-- Requests to cancel several futures are answered alike. -/
theorem Mirrors.cancelEach (h : s.Mirrors M places aside s') {cs cs' : List FutureId}
    (hcs : List.Forall₂ (Stands places) cs cs') : (s'.cancelEach cs').1 = (s.cancelEach cs).1 ∧
      (s.cancelEach cs).2.Mirrors M places aside (s'.cancelEach cs').2 :=
  mirrors_askEach hcs (fun h hc => h.cancel hc) h

/-! ## New futures -/

section New

variable (h : s.Mirrors M places aside s')

include h

/-- A new future stands at the place of the new future of the other scheduler. -/
theorem Mirrors.stands_new : Stands (places ++ [s'.futures.length]) s.futures.length s'.futures.length := by
  rw [Stands, ← h.length, List.getElem?_concat_length]

/-- A new future of each scheduler, of mirrored kinds, stands at the same place. -/
theorem Mirrors.make {kind kind' : FutureKind Program} (hkind : kind.Mirrors M places kind') :
    (s.make kind).2.Mirrors M (places ++ [s'.futures.length]) aside (s'.make kind').2 where
  now := h.now
  ready := h.ready.imp (fun _ _ hjob => hjob.mono (List.prefix_append _ _)) fun _ hjob => hjob
  timers := h.timers.imp fun _ _ ht => ⟨ht.deadline, ht.job.mono (List.prefix_append _ _)⟩
  length := by simp [h.length]
  taken := by
    rw [length_make, List.range_succ, List.append_assoc]
    refine (List.perm_append_comm.append_left _).trans ?_
    rw [← List.append_assoc]
    exact h.taken.append_right _
  futures {i j} hij := by
    have hmono : places <+: places ++ [s'.futures.length] := List.prefix_append _ _
    rw [future?_make, future?_make]
    by_cases hi : i = s.futures.length
    · have hj : j = s'.futures.length := hij.eq (hi ▸ h.stands_new)
      rw [if_pos hi, if_pos hj]
      exact ⟨_, _, rfl, rfl, hkind.mono hmono, rfl, .nil⟩
    · have hlt : i < places.length := by
        have hle := (List.getElem?_eq_some_iff.1 hij).1
        rw [List.length_append, List.length_singleton] at hle
        have hlength := h.length
        lia
      have hold : Stands places i j := (List.getElem?_append_left hlt).symm.trans hij
      obtain ⟨f, f', hf, hf', hm⟩ := h.futures hold
      rw [if_neg hi, if_neg (Nat.ne_of_lt (lt_of_future? hf'))]
      exact ⟨f, f', hf, hf', hm.mono hmono⟩
  asides y hy := by
    obtain ⟨f', hf', haside⟩ := h.asides y hy
    rw [future?_make, if_neg (Nat.ne_of_lt (lt_of_future? hf'))]
    exact ⟨f', hf', haside⟩

/-- A new sleep is mirrored by a new sleep. -/
theorem Mirrors.sleep (microseconds : Nat) : (s.sleep microseconds).2.Mirrors M (places ++ [s'.futures.length]) aside
    (s'.sleep microseconds).2 :=
  (h.make .sleep).setTimer (congrArg (· + microseconds) h.now) (.elapse h.stands_new)

/-- A new task is mirrored by a new task with a mirrored program. -/
theorem Mirrors.spawn {program program' : Program} (hprogram : program.Mirrors M places program') :
    (s.spawn program).2.Mirrors M (places ++ [s'.futures.length]) aside (s'.spawn program').2 := by
  have htask : TaskState.Mirrors M places { program } { program := program' } := ⟨hprogram, rfl, .none⟩
  exact (h.make (.task htask)).push (.resume h.stands_new)

omit h in
/-- New tasks are mirrored by new tasks with mirrored programs. -/
theorem Mirrors.spawnAll {programs programs' : List Program} (h : s.Mirrors M places aside s')
    (hprograms : List.Forall₂ (Program.Mirrors M places) programs programs') :
    ∃ places', places <+: places' ∧ List.Forall₂ (Stands places') (s.spawnAll programs).1 (s'.spawnAll programs').1 ∧
      (s.spawnAll programs).2.Mirrors M places' aside (s'.spawnAll programs').2 := by
  induction programs generalizing s s' places programs' with
  | nil =>
    cases hprograms
    exact ⟨places, List.prefix_refl _, .nil, h⟩
  | cons program rest ih =>
    cases hprograms with
    | cons hprogram hrest =>
      have hmono : places <+: places ++ [s'.futures.length] := List.prefix_append _ _
      obtain ⟨places', hgrow, hids, hm⟩ := ih (h.spawn hprogram) (hrest.imp fun _ _ hpr => hpr.mono hmono)
      exact ⟨places', hmono.trans hgrow, .cons (h.stands_new.mono hgrow) hids, hm⟩

/-- A new gathering is mirrored by one of the children at the same places. -/
theorem Mirrors.gather {cs cs' : List FutureId} (hcs : List.Forall₂ (Stands places) cs cs') :
    (s.gather cs).2.Mirrors M (places ++ [s'.futures.length]) aside (s'.gather cs').2 := by
  have hmono : places <+: places ++ [s'.futures.length] := List.prefix_append _ _
  have hg : GatheringState.Mirrors places { children := cs } { children := cs' } := ⟨hcs, rfl, rfl⟩
  exact (h.make (.gathering hg)).countEach h.stands_new (Stands.mono_list hmono hcs)

end New

/-! ## Counting, waiting and ending -/

section Turns

variable (h : s.Mirrors M places aside s')

include h

/-- A child is counted alike. -/
theorem Mirrors.countChild (hij : Stands places i j) {c c' : FutureId} (hc : Stands places c c') :
    (s.countChild i c).Mirrors M places aside (s'.countChild j c') := by
  have hcounted := h.modifyGathering hij (F := fun g => { g with counted := g.counted + 1 }) fun _ _ hg =>
    ⟨hg.children, congrArg (· + 1) hg.counted, hg.cancelRequested⟩
  obtain ⟨kind, kind', hk, hk', hkind⟩ := hcounted.kind? hij
  simp only [Scheduler.countChild, hk, hk', hcounted.ending? hc]
  cases hkind with
  | sleep | task => exact hcounted
  | @gathering g g' hg =>
    cases Scheduler.ending? _ c with
    | none => exact hcounted
    | some ending =>
      cases ending with
      | error e => exact hcounted.complete hij _
      | ok =>
        dsimp only
        rw [hg.counted, ← hg.children.length_eq, hg.cancelRequested]
        split
        · exact hcounted.complete hij _
        · exact hcounted

/-- Tasks wait alike for futures at the same place, and requests that they keep are passed on alike. -/
theorem Mirrors.await {x x' : FutureId} (hij : Stands places i j) (hx : Stands places x x') :
    (s.await i x).Mirrors M places aside (s'.await j x') := by
  have hwaiter : Mirrors M places aside (s.modifyTask i fun t => { t with waiter := some x })
      (s'.modifyTask j fun t => { t with waiter := some x' }) :=
    h.modifyTask hij fun _ _ ht => ⟨ht.program, ht.mustCancel, .some hx⟩
  have hwait := hwaiter.whenEnded hx (.wake hij hx)
  simp only [Scheduler.await, hwait.mustCancel hij]
  split
  · obtain ⟨hreply, hm⟩ := hwait.cancel hx
    generalize Scheduler.cancel _ x = y, Scheduler.cancel _ x' = y' at hreply hm
    obtain ⟨reply, t⟩ := y
    obtain ⟨reply', t'⟩ := y'
    cases hreply
    cases reply with
    | taken => exact hm.modifyTask hij fun _ _ ht => ⟨ht.program, rfl, ht.waiter⟩
    | refused | tooDeep => exact hm
  · exact hwait

/-- A task whose program has come to its end ends alike. -/
theorem Mirrors.endTask (hij : Stands places i j) : (s.endTask i).Mirrors M places aside (s'.endTask j) := by
  simp only [Scheduler.endTask, h.mustCancel hij]
  exact h.complete hij _

/-- The clocks of both schedulers move alike. -/
theorem Mirrors.advance? : Option.Rel (Mirrors M places aside) s.advance? s'.advance? := by
  have hdeadlines : s'.timers.map (·.deadline) = s.timers.map (·.deadline) := by
    have htimers := h.timers
    generalize s.timers = timers, s'.timers = timers' at htimers
    induction htimers with
    | nil => rfl
    | cons ht _ ih => exact congrArg₂ List.cons ht.deadline ih
  have hfilter : ∀ due : Nat → Bool, List.Forall₂ (Timer.Mirrors M places)
      (s.timers.filter fun t => due t.deadline) (s'.timers.filter fun t => due t.deadline) := fun due =>
    List.rel_filter (fun t t' ht => by simp only [ht.deadline]) h.timers
  have hearliest : earliest? s'.timers = earliest? s.timers := congrArg List.min? hdeadlines
  rw [Scheduler.advance?, Scheduler.advance?, hearliest]
  cases earliest? s.timers with
  | none => exact .none
  | some time =>
    refine .some ⟨rfl, h.ready.append (.of_forall₂ ?_), hfilter fun d => time < d, h.length, h.taken, h.futures,
      h.asides⟩
    exact List.rel_map (fun _ _ ht => ht.job) (hfilter fun d => d ≤ time)

end Turns

end Scheduler

end PipelineGraph.Simulation
