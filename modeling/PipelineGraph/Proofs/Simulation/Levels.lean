import Mathlib.Order.Bounds.Basic
import PipelineGraph.Proofs.Simulation.DatedChanges
import PipelineGraph.Proofs.Simulation.Paths

/-!
# Branches overlap level by level

In a run that nothing interrupts all visits of one depth show their nodes before one of them clears its
node, and all of them clear their nodes before a visit of the next depth shows its own. The run takes as
long as the longest walk from its start, however many branches there are.
-/

namespace PipelineGraph.Simulation

/-- All changes of one kind come before those of another kind. -/
def DatedChange.Precede (P Q : DatedChange → Prop) (ds : List DatedChange) : Prop :=
  ∀ (i j : Nat) (d d' : DatedChange), ds[i]? = some d → ds[j]? = some d' → P d → Q d' → i < j

/-- Changes in the order of their stages, each when the time for its stage has come. -/
structure DatedChange.Staged (p : Plan) (start : Nat) (ds : List DatedChange) : Prop where
  time : ∀ d ∈ ds, ∀ n, d.IsAt n → d.time = start + p.onset n
  order : ds.Pairwise fun d d' => ∀ m n, d.IsAt m → d'.IsAt n → m ≤ n

namespace DatedChange.Staged

variable {p : Plan} {start m n : Nat} {ds : List DatedChange} {d : DatedChange}

/-- No change is out of order in an empty history. -/
theorem nil : Staged p start [] :=
  ⟨List.forall_mem_nil _, .nil⟩

/-- A change comes before others if it is on time and they are at no stage before its own. -/
theorem cons (h : Staged p start ds) (htime : ∀ n, d.IsAt n → d.time = start + p.onset n)
    (horder : ∀ d' ∈ ds, ∀ m n, d.IsAt m → d'.IsAt n → m ≤ n) : Staged p start (d :: ds) where
  time := List.forall_mem_cons.2 ⟨htime, h.time⟩
  order := List.pairwise_cons.2 ⟨horder, h.order⟩

/-- What is at no stage may come before all others. -/
theorem cons_of_not_isAt (h : Staged p start ds) (hd : ∀ n, ¬ d.IsAt n) : Staged p start (d :: ds) :=
  h.cons (fun n hat => absurd hat (hd n)) fun _ _ m _ hat => absurd hat (hd m)

/-- All changes at one stage come before those at a later one. -/
theorem precede (h : Staged p start ds) {P Q : DatedChange → Prop} (hP : ∀ d, P d → d.IsAt m) (hQ : ∀ d, Q d → d.IsAt n)
    (hlt : m < n) : Precede P Q ds := by
  intro i j d d' hi hj hd hd'
  obtain ⟨hilt, rfl⟩ := List.getElem?_eq_some_iff.1 hi
  obtain ⟨hjlt, rfl⟩ := List.getElem?_eq_some_iff.1 hj
  by_contra hle
  rcases Nat.eq_or_lt_of_le (Nat.le_of_not_lt hle) with heq | hlater
  · subst heq
    exact absurd ((hP _ hd).unique (hQ _ hd')) (Nat.ne_of_lt hlt)
  · exact absurd (List.pairwise_iff_getElem.1 h.order j i hjlt hilt hlater n m (hQ _ hd') (hP _ hd))
      (Nat.not_le_of_lt hlt)

end DatedChange.Staged

open Scheduler

/-- The change that ends a run well. -/
def DatedChange.finish (time : Nat) : DatedChange :=
  ⟨time, none, ⟨.status, some RunStatus.running.name, some RunStatus.finished.name⟩⟩

/-- A run that keeps to its course and is on time, with nothing that interrupts it. -/
structure Session.OnSchedule (r : Run) (before : List (Nat × Entry)) (start L : Nat) (s : Session) : Prop where
  course : Course r before s
  uninterrupted : s.scheduler.Uninterrupted r
  onTime : s.scheduler.OnTime r.plan r.base start (start + r.plan.onset (3 * L + 1))
  activeHasVisit : s.ActiveHasVisit r

section Steps

variable {r : Run} {before : List (Nat × Entry)} {start L : Nat} {s s' : Session}

/-- A run that has just begun is on schedule. -/
theorem Scheduler.Begun.onSchedule (h : s.scheduler.Begun r) (hc : Course r before s) :
    s.OnSchedule r before s.scheduler.now L where
  course := hc
  uninterrupted := h.uninterrupted
  onTime := h.onTime (Nat.le_add_right _ _)
  activeHasVisit _ := ⟨r.root, _, r.base_lt_root, h.program?_root, by
    rw [hasEnded, h.ending? (Nat.le_of_lt r.base_lt_root)]
    rfl, rfl⟩

/-- A step of a run on schedule does nothing to the machine, or the visit whose turn it is does something at its
stage, when the time for that stage has come, or the run ends well. -/
theorem Session.OnSchedule.datedChanges_cases (hp : s.OnSchedule r before start L) (h : Move r.plan s s')
    (hlongest : ∀ w x, r.graph.IsWalk r.start.id w x → w.length ≤ L) (hshallow : s.scheduler.Shallow r) :
    (s.datedChangesTo s' = [] ∧ s'.machine = s.machine ∧
      ∀ id pr, s.turn? = some id → s.scheduler.program? id = some pr → pr.shown? = none) ∨
    (∃ id pr n d, s.turn? = some id ∧ s.scheduler.program? id = some pr ∧ pr.stage? = some n ∧ n ≤ 3 * L + 1 ∧
      s.datedChangesTo s' = [d] ∧ d.IsAt n ∧ d.time = start + r.plan.onset n ∧
      s'.machine.status = s.machine.status ∧ s'.machine.history = s.machine.history ++ [d.change]) ∨
    s.turn? = some r.base ∧ s'.machine.status = .finished ∧ s.datedChangesTo s' = [.finish s.scheduler.now] ∧
      s'.machine.history = s.machine.history ++ [(DatedChange.finish s.scheduler.now).change] := by
  have hs := hp.course.orderly
  rcases h.machine_cases hs hp.uninterrupted hshallow with ⟨hmachine, hnot⟩ | ⟨id, pr, shown, hturn, hpr,
    hshown, hmachine⟩ |
    ⟨hturn, hstatus, -, hhistory⟩
  · have hhistory : s'.machine.history = s.machine.history ++ [] := by rw [hmachine, List.append_nil]
    exact Or.inl ⟨Session.datedChangesTo_of_history hhistory, hmachine, hnot⟩
  · obtain ⟨job, rest, hready, htask⟩ := Session.exists_of_turn? hturn
    obtain ⟨n, hstage⟩ := Program.exists_stage_of_shown? hshown
    have hb := (hs.sound.turn_task (mem_jobs_of_ready hready) htask).1
    have hnow : s.scheduler.now = start + r.plan.onset n := by
      rw [hp.onTime.queue job (hready ▸ List.mem_cons_self) _ (.turn hb htask hpr hstage)]
      rw [show (2 * n + 1) / 2 = n by omega]
    have hhistory : s'.machine.history = s.machine.history ++ [⟨.active, s.machine.active, shown⟩] :=
      congrArg Machine.history hmachine
    have hchanges := Session.datedChangesTo_of_history hhistory
    have hvisit : s.turn?.bind s.scheduler.visit? = pr.visit? := by
      rw [hturn, Option.bind_some, visit?, hpr, Option.bind_some]
    rw [hvisit] at hchanges
    refine Or.inr (Or.inl ⟨id, pr, n, _, hturn, hpr, hstage, hs.tree.stage_le hlongest hb hpr hstage, hchanges, ?_,
      hnow, by rw [hmachine]; rfl, hhistory⟩)
    cases pr with
    | enter v =>
      cases hshown
      cases hstage
      exact .activation _ v _
    | leave v =>
      cases hshown
      cases hstage
      exact .clearing _ v _
    | fanOut | join | call | conclude => cases hshown
  · obtain ⟨job, rest, hready, htask⟩ := Session.exists_of_turn? hturn
    obtain ⟨-, -, e, hroot, -, hin⟩ := hp.course.turn_of_caller hready htask hs.tree.caller
    have hok : s.scheduler.ending? r.root = some (.ok ()) := by
      rw [hp.uninterrupted.interrupt? hs (mem_jobs_of_ready hready) htask] at hin
      cases e with
      | ok => exact hroot
      | error i => cases hin
    -- All visits have cleared their nodes, so no node is shown as active.
    have hactive : s.machine.active.isSome = false := by
      rw [← Bool.not_eq_true]
      intro hactive
      obtain ⟨id, pr, hid, hpr, hlive, -⟩ := hp.activeHasVisit hactive
      rw [hasEnded, hp.course.outcome.all_ok hs.tree hok hid hpr] at hlive
      cases hlive
    have hvisit : s.turn?.bind s.scheduler.visit? = none := by
      rw [hturn, Option.bind_some, visit?, hs.tree.caller]
      rfl
    rw [hactive] at hhistory
    refine Or.inr (Or.inr ⟨hturn, hstatus, ?_, hhistory⟩)
    rw [Session.datedChangesTo_of_history hhistory, hvisit]
    rfl

end Steps

/-! ## What is behind a run -/

namespace Scheduler

variable {r : Run} {σ : Scheduler Program Action} {id : FutureId} {v : Visit}

/-- A run that has just begun has nothing behind it. -/
theorem Begun.not_passed (h : σ.Begun r) (n : Nat) : ¬ σ.Passed r n := by
  rintro ⟨id, pr, hid, hpr, hpassed⟩
  obtain ⟨-, rfl⟩ := h.program?_eq hid hpr
  exact hpassed

/-- Each walk from the node of a visit that has ended well leads to a visit that has ended well. -/
theorem Outcome.exists_visit (ho : σ.Outcome r) (ht : σ.Tree r) (hid : r.base < id) (hv : σ.visit? id = some v)
    (hok : σ.ending? id = some (.ok ())) {w : r.graph.Walk} {x : Text} (hw : r.graph.IsWalk v.node.id w x) :
    ∃ id' v', r.base < id' ∧ σ.visit? id' = some v' ∧ σ.ending? id' = some (.ok ()) ∧ v'.node.id = x ∧
      v'.depth = v.depth + w.length := by
  induction w generalizing id v with
  | nil => exact ⟨id, v, hid, hv, hok, hw, rfl⟩
  | cons i rest ih =>
    obtain ⟨hsource, hrest⟩ := hw
    obtain ⟨pr, hpr, hvisit⟩ := visit?_eq_some_iff.1 hv
    obtain ⟨v₀, hv₀, hfits⟩ := (ht.fits hid hpr).exists_visit
    cases hvisit.symm.trans hv₀
    have hlead : r.graph.edges[i].target ∈ v.graph.targets v.node.id := by
      rw [hfits.graph]
      exact FlowGraph.leads_iff.2 ⟨i, hsource, rfl⟩
    rcases ho.ok hid hpr hok with ⟨v', rfl, hleaf⟩ | ⟨v', children, rfl, hchildren⟩
    · cases hvisit
      rw [hleaf] at hlead
      cases hlead
    · cases hvisit
      rw [← Engine.map_id_followers] at hlead
      obtain ⟨v'', hv'', hnode⟩ := List.mem_map.1 hlead
      obtain ⟨c, hc, hvc⟩ := ht.child_of_follower hid hpr hv''
      have hlt := (ht.children hid hpr).1 c hc
      obtain ⟨id', v', hid', hv', hok', hx, hdepth⟩ :=
        ih (Nat.lt_trans hid hlt) hvc (hchildren c hc) (hnode ▸ hrest)
      refine ⟨id', v', hid', hv', hok', hx, ?_⟩
      rw [hdepth, Engine.depth_of_mem_followers hv'', List.length_cons]
      omega

/-- A visit that has ended well has shown its node as active and has cleared it. -/
theorem Outcome.passed (ho : σ.Outcome r) (hid : r.base < id) (hv : σ.visit? id = some v)
    (hok : σ.ending? id = some (.ok ())) : σ.Passed r (3 * v.depth) ∧ σ.Passed r (3 * v.depth + 1) := by
  obtain ⟨pr, hpr, hvisit⟩ := visit?_eq_some_iff.1 hv
  have hended : σ.hasEnded id = true := by
    rw [hasEnded, hok]
    rfl
  rcases ho.ok hid hpr hok with ⟨v', rfl, -⟩ | ⟨v', children, rfl, -⟩
  · cases hvisit
    exact ⟨⟨id, _, hid, hpr, hended ▸ Or.inl rfl⟩, id, _, hid, hpr, hended ▸ Or.inr rfl⟩
  · cases hvisit
    exact ⟨⟨id, _, hid, hpr, Or.inl rfl⟩, id, _, hid, hpr, Or.inr rfl⟩

/-- A run whose root has ended well has the visits of each depth behind it. -/
theorem Outcome.passed_of_walk (ho : σ.Outcome r) (ht : σ.Tree r) (hroot : σ.ending? r.root = some (.ok ()))
    {w : r.graph.Walk} {x : Text} (hw : r.graph.IsWalk r.start.id w x) {k : Nat} (hk : k ≤ w.length) :
    σ.Passed r (3 * k) ∧ σ.Passed r (3 * k + 1) := by
  rw [← List.take_append_drop k w] at hw
  obtain ⟨y, hwalk, -⟩ := FlowGraph.isWalk_append.1 hw
  obtain ⟨id, v, hid, hv, hok, -, hdepth⟩ := ho.exists_visit ht r.base_lt_root ht.root hroot hwalk
  have hlevel : v.depth = k := by
    rw [hdepth, List.length_take, Nat.min_eq_left hk]
    exact Nat.zero_add k
  exact hlevel ▸ ho.passed hid hv hok

end Scheduler

namespace Engine

/-! ## Runs -/

section Runs

variable {r : Run} {before : List (Nat × Entry)} {start L : Nat} {s s' : Session} {ds : List DatedChange}
  (hhooks : r.plan.hooks = []) (hdwell : ∀ e, r.plan.dwell ≠ .unusable e)
  (hedge : ∀ e, r.plan.edgeDelay ≠ .unusable e)
  (hlongest : ∀ w x, r.graph.IsWalk r.start.id w x → w.length ≤ L) (hdepth : (L : Int) ≤ r.plan.maxDepth)

include hhooks hdwell hedge hlongest hdepth

/-- A step of a run on schedule is a move, no visit is too deep in it, and the run stays on schedule. -/
theorem onSchedule_of_step (hp : s.OnSchedule r before start L) (h : step? r.plan s = some s') :
    Move r.plan s s' ∧ s.scheduler.Shallow r ∧ s'.OnSchedule r before start L ∧ s.scheduler.now ≤ s'.scheduler.now := by
  have hwalks : ∀ w x, r.graph.IsWalk r.start.id w x → (w.length : Int) ≤ r.plan.maxDepth := fun w x hw =>
    Int.le_trans (Int.ofNat_le.2 (hlongest w x hw)) hdepth
  have hs := hp.course.orderly
  have hshallow : s.scheduler.Shallow r := hs.tree.shallow hwalks
  have hmove := hp.course.move_of_step hhooks hdwell hedge h
  obtain ⟨hcourse, hcalm⟩ := uninterrupted_of_step hhooks hdwell hedge hwalks hp.course hp.uninterrupted h
  obtain ⟨honTime, hnow⟩ := hmove.onTime hs hp.uninterrupted hlongest hp.onTime
  exact ⟨hmove, hshallow, ⟨hcourse, hcalm, honTime, hmove.activeHasVisit hs hp.uninterrupted hshallow
    hp.activeHasVisit⟩, hnow⟩

/-- A run on schedule stays so, and its dated changes are those in the history. -/
theorem onSchedule_does (hd : Does r.plan s ds s') (hp : s.OnSchedule r before start L) :
    s'.OnSchedule r before start L ∧ s'.machine.history = s.machine.history ++ ds.map (·.change) := by
  induction hd with
  | rest => exact ⟨hp, (List.append_nil _).symm⟩
  | @step s s₁ s' ds hstep _ ih =>
    obtain ⟨hmove, hshallow, hp₁, -⟩ := onSchedule_of_step hhooks hdwell hedge hlongest hdepth hp hstep
    obtain ⟨hp', hhistory⟩ := ih hp₁
    refine ⟨hp', ?_⟩
    have hfirst : s₁.machine.history = s.machine.history ++ (s.datedChangesTo s₁).map (·.change) := by
      rcases hp.datedChanges_cases hmove hlongest hshallow with ⟨hchanges, hmachine, -⟩ |
        ⟨-, -, -, d, -, -, -, -, hchanges, -, -, -, hhistory⟩ | ⟨-, -, hchanges, hhistory⟩
      · rw [hchanges, hmachine]
        exact (List.append_nil _).symm
      · rw [hchanges, hhistory]
        rfl
      · rw [hchanges, hhistory]
        rfl
    rw [hhistory, hfirst, List.map_append, List.append_assoc]

/-- What a run on schedule does is staged, and at none of the slots behind it. -/
theorem staged_does (hd : Does r.plan s ds s') (hp : s.OnSchedule r before start L) {slot due : Nat}
    (hi : s.scheduler.InStep r.plan 0 slot due) :
    (∀ d ∈ ds, ∀ n, d.IsAt n → slot ≤ 2 * n + 1) ∧ DatedChange.Staged r.plan start ds := by
  induction hd generalizing slot due with
  | rest => exact ⟨List.forall_mem_nil _, .nil⟩
  | @step s s₁ s' ds hstep _ ih =>
    obtain ⟨hmove, hshallow, hp₁, -⟩ := onSchedule_of_step hhooks hdwell hedge hlongest hdepth hp hstep
    obtain ⟨slot', due', hle, hhead, hi'⟩ := hmove.inStep hp.course.orderly hp.uninterrupted hi
    obtain ⟨hlater, hstaged⟩ := ih hp₁ hi'
    have hrest : ∀ d ∈ ds, ∀ n, d.IsAt n → slot ≤ 2 * n + 1 := fun d hmem n hat =>
      Nat.le_trans hle (hlater d hmem n hat)
    rcases hp.datedChanges_cases hmove hlongest hshallow with ⟨hchanges, -, -⟩ |
      ⟨id, pr, n, d, hturn, hpr, hstage, -, hchanges, hat, htime, -⟩ | ⟨-, -, hchanges, -⟩
    · rw [hchanges]
      exact ⟨hrest, hstaged⟩
    · obtain ⟨job, rest, hready, htask⟩ := Session.exists_of_turn? hturn
      have hslot : 2 * n + 1 = slot' := hhead job rest _ hready (.turn (Nat.zero_le _) htask hpr hstage)
      rw [hchanges, List.singleton_append]
      refine ⟨List.forall_mem_cons.2 ⟨fun m hm => ?_, hrest⟩,
        hstaged.cons (fun m hm => ?_) fun d' hmem m m' hm hm' => ?_⟩
      · rw [← hat.unique hm, hslot]
        exact hle
      · rw [← hat.unique hm]
        exact htime
      · have hle' := hlater d' hmem m' hm'
        rw [← hat.unique hm]
        omega
    · have hnot : ∀ n, ¬ (DatedChange.finish s.scheduler.now).IsAt n := fun n hat => by cases hat
      rw [hchanges, List.singleton_append]
      exact ⟨List.forall_mem_cons.2 ⟨fun m hm => absurd hm (hnot m), hrest⟩, hstaged.cons_of_not_isAt hnot⟩

/-- What a run on schedule does comes in the order of time. -/
theorem time_does (hd : Does r.plan s ds s') (hp : s.OnSchedule r before start L) :
    s.scheduler.now ≤ s'.scheduler.now ∧ (∀ d ∈ ds, s.scheduler.now ≤ d.time ∧ d.time ≤ s'.scheduler.now) ∧
      ds.Pairwise fun d d' => d.time ≤ d'.time := by
  induction hd with
  | rest => exact ⟨Nat.le_refl _, List.forall_mem_nil _, .nil⟩
  | @step s s₁ s' ds hstep _ ih =>
    obtain ⟨-, -, hp₁, hnow⟩ := onSchedule_of_step hhooks hdwell hedge hlongest hdepth hp hstep
    obtain ⟨hle, hlater, hpairs⟩ := ih hp₁
    have hfirst : ∀ d ∈ s.datedChangesTo s₁, d.time = s.scheduler.now := by
      intro d hmem
      obtain ⟨c, -, rfl⟩ := List.mem_map.1 hmem
      rfl
    refine ⟨Nat.le_trans hnow hle, fun d hmem => ?_, List.pairwise_append.2 ⟨?_, hpairs, fun d hmem d' hmem' => ?_⟩⟩
    · rcases List.mem_append.1 hmem with hmem | hmem
      · rw [hfirst d hmem]
        exact ⟨Nat.le_refl _, Nat.le_trans hnow hle⟩
      · exact ⟨Nat.le_trans hnow (hlater d hmem).1, (hlater d hmem).2⟩
    · refine List.pairwise_iff_getElem.2 fun i j hi hj _ => ?_
      rw [hfirst _ (List.getElem_mem hi), hfirst _ (List.getElem_mem hj)]
    · rw [hfirst d hmem]
      exact Nat.le_trans hnow (hlater d' hmem').1

/-- What is behind a run on schedule in the end was behind it in the beginning, or it did it. -/
theorem passed_does (hd : Does r.plan s ds s') (hp : s.OnSchedule r before start L) {n : Nat}
    (hpassed : s'.scheduler.Passed r n) : s.scheduler.Passed r n ∨ ∃ d ∈ ds, d.IsAt n := by
  induction hd with
  | rest => exact Or.inl hpassed
  | @step s s₁ s' ds hstep _ ih =>
    obtain ⟨hmove, hshallow, hp₁, -⟩ := onSchedule_of_step hhooks hdwell hedge hlongest hdepth hp hstep
    rcases ih hp₁ hpassed with hearly | ⟨d, hmem, hat⟩
    · rcases hmove.passed hp.course.orderly hp.uninterrupted hshallow hearly with hold |
        ⟨id, pr, hturn, hpr, hstage, hshown⟩
      · exact Or.inl hold
      · rcases hp.datedChanges_cases hmove hlongest hshallow with ⟨-, -, hnot⟩ |
          ⟨id', pr', n', d, hturn', hpr', hstage', -, hchanges, hat, -⟩ | ⟨hturn', -⟩
        · rw [hnot id pr hturn hpr] at hshown
          cases hshown
        · cases hturn.symm.trans hturn'
          cases hpr.symm.trans hpr'
          cases hstage.symm.trans hstage'
          exact Or.inr ⟨d, by rw [hchanges]; exact List.mem_cons_self, hat⟩
        · cases hturn.symm.trans hturn'
          cases hpr.symm.trans hp.course.orderly.tree.caller
          cases hshown
    · exact Or.inr ⟨d, List.mem_append_right _ hmem, hat⟩

/-- A run that is over does nothing more. -/
theorem nothing_does (hd : Does r.plan s ds s') (hp : s.OnSchedule r before start L) {e : Ending}
    (hover : Concluded r before s e) : ds = [] := by
  induction hd with
  | rest => rfl
  | @step s s₁ s' ds hstep _ ih =>
    obtain ⟨hmove, hshallow, hp₁, -⟩ := onSchedule_of_step hhooks hdwell hedge hlongest hdepth hp hstep
    have hs := hp.course.orderly
    rw [ih hp₁ (hover.move hmove hp.course), List.append_nil]
    rcases hp.datedChanges_cases hmove hlongest hshallow with ⟨hchanges, -⟩ |
      ⟨id, pr, n, d, hturn, hpr, hstage, -⟩ | ⟨hturn, -⟩
    · exact hchanges
    · obtain ⟨job, rest, hready, htask⟩ := Session.exists_of_turn? hturn
      have hactive : pr.isActive = true := by
        cases pr with
        | enter | leave | fanOut => rfl
        | join | call | conclude => cases hstage
      have hid := hs.tree.base_lt (hs.sound.turn_task (mem_jobs_of_ready hready) htask).1 hpr fun heq => by
        subst heq
        cases hactive
      exact (hp.course.not_onlyTooDeep hready htask hpr hactive (fun v hv => hshallow hid (hv ▸ hpr))
        hover.onlyTooDeep).elim
    · obtain ⟨job, rest, hready, htask⟩ := Session.exists_of_turn? hturn
      exact absurd (hs.sound.live_of_mem (mem_jobs_of_ready hready) htask).2.2.1 hover.ended

/-- A run that comes to its end ends with its last change; all others are those of visits. -/
theorem finish_does (hd : Does r.plan s ds s') (hp : s.OnSchedule r before start L) (hunder : Underway r before s)
    {e : Ending} (hover : Concluded r before s' e) :
    ∃ middle time, ds = middle ++ [.finish time] ∧ ∀ d ∈ middle, ∃ n ≤ 3 * L + 1, d.IsAt n := by
  induction hd with
  | rest => exact absurd hunder.live hover.ended
  | @step s s₁ s' ds hstep hlater ih =>
    obtain ⟨hmove, hshallow, hp₁, -⟩ := onSchedule_of_step hhooks hdwell hedge hlongest hdepth hp hstep
    have hunder₁ : s₁.machine.status = s.machine.status → Underway r before s₁ := by
      intro hsame
      rcases hp₁.course.state with hunder₁ | ⟨e₁, hover₁⟩
      · exact hunder₁
      · exact absurd (hover₁.status.symm.trans (hsame.trans hunder.running)) (Verdict.status_ne_running _)
    rcases hp.datedChanges_cases hmove hlongest hshallow with ⟨hchanges, hmachine, -⟩ |
      ⟨-, -, n, d, -, -, -, hn, hchanges, hat, -, hstatus, -⟩ | ⟨-, hstatus, hchanges, -⟩
    · rw [hchanges]
      exact ih hp₁ (hunder₁ (congrArg Machine.status hmachine)) hover
    · obtain ⟨middle, time, rfl, hvisits⟩ := ih hp₁ (hunder₁ hstatus) hover
      refine ⟨d :: middle, time, by rw [hchanges]; rfl, fun d' hmem => ?_⟩
      rcases List.mem_cons.1 hmem with rfl | hmem
      · exact ⟨n, hn, hat⟩
      · exact hvisits d' hmem
    · rcases hp₁.course.state with hunder₁ | ⟨e₁, hover₁⟩
      · cases hstatus.symm.trans hunder₁.running
      · rw [nothing_does hhooks hdwell hedge hlongest hdepth hlater hp₁ hover₁, hchanges]
        exact ⟨[], _, rfl, fun d hmem => by cases hmem⟩

/-- A run from its beginning to its end does something at both stages of each depth up to that of the longest
walk, and ends at the last stage. -/
theorem does_of_begun (hd : Does r.plan s ds s') (hbegun : s.scheduler.Begun r) (hc : Course r before s)
    (hover : Concluded r before s' (.ok ())) {w : r.graph.Walk} {x : Text} (hw : r.graph.IsWalk r.start.id w x)
    (hlength : w.length = L) : let finish := s.scheduler.now + r.plan.onset (3 * L + 1)
    s'.machine.history = s.machine.history ++ ds.map (·.change) ∧ s'.scheduler.now = finish ∧
      (∃ middle, ds = middle ++ [.finish finish] ∧ ∀ d ∈ middle, ∃ n ≤ 3 * L + 1, d.IsAt n) ∧
      (∀ k ≤ L, (∃ d ∈ ds, d.IsAt (3 * k)) ∧ ∃ d ∈ ds, d.IsAt (3 * k + 1)) ∧
      DatedChange.Staged r.plan s.scheduler.now ds := by
  intro finish
  have hp : s.OnSchedule r before s.scheduler.now L := hbegun.onSchedule hc
  have hunder : Underway r before s := by
    rcases hc.state with hunder | ⟨e, hover⟩
    · exact hunder
    · exact absurd (hbegun.ending? (Nat.le_refl _)) hover.ended
  obtain ⟨hp', hhistory⟩ := onSchedule_does hhooks hdwell hedge hlongest hdepth hd hp
  obtain ⟨-, hstaged⟩ := staged_does hhooks hdwell hedge hlongest hdepth hd hp hbegun.inStep
  obtain ⟨-, hbetween, htimes⟩ := time_does hhooks hdwell hedge hlongest hdepth hd hp
  obtain ⟨middle, time, rfl, hvisits⟩ := finish_does hhooks hdwell hedge hlongest hdepth hd hp hunder hover
  have hpassed : ∀ n, s'.scheduler.Passed r n → ∃ d ∈ middle ++ [.finish time], d.IsAt n := fun n hn =>
    (passed_does hhooks hdwell hedge hlongest hdepth hd hp hn).resolve_left (hbegun.not_passed n)
  have hlevels : ∀ k ≤ L, (∃ d ∈ middle ++ [.finish time], d.IsAt (3 * k)) ∧
      ∃ d ∈ middle ++ [.finish time], d.IsAt (3 * k + 1) := by
    intro k hk
    obtain ⟨hactive, hclear⟩ := hp'.course.outcome.passed_of_walk hp'.course.orderly.tree hover.root.1 hw
      (hlength ▸ hk)
    exact ⟨hpassed _ hactive, hpassed _ hclear⟩
  have hend := (hbetween (.finish time) (List.mem_append_right _ List.mem_cons_self)).2
  -- The end comes behind the turn that clears the deepest node, and no later than the last timer.
  have htime : time = finish := by
    obtain ⟨d, hmem, hat⟩ := (hlevels L (Nat.le_refl L)).2
    have hdeepest : d.time = finish := hstaged.time d hmem _ hat
    have hlate : finish ≤ time := by
      rw [← hdeepest]
      rcases List.mem_append.1 hmem with hmem | hmem
      · exact (List.pairwise_append.1 htimes).2.2 d hmem _ List.mem_cons_self
      · rw [List.mem_singleton.1 hmem] at hat
        cases hat
    exact Nat.le_antisymm (Nat.le_trans hend hp'.onTime.now_le) hlate
  subst htime
  exact ⟨hhistory, Nat.le_antisymm hp'.onTime.now_le hend, ⟨middle, rfl, hvisits⟩, hlevels, hstaged⟩

end Runs

/-! ## Simulations -/

section Simulations

variable {p : Plan} {s : Session} {graph : Snapshot} {start : Node}

/-- The first change of a simulation without a cycle moves the status to running; no time passes until then. -/
theorem datedChangesTo_simulate (hhooks : p.hooks = []) (hrest : s.IsAtRest) (hstatus : s.machine.status ≠ .running)
    (hstart : graph.flow.start? = some start) (hcycle : graph.flow.findCycle? (some start.id) = none) {s' : Session}
    (h : step? p (act s (.simulate (.ok graph))) = some s') :
    let begins : Change := ⟨.status, some s.machine.status.name, some RunStatus.running.name⟩
    s'.scheduler.now = s.scheduler.now ∧ s'.machine.history = s.machine.history ++ [begins] ∧
      (act s (.simulate (.ok graph))).datedChangesTo s' = [⟨s.scheduler.now, none, begins⟩] := by
  intro begins
  have heq := Option.some.inj ((step?_simulate_launch hhooks (nil_of_jobs hrest).1 hstatus hstart hcycle).symm.trans h)
  have hhistory : s'.machine.history = s.machine.history ++ [begins] := by
    rw [← heq]
    exact Session.history_launch (s := s.ask graph)
  refine ⟨by rw [← heq]; exact timers_defer.2, hhistory, ?_⟩
  rw [Session.datedChangesTo_of_history (s := act s (.simulate (.ok graph))) hhistory, turn?_simulate hrest,
    Option.bind_some,
    visit?, program?, task?_simulate]
  rfl

/-- A simulation without a cycle whose longest walks are not too long goes through its graph level by level:
each depth is shown, then cleared, and only then comes the next one. So the run takes the time of one of
the longest walks, whatever branches there are beside it. -/
theorem simulate_level_by_level (hhooks : p.hooks = []) (hrest : s.IsAtRest) (hstatus : s.machine.status ≠ .running)
    (hdwell : ∀ e, p.dwell ≠ .unusable e) (hedge : ∀ e, p.edgeDelay ≠ .unusable e)
    (hstart : graph.flow.start? = some start) (hacyclic : ¬ graph.flow.IsCyclicFrom start.id) {L : Nat}
    (hlongest : IsGreatest {m | ∃ w x, graph.flow.IsWalk start.id w x ∧ w.length = m} L)
    (hdepth : (L : Int) ≤ p.maxDepth) :
    let n := (Action.simulate (.ok graph)).stepBound
    let s₀ := act s (.simulate (.ok graph))
    let s' := run p n s₀
    let ds := datedChanges p n s₀
    let finish := s.scheduler.now + ((L + 1) * p.dwell.span + L * p.edgeDelay.span)
    (∃ entries, s.Answers p s' entries .returned) ∧ s'.machine.status = .finished ∧ s'.scheduler.now = finish ∧
      s'.machine.history = s.machine.history ++ ds.map (·.change) ∧
      (∃ middle, ds = ⟨s.scheduler.now, none, ⟨.status, some s.machine.status.name, some RunStatus.running.name⟩⟩ ::
          (middle ++ [.finish finish]) ∧ ∀ d ∈ middle, ∃ k ≤ L, d.Activates k ∨ d.Clears k) ∧
      (∀ k ≤ L, (∃ d ∈ ds, d.Activates k) ∧ ∃ d ∈ ds, d.Clears k) ∧
      ∀ k, DatedChange.Precede (DatedChange.Activates k) (DatedChange.Clears k) ds ∧
        DatedChange.Precede (DatedChange.Clears k) (DatedChange.Activates (k + 1)) ds ∧
        (∀ d ∈ ds, d.Activates k → d.time = s.scheduler.now + k * (p.dwell.span + p.edgeDelay.span)) ∧
        ∀ d ∈ ds, d.Clears k → d.time = s.scheduler.now + ((k + 1) * p.dwell.span + k * p.edgeDelay.span) := by
  intro n s₀ s' ds finish
  obtain ⟨w, x, hw, hlength⟩ := hlongest.1
  have hwalks : ∀ w x, graph.flow.IsWalk start.id w x → w.length ≤ L := fun w x hw => hlongest.2 ⟨w, x, hw, rfl⟩
  have hshort : ∀ w x, graph.flow.IsWalk start.id w x → (w.length : Int) ≤ p.maxDepth := fun w x hw =>
    Int.le_trans (Int.ofNat_le.2 (hwalks w x hw)) hdepth
  obtain ⟨hfinite, -, s₁, hstep, hbegun, -, hcourse, hconcluded, hrest'⟩ :=
    exists_finished_run hhooks hrest hstatus hdwell hedge hstart hacyclic hshort
  have hcycle := (FlowGraph.findCycle?_eq_none_iff hfinite.1).2 hacyclic
  have hrun : s' = run p ((Action.simulate (.ok graph)).stepBound - 1) s₁ := run_succ hstep _
  obtain ⟨hnow, hfirst, hbegins⟩ := datedChangesTo_simulate hhooks hrest hstatus hstart hcycle hstep
  obtain ⟨hhistory, hend, ⟨middle, hlater, hvisits⟩, hlevels, hstaged⟩ :=
    does_of_begun hhooks hdwell hedge hwalks hdepth (does_run p _ s₁) hbegun hcourse hconcluded hw hlength
  have hfinish : s₁.scheduler.now + p.onset (3 * L + 1) = finish := by rw [hnow, (p.onset_visit L).2]
  -- The first change is that of the caller, so all stages are those of the changes behind it.
  have hcons : ds = ⟨s.scheduler.now, none, ⟨.status, some s.machine.status.name, some RunStatus.running.name⟩⟩ ::
      datedChanges p ((Action.simulate (.ok graph)).stepBound - 1) s₁ := by
    change datedChanges p (_ + 1) s₀ = _
    rw [datedChanges, hstep]
    exact (congrArg (· ++ _) hbegins).trans List.singleton_append
  have hstaged' : DatedChange.Staged p s.scheduler.now ds := by
    rw [hcons, ← hnow]
    exact hstaged.cons_of_not_isAt fun n hat => by cases hat
  refine ⟨?_, ?_, ?_, ?_, ⟨middle, ?_, fun d hmem => ?_⟩, fun k hk => ?_, fun k => ⟨?_, ?_, fun d hmem hd => ?_,
    fun d hmem hd => ?_⟩⟩
  · rw [hrun]
    exact answers_of_concluded hconcluded hrest'
  · rw [hrun]
    exact hconcluded.status
  · rw [hrun, hend]
    exact hfinish
  · rw [hrun, hhistory, hfirst, hcons, List.map_cons, List.append_assoc]
    rfl
  · rw [hcons, hlater, hfinish]
  · obtain ⟨n, hn, hat⟩ := hvisits d hmem
    rcases hat.cases_depth with ⟨k, rfl, hd⟩ | ⟨k, rfl, hd⟩
    · exact ⟨k, by omega, Or.inl hd⟩
    · exact ⟨k, by omega, Or.inr hd⟩
  · obtain ⟨⟨d, hmem, hactive⟩, d', hmem', hclear⟩ := hlevels k hk
    rw [hcons]
    exact ⟨⟨d, List.mem_cons_of_mem _ hmem, DatedChange.activates_of_isAt hactive⟩,
      d', List.mem_cons_of_mem _ hmem', DatedChange.clears_of_isAt hclear⟩
  · exact hstaged'.precede (fun _ => DatedChange.isAt_of_activates) (fun _ => DatedChange.isAt_of_clears) (by omega)
  · exact hstaged'.precede (fun _ => DatedChange.isAt_of_clears) (fun _ => DatedChange.isAt_of_activates) (by omega)
  · rw [hstaged'.time d hmem _ (DatedChange.isAt_of_activates hd), (p.onset_visit k).1]
  · rw [hstaged'.time d hmem _ (DatedChange.isAt_of_clears hd), (p.onset_visit k).2]

/-- A graph with a way round: two edges from the first node to the last, and one that leads there at once. -/
def detour : Snapshot where
  nodes := [Snapshot.demoNode "1" .trigger "Input" [] 0 0, Snapshot.demoNode "2" .processing "Splitter" [] 300 0,
    Snapshot.demoNode "3" .action "Output" [] 600 0]
  edges := [Snapshot.demoEdge "1" "2", Snapshot.demoEdge "1" "3", Snapshot.demoEdge "2" "3"]
  distinct := by simp only [Snapshot.demoNode, List.map_cons, List.map_nil]; decide

/-- The way round takes three times the one delay and twice the other, however soon the other way is over. -/
theorem simulate_level_by_level_detour : ∃ ds, (run ⟨.timer 3, .timer 5, 2, [], true⟩
      (Action.simulate (.ok detour)).stepBound (act {} (.simulate (.ok detour)))).machine.history =
    ds.map DatedChange.change ∧ DatedChange.Precede (DatedChange.Clears 0) (DatedChange.Activates 1) ds ∧
      .finish 19 ∈ ds := by
  have hacyclic : ¬ detour.flow.IsCyclicFrom "1" := (FlowGraph.findCycle?_eq_none_iff (by decide)).1 (by decide)
  have hlongest : IsGreatest {m | ∃ w x, detour.flow.IsWalk "1" w x ∧ w.length = m} 2 := by
    refine ⟨⟨[⟨0, by decide⟩, ⟨2, by decide⟩], "3", by decide, rfl⟩, ?_⟩
    rintro m ⟨w, x, hw, rfl⟩
    exact Nat.le_of_lt_succ (hw.length_lt (by decide) hacyclic)
  obtain ⟨-, -, -, hhistory, ⟨middle, hds, -⟩, -, hlevels⟩ := @simulate_level_by_level
    ⟨.timer 3, .timer 5, 2, [], true⟩ {} detour (Snapshot.demoNode "1" .trigger "Input" [] 0 0) rfl rfl
    (fun h => by cases h) (fun e h => by cases h) (fun e h => by cases h) rfl hacyclic 2 hlongest (by decide)
  refine ⟨_, hhistory.trans (List.nil_append _), (hlevels 0).2.1, ?_⟩
  rw [hds]
  exact List.mem_cons_of_mem _ (List.mem_append_right _ List.mem_cons_self)

end Simulations

end Engine

end PipelineGraph.Simulation
