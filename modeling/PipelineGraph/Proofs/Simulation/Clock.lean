import Mathlib.Tactic.Ring
import PipelineGraph.Proofs.Simulation.FirstSteps

/-!
# When the turns of a run come

The clock stands while there are jobs, and goes on to the earliest deadline when there are none. So in a
run that nothing interrupts, the turns of a stage all come at one time: when the delays of the stages
before it are over. The last timer is set for the turns that clear the deepest nodes.
-/

namespace PipelineGraph.Simulation

/-- The time that a delay takes; a pause takes none. -/
def Delay.span (d : Delay) : Nat :=
  d.time?.getD 0

namespace Plan

/-- The time from the beginning of a run to the turns of a stage. -/
def onset (p : Plan) : (stage : Nat) → Nat
  | 0 => 0
  | stage + 1 => p.onset stage + (p.delayBehind stage).span

variable (p : Plan)

/-- Later stages set in later. -/
theorem onset_mono : Monotone p.onset :=
  monotone_nat_of_le_succ fun _ => Nat.le_add_right _ _

/-- The jobs behind those of a slot come when they have waited. -/
theorem onset_next (slot : Nat) :
    p.onset (p.next slot / 2) = p.onset (slot / 2) + (p.wait? slot).getD 0 := by
  rcases Nat.mod_two_eq_zero_or_one slot with heven | hodd
  · obtain ⟨n, rfl⟩ : ∃ n, slot = 2 * n := ⟨slot / 2, by omega⟩
    obtain ⟨hwait, hnext⟩ := p.wait?_even (n := n)
    rw [hwait, hnext, show (2 * n + 1) / 2 = 2 * n / 2 by omega]
    rfl
  · have hhalf : p.next slot / 2 = slot / 2 + 1 := by
      unfold next
      split <;> omega
    have hwait : p.wait? slot = (p.delayBehind (slot / 2)).time? := if_pos hodd
    rw [hhalf, onset, hwait]
    rfl

/-- The turns of a depth come behind those of all depths before it, each with its two delays. -/
theorem onset_visit (depth : Nat) :
    p.onset (3 * depth) = depth * (p.dwell.span + p.edgeDelay.span) ∧
      p.onset (3 * depth + 1) = (depth + 1) * p.dwell.span + depth * p.edgeDelay.span := by
  have henter : ∀ n, p.delayBehind (3 * n) = p.dwell := fun n => if_pos (by omega)
  have hleave : ∀ n, p.delayBehind (3 * n + 1) = p.edgeDelay := fun n =>
    (if_neg (by omega)).trans (if_pos (by omega))
  have hclear : p.onset (3 * depth + 1) = p.onset (3 * depth) + p.dwell.span := by rw [onset, henter]
  have hlevel : p.onset (3 * depth) = depth * (p.dwell.span + p.edgeDelay.span) := by
    clear hclear
    induction depth with
    | zero => simp [onset]
    | succ n ih =>
      have hfork : (p.delayBehind (3 * n + 2)).span = 0 := by
        rw [p.delayBehind_fanOut]
        rfl
      calc p.onset (3 * (n + 1))
          = p.onset (3 * n) + p.dwell.span + p.edgeDelay.span + 0 := by
            rw [show 3 * (n + 1) = 3 * n + 2 + 1 by omega, onset, hfork, onset, hleave, onset, henter]
        _ = (n + 1) * (p.dwell.span + p.edgeDelay.span) := by
            rw [ih]
            ring
  refine ⟨hlevel, ?_⟩
  rw [hclear, hlevel]
  ring

end Plan

namespace Scheduler

/-- For the tasks from number `low` on, what is queued is at a slot whose time has come, and what timers
are set for is at one whose time is their deadline; all this is over by a last time. -/
structure OnTime (p : Plan) (low : FutureId) (start last : Nat) (s : Scheduler Program Action) : Prop where
  now_le : s.now ≤ last
  queue : ∀ job ∈ s.ready, ∀ k, job.HasSlot low s k → s.now = start + p.onset (k / 2)
  timers : ∀ t ∈ s.timers, s.now ≤ t.deadline ∧ t.deadline ≤ last ∧
    ∀ k, t.job.HasSlot low s k → t.deadline = start + p.onset (k / 2)

variable {p : Plan} {r : Run} {s s' : Scheduler Program Action} {id low : FutureId} {job : Job Action}
  {rest : List (Job Action)} {start last n L : Nat}

/-- The clock goes on to the time of what comes to the queue then. -/
theorem OnTime.advance (h : s.OnTime p low start last) (hready : s.ready = []) (hadvance : s.advance? = some s') :
    s'.OnTime p low start last ∧ s.now ≤ s'.now := by
  have hshrinks := (keeps_advance hadvance).shrinks
  obtain ⟨time, htime, rfl⟩ := Option.map_eq_some_iff.1 hadvance
  obtain ⟨hmem, hmin⟩ := List.min?_eq_some_iff.1 htime
  obtain ⟨first, hfirst, hdeadline⟩ := List.mem_map.1 hmem
  have hleast : ∀ t ∈ s.timers, time ≤ t.deadline := fun t ht => hmin _ (List.mem_map_of_mem ht)
  obtain ⟨hlate, hlast, -⟩ := h.timers first hfirst
  rw [hdeadline] at hlate hlast
  refine ⟨⟨hlast, fun job hjob k hk => ?_, fun t ht => ?_⟩, hlate⟩
  · change job ∈ s.ready ++ (s.timers.filter (·.deadline ≤ time)).map (·.job) at hjob
    rw [hready, List.nil_append] at hjob
    obtain ⟨t, ht, rfl⟩ := List.mem_map.1 hjob
    obtain ⟨ht, hdue⟩ := List.mem_filter.1 ht
    rw [← (h.timers t ht).2.2 k (hshrinks.hasSlot hk)]
    exact Nat.le_antisymm (hleast t ht) (of_decide_eq_true hdue)
  · obtain ⟨ht, -⟩ := List.mem_filter.1 ht
    obtain ⟨-, hle, hslots⟩ := h.timers t ht
    exact ⟨hleast t ht, hle, fun k hk => hslots k (hshrinks.hasSlot hk)⟩

/-- What a scheduler grows by behind its first job comes in time, if the last stage does. -/
theorem OnTime.grows (h : s.OnTime p low start last) (hready : s.ready = job :: rest)
    (hgrows : (s.drop rest).Grows p low (fun k => job.HasSlot low s k) s')
    (hlast : ∀ id pr n, low ≤ id → s'.program? id = some pr → pr.stage? = some n → start + p.onset n ≤ last) :
    s'.OnTime p low start last ∧ s'.now = s.now := by
  have hnow : s'.now = s.now := hgrows.now
  have hhead : ∀ b, job.HasSlot low s b → s.now = start + p.onset (b / 2) :=
    h.queue job (hready ▸ List.mem_cons_self)
  have hold : ∀ job' ∈ rest ++ s.timers.map (·.job), ∀ k, job'.HasSlot low s' k → job'.HasSlot low s k :=
    fun job' hjob k hk => hasSlot_of_drop hready (hgrows.hasSlot job' hjob k hk)
  refine ⟨⟨hnow ▸ h.now_le, fun job' hjob k hk => ?_, fun t ht => ?_⟩, hnow⟩
  · obtain ⟨l, hl, hjobs⟩ := hgrows.ready
    rw [hl] at hjob
    rw [hnow]
    rcases List.mem_append.1 hjob with hjob | hjob
    · exact h.queue job' (hready ▸ List.mem_cons_of_mem _ hjob) k (hold job' (List.mem_append_left _ hjob) k hk)
    · obtain ⟨b, hb, hwait, rfl⟩ := hjobs job' hjob k hk
      rw [p.onset_next, hwait]
      exact hhead b hb
  · obtain ⟨m, hm, hnew⟩ := hgrows.timers
    rw [hm] at ht
    rw [hnow]
    rcases List.mem_append.1 ht with ht | ht
    · obtain ⟨hlate, hle, hslots⟩ := h.timers t ht
      exact ⟨hlate, hle, fun k hk => hslots k (hold t.job (List.mem_append_right _ (List.mem_map_of_mem ht)) k hk)⟩
    · obtain ⟨b, time, i, pr, hb, hwait, hlow, hpr, hstage, hdeadline, hslot⟩ := hnew t ht
      have hcomes : t.deadline = start + p.onset (p.next b / 2) := by
        rw [p.onset_next, hwait, ← Nat.add_assoc, ← hhead b hb]
        exact hdeadline
      have hnext : p.next b / 2 = b / 2 + 1 := by
        unfold Plan.next
        rw [if_neg fun hcontra => by cases hwait.symm.trans hcontra.2]
        unfold Plan.wait? at hwait
        split at hwait
        · omega
        · cases hwait
      refine ⟨hdeadline ▸ Nat.le_add_right _ _, ?_, fun k hk => hslot k hk ▸ hcomes⟩
      rw [hcomes, hnext]
      exact hlast i pr _ hlow hpr hstage

/-- The last stage of a run is that of the turns which clear the deepest nodes. -/
theorem Tree.stage_le (h : s.Tree r) (hlongest : ∀ w x, r.graph.IsWalk r.start.id w x → w.length ≤ L)
    (hid : r.base ≤ id) {pr : Program} (hpr : s.program? id = some pr) (hstage : pr.stage? = some n) :
    n ≤ 3 * L + 1 := by
  have hfits := h.fits (h.base_lt hid hpr fun heq => by subst heq; cases hstage) hpr
  cases pr with
  | enter v =>
    obtain ⟨w, hw, hlength⟩ := (show v.Fits r from hfits).walk
    have hle := hlongest w _ hw
    cases hstage
    omega
  | leave v =>
    obtain ⟨w, hw, hlength⟩ := hfits.1.walk
    have hle := hlongest w _ hw
    cases hstage
    omega
  | fanOut v =>
    obtain ⟨hfits, -, hinner⟩ := hfits
    obtain ⟨w, hw, hlength⟩ := hfits.walk
    obtain ⟨x, hx⟩ := List.exists_mem_of_ne_nil _ hinner
    rw [hfits.graph] at hx
    obtain ⟨i, hi⟩ := hw.extend hx
    have hle := hlongest _ _ hi
    rw [List.length_append, List.length_singleton, hlength] at hle
    cases hstage
    omega
  | join | call | conclude => cases hstage

/-- A run that has just begun is on time. -/
theorem Begun.onTime (h : s.Begun r) (hlast : s.now ≤ last) : s.OnTime r.plan r.base s.now last where
  now_le := hlast
  queue job hjob k hk := by
    rw [h.ready] at hjob
    cases List.mem_singleton.1 hjob
    cases hk with
    | turn _ htask hpr hstage =>
      cases htask
      cases h.program?_root.symm.trans hpr
      cases hstage
      simp [Plan.onset]
  timers t ht := by
    rw [h.timers] at ht
    cases ht

end Scheduler

open Scheduler

variable {r : Run} {s s' : Session} {start L : Nat}

/-- Every move of an uninterrupted session keeps it on time, and the clock never goes back. -/
theorem Move.onTime (h : Move r.plan s s') (hs : s.scheduler.Orderly r) (hc : s.scheduler.Uninterrupted r)
    (hlongest : ∀ w x, r.graph.IsWalk r.start.id w x → w.length ≤ L)
    (ht : s.scheduler.OnTime r.plan r.base start (start + r.plan.onset (3 * L + 1))) :
    s'.scheduler.OnTime r.plan r.base start (start + r.plan.onset (3 * L + 1)) ∧
      s.scheduler.now ≤ s'.scheduler.now := by
  rcases h.grows hs hc (Nat.le_refl r.base) with ⟨hready, hadvance⟩ | ⟨job, rest, hready, hgrows⟩
  · exact ht.advance hready hadvance
  · obtain ⟨ht', hnow⟩ := ht.grows hready hgrows fun id pr n hid hpr hstage =>
      Nat.add_le_add_left (r.plan.onset_mono ((h.orderly hs).tree.stage_le hlongest hid hpr hstage)) _
    exact ⟨ht', Nat.le_of_eq hnow.symm⟩

end PipelineGraph.Simulation
