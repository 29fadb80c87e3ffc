import Mathlib.Algebra.BigOperators.Intervals
import PipelineGraph.Proofs.Simulation.MovesWithoutRequests

/-!
# Sums over the tasks of a run

A load is a sum over the tasks of a run of what their programs weigh, where a task that has ended
may weigh something else. A move changes the weight of at most one task, and a visit that branches
adds the weights of its children.
-/

namespace PipelineGraph.Simulation

open Finset

/-- Two sums differ by what the functions differ at a place. -/
theorem sum_add_of_eq_off {f g : Nat → Nat} {S : Finset Nat} {i : Nat} (hi : i ∈ S)
    (h : ∀ j ∈ S, j ≠ i → g j = f j) : S.sum g + f i = S.sum f + g i := by
  have herase : (S.erase i).sum g = (S.erase i).sum f := by
    refine sum_congr rfl fun j hj => ?_
    obtain ⟨hne, hmem⟩ := mem_erase.1 hj
    exact h j hmem hne
  rw [← add_sum_erase S f hi, ← add_sum_erase S g hi, herase]
  lia

/-- A sum over the places of a list. -/
theorem sum_range_getElem? {α : Type} (f : Option α → Nat) (l : List α) :
    ∑ j ∈ range l.length, f l[j]? = (l.map fun a => f (some a)).sum := by
  induction l with
  | nil => rfl
  | cons a rest ih =>
    rw [List.length_cons, sum_range_succ', List.map_cons, List.sum_cons, Nat.add_comm, ← ih]
    rfl

namespace Scheduler

/-- The sum of what the programs of a run's tasks weigh, ended or not. -/
def load (r : Run) (w : Program → Bool → Nat) (s : Scheduler Program Action) : Nat :=
  ∑ id ∈ Ico r.base s.futures.length, (s.program? id).elim 0 fun pr => w pr (s.hasEnded id)

variable {r : Run} {w : Program → Bool → Nat} {s s' : Scheduler Program Action} {id : FutureId}

/-- A load is told by the programs and by which tasks have ended. -/
theorem load_congr (hlength : s'.futures.length = s.futures.length)
    (hprogram : ∀ id, s'.program? id = s.program? id)
    (hw : ∀ id pr, s.program? id = some pr → w pr (s'.hasEnded id) = w pr (s.hasEnded id)) :
    s'.load r w = s.load r w := by
  unfold load
  rw [hlength]
  refine sum_congr rfl fun id _ => ?_
  rw [hprogram]
  cases hpr : s.program? id with
  | none => rfl
  | some pr => exact hw id pr hpr

/-- A load changes by what one task weighs, if that is the only one that changes. -/
theorem load_add_of_eq_off {t : Scheduler Program Action}
    (hlength : t.futures.length = s.futures.length) {pr pr' : Program}
    (hb : r.base ≤ id) (hpr : s.program? id = some pr) (hpr' : t.program? id = some pr')
    (hprogram : ∀ j, j ≠ id → t.program? j = s.program? j)
    (hended : ∀ j pr, j ≠ id → s.program? j = some pr → t.hasEnded j = s.hasEnded j) :
    t.load r w + w pr (s.hasEnded id) = s.load r w + w pr' (t.hasEnded id) := by
  unfold load
  rw [hlength]
  have hsum := sum_add_of_eq_off (f := fun j => (s.program? j).elim 0 fun pr => w pr (s.hasEnded j))
    (g := fun j => (t.program? j).elim 0 fun pr => w pr (t.hasEnded j))
    (mem_Ico.2 ⟨hb, lt_of_program? hpr⟩) fun j _ hne => by
      rw [hprogram j hne]
      cases hj : s.program? j with
      | none => rfl
      | some pr =>
        dsimp only [Option.elim_some]
        rw [hended j pr hne hj]
  simpa only [hpr, hpr', Option.elim_some] using hsum

/-- The clock changes no load. -/
theorem load_advance (h : s.advance? = some s') : s'.load r w = s.load r w := by
  obtain ⟨time, -, rfl⟩ := Option.map_eq_some_iff.1 h
  rfl

/-- A task that takes its turn changes no load. -/
theorem Takes.load {awake : Scheduler Program Action} (h : s.Takes id awake) :
    awake.load r w = s.load r w := by
  refine load_congr h.shrinks.length h.program? fun j pr _ => ?_
  rw [hasEnded, hasEnded, h.ending?]

/-- A task that goes on behind a delay weighs what its new program does. -/
theorem Goes.load {pr next : Program} {d : Delay} (hgoes : s.Goes id next d s')
    (hcalm : s.mustCancel id = false) (hb : r.base ≤ id) (hpr : s.program? id = some pr)
    (hlive : s.ending? id = none) :
    s'.load r w + w pr false = s.load r w + w next false := by
  have hlt := lt_of_program? hpr
  have hended : ∀ j, s'.hasEnded j = s.hasEnded j := by
    intro j
    rw [hasEnded, hasEnded, hgoes.ending? hcalm hlt]
  have hnot : s.hasEnded id = false := by
    rw [hasEnded, hlive]
    rfl
  have hprogram := hgoes.program? hpr
  cases hgoes with
  | pause =>
    have hload := load_add_of_eq_off (w := w) (t := (s.instruct id next).push (.resume id))
      (length_modifyFuture _) hb hpr ((hprogram id).trans (if_pos rfl))
      (fun j hne => (hprogram j).trans (if_neg hne)) fun j _ _ _ => hended j
    rwa [hended, hnot] at hload
  | sleep microseconds =>
    -- The new sleep is no task and weighs nothing.
    have hnew : (s.doze id next microseconds).program? s.futures.length = none := by
      rw [hprogram, if_neg (Nat.ne_of_gt hlt)]
      exact program?_of_length_le (Nat.le_refl _)
    have hsum := sum_add_of_eq_off (S := Ico r.base s.futures.length)
      (f := fun j => (s.program? j).elim 0 fun pr => w pr (s.hasEnded j))
      (g := fun j => ((s.doze id next microseconds).program? j).elim 0 fun pr =>
        w pr ((s.doze id next microseconds).hasEnded j))
      (mem_Ico.2 ⟨hb, hlt⟩) fun j _ hne => by
        rw [hprogram, if_neg hne, hended]
    rw [hprogram, if_pos rfl, hpr] at hsum
    unfold Scheduler.load
    rw [length_doze, sum_Ico_succ_top (Nat.le_trans hb (Nat.le_of_lt hlt)), hnew]
    simpa [hended, hnot] using hsum

/-- A visit that branches weighs what it does then, and what follows it is added. -/
theorem load_branch {v : Visit} (hcalm : s.mustCancel id = false) (hb : r.base ≤ id)
    (hpr : s.program? id = some (.fanOut v)) (hlive : s.ending? id = none) :
    (s.branch id ((Engine.followers v).map .enter) (.join v)).load r w + w (.fanOut v) false =
      s.load r w + w (.join v (s.fresh ((Engine.followers v).map Program.enter).length)) false +
        ((Engine.followers v).map fun v' => w (.enter v') false).sum := by
  have hlt := lt_of_program? hpr
  have hnot : s.hasEnded id = false := by
    rw [hasEnded, hlive]
    rfl
  generalize hprograms : (Engine.followers v).map Program.enter = programs
  have hweights : (Engine.followers v).map (fun v' => w (.enter v') false) =
      programs.map fun pr => w pr false := by
    rw [← hprograms, List.map_map]
    rfl
  have hprogram := fun j => program?_branch (j := j) programs (.join v) hpr
  have hended : ∀ j, (s.branch id programs (.join v)).hasEnded j = s.hasEnded j := by
    intro j
    rw [hasEnded, hasEnded, ending?_branch hcalm hlt]
  have hold := sum_add_of_eq_off (S := Ico r.base s.futures.length)
    (f := fun j => (s.program? j).elim 0 fun pr => w pr (s.hasEnded j))
    (g := fun j => ((s.branch id programs (.join v)).program? j).elim 0 fun pr =>
      w pr ((s.branch id programs (.join v)).hasEnded j))
    (mem_Ico.2 ⟨hb, hlt⟩) fun j hj hne => by
      rw [hprogram, if_neg hne, if_pos (mem_Ico.1 hj).2, hended]
  have hnew : ∑ j ∈ Ico s.futures.length (s.futures.length + programs.length + 1),
      (((s.branch id programs (.join v)).program? j).elim 0 fun pr =>
        w pr ((s.branch id programs (.join v)).hasEnded j)) = (programs.map fun pr => w pr false).sum := by
    have hplace : ∀ j, ((s.branch id programs (.join v)).program? (s.futures.length + j)).elim 0
        (fun pr => w pr ((s.branch id programs (.join v)).hasEnded (s.futures.length + j))) =
        (programs[j]?).elim 0 fun pr => w pr false := by
      intro j
      rw [hprogram, if_neg (by lia), if_neg (by lia), Nat.add_sub_cancel_left, hended, hasEnded,
        ending?_of_length_le (Nat.le_add_right _ _)]
      rfl
    rw [sum_Ico_eq_sum_range]
    simp only [hplace]
    rw [show s.futures.length + programs.length + 1 - s.futures.length = programs.length + 1 by lia,
      sum_range_succ, List.getElem?_eq_none (Nat.le_refl _)]
    exact sum_range_getElem? (fun pr => pr.elim 0 fun pr => w pr false) programs
  rw [hprogram, if_pos rfl, hpr] at hold
  unfold load
  rw [length_branch, ← sum_Ico_consecutive _ (Nat.le_trans hb (Nat.le_of_lt hlt))
    (show s.futures.length ≤ s.futures.length + programs.length + 1 by lia), hnew, hweights]
  simp only [Option.elim_some, hended, hnot] at hold ⊢
  lia

end Scheduler

end PipelineGraph.Simulation
