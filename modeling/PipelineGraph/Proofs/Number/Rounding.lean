import PipelineGraph.Number.Binary64
import Mathlib.Tactic.Linarith
import Mathlib.Tactic.Ring

/-!
# Rounding to the nearest number

A rounded quotient is off by at most a half, and it depends only on the value of the quotient. What
lies nearer to a number than half its distance to either neighbour is rounded to that number. Below
the least number of a binade the neighbour is only half as far away as above it.
-/

namespace PipelineGraph.Binary64

/-! ## Integers -/

section Quotients

variable {n d m : Nat}

/-- A rounded quotient is off by at most a half. -/
theorem roundQuotient_bounds (hd : 0 < d) :
    2 * (roundQuotient n d * d) ≤ 2 * n + d ∧ 2 * n ≤ 2 * (roundQuotient n d * d) + d := by
  have hdiv := Nat.div_add_mod n d
  rw [Nat.mul_comm] at hdiv
  have hmod := Nat.mod_lt n hd
  have hcases : roundQuotient n d = n / d ∧ 2 * (n % d) ≤ d ∨
      roundQuotient n d = n / d + 1 ∧ d ≤ 2 * (n % d) := by
    unfold roundQuotient
    dsimp only
    split
    · omega
    · split
      · omega
      · omega
  generalize n / d = q at hdiv hcases
  generalize n % d = r at hdiv hcases hmod
  rcases hcases with ⟨hround, hhalf⟩ | ⟨hround, hhalf⟩ <;> rw [hround]
  · omega
  · rw [Nat.add_mul, Nat.one_mul]
    omega

/-- A quotient that is no less than an integer is rounded to no less. -/
theorem le_roundQuotient (hd : 0 < d) (h : m * d ≤ n) : m ≤ roundQuotient n d := by
  by_contra hlt
  have hmul := Nat.mul_le_mul_right d (Nat.lt_of_not_le hlt)
  have hround := (@roundQuotient_bounds n d hd).2
  rw [Nat.succ_mul] at hmul
  omega

/-- A quotient that is no more than an integer is rounded to no more. -/
theorem roundQuotient_le (hd : 0 < d) (h : n ≤ m * d) : roundQuotient n d ≤ m := by
  by_contra hlt
  have hmul := Nat.mul_le_mul_right d (Nat.lt_of_not_le hlt)
  have hround := (@roundQuotient_bounds n d hd).1
  rw [Nat.succ_mul] at hmul
  omega

/-- What is less than a half away from a number is rounded to it. -/
theorem roundQuotient_eq (hlower : 2 * (m * d) < 2 * n + d) (hupper : 2 * n < 2 * (m * d) + d) :
    roundQuotient n d = m := by
  have hd : 0 < d := by omega
  have hdiv := Nat.div_add_mod n d
  have hmod := Nat.mod_lt n hd
  rw [Nat.mul_comm] at hdiv
  have hge : n / d ≤ m := by
    by_contra h
    have hmul := Nat.mul_le_mul_right d (Nat.lt_of_not_le h)
    rw [Nat.succ_mul] at hmul
    omega
  have hle : m ≤ n / d + 1 := by
    by_contra h
    have hmul := Nat.mul_le_mul_right d (Nat.lt_of_not_le h)
    rw [Nat.succ_mul, Nat.add_mul, Nat.one_mul] at hmul
    omega
  unfold roundQuotient
  dsimp only
  rcases Nat.lt_or_ge (n / d) m with h | h
  · obtain rfl : m = n / d + 1 := by omega
    rw [Nat.add_mul, Nat.one_mul] at hlower
    rw [if_neg (by omega), if_pos (by omega)]
  · obtain rfl : m = n / d := by omega
    rw [if_pos (by omega)]

/-- A rounded quotient depends only on the value of the quotient. -/
theorem roundQuotient_mul_right {c : Nat} (hc : 0 < c) (n d : Nat) :
    roundQuotient (n * c) (d * c) = roundQuotient n d := by
  have htwice : 2 * (n * c % (d * c)) = 2 * (n % d) * c := by
    rw [Nat.mul_mod_mul_right, Nat.mul_assoc]
  unfold roundQuotient
  dsimp only
  rw [htwice, Nat.mul_div_mul_right _ _ hc]
  simp only [Nat.mul_lt_mul_right hc]

end Quotients

/-! ## Magnitudes -/

/-- The rank nearest to a quotient in units. -/
def rankOfUnits (units denominator : Nat) : Nat :=
  let shift := (units / denominator).log2 - 52
  shift * binadeSize + roundQuotient units (denominator * 2 ^ shift)

/-- A quotient is rounded in units. -/
theorem rankOfQuotient_eq (n d : Nat) : rankOfQuotient n d = rankOfUnits (n * unitsPerOne) d := by
  unfold rankOfQuotient rankOfUnits
  rfl

/-- The nearest rank depends only on the value of the quotient. -/
theorem rankOfUnits_mul_right {c : Nat} (hc : 0 < c) (units d : Nat) :
    rankOfUnits (units * c) (d * c) = rankOfUnits units d := by
  unfold rankOfUnits
  dsimp only
  rw [Nat.mul_div_mul_right _ _ hc, Nat.mul_right_comm d c, roundQuotient_mul_right hc]

/-- Equal quotients round to the same number. -/
theorem ofQuotient_congr {n d n' d' : Nat} (hd : 0 < d) (hd' : 0 < d') (h : n * d' = n' * d)
    (negative : Bool) : ofQuotient negative n d = ofQuotient negative n' d' := by
  have hrank : rankOfQuotient n d = rankOfQuotient n' d' :=
    calc rankOfQuotient n d = rankOfUnits (n * unitsPerOne * d') (d * d') := by
          rw [rankOfQuotient_eq, rankOfUnits_mul_right hd']
      _ = rankOfUnits (n' * unitsPerOne * d) (d' * d) := by
          rw [Nat.mul_right_comm, h, Nat.mul_right_comm, Nat.mul_comm d d']
      _ = rankOfQuotient n' d' := by rw [rankOfQuotient_eq, rankOfUnits_mul_right hd]
  rw [ofQuotient, ofQuotient, hrank]

/-- A magnitude is a number below `2 ^ 53` times a power of two, which is the least one if it can be. -/
theorem exists_mantissa (rank : Nat) : ∃ shift mantissa, rank = shift * binadeSize + mantissa ∧
    mantissa < 2 * binadeSize ∧ (shift = 0 ∨ binadeSize ≤ mantissa) ∧
    unitsOfRank rank = mantissa * 2 ^ shift := by
  have hpos : 0 < binadeSize := by decide
  unfold unitsOfRank
  by_cases h : rank < binadeSize
  · refine ⟨0, rank, by simp, by omega, Or.inl rfl, by simp [h]⟩
  · have hmod := Nat.mod_lt rank hpos
    have hdiv := Nat.div_add_mod' rank binadeSize
    have hone : 1 ≤ rank / binadeSize := Nat.div_pos (Nat.le_of_not_lt h) hpos
    refine ⟨rank / binadeSize - 1, binadeSize + rank % binadeSize, ?_, by omega, Or.inr (by omega), by simp [h]⟩
    rw [Nat.sub_mul, Nat.one_mul]
    have hle : 1 * binadeSize ≤ rank / binadeSize * binadeSize := Nat.mul_le_mul_right _ hone
    omega

/-- The shift of a quotient is read off its size. -/
theorem log2_sub_eq {m shift : Nat} (hupper : m < 2 ^ (53 + shift))
    (hlower : shift = 0 ∨ 2 ^ (52 + shift) ≤ m) : m.log2 - 52 = shift := by
  rcases Nat.eq_zero_or_pos m with rfl | hm
  · have hpow := Nat.two_pow_pos (52 + shift)
    rw [Nat.log2_zero]
    omega
  · have hlt : m.log2 < 53 + shift := (Nat.log2_lt hm.ne').2 hupper
    rcases hlower with rfl | hlower
    · omega
    · have hle : 52 + shift ≤ m.log2 := (Nat.le_log2 hm.ne').2 hlower
      omega

/--
What lies nearer to a magnitude than half the distance to its neighbours is rounded to it; the
neighbour below the least magnitude of a binade is nearer than the one above.
-/
theorem rankOfUnits_eq {units d shift mantissa : Nat} (hd : 0 < d) (hmantissa : mantissa < 2 * binadeSize)
    (hnormal : shift = 0 ∨ binadeSize ≤ mantissa)
    (hupper : 2 * units < 2 * (mantissa * (d * 2 ^ shift)) + d * 2 ^ shift)
    (hlower : 2 * (mantissa * (d * 2 ^ shift)) < 2 * units + d * 2 ^ shift)
    (hleast : mantissa = binadeSize → 4 * (mantissa * (d * 2 ^ shift)) < 4 * units + d * 2 ^ shift) :
    rankOfUnits units d = shift * binadeSize + mantissa := by
  have hsize : binadeSize = 2 ^ 52 := rfl
  have hfits : units / d < 2 ^ (53 + shift) := by
    have hmul := Nat.mul_le_mul_right (d * 2 ^ shift) (Nat.le_sub_one_of_lt hmantissa)
    rw [hsize] at hmul
    rw [Nat.div_lt_iff_lt_mul hd, Nat.pow_add, Nat.mul_assoc, Nat.mul_comm (2 ^ shift)]
    omega
  by_cases hsame : shift = 0 ∨ 2 ^ (52 + shift) ≤ units / d
  · -- The quotient lies in the binade of the magnitude.
    have hshift := log2_sub_eq hfits hsame
    unfold rankOfUnits
    dsimp only
    rw [hshift, roundQuotient_eq hlower hupper]
  · -- The quotient lies in the binade below, so the magnitude is the least one of its own.
    obtain ⟨hpos, hbelow⟩ := not_or.1 hsame
    obtain ⟨shift, rfl⟩ := Nat.exists_eq_succ_of_ne_zero hpos
    have hdouble : d * 2 ^ shift.succ = 2 * (d * 2 ^ shift) := by
      rw [Nat.pow_succ]
      ring
    have hbelow : units < 2 ^ 53 * (d * 2 ^ shift) := by
      have hlt := (Nat.div_lt_iff_lt_mul hd).1 (Nat.lt_of_not_le hbelow)
      rwa [show 52 + shift.succ = 53 + shift by omega, Nat.pow_add, Nat.mul_assoc,
        Nat.mul_comm (2 ^ shift)] at hlt
    have hhalf : 0 < d * 2 ^ shift := Nat.mul_pos hd (Nat.two_pow_pos shift)
    rw [hdouble] at hupper hlower hleast
    generalize hunit : d * 2 ^ shift = half at *
    obtain rfl : mantissa = binadeSize := by
      by_contra hne
      have hmore : binadeSize + 1 ≤ mantissa := by omega
      have hmul := Nat.mul_le_mul_right (2 * half) hmore
      rw [hsize] at hmul
      omega
    have hleast := hleast rfl
    have hshift : (units / d).log2 - 52 = shift := by
      apply log2_sub_eq
      · rw [Nat.div_lt_iff_lt_mul hd, Nat.pow_add, Nat.mul_assoc, Nat.mul_comm (2 ^ shift), hunit]
        exact hbelow
      · rw [Nat.le_div_iff_mul_le hd, Nat.pow_add, Nat.mul_assoc, Nat.mul_comm (2 ^ shift), hunit]
        rw [hsize] at hleast
        omega
    have hround : roundQuotient units half = 2 * binadeSize := by
      rw [hsize] at hleast ⊢
      apply roundQuotient_eq <;> omega
    have hsucc : shift.succ * binadeSize = shift * binadeSize + binadeSize := Nat.succ_mul _ _
    unfold rankOfUnits
    dsimp only
    rw [hshift, hunit, hround, hsucc]
    omega

end PipelineGraph.Binary64
