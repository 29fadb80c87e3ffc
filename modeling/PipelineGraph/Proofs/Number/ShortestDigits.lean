import PipelineGraph.Proofs.Number.Decimals
import PipelineGraph.Proofs.Number.Written

/-!
# The shortest decimal reads back

Of the decimals with seventeen digits the one nearest to a number is off by less than half the
distance to any neighbour of the number, as `10 ^ 16` is greater than `2 ^ 53`. So the search for a
decimal that reads back ends.
-/

namespace PipelineGraph.Binary64

/-- The units of a magnitude that is not the least one. -/
theorem unitsOfRank_pos {rank : Nat} (h : rank ≠ 0) : 0 < unitsOfRank rank := by
  obtain ⟨shift, mantissa, hrank, -, hnormal, hunits⟩ := exists_mantissa rank
  rw [hunits]
  apply Nat.mul_pos _ (Nat.two_pow_pos shift)
  have hsize : 0 < binadeSize := by decide
  rcases hnormal with rfl | hnormal
  · omega
  · omega

/-- The units of a finite magnitude are bounded. -/
theorem unitsOfRank_lt (rank : Fin finiteMagnitudes) : unitsOfRank rank < 10 ^ 309 * unitsPerOne := by
  obtain ⟨shift, mantissa, hrank, hmantissa, hnormal, hunits⟩ := exists_mantissa rank
  have hshift : shift ≤ 2045 := by
    have hlt : rank.val < finiteMagnitudes := rank.isLt
    have hsize : binadeSize = 2 ^ 52 := rfl
    rw [hrank, finiteMagnitudes, hsize] at hlt
    rw [hsize] at hnormal
    omega
  calc unitsOfRank rank = mantissa * 2 ^ shift := hunits
    _ ≤ 2 * binadeSize * 2 ^ 2045 :=
      Nat.mul_le_mul (Nat.le_of_lt hmantissa) (Nat.pow_le_pow_right (by decide) hshift)
    _ < 10 ^ 309 * unitsPerOne := by decide +kernel

/-- The power of ten of the first digit bounds the magnitude from both sides. -/
theorem leadingExponent_spec {units : Nat} (hpos : 0 < units) (hlt : units < 10 ^ 309 * unitsPerOne) :
    -324 ≤ leadingExponent units ∧ leadingExponent units ≤ 308 ∧
      ∀ up down : Nat, (up : Int) - down = leadingExponent units - 16 →
        10 ^ 16 * (unitsPerOne * 10 ^ up) ≤ units * 10 ^ down ∧
        units * 10 ^ down < 10 ^ 17 * (unitsPerOne * 10 ^ up) := by
  have hone : 0 < unitsPerOne := by decide +kernel
  have hleast : 10 ^ 76 * unitsPerOne ≤ 1 * Nat.pow 10 400 := by decide +kernel
  have hcancel : 0 < Nat.pow 10 400 := by decide +kernel
  have hpow : ∀ k n, 10 ^ (k + n) = Nat.pow 10 k * 10 ^ n := fun k n => Nat.pow_add 10 k n
  have hscale := hpow 400
  unfold leadingExponent
  generalize unitsPerOne = one at *
  generalize Nat.pow 10 400 = scale at *
  have hfirst : 10 ^ 76 ≤ units * scale / one := by
    rw [Nat.le_div_iff_mul_le hone]
    calc 10 ^ 76 * one ≤ 1 * scale := hleast
      _ ≤ units * scale := Nat.mul_le_mul_right _ hpos
  have hlast : units * scale / one < 10 ^ (400 + 309) := by
    rw [Nat.div_lt_iff_lt_mul hone, hscale, Nat.mul_assoc, Nat.mul_comm]
    exact Nat.mul_lt_mul_of_pos_left hlt hcancel
  have hfloor : units * scale / one * one ≤ units * scale := Nat.div_mul_le_self _ _
  have hceil : units * scale < (units * scale / one + 1) * one :=
    (Nat.div_lt_iff_lt_mul hone).1 (Nat.lt_succ_self _)
  generalize units * scale / one = quotient at *
  have hmin : 76 < (Nat.toDigits 10 quotient).length := lt_length_toDigits hfirst
  have hmax : (Nat.toDigits 10 quotient).length ≤ 400 + 309 := length_toDigits_le (by decide) hlast
  obtain ⟨hlower, hupper⟩ := length_toDigits_bounds
    (Nat.lt_of_lt_of_le (Nat.pow_pos (by decide)) hfirst)
  generalize (Nat.toDigits 10 quotient).length = count at *
  refine ⟨by omega, by omega, fun up down hshift => ?_⟩
  constructor
  · apply Nat.le_of_mul_le_mul_left _ hcancel
    calc scale * (10 ^ 16 * (one * 10 ^ up)) = 10 ^ (400 + (16 + up)) * one := by
          rw [hscale, Nat.pow_add]
          ring
      _ = 10 ^ (count - 1) * one * 10 ^ down := by
          rw [show 400 + (16 + up) = count - 1 + down by omega, Nat.pow_add]
          ring
      _ ≤ units * scale * 10 ^ down :=
          Nat.mul_le_mul_right _ ((Nat.mul_le_mul_right one hlower).trans hfloor)
      _ = scale * (units * 10 ^ down) := by ring
  · apply Nat.lt_of_mul_lt_mul_left (a := scale)
    calc scale * (units * 10 ^ down) = units * scale * 10 ^ down := by ring
      _ < 10 ^ count * one * 10 ^ down := by
          apply Nat.mul_lt_mul_of_pos_right _ (Nat.pow_pos (by decide))
          exact Nat.lt_of_lt_of_le hceil (Nat.mul_le_mul_right one hupper)
      _ = 10 ^ (400 + (17 + up)) * one := by
          rw [show 400 + (17 + up) = count + down by omega, Nat.pow_add]
          ring
      _ = scale * (10 ^ 17 * (one * 10 ^ up)) := by
          rw [hscale, Nat.pow_add]
          ring

/-- The decimal of seventeen digits that is nearest to a magnitude reads back as the magnitude. -/
theorem ofDecimal_nearest {rank : Fin finiteMagnitudes} (hrank : rank.val ≠ 0) {scale : Int}
    (hscale : scale = leadingExponent (unitsOfRank rank) - 16) :
    ofDecimal false (roundQuotient (unitsOfRank rank * 10 ^ (-scale).toNat)
      (unitsPerOne * 10 ^ scale.toNat)) scale = .finite false rank := by
  obtain ⟨hmin, hmax, hbounds⟩ := leadingExponent_spec (unitsOfRank_pos hrank) (unitsOfRank_lt rank)
  obtain ⟨hlower, hupper⟩ := hbounds scale.toNat (-scale).toNat (by omega)
  obtain ⟨shift, mantissa, hparts, hmantissa, hnormal, hunits⟩ := exists_mantissa rank
  have hone : 0 < unitsPerOne := by decide +kernel
  have hunit : 0 < unitsPerOne * 10 ^ scale.toNat := Nat.mul_pos hone (Nat.pow_pos (by decide))
  have hdown : 0 < 10 ^ (-scale).toNat := Nat.pow_pos (by decide)
  obtain ⟨habove, hbelow⟩ := @roundQuotient_bounds (unitsOfRank rank * 10 ^ (-scale).toNat) _ hunit
  generalize hdecimal : roundQuotient (unitsOfRank rank * 10 ^ (-scale).toNat)
    (unitsPerOne * 10 ^ scale.toNat) = decimal at *
  -- The decimal has seventeen digits, or eighteen if it is a power of ten.
  have hleast : 10 ^ 16 ≤ decimal := by
    by_contra h
    have hmul := Nat.mul_le_mul_right (unitsPerOne * 10 ^ scale.toNat) (Nat.lt_of_not_le h)
    rw [Nat.succ_mul] at hmul
    omega
  have hgreatest : decimal < 10 ^ 18 := by
    by_contra h
    have hmul := Nat.mul_le_mul_right (unitsPerOne * 10 ^ scale.toNat) (Nat.le_of_not_lt h)
    omega
  have hmore := lt_length_toDigits hleast
  have hless := length_toDigits_le (by decide) hgreatest
  rw [ofDecimal_eq_ofQuotient (by omega) (by omega) (by omega), ofQuotient, ofRank_eq_finite_iff,
    rankOfQuotient_eq, hparts]
  -- Its distance to the magnitude is at most half a unit of its last digit.
  have hvalue : decimal * 10 ^ scale.toNat * unitsPerOne = decimal * (unitsPerOne * 10 ^ scale.toNat) := by
    ring
  have hexact : mantissa * (10 ^ (-scale).toNat * 2 ^ shift) = unitsOfRank rank * 10 ^ (-scale).toNat := by
    rw [hunits]
    ring
  have hdigit : 10 ^ 16 * (unitsPerOne * 10 ^ scale.toNat) ≤ mantissa * (10 ^ (-scale).toNat * 2 ^ shift) := by
    rw [hexact]
    exact hlower
  have hgap : 0 < 10 ^ (-scale).toNat * 2 ^ shift := Nat.mul_pos hdown (Nat.two_pow_pos shift)
  have hsize : binadeSize = 2 ^ 52 := rfl
  have hfits := Nat.mul_le_mul_right (10 ^ (-scale).toNat * 2 ^ shift) (Nat.le_sub_one_of_lt hmantissa)
  rw [hvalue]
  rw [← hexact] at habove hbelow
  generalize unitsPerOne * 10 ^ scale.toNat = unit at *
  generalize hg : 10 ^ (-scale).toNat * 2 ^ shift = gap at *
  apply rankOfUnits_eq hdown hmantissa hnormal <;> rw [hg]
  · rw [hsize] at hfits
    omega
  · rw [hsize] at hfits
    omega
  · intro heq
    have hmul : mantissa * gap = 2 ^ 52 * gap := by rw [heq, hsize]
    omega

/-- Seventeen digits suffice. -/
theorem isSome_decimalWith? {rank : Fin finiteMagnitudes} (hrank : rank.val ≠ 0) :
    (decimalWith? rank 17).isSome = true := by
  unfold decimalWith?
  extract_lets units scale numerator denominator nearest lower other reads
  have hreads : reads nearest = true :=
    decide_eq_true (ofDecimal_nearest hrank (by simp only [scale, units]; omega))
  rw [if_pos hreads]
  rfl

/-- The shortest decimal of a magnitude that is not zero reads back as the magnitude. -/
theorem exists_of_shortest {rank : Fin finiteMagnitudes} (hrank : rank.val ≠ 0) :
    ∃ digits scale, ofDecimal false digits scale = .finite false rank ∧
      Decimal.ofScaled digits scale = shortest rank := by
  have hsome : ((List.range 17).findSome? fun n => decimalWith? rank (n + 1)).isSome = true :=
    List.findSome?_isSome_iff.2 ⟨16, List.mem_range.2 (by decide), isSome_decimalWith? hrank⟩
  obtain ⟨d, hd⟩ := Option.isSome_iff_exists.1 hsome
  obtain ⟨n, -, hn⟩ := List.exists_of_findSome?_eq_some hd
  obtain ⟨digits, scale, hreads, rfl⟩ := exists_of_decimalWith? hn
  refine ⟨digits, scale, hreads, ?_⟩
  rw [shortest, if_neg hrank, hd, Option.getD_some]

/--
The shortest decimal of a magnitude that is not zero has the digits of a natural number, and that
number with the scale that goes with it reads back as the magnitude, whatever the sign.
-/
theorem shortest_spec {rank : Fin finiteMagnitudes} (hrank : rank.val ≠ 0) :
    ∃ (value : Nat) (exponent : Int), 0 < value ∧ shortest rank = ⟨Nat.toDigits 10 value, exponent⟩ ∧
      ∀ negative, ofDecimal negative value (exponent + 1 - (Nat.toDigits 10 value).length) =
        .finite negative rank := by
  obtain ⟨digits, scale, hreads, hshortest⟩ := exists_of_shortest hrank
  have hdigits : 0 < digits := by
    rw [Nat.pos_iff_ne_zero]
    rintro rfl
    rw [ofDecimal_eq_zero (Or.inl rfl), signedZero, ofRank_eq_finite_iff] at hreads
    exact hrank hreads.symm
  obtain ⟨value, zeros, hvalue, rfl, hscaled⟩ := Decimal.ofScaled_eq hdigits scale
  refine ⟨value, _, hvalue, hshortest.symm.trans hscaled, fun negative => ?_⟩
  have hshift : scale + zeros + (Nat.toDigits 10 value).length - 1 + 1 - (Nat.toDigits 10 value).length =
      scale + zeros := by
    omega
  have hback : scale + zeros - zeros = scale := by omega
  rw [hshift, ← ofDecimal_mul_pow negative value zeros, hback]
  exact ofDecimal_of_false hreads negative

end PipelineGraph.Binary64
