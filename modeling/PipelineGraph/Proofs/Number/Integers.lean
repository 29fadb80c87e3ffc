import PipelineGraph.Proofs.Number.Rounding

/-!
# Integers among the numbers

An integer that is a number is read as itself, and so are all integers below `2 ^ 53` times a power of
two that are not beyond the numbers. Any other integer is read as another one, or not at all if it is
too great.
-/

namespace PipelineGraph.Binary64

/-- Some number equals the integer. -/
def IsExact (n : Int) : Prop :=
  ∃ x : Binary64, x.toInt? = some n

/-- A power of two with the units of one in it. -/
theorem two_pow_add (k : Nat) : 2 ^ (k + 1074) = 2 ^ k * unitsPerOne := by
  induction k with
  | zero => decide +kernel
  | succ k ih => rw [Nat.add_right_comm, Nat.pow_succ, ih, Nat.pow_succ, Nat.mul_right_comm]

/-! ## Ranks -/

/-- The rank of a magnitude is told by its power of two and by its bits; a carry is no exception. -/
theorem unitsOfRank_add {shift mantissa : Nat} (hnormal : shift = 0 ∨ binadeSize ≤ mantissa)
    (hle : mantissa ≤ 2 * binadeSize) :
    unitsOfRank (shift * binadeSize + mantissa) = mantissa * 2 ^ shift := by
  have hpos : 0 < binadeSize := by decide
  unfold unitsOfRank
  by_cases hlow : mantissa < binadeSize
  · obtain rfl : shift = 0 := by omega
    rw [Nat.zero_mul, Nat.zero_add, if_pos hlow, Nat.pow_zero, Nat.mul_one]
  · have hge : ¬ shift * binadeSize + mantissa < binadeSize := by omega
    rw [if_neg hge, Nat.mul_add_mod_self_right, Nat.add_comm (shift * binadeSize),
      Nat.add_mul_div_right _ _ hpos, Nat.pow_eq]
    rcases Nat.lt_or_eq_of_le hle with hlt | rfl
    · have hdiv : mantissa / binadeSize = 1 := Nat.div_eq_of_lt_le (by omega) (by omega)
      have hmod : mantissa % binadeSize = mantissa - binadeSize := by
        rw [Nat.mod_eq_sub_mod (by omega), Nat.mod_eq_of_lt (by omega)]
      rw [hdiv, hmod, Nat.add_sub_cancel' (by omega), Nat.add_sub_cancel_left]
    · rw [Nat.mul_div_cancel _ hpos, Nat.mul_mod_left, Nat.add_zero,
        show 2 + shift - 1 = shift + 1 by omega, Nat.pow_succ]
      ring

/-- A number below `2 ^ 53` times a power of two is the magnitude of a rank. -/
theorem exists_rank {mantissa : Nat} (hlt : mantissa < 2 * binadeSize) (shift : Nat) :
    ∃ rank < (shift + 2) * binadeSize, unitsOfRank rank = mantissa * 2 ^ shift := by
  induction shift generalizing mantissa with
  | zero =>
    have hunits := unitsOfRank_add (Or.inl rfl) (Nat.le_of_lt hlt)
    rw [Nat.zero_mul, Nat.zero_add] at hunits
    exact ⟨mantissa, by omega, hunits⟩
  | succ shift ih =>
    by_cases hnormal : binadeSize ≤ mantissa
    · refine ⟨_, ?_, unitsOfRank_add (Or.inr hnormal) (Nat.le_of_lt hlt)⟩
      rw [Nat.add_mul _ 2]
      omega
    · -- The mantissa has a bit to spare, which takes one from the power of two.
      obtain ⟨rank, hrank, hunits⟩ := @ih (mantissa * 2) (by omega)
      have hmore := Nat.mul_le_mul_right binadeSize (Nat.le_succ (shift + 2))
      exact ⟨rank, Nat.lt_of_lt_of_le hrank hmore, by rw [hunits, Nat.pow_succ]; ring⟩

/-- A magnitude is rounded to itself. -/
theorem rankOfUnits_unitsOfRank (rank : Nat) : rankOfUnits (unitsOfRank rank) 1 = rank := by
  obtain ⟨shift, mantissa, hrank, hlt, hnormal, hunits⟩ := exists_mantissa rank
  have hpos := Nat.two_pow_pos shift
  rw [hunits, hrank]
  apply rankOfUnits_eq Nat.one_pos hlt hnormal <;> rw [Nat.one_mul]
  · omega
  · omega
  · intro _
    omega

/-! ## Values -/

/-- Only a finite number equals a finite one. -/
theorem isFinite_of_numEq {x y : Binary64} (h : x.numEq y = true) (hy : y.isFinite = true) :
    x.isFinite = true := by
  cases x with
  | nan => cases h
  | infinite negative =>
    obtain rfl : infinite negative = y := by simpa [numEq, isZero] using h
    cases hy
  | finite negative rank => rfl

/-- A finite number equals itself. -/
theorem numEq_self {x : Binary64} (h : x.isFinite = true) : x.numEq x = true := by
  cases x with
  | finite negative rank => simp [numEq]
  | _ => cases h

/-- A number is an integer if its magnitude is a whole number of ones. -/
theorem exists_of_toInt? {x : Binary64} {n : Int} (h : x.toInt? = some n) :
    ∃ negative rank, x = .finite negative rank ∧ unitsOfRank rank = n.natAbs * unitsPerOne := by
  cases x with
  | nan => cases h
  | infinite negative => cases h
  | finite negative rank =>
    refine ⟨negative, rank, rfl, ?_⟩
    unfold toInt? at h
    generalize unitsPerOne = one at *
    dsimp only at h
    split at h
    · next hdvd =>
      have hdiv := Nat.div_mul_cancel (Nat.dvd_of_mod_eq_zero hdvd)
      have hvalue := Option.some.inj h
      generalize unitsOfRank rank / one = whole at *
      have hn : n.natAbs = whole := by
        split at hvalue <;> omega
      rw [hn, hdiv]
    · cases h

/-- A number that is an integer is finite. -/
theorem isFinite_of_toInt? {x : Binary64} {n : Int} (h : x.toInt? = some n) :
    x.isFinite = true := by
  obtain ⟨negative, rank, rfl, -⟩ := exists_of_toInt? h
  rfl

/-- The integer of a magnitude that is a whole number of ones. -/
theorem toInt?_finite {rank : Fin finiteMagnitudes} {whole : Nat}
    (h : unitsOfRank rank = whole * unitsPerOne) (negative : Bool) :
    (finite negative rank).toInt? = some (if negative then -(whole : Int) else whole) := by
  have hone : 0 < unitsPerOne := by decide +kernel
  unfold toInt?
  dsimp only
  rw [h, Nat.mul_mod_left, if_pos rfl, Nat.mul_div_cancel _ hone]

/-- An integer with its sign and its magnitude. -/
theorem toInt?_of_units {n : Int} {rank : Fin finiteMagnitudes}
    (h : unitsOfRank rank = n.natAbs * unitsPerOne) : (finite (n < 0) rank).toInt? = some n := by
  rw [toInt?_finite h]
  congr 1
  by_cases hneg : n < 0
  · rw [if_pos (decide_eq_true hneg)]
    omega
  · rw [if_neg (by simpa using hneg)]
    omega

/-- An integer whose magnitude rounds to a finite one is read. -/
theorem ofInt?_of_rank {n : Int} {rank : Fin finiteMagnitudes}
    (h : rankOfUnits (n.natAbs * unitsPerOne) 1 = rank) : ofInt? n = some (.finite (n < 0) rank) := by
  rw [ofInt?, ofIntQuotient?, ofQuotient, rankOfQuotient_eq, h, ofRank, dif_pos rank.isLt]
  rfl

/-- An integer that is read is read with its sign, and its magnitude is rounded. -/
theorem exists_of_ofInt? {n : Int} {x : Binary64} (h : ofInt? n = some x) :
    ∃ rank, x = .finite (n < 0) rank ∧ rankOfUnits (n.natAbs * unitsPerOne) 1 = rank := by
  unfold ofInt? ofIntQuotient? ofQuotient ofRank at h
  rw [rankOfQuotient_eq] at h
  split at h
  · next hlt => exact ⟨⟨_, hlt⟩, (Option.some.inj h).symm, rfl⟩
  · cases h

/-- An integer that some number equals is read as a number that equals it. -/
theorem IsExact.ofInt? {n : Int} (h : IsExact n) : ∃ x, ofInt? n = some x ∧ x.toInt? = some n := by
  obtain ⟨x, hx⟩ := h
  obtain ⟨negative, rank, rfl, hunits⟩ := exists_of_toInt? hx
  refine ⟨.finite (n < 0) rank, ofInt?_of_rank ?_, toInt?_of_units hunits⟩
  rw [← hunits, rankOfUnits_unitsOfRank]

/-- A number that an integer is read as equals it if any number does. -/
theorem toInt?_of_ofInt? {n : Int} {x : Binary64} (h : ofInt? n = some x) :
    x.toInt? = some n ↔ IsExact n := by
  refine ⟨fun hvalue => ⟨x, hvalue⟩, fun hexact => ?_⟩
  obtain ⟨y, hy, hvalue⟩ := hexact.ofInt?
  obtain rfl : y = x := Option.some.inj (hy.symm.trans h)
  exact hvalue

/-- A number below `2 ^ 53` times a power of two is exact if it is not beyond the numbers. -/
theorem isExact_of_natAbs_eq {n : Int} {mantissa exponent : Nat} (hlt : mantissa < 2 * binadeSize)
    (hle : exponent ≤ 971) (hn : n.natAbs = mantissa * 2 ^ exponent) : IsExact n := by
  obtain ⟨rank, hrank, hunits⟩ := exists_rank hlt (exponent + 1074)
  have hfinite : rank < finiteMagnitudes :=
    Nat.lt_of_lt_of_le hrank (Nat.mul_le_mul_right _ (by omega))
  have hvalue : unitsOfRank rank = n.natAbs * unitsPerOne := by
    rw [hunits, hn, two_pow_add, Nat.mul_assoc]
  exact ⟨_, @toInt?_of_units n ⟨rank, hfinite⟩ hvalue⟩

/-- All integers up to `2 ^ 53` are exact. -/
theorem isExact_of_natAbs_le {n : Int} (h : n.natAbs ≤ 2 * binadeSize) : IsExact n := by
  rcases Nat.lt_or_eq_of_le h with hlt | heq
  · exact isExact_of_natAbs_eq hlt (Nat.zero_le _) (by rw [Nat.pow_zero, Nat.mul_one])
  · exact @isExact_of_natAbs_eq n binadeSize 1 (by decide) (by decide) (by rw [heq]; ring)

/-! ## Rounded integers -/

/-- An integer of 53 bits and some more is rounded by as many bits. -/
theorem rankOfUnits_eq_of_bits {m extra : Nat} (hlower : 2 ^ 52 * 2 ^ extra ≤ m)
    (hupper : m < 2 ^ 53 * 2 ^ extra) : rankOfUnits (m * unitsPerOne) 1 =
      (extra + 1074) * binadeSize + roundQuotient m (2 ^ extra) := by
  have hone : 0 < unitsPerOne := by decide +kernel
  have hshift : (m * unitsPerOne / 1).log2 - 52 = extra + 1074 := by
    rw [Nat.div_one]
    apply log2_sub_eq
    · rw [Nat.pow_add, two_pow_add, ← Nat.mul_assoc]
      exact Nat.mul_lt_mul_of_pos_right hupper hone
    · right
      rw [Nat.pow_add, two_pow_add, ← Nat.mul_assoc]
      exact Nat.mul_le_mul_right _ hlower
  unfold rankOfUnits
  dsimp only
  rw [hshift, Nat.one_mul, two_pow_add, roundQuotient_mul_right hone]

/-- From `2 ^ 52` on, an integer is rounded to a whole number of ones. -/
theorem exists_unitsOfRank {m : Nat} (h : binadeSize ≤ m) :
    ∃ k, unitsOfRank (rankOfUnits (m * unitsPerOne) 1) = k * unitsPerOne := by
  have hm : m ≠ 0 := (Nat.lt_of_lt_of_le (by decide : 0 < binadeSize) h).ne'
  obtain ⟨extra, hlog⟩ := Nat.exists_eq_add_of_le ((Nat.le_log2 hm).2 h)
  have hlower : 2 ^ 52 * 2 ^ extra ≤ m := by
    rw [← Nat.pow_add]
    exact (Nat.le_log2 hm).1 (Nat.le_of_eq hlog.symm)
  have hupper : m < 2 ^ 53 * 2 ^ extra := by
    rw [← Nat.pow_add]
    exact (Nat.log2_lt hm).1 (by omega)
  have hleast : binadeSize ≤ roundQuotient m (2 ^ extra) := le_roundQuotient (Nat.two_pow_pos _) hlower
  have hmost : roundQuotient m (2 ^ extra) ≤ 2 * binadeSize :=
    roundQuotient_le (Nat.two_pow_pos _) (Nat.le_of_lt hupper)
  refine ⟨roundQuotient m (2 ^ extra) * 2 ^ extra, ?_⟩
  rw [rankOfUnits_eq_of_bits hlower hupper, unitsOfRank_add (Or.inr hleast) hmost, two_pow_add,
    Nat.mul_assoc]

/-- An integer that is read is read as an integer. -/
theorem exists_toInt?_of_ofInt? {n : Int} {x : Binary64} (h : ofInt? n = some x) :
    ∃ m, x.toInt? = some m := by
  by_cases hexact : IsExact n
  · obtain ⟨y, hy, hvalue⟩ := hexact.ofInt?
    rw [h, Option.some.injEq] at hy
    exact ⟨n, hy ▸ hvalue⟩
  · obtain ⟨rank, rfl, hrank⟩ := exists_of_ofInt? h
    have hlarge : binadeSize ≤ n.natAbs := by
      by_contra hlt
      exact hexact (isExact_of_natAbs_le (by omega))
    obtain ⟨k, hunits⟩ := exists_unitsOfRank hlarge
    rw [hrank] at hunits
    exact ⟨_, toInt?_finite hunits _⟩

/-- The rank of an integer is no less than the first one of its binade. -/
theorem le_rankOfUnits {m extra : Nat} (h : 2 ^ (52 + extra) ≤ m) :
    (extra + 1074) * binadeSize ≤ rankOfUnits (m * unitsPerOne) 1 := by
  have hone : 0 < unitsPerOne := by decide +kernel
  have hpos : 0 < m * unitsPerOne := Nat.mul_pos (Nat.lt_of_lt_of_le (Nat.two_pow_pos _) h) hone
  have hlog : 52 + extra + 1074 ≤ (m * unitsPerOne / 1).log2 := by
    rw [Nat.div_one, Nat.le_log2 hpos.ne', two_pow_add]
    exact Nat.mul_le_mul_right _ h
  calc (extra + 1074) * binadeSize ≤ ((m * unitsPerOne / 1).log2 - 52) * binadeSize :=
        Nat.mul_le_mul_right _ (by omega)
    _ ≤ rankOfUnits (m * unitsPerOne) 1 := Nat.le_add_right _ _

/-- An integer beyond all numbers is not read. -/
theorem ofInt?_eq_none {n : Int} (h : 2 ^ (52 + 973) ≤ n.natAbs) : ofInt? n = none := by
  by_contra hsome
  obtain ⟨x, hx⟩ := Option.ne_none_iff_exists'.1 hsome
  obtain ⟨rank, -, hrank⟩ := exists_of_ofInt? hx
  have hlarge : finiteMagnitudes ≤ rankOfUnits (n.natAbs * unitsPerOne) 1 := le_rankOfUnits h
  rw [hrank] at hlarge
  exact absurd rank.isLt (Nat.not_lt_of_le hlarge)

end PipelineGraph.Binary64
