import PipelineGraph.Number.Shortest
import PipelineGraph.Proofs.Number.Rounding
import Mathlib.Tactic.NormNum

/-!
# Decimals

The number nearest to a decimal depends on the value of the decimal alone, not on the digits and the
scale that give it. A decimal without trailing zeros has the digits of a natural number that ten does
not divide.
-/

namespace PipelineGraph

/-! ## Digits -/

/-- Ten times a positive number has one zero more. -/
theorem toDigits_mul_ten {n : Nat} (hn : 0 < n) :
    Nat.toDigits 10 (n * 10) = Nat.toDigits 10 n ++ ['0'] := by
  rw [Nat.toDigits_of_base_le (by decide) (by omega), Nat.mul_div_cancel n (by decide), Nat.mul_mod_left]
  rfl

/-- Powers of ten add zeros. -/
theorem toDigits_mul_pow {n : Nat} (hn : 0 < n) (k : Nat) :
    Nat.toDigits 10 (n * 10 ^ k) = Nat.toDigits 10 n ++ List.replicate k '0' := by
  induction k with
  | zero => simp
  | succ k ih =>
    have hpos : 0 < n * 10 ^ k := Nat.mul_pos hn (Nat.pow_pos (by decide))
    rw [Nat.pow_succ, ← Nat.mul_assoc, toDigits_mul_ten hpos, ih, List.append_assoc,
      List.replicate_succ']

/-- The digits of a positive number of a given length. -/
theorem length_toDigits_bounds {n : Nat} (hn : 0 < n) :
    10 ^ ((Nat.toDigits 10 n).length - 1) ≤ n ∧ n < 10 ^ (Nat.toDigits 10 n).length := by
  have hpos : 0 < (Nat.toDigits 10 n).length := Nat.length_toDigits_pos
  refine ⟨?_, (Nat.length_toDigits_le_iff (by decide) hpos).1 (Nat.le_refl _)⟩
  by_contra h
  rcases Nat.eq_zero_or_pos ((Nat.toDigits 10 n).length - 1) with hone | hmore
  · rw [hone] at h
    omega
  · have hle := (Nat.length_toDigits_le_iff (by decide) hmore).2 (Nat.lt_of_not_le h)
    omega

/-- A number within two powers of ten has as many digits as they say. -/
theorem length_toDigits_le {n k : Nat} (hk : 0 < k) (h : n < 10 ^ k) : (Nat.toDigits 10 n).length ≤ k :=
  (Nat.length_toDigits_le_iff (by decide) hk).2 h

/-- A number from a power of ten on has more digits than the exponent. -/
theorem lt_length_toDigits {n k : Nat} (h : 10 ^ k ≤ n) : k < (Nat.toDigits 10 n).length := by
  have hpos : 0 < n := Nat.lt_of_lt_of_le (Nat.pow_pos (by decide)) h
  have hlt := (length_toDigits_bounds hpos).2
  exact (Nat.pow_lt_pow_iff_right (by decide)).1 (Nat.lt_of_le_of_lt h hlt)

/-- The last digit of a number that ten does not divide is no zero. -/
theorem dropWhile_reverse_toDigits {n : Nat} (h : n % 10 ≠ 0) :
    (Nat.toDigits 10 n).reverse.dropWhile (· = '0') = (Nat.toDigits 10 n).reverse := by
  have hlast : ∃ start, Nat.toDigits 10 n = start ++ [Nat.digitChar (n % 10)] := by
    by_cases hlt : n < 10
    · exact ⟨[], by rw [Nat.toDigits_of_lt_base hlt, Nat.mod_eq_of_lt hlt, List.nil_append]⟩
    · exact ⟨_, Nat.toDigits_of_base_le (by decide) (by omega)⟩
  have hdigit : ∀ d < 10, d ≠ 0 → Nat.digitChar d ≠ '0' := by decide
  obtain ⟨start, hstart⟩ := hlast
  rw [hstart, List.reverse_append, List.reverse_singleton, List.singleton_append, List.dropWhile_cons,
    if_neg (by simpa using hdigit _ (Nat.mod_lt n (by decide)) h)]

/-- A decimal without trailing zeros has the digits of a number that its own is a multiple of. -/
theorem Decimal.ofScaled_eq {digits : Nat} (h : 0 < digits) (scale : Int) :
    ∃ value zeros : Nat, 0 < value ∧ digits = value * 10 ^ zeros ∧ ofScaled digits scale =
      ⟨Nat.toDigits 10 value, scale + zeros + (Nat.toDigits 10 value).length - 1⟩ := by
  have hstrip : ∃ value zeros, 0 < value ∧ digits = value * 10 ^ zeros ∧
      ((Nat.toDigits 10 digits).reverse.dropWhile (· = '0')).reverse = Nat.toDigits 10 value := by
    induction digits using Nat.strong_induction_on with
    | h digits ih =>
      by_cases hzero : digits % 10 = 0
      · obtain ⟨tenth, rfl⟩ := Nat.dvd_of_mod_eq_zero hzero
        obtain ⟨value, zeros, hvalue, htenth, hstrip⟩ := ih tenth (by omega) (by omega)
        refine ⟨value, zeros + 1, hvalue, by rw [htenth, Nat.pow_succ]; ring, ?_⟩
        rw [Nat.mul_comm, toDigits_mul_ten (by omega), List.reverse_append, List.reverse_singleton,
          List.singleton_append, List.dropWhile_cons, if_pos (by decide)]
        exact hstrip
      · exact ⟨digits, 0, h, by simp, by rw [dropWhile_reverse_toDigits hzero, List.reverse_reverse]⟩
  obtain ⟨value, zeros, hvalue, rfl, hstrip⟩ := hstrip
  have hne : Nat.toDigits 10 value ≠ [] := List.length_pos_iff.1 Nat.length_toDigits_pos
  refine ⟨value, zeros, hvalue, rfl, ?_⟩
  have hlength : (Nat.toDigits 10 (value * 10 ^ zeros)).length = (Nat.toDigits 10 value).length + zeros := by
    simp [toDigits_mul_pow hvalue]
  unfold ofScaled
  dsimp only
  rw [hstrip, if_neg hne, hlength]
  congr 1
  push_cast
  ring

namespace Binary64

/-! ## Values -/

/-- A rank within the finite ones gives a finite number. -/
theorem ofRank_eq_finite_iff {negative : Bool} {rank : Nat} {r : Fin finiteMagnitudes} :
    ofRank negative rank = .finite negative r ↔ rank = r.val := by
  unfold ofRank
  constructor
  · intro h
    split at h
    · injection h with _ hr
      exact congrArg Fin.val hr
    · cases h
  · rintro rfl
    rw [dif_pos r.isLt]

/-- Between the bounds of what is finite and not zero, a decimal is rounded as a quotient. -/
theorem ofDecimal_eq_ofQuotient {negative : Bool} {digits : Nat} {scale : Int} (hdigits : digits ≠ 0)
    (hlower : -330 ≤ (Nat.toDigits 10 digits).length + scale)
    (hupper : (Nat.toDigits 10 digits).length + scale ≤ 310) :
    ofDecimal negative digits scale =
      ofQuotient negative (digits * 10 ^ scale.toNat) (10 ^ (-scale).toNat) := by
  unfold ofDecimal
  dsimp only
  rw [if_neg (by omega), if_neg (by omega)]
  split
  · next h =>
    rw [show (-scale).toNat = 0 by omega, Nat.pow_zero, Nat.pow_eq]
  · next h =>
    rw [show scale.toNat = 0 by omega, Nat.pow_zero, Nat.mul_one, Nat.pow_eq]

/-- A decimal of a great magnitude is infinite. -/
theorem ofDecimal_eq_infinite {negative : Bool} {digits : Nat} {scale : Int} (hdigits : digits ≠ 0)
    (h : 310 < (Nat.toDigits 10 digits).length + scale) :
    ofDecimal negative digits scale = .infinite negative := by
  unfold ofDecimal
  dsimp only
  rw [if_neg (by omega), if_pos h]

/-- A decimal of a small magnitude is zero. -/
theorem ofDecimal_eq_zero {negative : Bool} {digits : Nat} {scale : Int}
    (h : digits = 0 ∨ (Nat.toDigits 10 digits).length + scale < -330) :
    ofDecimal negative digits scale = signedZero negative := by
  unfold ofDecimal
  dsimp only
  rw [if_pos h]

/-- The number nearest to a decimal depends on its value alone. -/
theorem ofDecimal_mul_pow (negative : Bool) (digits k : Nat) (scale : Int) :
    ofDecimal negative (digits * 10 ^ k) (scale - k) = ofDecimal negative digits scale := by
  rcases Nat.eq_zero_or_pos digits with rfl | hpos
  · rw [Nat.zero_mul, ofDecimal_eq_zero (Or.inl rfl), ofDecimal_eq_zero (Or.inl rfl)]
  have hlength : (Nat.toDigits 10 (digits * 10 ^ k)).length = (Nat.toDigits 10 digits).length + k := by
    simp [toDigits_mul_pow hpos]
  have hne : digits * 10 ^ k ≠ 0 := (Nat.mul_pos hpos (Nat.pow_pos (by decide))).ne'
  by_cases hlower : (Nat.toDigits 10 digits).length + scale < -330
  · rw [ofDecimal_eq_zero (Or.inr hlower), ofDecimal_eq_zero (Or.inr (by omega))]
  by_cases hupper : 310 < (Nat.toDigits 10 digits).length + scale
  · rw [ofDecimal_eq_infinite hpos.ne' hupper, ofDecimal_eq_infinite hne (by omega)]
  · rw [ofDecimal_eq_ofQuotient hne (by omega) (by omega),
      ofDecimal_eq_ofQuotient hpos.ne' (by omega) (by omega)]
    apply ofQuotient_congr (Nat.pow_pos (by decide)) (Nat.pow_pos (by decide))
    rw [Nat.mul_assoc, Nat.mul_assoc, Nat.mul_assoc, ← Nat.pow_add, ← Nat.pow_add, ← Nat.pow_add]
    congr 2
    omega

/-- The sign of a decimal is the sign of the number nearest to it. -/
theorem ofDecimal_of_false {digits : Nat} {scale : Int} {rank : Fin finiteMagnitudes}
    (h : ofDecimal false digits scale = .finite false rank) (negative : Bool) :
    ofDecimal negative digits scale = .finite negative rank := by
  unfold ofDecimal signedZero ofQuotient at *
  dsimp only at *
  split
  · next hzero =>
    rw [if_pos hzero] at h
    exact ofRank_eq_finite_iff.2 (ofRank_eq_finite_iff.1 h)
  · next hzero =>
    rw [if_neg hzero] at h
    split
    · next hlarge =>
      rw [if_pos hlarge] at h
      cases h
    · next hlarge =>
      rw [if_neg hlarge] at h
      split
      · next hscale =>
        rw [if_pos hscale] at h
        exact ofRank_eq_finite_iff.2 (ofRank_eq_finite_iff.1 h)
      · next hscale =>
        rw [if_neg hscale] at h
        exact ofRank_eq_finite_iff.2 (ofRank_eq_finite_iff.1 h)

end Binary64

end PipelineGraph
