import PipelineGraph.Number.Shortest
import Mathlib.Data.List.Basic

/-!
# The code points of written numbers

A number is written with digits, signs, a point and the mark of an exponent, or it is a word.
-/

namespace PipelineGraph

/-- The code point of a digit is one of those from `0` to `9`. -/
theorem CodePoint.val_of_isDigit {c : Char} (h : c.isDigit = true) :
    0x30 ≤ (ofChar c).val ∧ (ofChar c).val ≤ 0x39 := by
  simp only [Char.isDigit, Bool.and_eq_true, decide_eq_true_eq, ge_iff_le, UInt32.le_iff_toNat_le] at h
  exact h

namespace Decimal

/-- The digits of a decimal are digits. -/
def IsWritten (d : Decimal) : Prop :=
  ∀ c ∈ d.digits, c.isDigit = true

/-- The decimal of a number of digits is written with digits. -/
theorem isWritten_ofScaled (digits : Nat) (scale : Int) : (ofScaled digits scale).IsWritten := by
  intro c hc
  simp only [ofScaled] at hc
  split at hc
  · rw [List.mem_singleton] at hc
    rw [hc]
    decide
  · rw [List.mem_reverse] at hc
    have hmem := (List.dropWhile_suffix _).subset hc
    exact Nat.isDigit_of_mem_toDigits (by decide) (by decide) (List.mem_reverse.1 hmem)

/-- What a property holds of as soon as it holds of digits and of the marks between them. -/
theorem forall_mem_text {P : Char → Prop} (hdigit : ∀ c, c.isDigit = true → P c)
    (hmark : ∀ c ∈ ['.', 'e', '-', '+'], P c) (layout : DecimalLayout) {d : Decimal}
    (hd : d.IsWritten) : ∀ c ∈ d.text layout, P c := by
  have hdigits : ∀ c ∈ d.digits, P c := fun c hc => hdigit c (hd c hc)
  have hzeros : ∀ n, ∀ c ∈ List.replicate n '0', P c := fun n c hc =>
    List.eq_of_mem_replicate hc ▸ hdigit '0' (by decide)
  have hexponent : ∀ c ∈ exponentText layout d.exponent, P c := by
    have hnumeral : ∀ n, ∀ c ∈ Nat.toDigits 10 n, P c := fun n c hc =>
      hdigit c (Nat.isDigit_of_mem_toDigits (by decide) (by decide) hc)
    have hsign : P (if d.exponent < 0 then '-' else '+') := by
      split <;> exact hmark _ (by decide)
    simp only [exponentText, List.forall_mem_cons, List.forall_mem_append]
    exact ⟨hmark 'e' (by decide), hsign, hzeros _, hnumeral _⟩
  have hpoint : P '.' := hmark '.' (by decide)
  have htake : ∀ n, ∀ c ∈ d.digits.take n, P c := fun n c hc => hdigits c (List.mem_of_mem_take hc)
  have hdrop : ∀ n, ∀ c ∈ d.digits.drop n, P c := fun n c hc => hdigits c (List.mem_of_mem_drop hc)
  unfold text
  split
  · split
    · simp only [List.forall_mem_cons, List.forall_mem_append]
      exact ⟨hdigit '0' (by decide), hpoint, hzeros _, hdigits⟩
    · generalize d.exponent.toNat + 1 = whole
      dsimp only
      split
      · simp only [List.forall_mem_append, List.forall_mem_cons]
        exact ⟨⟨hdigits, hzeros _⟩, hpoint, hdigit '0' (by decide), List.forall_mem_nil _⟩
      · simp only [List.forall_mem_append, List.forall_mem_cons]
        exact ⟨htake _, hpoint, hdrop _⟩
  · split
    · simp only [List.forall_mem_append]
      exact ⟨⟨htake 1, List.forall_mem_nil _⟩, hexponent⟩
    · simp only [List.forall_mem_append, List.forall_mem_cons]
      exact ⟨⟨htake 1, hpoint, hdrop 1⟩, hexponent⟩

end Decimal

namespace Binary64

/-- One of two candidates that passes a test. -/
theorem exists_of_candidates {A : Type} {test : Nat → Bool} {f : Nat → A} {a b : Nat} {x : A}
    (h : (if test a then some (f a) else if test b then some (f b) else none) = some x) :
    ∃ n, test n = true ∧ f n = x := by
  split at h
  · next ha => exact ⟨a, ha, Option.some.inj h⟩
  · split at h
    · next hb => exact ⟨b, hb, Option.some.inj h⟩
    · cases h

/-- The decimal that is found for a number of digits reads back as the magnitude. -/
theorem exists_of_decimalWith? {rank : Fin finiteMagnitudes} {count : Nat} {d : Decimal}
    (h : decimalWith? rank count = some d) :
    ∃ digits scale, ofDecimal false digits scale = .finite false rank ∧ Decimal.ofScaled digits scale = d := by
  unfold decimalWith? at h
  extract_lets units scale numerator denominator nearest lower other reads at h
  clear_value other nearest scale
  obtain ⟨digits, hreads, hd⟩ : ∃ n, reads n = true ∧ Decimal.ofScaled n scale = d :=
    @exists_of_candidates _ reads (Decimal.ofScaled · scale) nearest other d h
  exact ⟨digits, scale, of_decide_eq_true hreads, hd⟩

/-- The shortest decimal of a number is written with digits. -/
theorem isWritten_shortest (rank : Fin finiteMagnitudes) : (shortest rank).IsWritten := by
  have hzero : Decimal.IsWritten ⟨['0'], 0⟩ := by
    intro c hc
    rw [List.mem_singleton.1 hc]
    decide
  unfold shortest
  split
  · exact hzero
  · cases h : (List.range 17).findSome? fun n => decimalWith? rank (n + 1) with
    | none => exact hzero
    | some d =>
      obtain ⟨n, -, hn⟩ := List.exists_of_findSome?_eq_some h
      obtain ⟨digits, scale, -, rfl⟩ := exists_of_decimalWith? hn
      exact Decimal.isWritten_ofScaled digits scale

end Binary64

end PipelineGraph
