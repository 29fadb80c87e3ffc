import PipelineGraph.Number.Numeral
import PipelineGraph.Proofs.Json.Numbers
import PipelineGraph.Proofs.Number.Integers
import PipelineGraph.Proofs.Text.Printing

/-!
# Numerals of integers

The numeral of an integer is read as the integer is, wherever it stands: what is beyond the numbers as
an integer is infinite as a numeral.
-/

namespace PipelineGraph

namespace Text

/-- The numeral of an integer holds no blank. -/
theorem isBlank_of_mem_ofInt {n : Int} {c : CodePoint} (h : c ∈ ofInt n) : isBlank c = false := by
  have hval := val_of_mem_ofInt h
  rw [isBlank, CodeRanges.has, List.any_eq_false]
  intro range hrange
  have houtside : range.2 < 0x2D ∨ 0x39 < range.1 := by
    have hranges : ∀ range ∈ blankRanges, range.2 < 0x2D ∨ 0x39 < range.1 := by decide
    exact hranges range hrange
  simp only [Bool.and_eq_true, decide_eq_true_eq]
  omega

/-- Nothing is trimmed off a text without what would be dropped. -/
theorem trim_eq_self {drop : CodePoint → Bool} {t : Text} (h : ∀ c ∈ t, drop c = false) :
    t.trim drop = t := by
  have hfront : ∀ {s : Text}, (∀ c ∈ s, drop c = false) → s.dropWhile drop = s := by
    intro s hs
    cases s with
    | nil => rfl
    | cons c s => rw [List.dropWhile_cons, if_neg (by simp [hs c List.mem_cons_self])]
  rw [trim, hfront h, hfront fun c hc => h c (List.mem_reverse.1 hc), List.reverse_reverse]

/-- The digits `0` to `9` are decimal digits. -/
theorem decimalDigit?_ofChar {c : Char} (h : c.isDigit = true) :
    decimalDigit? (CodePoint.ofChar c) = some (c.toNat - '0'.toNat) := by
  obtain ⟨hlower, hupper⟩ := CodePoint.val_of_isDigit h
  obtain ⟨others, hzeros⟩ : ∃ others, digitZeros = '0'.toNat :: others := ⟨_, rfl⟩
  have hrun : (decide ('0'.toNat ≤ (CodePoint.ofChar c).val) &&
      decide ((CodePoint.ofChar c).val < '0'.toNat + 10)) = true := by
    rw [Bool.and_eq_true, decide_eq_true_eq, decide_eq_true_eq]
    exact ⟨hlower, Nat.lt_succ_of_le hupper⟩
  rw [decimalDigit?, hzeros, List.find?_cons, hrun]
  rfl

end Text

namespace Numeral

open Json (digitValues ofChars)

/-- A text without low lines is strict. -/
theorem dropLowLines_eq_self (digit? : CodePoint → Option Nat) {t : Text}
    (h : CodePoint.ofChar '_' ∉ t) (afterDigit : Bool) : dropLowLines digit? afterDigit t = some t := by
  induction t generalizing afterDigit with
  | nil => rfl
  | cons c t ih =>
    rw [List.mem_cons, not_or] at h
    unfold dropLowLines
    rw [if_neg (Ne.symm h.1), ih h.2, Option.map_some]

section Digits

variable {digit? : CodePoint → Option Nat} {l : List Char}

/-- Digits alone are a decimal. -/
theorem decimal?_digits (hne : l ≠ [])
    (hl : ∀ c ∈ l, digit? (CodePoint.ofChar c) = some (c.toNat - '0'.toNat)) (negative : Bool) :
    decimal? digit? negative (ofChars l) = some (.decimal negative (Nat.ofDigitChars 10 l 0) 0) := by
  have htake : takeDigits digit? (ofChars l) = (digitValues l, []) := by
    have hall := @Json.takeDigits_ofChars digit? l hl [] fun c hc => nomatch hc
    rwa [List.append_nil] at hall
  have hvalues : digitValues l ≠ [] := by simpa [digitValues] using hne
  unfold decimal?
  rw [htake]
  simp [hvalues, exponent?, Json.valueOfDigits_digitValues]

/-- What opens with a digit has no sign. -/
theorem takeSign_eq_self {t : Text} (h : ∀ c ∈ t.head?, 0x30 ≤ c.val) : takeSign t = (false, t) := by
  cases t with
  | nil => rfl
  | cons c t =>
    have hc : 0x30 ≤ c.val := h c rfl
    have hminus : c ≠ CodePoint.ofChar '-' := by
      rintro rfl
      revert hc
      decide
    have hplus : c ≠ CodePoint.ofChar '+' := by
      rintro rfl
      revert hc
      decide
    rw [takeSign, if_neg hminus, if_neg hplus]

/-- What does not open with a letter behind its sign is a decimal or nothing. -/
theorem plain?_of_head {t body : Text} {negative : Bool} (hsign : takeSign t = (negative, body))
    (hhead : ∀ c ∈ body.head?, c.val < 0x41) : plain? digit? t = decimal? digit? negative body := by
  have hword : ∀ first : Char, 0x41 ≤ first.toNat → ∀ more,
      body.map lowerAscii ≠ CodePoint.ofChar first :: more := by
    intro first hfirst more heq
    cases body with
    | nil => cases heq
    | cons c body =>
      have hc : c.val < 0x41 := hhead c rfl
      have hsame : lowerAscii c = c := if_neg (by omega)
      rw [List.map_cons, List.cons.injEq, hsame] at heq
      rw [heq.1] at hc
      exact absurd hfirst (Nat.not_le_of_lt hc)
  have hinf : body.map lowerAscii ≠ Text.ofString "inf" := hword 'i' (by decide) _
  have hinfinity : body.map lowerAscii ≠ Text.ofString "infinity" := hword 'i' (by decide) _
  have hnan : body.map lowerAscii ≠ Text.ofString "nan" := hword 'n' (by decide) _
  unfold plain?
  rw [hsign]
  dsimp only
  rw [if_neg (not_or.2 ⟨hinf, hinfinity⟩), if_neg hnan]

end Digits

/-- The numeral of an integer writes its sign and its digits. -/
theorem ofText?_ofInt (n : Int) :
    ofText? Text.decimalDigit? (Text.ofInt n) = some (.decimal (n < 0) n.natAbs 0) := by
  have hlow : CodePoint.ofChar '_' ∉ Text.ofInt n := fun h => by
    have hval := Text.val_of_mem_ofInt h
    revert hval
    decide
  have hhead : ∀ c ∈ (Text.ofNat n.natAbs).head?, 0x30 ≤ c.val ∧ c.val ≤ 0x39 := fun c hc =>
    Text.isDigit_of_mem_ofNat (List.mem_of_mem_head? hc)
  have hsign : takeSign (Text.ofInt n) = (decide (n < 0), Text.ofNat n.natAbs) := by
    unfold Text.ofInt
    split
    · next hneg => rw [decide_eq_true hneg]; rfl
    · next hneg => rw [decide_eq_false hneg, takeSign_eq_self fun c hc => (hhead c hc).1]
  have hletter : ∀ c ∈ (Text.ofNat n.natAbs).head?, c.val < 0x41 := fun c hc =>
    Nat.lt_of_le_of_lt (hhead c hc).2 (by decide)
  have hne : Nat.toDigits 10 n.natAbs ≠ [] := List.length_pos_iff.1 Nat.length_toDigits_pos
  rw [ofText?, dropLowLines_eq_self _ hlow, Option.bind_some, plain?_of_head hsign hletter]
  refine (decimal?_digits hne (fun c hc => ?_) _).trans ?_
  · exact Text.decimalDigit?_ofChar (Json.isDigit_toDigits _ c hc)
  · rw [Nat.ofDigitChars_ten_toDigits]

end Numeral

namespace Binary64

/-- Zero is read as zero. -/
theorem ofInt?_zero : ofInt? 0 = some (signedZero false) := by
  decide +kernel

/-- The numeral of an integer is rounded as the integer is. -/
theorem finite?_ofDecimal (n : Int) : (ofDecimal (n < 0) n.natAbs 0).finite? = ofInt? n := by
  rcases Nat.eq_zero_or_pos n.natAbs with hzero | hpos
  · obtain rfl : n = 0 := by omega
    rw [ofInt?_zero]
    decide +kernel
  · by_cases hlength : (Nat.toDigits 10 n.natAbs).length ≤ 310
    · rw [ofDecimal_eq_ofQuotient hpos.ne' (by omega) (by omega)]
      simp [ofInt?, ofIntQuotient?]
    · have hdigits : 10 ^ 310 ≤ n.natAbs := by
        by_contra hlt
        exact hlength (length_toDigits_le (by decide) (Nat.lt_of_not_le hlt))
      have hlarge : 2 ^ (52 + 973) ≤ n.natAbs := Nat.le_trans (by decide +kernel) hdigits
      rw [ofDecimal_eq_infinite hpos.ne' (by omega), ofInt?_eq_none hlarge]
      rfl

/-- The numeral of an integer, with its blanks off, is the number that the integer is read as. -/
theorem filter_ofText?_ofInt (n : Int) :
    (ofText? ((Text.ofInt n).trim Text.isBlank)).filter isFinite = ofInt? n := by
  have hblank : ∀ c ∈ Text.ofInt n, Text.isBlank c = false := fun c => Text.isBlank_of_mem_ofInt
  have hspace : ∀ c ∈ Text.ofInt n, Text.isWhiteSpace c = false := by
    intro c hc
    rw [Text.isWhiteSpace, hblank c hc, Bool.false_and]
  rw [Text.trim_eq_self hblank, ofText?, Text.trim_eq_self hspace, Numeral.ofText?_ofInt,
    Option.map_some, ← finite?_ofDecimal]
  rfl

end Binary64

end PipelineGraph
