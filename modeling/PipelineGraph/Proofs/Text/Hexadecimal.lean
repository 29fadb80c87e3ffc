import PipelineGraph.Json.Token
import Mathlib.Data.Nat.Digits.Defs

/-!
# Hexadecimal numerals

A number that is written with hexadecimal digits is read back from them.
-/

namespace PipelineGraph.Text

open Json (hexDigit?)

/-- The number that hexadecimal digits write behind a number that is already read. -/
def hexValueFrom (value : Nat) : Text → Option Nat
  | [] => some value
  | c :: rest => (hexDigit? c).bind fun digit => hexValueFrom (value * 16 + digit) rest

/-- The digits of two texts count one after the other. -/
theorem hexValueFrom_append (value : Nat) (s t : Text) :
    hexValueFrom value (s ++ t) = (hexValueFrom value s).bind fun v => hexValueFrom v t := by
  induction s generalizing value with
  | nil => rfl
  | cons c rest ih =>
    cases h : hexDigit? c with
    | none => simp [hexValueFrom, h]
    | some digit => simp [hexValueFrom, h, ih]

/-- A hexadecimal digit is read back. -/
theorem hexDigit?_digitChar {digit : Nat} (h : digit < 16) :
    hexDigit? (CodePoint.ofChar digit.digitChar) = some digit := by
  revert digit
  decide

/-- The hexadecimal digits of a number are read back. -/
theorem hexValueFrom_toDigits (n : Nat) :
    hexValueFrom 0 ((Nat.toDigits 16 n).map CodePoint.ofChar) = some n := by
  induction n using Nat.strong_induction_on with
  | h n ih =>
    by_cases hlt : n < 16
    · simp [Nat.toDigits_of_lt_base hlt, hexValueFrom, hexDigit?_digitChar hlt]
    · have hdigit := hexDigit?_digitChar (Nat.mod_lt n (by decide : 0 < 16))
      rw [Nat.toDigits_of_base_le (by decide) (by omega), List.map_append, hexValueFrom_append,
        ih (n / 16) (by omega)]
      simp only [Option.bind_some, List.map_cons, List.map_nil, hexValueFrom, hdigit]
      rw [Nat.div_add_mod' n 16]

/-- Zeros in front change nothing. -/
theorem hexValueFrom_zeros (count : Nat) (t : Text) :
    hexValueFrom 0 (List.replicate count (CodePoint.ofChar '0') ++ t) = hexValueFrom 0 t := by
  induction count with
  | zero => rfl
  | succ count ih =>
    rw [List.replicate_succ, List.cons_append, hexValueFrom]
    exact ih

/-- A numeral has its width if the number fits. -/
theorem length_hex {width n : Nat} (hwidth : 0 < width) (h : n < 16 ^ width) :
    (hex width n).length = width := by
  have hle := (Nat.length_toDigits_le_iff (by decide : 1 < 16) hwidth).2 h
  simp only [hex, List.length_append, List.length_replicate, List.length_map]
  omega

/-- The number of a numeral is read back. -/
theorem hexValueFrom_hex (width n : Nat) : hexValueFrom 0 (hex width n) = some n := by
  rw [hex, hexValueFrom_zeros, hexValueFrom_toDigits]

/-- A code point that is a hexadecimal digit in lower case. -/
def IsHexDigit (c : CodePoint) : Prop :=
  0x30 ≤ c.val ∧ c.val ≤ 0x39 ∨ 0x61 ≤ c.val ∧ c.val ≤ 0x66

instance : DecidablePred IsHexDigit :=
  fun c => inferInstanceAs (Decidable (0x30 ≤ c.val ∧ c.val ≤ 0x39 ∨ 0x61 ≤ c.val ∧ c.val ≤ 0x66))

/-- A numeral holds nothing but hexadecimal digits. -/
theorem isHexDigit_of_mem_hex {width n : Nat} : ∀ c ∈ hex width n, IsHexDigit c := by
  have hdigits : ∀ n, ∀ c ∈ (Nat.toDigits 16 n).map CodePoint.ofChar, IsHexDigit c := by
    intro n
    induction n using Nat.strong_induction_on with
    | h n ih =>
      have hdigit : ∀ d < 16, IsHexDigit (CodePoint.ofChar (Nat.digitChar d)) := by decide
      by_cases hlt : n < 16
      · rw [Nat.toDigits_of_lt_base hlt, List.map_cons, List.map_nil, List.forall_mem_singleton]
        exact hdigit n hlt
      · rw [Nat.toDigits_of_base_le (by decide) (by omega), List.map_append, List.forall_mem_append]
        refine ⟨ih (n / 16) (by omega), ?_⟩
        rw [List.map_cons, List.map_nil, List.forall_mem_singleton]
        exact hdigit _ (Nat.mod_lt n (by decide))
  rw [hex, List.forall_mem_append]
  refine ⟨fun c hc => ?_, hdigits n⟩
  rw [List.eq_of_mem_replicate hc]
  decide

end PipelineGraph.Text
