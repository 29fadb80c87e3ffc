import PipelineGraph.Json.Writer
import PipelineGraph.Proofs.Text.Hexadecimal

/-!
# Strings in JSON texts

The JSON string of a text is scanned as that text.
-/

namespace PipelineGraph.Json

open Text (hexValueFrom)

variable {start offset : Nat} {c : CodePoint} {rest content : Text} {width : Nat}

/-- Four hexadecimal digits name the code point of their number. -/
theorem hexCode?_of_hexValueFrom {a b c d : CodePoint} {n : Nat} (h : hexValueFrom 0 [a, b, c, d] = some n) :
    hexCode? a b c d = some (.ofNat n) := by
  simp only [hexValueFrom, Option.bind_eq_some_iff, Nat.zero_mul, Nat.zero_add, Option.some.injEq] at h
  obtain ⟨first, ha, second, hb, third, hc, fourth, hd, rfl⟩ := h
  simp [hexCode?, ha, hb, hc, hd]

/-- A code point that stands for itself is scanned as itself. -/
theorem scanString_plain (hquote : c ≠ CodePoint.ofChar '"') (hslash : c ≠ CodePoint.ofChar '\\')
    (hcontrol : ¬ c.val < 0x20) (h : scanString start (offset + 1) rest = .ok (content, width)) :
    scanString start offset (c :: rest) = .ok (c :: content, width + 1) := by
  rw [scanString.eq_def]
  simp only [if_neg hquote, if_neg hslash, if_neg hcontrol, h]
  rfl

/-- A backslash and a letter are scanned as what they stand for. -/
theorem scanString_short {e code : CodePoint} (hletter : e ≠ CodePoint.ofChar 'u')
    (hescape : shortEscape? e = some code) (h : scanString start (offset + 2) rest = .ok (content, width)) :
    scanString start offset (CodePoint.ofChar '\\' :: e :: rest) = .ok (code :: content, width + 2) := by
  have hquote : CodePoint.ofChar '\\' ≠ CodePoint.ofChar '"' := by decide
  rw [scanString.eq_def]
  simp only [if_neg hquote, if_pos, if_neg hletter, hescape, h]
  rfl

/-- The escape of a code point by its number is scanned as that code point. -/
theorem scanString_code {code : CodePoint} (hcode : code.val < 0x20) (hrest : rest ≠ [])
    (h : scanString start (offset + 6) rest = .ok (content, width)) :
    scanString start offset ("\\u" ++ Text.hex 4 code.val ++ rest) = .ok (code :: content, width + 6) := by
  have hlength : (Text.hex 4 code.val).length = 4 := Text.length_hex (by decide) (by omega)
  have hvalue := Text.hexValueFrom_hex 4 code.val
  match hdigits : Text.hex 4 code.val, hlength, hvalue with
  | [a, b, c, d], _, hvalue =>
    obtain ⟨f, rest, rfl⟩ := List.exists_cons_of_ne_nil hrest
    have hname : hexCode? a b c d = some code := by
      rw [hexCode?_of_hexValueFrom hvalue]
      simp [CodePoint.ofNat, code.isLt]
    have hlow : code.isHighSurrogate = false := by
      simp only [CodePoint.isHighSurrogate, Bool.and_eq_false_iff, decide_eq_false_iff_not]
      omega
    have hprepend : prependEscaped code (f :: rest) content = code :: content := by
      cases content with
      | nil => rfl
      | cons low more => simp [prependEscaped, hlow]
    change scanString start offset (CodePoint.ofChar '\\' :: CodePoint.ofChar 'u' :: a :: b :: c :: d :: f :: rest) = _
    have hquote : CodePoint.ofChar '\\' ≠ CodePoint.ofChar '"' := by decide
    rw [scanString.eq_def]
    simp only [if_neg hquote, if_pos, hname, h]
    change Except.ok (prependEscaped code (f :: rest) content, width + 6) = _
    rw [hprepend]

/-- The closing quote ends a string. -/
theorem scanString_quote (start offset : Nat) (rest : Text) :
    scanString start offset (CodePoint.ofChar '"' :: rest) = .ok ([], 1) := by
  rw [scanString.eq_def]
  exact if_pos rfl

/-- The content of the JSON string of a text is scanned as the text. -/
theorem scanString_flatMap (t : Text) (start offset : Nat) (rest : Text) :
    scanString start offset (t.flatMap escapeOne ++ CodePoint.ofChar '"' :: rest) =
      .ok (t, (t.flatMap escapeOne).length + 1) := by
  induction t generalizing offset with
  | nil => exact scanString_quote start offset rest
  | cons c t ih =>
    have hne : t.flatMap escapeOne ++ CodePoint.ofChar '"' :: rest ≠ [] := by simp
    have hshort : ∀ (e : CodePoint), e ≠ CodePoint.ofChar 'u' → shortEscape? e = some c →
        escapeOne c = [CodePoint.ofChar '\\', e] →
        scanString start offset ((c :: t).flatMap escapeOne ++ CodePoint.ofChar '"' :: rest) =
          .ok (c :: t, ((c :: t).flatMap escapeOne).length + 1) := by
      intro e hletter hescape hone
      rw [List.flatMap_cons, hone]
      exact scanString_short hletter hescape (ih (offset + 2))
    by_cases hquote : c = CodePoint.ofChar '"'
    · exact hshort '"' (by decide) (by rw [hquote]; decide) (by rw [hquote]; decide)
    by_cases hslash : c = CodePoint.ofChar '\\'
    · exact hshort '\\' (by decide) (by rw [hslash]; decide) (by rw [hslash]; decide)
    by_cases hfeed : c = CodePoint.ofChar '\n'
    · exact hshort 'n' (by decide) (by rw [hfeed]; decide) (by rw [hfeed]; decide)
    by_cases hreturn : c = CodePoint.ofChar '\r'
    · exact hshort 'r' (by decide) (by rw [hreturn]; decide) (by rw [hreturn]; decide)
    by_cases htab : c = CodePoint.ofChar '\t'
    · exact hshort 't' (by decide) (by rw [htab]; decide) (by rw [htab]; decide)
    by_cases hback : c = CodePoint.ofNat 0x08
    · exact hshort 'b' (by decide) (by rw [hback]; decide) (by rw [hback]; decide)
    by_cases hform : c = CodePoint.ofNat 0x0C
    · exact hshort 'f' (by decide) (by rw [hform]; decide) (by rw [hform]; decide)
    have hval : ∀ n, n < 0x20 → c ≠ CodePoint.ofNat n → c.val ≠ n := by
      rintro n hn hne rfl
      exact hne (by simp [CodePoint.ofNat, c.isLt])
    rw [List.flatMap_cons, List.append_assoc, List.length_append]
    simp only [escapeOne, if_neg hquote, if_neg hslash, if_neg hfeed, if_neg hreturn, if_neg htab,
      if_neg (hval 0x08 (by decide) hback), if_neg (hval 0x0C (by decide) hform)]
    by_cases hcontrol : c.val < 0x20
    · have hlength : ("\\u" ++ Text.hex 4 c.val : Text).length = 6 := by
        rw [List.length_append, Text.length_hex (by decide) (by omega)]
        decide
      rw [if_pos hcontrol, scanString_code hcontrol hne (ih (offset + 6)), hlength]
      congr 2
      omega
    · rw [if_neg hcontrol]
      refine (scanString_plain hquote hslash hcontrol (ih (offset + 1))).trans ?_
      congr 2
      simp only [List.length_cons, List.length_nil]
      omega

end PipelineGraph.Json
