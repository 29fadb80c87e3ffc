import PipelineGraph.Json.Token
import PipelineGraph.Proofs.Number.ShortestDigits

/-!
# Numbers in JSON texts

The text of an integer or of a finite number is scanned as that number, if what follows it cannot be
part of a number.
-/

namespace PipelineGraph.Json

open Numeral (takeDigits valueOfDigits signedValue)
open Text (asciiDigit?)

/-- What can follow a number: nothing that could be part of it. -/
def EndsNumber : Text → Prop
  | [] => True
  | c :: _ => asciiDigit? c = none ∧ c ≠ CodePoint.ofChar '.' ∧ c ≠ CodePoint.ofChar 'e' ∧
    c ≠ CodePoint.ofChar 'E'

/-- A text that does not open with a digit. -/
def EndsDigits : Text → Prop
  | [] => True
  | c :: _ => asciiDigit? c = none

/-- A point ends digits. -/
theorem endsDigits_point (t : Text) : EndsDigits (CodePoint.ofChar '.' :: t) :=
  rfl

/-- What ends a number ends digits. -/
theorem EndsNumber.endsDigits {t : Text} (h : EndsNumber t) : EndsDigits t := by
  cases t with
  | nil => trivial
  | cons c t => exact h.1

/-- Characters as code points. -/
def ofChars (l : List Char) : Text :=
  l.map CodePoint.ofChar

/-- The values of digits. -/
def digitValues (l : List Char) : List Nat :=
  l.map fun c => c.toNat - '0'.toNat

/-- The values of digits make up the number that the digits write. -/
theorem valueOfDigits_digitValues (l : List Char) :
    valueOfDigits (digitValues l) = Nat.ofDigitChars 10 l 0 := by
  rw [valueOfDigits, digitValues, List.foldl_map, Nat.ofDigitChars_eq_foldl]

/-- The values of digits are those of their parts. -/
theorem digitValues_append (l m : List Char) : digitValues (l ++ m) = digitValues l ++ digitValues m :=
  List.map_append

/-- The value of a digit. -/
theorem asciiDigit?_ofChar {c : Char} (h : c.isDigit = true) :
    asciiDigit? (CodePoint.ofChar c) = some (c.toNat - '0'.toNat) :=
  if_pos (CodePoint.val_of_isDigit h)

/-- All digits at the front of a text are taken, whatever other code points count as digits. -/
theorem takeDigits_ofChars {digit? : CodePoint → Option Nat} {l : List Char}
    (hl : ∀ c ∈ l, digit? (CodePoint.ofChar c) = some (c.toNat - '0'.toNat)) {rest : Text}
    (hrest : ∀ c ∈ rest.head?, digit? c = none) :
    takeDigits digit? (ofChars l ++ rest) = (digitValues l, rest) := by
  induction l with
  | nil =>
    cases rest with
    | nil => rfl
    | cons c rest =>
      have hc : digit? c = none := hrest c rfl
      change takeDigits digit? (c :: rest) = ([], c :: rest)
      simp [takeDigits, hc]
  | cons c l ih =>
    obtain ⟨hc, hl⟩ := List.forall_mem_cons.1 hl
    have htail := ih hl
    simp only [ofChars, List.map_cons, List.cons_append] at htail ⊢
    simp [takeDigits, hc, htail, digitValues]

/-- All digits at the front of a text are taken. -/
theorem takeDigits_append {l : List Char} (hl : ∀ c ∈ l, c.isDigit = true) {rest : Text}
    (hrest : EndsDigits rest) :
    takeDigits asciiDigit? (ofChars l ++ rest) = (digitValues l, rest) := by
  refine takeDigits_ofChars (fun c hc => asciiDigit?_ofChar (hl c hc)) ?_
  cases rest with
  | nil => exact fun c hc => nomatch hc
  | cons c rest => exact fun d hd => Option.some.inj hd ▸ hrest

/-- The first digit of a positive number is no zero. -/
theorem head?_toDigits {n : Nat} (hn : 0 < n) : (Nat.toDigits 10 n).head? ≠ some '0' := by
  induction n using Nat.strong_induction_on with
  | h n ih =>
    by_cases hlt : n < 10
    · have hdigit : ∀ d < 10, 0 < d → Nat.digitChar d ≠ '0' := by decide
      rw [Nat.toDigits_of_lt_base hlt, List.head?_cons]
      simpa using hdigit n hlt hn
    · have hne : Nat.toDigits 10 (n / 10) ≠ [] := List.length_pos_iff.1 Nat.length_toDigits_pos
      rw [Nat.toDigits_of_base_le (by decide) (by omega), List.head?_append_of_ne_nil _ hne]
      exact ih (n / 10) (by omega) (by omega)

/-- The digits of a number are digits. -/
theorem isDigit_toDigits (n : Nat) : ∀ c ∈ Nat.toDigits 10 n, c.isDigit = true := fun _ hc =>
  Nat.isDigit_of_mem_toDigits (by decide) (by decide) hc

/-- Zeros are digits. -/
theorem isDigit_zeros (n : Nat) : ∀ c ∈ List.replicate n '0', c.isDigit = true := by
  intro c hc
  rw [List.eq_of_mem_replicate hc]
  rfl

/-! ## Parts of numbers -/

/-- Digits that do not open with a zero are the whole part of a number. -/
theorem scanWhole_append {l : List Char} (hl : ∀ c ∈ l, c.isDigit = true) (hne : l ≠ [])
    (hhead : l.head? ≠ some '0') {rest : Text} (hrest : EndsDigits rest) :
    scanWhole (ofChars l ++ rest) = (digitValues l, rest) := by
  have htake := takeDigits_append hl hrest
  obtain ⟨c, l, rfl⟩ := List.exists_cons_of_ne_nil hne
  have hzero : CodePoint.ofChar c ≠ CodePoint.ofChar '0' := by
    intro h
    have hc : c ≠ '0' := by simpa using hhead
    have hval : c.toNat = '0'.toNat := congrArg CodePoint.val h
    exact hc (Char.ext (UInt32.toNat_inj.1 hval))
  simp only [ofChars, List.map_cons, List.cons_append] at htake ⊢
  rw [scanWhole, if_neg hzero, htake]

/-- Digits behind a point are the fraction of a number. -/
theorem scanFraction_append {l : List Char} (hl : ∀ c ∈ l, c.isDigit = true) (hne : l ≠ [])
    {rest : Text} (hrest : EndsDigits rest) :
    scanFraction (CodePoint.ofChar '.' :: (ofChars l ++ rest)) = (digitValues l, rest) := by
  obtain ⟨c, l, rfl⟩ := List.exists_cons_of_ne_nil hne
  simp [scanFraction, takeDigits_append hl hrest, digitValues]

/-- Without a point there is no fraction. -/
theorem scanFraction_none {rest : Text} (hrest : rest.head? ≠ some (CodePoint.ofChar '.')) :
    scanFraction rest = ([], rest) := by
  cases rest with
  | nil => rfl
  | cons c rest =>
    have hc : c ≠ CodePoint.ofChar '.' := by simpa using hrest
    simp [scanFraction, hc]

/-- Without a mark there is no exponent. -/
theorem scanExponent_none {rest : Text} (hrest : EndsNumber rest) : scanExponent rest = (none, rest) := by
  cases rest with
  | nil => rfl
  | cons c rest =>
    obtain ⟨-, -, hlower, hupper⟩ := hrest
    simp [scanExponent, hlower, hupper]

/-- Digits behind a mark and a sign are the exponent of a number. -/
theorem scanExponent_digits {sign : Char} (hsign : sign = '-' ∨ sign = '+') {l : List Char}
    (hl : ∀ c ∈ l, c.isDigit = true) (hne : l ≠ []) {rest : Text} (hrest : EndsDigits rest) :
    scanExponent (ofChars ('e' :: sign :: l) ++ rest) =
      (some (signedValue (sign = '-') (digitValues l)), rest) := by
  have htake := takeDigits_append hl hrest
  have htakeSign : ∀ t, Numeral.takeSign (CodePoint.ofChar sign :: t) = (decide (sign = '-'), t) := by
    intro t
    rcases hsign with rfl | rfl
    · rfl
    · rw [Numeral.takeSign, if_neg (by decide), if_pos rfl]
      rfl
  obtain ⟨c, l, rfl⟩ := List.exists_cons_of_ne_nil hne
  change scanExponent (CodePoint.ofChar 'e' :: CodePoint.ofChar sign :: (ofChars (c :: l) ++ rest)) = _
  rw [scanExponent, if_pos (Or.inl rfl), htakeSign]
  simp only [htake, digitValues, List.map_cons]

/-- The written form of an exponent is scanned as the exponent. -/
theorem scanExponent_text (layout : DecimalLayout) (exponent : Int) {rest : Text}
    (hrest : EndsDigits rest) :
    scanExponent (ofChars (Decimal.exponentText layout exponent) ++ rest) = (some exponent, rest) := by
  have hsign : (if exponent < 0 then '-' else '+') = '-' ∨ (if exponent < 0 then '-' else '+') = '+' := by
    split
    · exact Or.inl rfl
    · exact Or.inr rfl
  have hdigits : ∀ c ∈ List.replicate (layout.exponentWidth - (Nat.toDigits 10 exponent.natAbs).length) '0' ++
      Nat.toDigits 10 exponent.natAbs, c.isDigit = true :=
    List.forall_mem_append.2 ⟨isDigit_zeros _, isDigit_toDigits _⟩
  have hne : List.replicate (layout.exponentWidth - (Nat.toDigits 10 exponent.natAbs).length) '0' ++
      Nat.toDigits 10 exponent.natAbs ≠ [] :=
    List.append_ne_nil_of_right_ne_nil _ (List.length_pos_iff.1 Nat.length_toDigits_pos)
  rw [Decimal.exponentText, scanExponent_digits hsign hdigits hne hrest]
  have hvalue : signedValue (decide ((if exponent < 0 then '-' else '+') = '-'))
      (digitValues (List.replicate (layout.exponentWidth - (Nat.toDigits 10 exponent.natAbs).length) '0' ++
        Nat.toDigits 10 exponent.natAbs)) = exponent := by
    rw [signedValue, valueOfDigits_digitValues, Nat.ofDigitChars_append, Nat.ofDigitChars_replicate_zero,
      Nat.mul_zero, Nat.ofDigitChars_ten_toDigits]
    by_cases hneg : exponent < 0
    · rw [if_pos hneg, if_pos (by decide)]
      omega
    · rw [if_neg hneg, if_neg (by decide)]
      omega
  rw [hvalue]

/-! ## Numbers -/

/-- The number behind a sign and what follows it. -/
def scanMagnitude (negative : Bool) (t : Text) : Option (Value × Text) :=
  let (whole, rest) := scanWhole t
  if whole = [] then none
  else
    let (fraction, rest) := scanFraction rest
    let (exponent?, rest) := scanExponent rest
    if fraction = [] ∧ exponent? = none then
      some (.int (signedValue negative whole), rest)
    else
      let digits := valueOfDigits (whole ++ fraction)
      some (.float (.ofDecimal negative digits (exponent?.getD 0 - fraction.length)), rest)

/-- A minus makes a number negative. -/
theorem scanNumber_minus (t : Text) : scanNumber (CodePoint.ofChar '-' :: t) = scanMagnitude true t :=
  rfl

/-- What does not open with a minus is not negative. -/
theorem scanNumber_of_ne_minus {c : CodePoint} (hc : c ≠ CodePoint.ofChar '-') (t : Text) :
    scanNumber (c :: t) = scanMagnitude false (c :: t) := by
  unfold scanNumber scanMagnitude
  simp only [if_neg hc]

/-- A magnitude without a sign is a number. -/
theorem scanNumber_plain {t : Text} {result : Value × Text} (h : scanMagnitude false t = some result) :
    scanNumber t = some result := by
  cases t with
  | nil => cases h
  | cons c t =>
    have hc : c ≠ CodePoint.ofChar '-' := by
      rintro rfl
      cases h
    rw [scanNumber_of_ne_minus hc, h]

/-- The digits of a natural number are the whole part of a number. -/
theorem scanWhole_toDigits (n : Nat) {rest : Text} (hrest : EndsDigits rest) :
    scanWhole (ofChars (Nat.toDigits 10 n) ++ rest) = (digitValues (Nat.toDigits 10 n), rest) := by
  rcases Nat.eq_zero_or_pos n with rfl | hn
  · rfl
  · exact scanWhole_append (isDigit_toDigits n) (List.length_pos_iff.1 Nat.length_toDigits_pos)
      (head?_toDigits hn) hrest

/-- A number without fraction and exponent is an integer. -/
theorem scanMagnitude_int (negative : Bool) (n : Nat) {rest : Text} (hrest : EndsNumber rest) :
    scanMagnitude negative (Text.ofNat n ++ rest) =
      some (.int (if negative then -(n : Int) else n), rest) := by
  have hpoint : rest.head? ≠ some (CodePoint.ofChar '.') := by
    cases rest with
    | nil => exact fun h => nomatch h
    | cons c rest => simpa using hrest.2.1
  have hne : digitValues (Nat.toDigits 10 n) ≠ [] := by simp [digitValues]
  have hvalue : valueOfDigits (digitValues (Nat.toDigits 10 n)) = n := by
    rw [valueOfDigits_digitValues, Nat.ofDigitChars_ten_toDigits]
  have hwhole : scanWhole (Text.ofNat n ++ rest) = (digitValues (Nat.toDigits 10 n), rest) :=
    scanWhole_toDigits n hrest.endsDigits
  simp [scanMagnitude, hwhole, hne, scanFraction_none hpoint, scanExponent_none hrest, signedValue, hvalue]

/-- A number with a fraction or an exponent is a float, and its value is that of its digits. -/
theorem scanMagnitude_float {negative : Bool} {t behind middle rest : Text} {whole fraction : List Char}
    {exponent? : Option Int} (hwhole : scanWhole t = (digitValues whole, behind)) (hne : whole ≠ [])
    (hfraction : scanFraction behind = (digitValues fraction, middle))
    (hexponent : scanExponent middle = (exponent?, rest)) (hfloat : fraction ≠ [] ∨ exponent? ≠ none) :
    scanMagnitude negative t = some (.float (.ofDecimal negative
      (Nat.ofDigitChars 10 (whole ++ fraction) 0) (exponent?.getD 0 - fraction.length)), rest) := by
  have hwholeValues : digitValues whole ≠ [] := by simpa [digitValues] using hne
  have hfloatValues : ¬ (digitValues fraction = [] ∧ exponent? = none) := by
    rw [not_and_or]
    rcases hfloat with h | h
    · exact Or.inl (by simpa [digitValues] using h)
    · exact Or.inr h
  have hlength : (digitValues fraction).length = fraction.length := List.length_map _
  unfold scanMagnitude
  rw [hwhole]
  dsimp only
  rw [if_neg hwholeValues, hfraction]
  dsimp only
  rw [hexponent]
  dsimp only
  rw [if_neg hfloatValues, ← digitValues_append, valueOfDigits_digitValues, hlength]

section Layouts

variable {negative : Bool} {whole fraction : List Char} {rest : Text}

/-- Zeros and digits behind a point. -/
theorem scanMagnitude_below {digits : List Char} (hdigits : ∀ c ∈ digits, c.isDigit = true)
    (hne : digits ≠ []) (zeros : Nat) (hrest : EndsNumber rest) :
    scanMagnitude negative (ofChars ('0' :: '.' :: (List.replicate zeros '0' ++ digits)) ++ rest) =
      some (.float (.ofDecimal negative (Nat.ofDigitChars 10 digits 0) (-(zeros + digits.length : Nat))),
        rest) := by
  have hall := List.forall_mem_append.2 ⟨isDigit_zeros zeros, hdigits⟩
  have hfraction : List.replicate zeros '0' ++ digits ≠ [] := List.append_ne_nil_of_right_ne_nil _ hne
  have hnumber : Nat.ofDigitChars 10 (['0'] ++ (List.replicate zeros '0' ++ digits)) 0 =
      Nat.ofDigitChars 10 digits 0 := by
    rw [Nat.ofDigitChars_append, Nat.ofDigitChars_append, Nat.ofDigitChars_replicate_zero]
    rfl
  have hwhole : scanWhole (ofChars ('0' :: '.' :: (List.replicate zeros '0' ++ digits)) ++ rest) =
      (digitValues ['0'], CodePoint.ofChar '.' :: (ofChars (List.replicate zeros '0' ++ digits) ++ rest)) :=
    rfl
  rw [scanMagnitude_float hwhole (by decide) (scanFraction_append hall hfraction hrest.endsDigits)
    (scanExponent_none hrest) (Or.inl hfraction), hnumber]
  simp

/-- Digits and zeros before a point, and one zero behind it. -/
theorem scanMagnitude_whole (hwhole : ∀ c ∈ whole, c.isDigit = true) (hne : whole ≠ [])
    (hhead : whole.head? ≠ some '0') (zeros : Nat) (hrest : EndsNumber rest) :
    scanMagnitude negative (ofChars (whole ++ List.replicate zeros '0' ++ ['.', '0']) ++ rest) =
      some (.float (.ofDecimal negative (Nat.ofDigitChars 10 whole 0) zeros), rest) := by
  have hall := List.forall_mem_append.2 ⟨hwhole, isDigit_zeros zeros⟩
  have hzero : ∀ c ∈ ['0'], c.isDigit = true := isDigit_zeros 1
  have hnonempty : whole ++ List.replicate zeros '0' ≠ [] := List.append_ne_nil_of_left_ne_nil hne _
  have hnumber : Nat.ofDigitChars 10 (whole ++ List.replicate zeros '0' ++ ['0']) 0 =
      Nat.ofDigitChars 10 whole 0 * 10 ^ (zeros + 1) := by
    rw [List.append_assoc, ← List.replicate_succ', Nat.ofDigitChars_append, Nat.ofDigitChars_replicate_zero,
      Nat.mul_comm]
  have hsplit : ofChars (whole ++ List.replicate zeros '0' ++ ['.', '0']) ++ rest =
      ofChars (whole ++ List.replicate zeros '0') ++ (CodePoint.ofChar '.' :: (ofChars ['0'] ++ rest)) := by
    simp [ofChars]
  have hscale : (none : Option Int).getD 0 - (['0'] : List Char).length = (zeros : Int) - (zeros + 1 : Nat) := by
    simp
  rw [hsplit, scanMagnitude_float (scanWhole_append hall hnonempty (by rwa [List.head?_append_of_ne_nil _ hne])
    (endsDigits_point _)) hnonempty (scanFraction_append hzero (by decide) hrest.endsDigits) (scanExponent_none hrest)
    (Or.inl (by decide)), hnumber, hscale, Binary64.ofDecimal_mul_pow]

/-- Digits on both sides of a point. -/
theorem scanMagnitude_point (hwhole : ∀ c ∈ whole, c.isDigit = true) (hne : whole ≠ [])
    (hhead : whole.head? ≠ some '0') (hfraction : ∀ c ∈ fraction, c.isDigit = true)
    (hmore : fraction ≠ []) (hrest : EndsNumber rest) :
    scanMagnitude negative (ofChars (whole ++ '.' :: fraction) ++ rest) =
      some (.float (.ofDecimal negative (Nat.ofDigitChars 10 (whole ++ fraction) 0) (-(fraction.length : Nat))),
        rest) := by
  have hsplit : ofChars (whole ++ '.' :: fraction) ++ rest =
      ofChars whole ++ (CodePoint.ofChar '.' :: (ofChars fraction ++ rest)) := by
    simp [ofChars]
  rw [hsplit, scanMagnitude_float (scanWhole_append hwhole hne hhead (endsDigits_point _)) hne
    (scanFraction_append hfraction hmore hrest.endsDigits) (scanExponent_none hrest) (Or.inl hmore)]
  simp

/-- Digits, maybe with a point between them, and an exponent. -/
theorem scanMagnitude_scientific (hwhole : ∀ c ∈ whole, c.isDigit = true) (hne : whole ≠ [])
    (hhead : whole.head? ≠ some '0') (hfraction : ∀ c ∈ fraction, c.isDigit = true)
    (layout : DecimalLayout) (exponent : Int) (hrest : EndsNumber rest) :
    scanMagnitude negative (ofChars (whole ++ (if fraction.length = 0 then [] else '.' :: fraction) ++
        Decimal.exponentText layout exponent) ++ rest) =
      some (.float (.ofDecimal negative (Nat.ofDigitChars 10 (whole ++ fraction) 0)
        (exponent - (fraction.length : Nat))), rest) := by
  have hexponent := scanExponent_text layout exponent hrest.endsDigits
  have hmark : EndsDigits (ofChars (Decimal.exponentText layout exponent) ++ rest) := rfl
  by_cases hnil : fraction.length = 0
  · obtain rfl := List.length_eq_zero_iff.1 hnil
    have hsplit : ofChars (whole ++ [] ++ Decimal.exponentText layout exponent) ++ rest =
        ofChars whole ++ (ofChars (Decimal.exponentText layout exponent) ++ rest) := by
      simp [ofChars]
    have hpoint : (ofChars (Decimal.exponentText layout exponent) ++ rest).head? ≠
        some (CodePoint.ofChar '.') := by
      have hne : CodePoint.ofChar 'e' ≠ CodePoint.ofChar '.' := by decide
      simpa [ofChars, Decimal.exponentText] using hne
    have hnone : scanFraction (ofChars (Decimal.exponentText layout exponent) ++ rest) =
        (digitValues [], ofChars (Decimal.exponentText layout exponent) ++ rest) :=
      scanFraction_none hpoint
    rw [if_pos hnil, hsplit, scanMagnitude_float (scanWhole_append hwhole hne hhead hmark) hne hnone
      hexponent (Or.inr (by simp))]
    rfl
  · have hmore : fraction ≠ [] := fun h => hnil (List.length_eq_zero_iff.2 h)
    have hsplit : ofChars (whole ++ '.' :: fraction ++ Decimal.exponentText layout exponent) ++ rest =
        ofChars whole ++ (CodePoint.ofChar '.' ::
          (ofChars fraction ++ (ofChars (Decimal.exponentText layout exponent) ++ rest))) := by
      simp [ofChars]
    rw [if_neg hnil, hsplit, scanMagnitude_float (scanWhole_append hwhole hne hhead (endsDigits_point _)) hne
      (scanFraction_append hfraction hmore hmark) hexponent (Or.inl hmore)]
    rfl

end Layouts

/-- The text of a decimal is scanned as the number nearest to it. -/
theorem scanMagnitude_text {negative : Bool} {value : Nat} {exponent : Int} {rest : Text}
    (hvalue : 0 < value) (hrest : EndsNumber rest) :
    scanMagnitude negative
        (ofChars (Decimal.text .standard ⟨Nat.toDigits 10 value, exponent⟩) ++ rest) =
      some (.float (.ofDecimal negative value (exponent + 1 - (Nat.toDigits 10 value).length)), rest) := by
  have hdigits := isDigit_toDigits value
  have hne : Nat.toDigits 10 value ≠ [] := List.length_pos_iff.1 Nat.length_toDigits_pos
  have hhead := head?_toDigits hvalue
  have hnumber : Nat.ofDigitChars 10 (Nat.toDigits 10 value) 0 = value := Nat.ofDigitChars_ten_toDigits
  unfold Decimal.text
  dsimp only
  generalize Nat.toDigits 10 value = digits at *
  have htake : ∀ n, ∀ c ∈ digits.take n, c.isDigit = true := fun n c hc => hdigits c (List.mem_of_mem_take hc)
  have hdrop : ∀ n, ∀ c ∈ digits.drop n, c.isDigit = true := fun n c hc => hdigits c (List.mem_of_mem_drop hc)
  have hfirst : ∀ n, 0 < n → digits.take n ≠ [] ∧ (digits.take n).head? ≠ some '0' := by
    intro n hn
    obtain ⟨c, l, rfl⟩ := List.exists_cons_of_ne_nil hne
    obtain ⟨n, rfl⟩ := Nat.exists_eq_succ_of_ne_zero hn.ne'
    exact ⟨by simp, by simpa using hhead⟩
  by_cases hpositional : DecimalLayout.standard.leastPositional ≤ exponent ∧
      exponent < DecimalLayout.standard.firstScientific
  · rw [if_pos hpositional]
    by_cases hneg : exponent < 0
    · rw [if_pos hneg, scanMagnitude_below hdigits hne _ hrest, hnumber]
      congr 4
      omega
    · rw [if_neg hneg]
      by_cases hwhole : digits.length ≤ exponent.toNat + 1
      · rw [if_pos hwhole, scanMagnitude_whole hdigits hne hhead _ hrest, hnumber]
        congr 4
        omega
      · obtain ⟨htakeNe, htakeHead⟩ := hfirst (exponent.toNat + 1) (Nat.succ_pos _)
        have hdropNe : digits.drop (exponent.toNat + 1) ≠ [] := by
          rw [ne_eq, List.drop_eq_nil_iff]
          exact hwhole
        rw [if_neg hwhole, scanMagnitude_point (htake _) htakeNe htakeHead (hdrop _) hdropNe hrest,
          List.take_append_drop, hnumber, List.length_drop]
        congr 4
        omega
  · obtain ⟨htakeNe, htakeHead⟩ := hfirst 1 (by decide)
    have hone : (digits.length ≤ 1) = ((digits.drop 1).length = 0) := by
      rw [List.length_drop, Nat.sub_eq_zero_iff_le]
    have hpos := List.length_pos_iff.2 hne
    rw [if_neg hpositional]
    simp only [hone]
    rw [scanMagnitude_scientific (htake 1) htakeNe htakeHead (hdrop 1) _ _ hrest,
      List.take_append_drop, hnumber, List.length_drop]
    congr 4
    omega

/-- The text of an integer is scanned as that integer. -/
theorem scanNumber_ofInt (n : Int) {rest : Text} (hrest : EndsNumber rest) :
    scanNumber (Text.ofInt n ++ rest) = some (.int n, rest) := by
  unfold Text.ofInt
  split
  · next hneg =>
    have hvalue : -(n.natAbs : Int) = n := by omega
    have hmagnitude := scanMagnitude_int true n.natAbs hrest
    rw [if_pos rfl, hvalue] at hmagnitude
    exact (scanNumber_minus _).trans hmagnitude
  · next hneg =>
    have hvalue : (n.natAbs : Int) = n := by omega
    have hmagnitude := scanMagnitude_int false n.natAbs hrest
    rw [if_neg (by decide), hvalue] at hmagnitude
    exact scanNumber_plain hmagnitude

/-- The shortest decimal of a magnitude is scanned as the number of that magnitude. -/
theorem scanMagnitude_shortest (negative : Bool) (rank : Fin finiteMagnitudes) {rest : Text}
    (hrest : EndsNumber rest) :
    scanMagnitude negative (ofChars ((Binary64.shortest rank).text .standard) ++ rest) =
      some (.float (.finite negative rank), rest) := by
  by_cases hzero : rank.val = 0
  · have htext : (Binary64.shortest rank).text .standard = '0' :: '.' :: (List.replicate 0 '0' ++ ['0']) := by
      rw [Binary64.shortest, if_pos hzero]
      decide
    have hvalue : Binary64.ofDecimal negative (Nat.ofDigitChars 10 ['0'] 0)
        (-(0 + (['0'] : List Char).length : Nat)) = .finite negative rank := by
      have hnumber : Nat.ofDigitChars 10 ['0'] 0 = 0 := by decide
      rw [hnumber, Binary64.ofDecimal_eq_zero (Or.inl rfl), Binary64.signedZero,
        Binary64.ofRank_eq_finite_iff]
      exact hzero.symm
    have hdigit : ∀ c ∈ ['0'], c.isDigit = true := isDigit_zeros 1
    rw [htext, scanMagnitude_below hdigit (by decide) 0 hrest, hvalue]
  · obtain ⟨value, exponent, hvalue, hshortest, hreads⟩ := Binary64.shortest_spec hzero
    rw [hshortest, scanMagnitude_text hvalue hrest, hreads]

/-- The text of a finite number is scanned as that number. -/
theorem scanNumber_text {x : Binary64} (hx : x.isFinite = true) {rest : Text} (hrest : EndsNumber rest) :
    scanNumber (x.text ++ rest) = some (.float x, rest) := by
  cases x with
  | nan => cases hx
  | infinite negative => cases hx
  | finite negative rank =>
    have hmagnitude := scanMagnitude_shortest negative rank hrest
    cases negative with
    | false => exact scanNumber_plain hmagnitude
    | true => exact (scanNumber_minus _).trans hmagnitude

end PipelineGraph.Json
