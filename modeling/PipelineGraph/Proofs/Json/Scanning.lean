import PipelineGraph.Proofs.Json.Every
import PipelineGraph.Proofs.Json.Numbers
import PipelineGraph.Proofs.Json.Strings

/-!
# Scanning written values

The text of a value is scanned as a row of tokens that depends on the value alone, whatever the
indentation and wherever the text stands, if all its numbers are finite.
-/

namespace PipelineGraph

namespace Json

/-- Tokens with commas between them. -/
def commaTokens (parts : List (List Token)) : List Token :=
  [Token.comma].intercalate parts

mutual

/-- The tokens of a value. -/
def tokensOf : Value → List Token
  | .text t => [.text t]
  | .list items => .openBracket :: commaTokens (itemTokens items) ++ [.closeBracket]
  | .object fields => .openBrace :: commaTokens (fieldTokens fields) ++ [.closeBrace]
  | v => [.scalar v]

/-- The tokens of each item of a list. -/
def itemTokens : List Value → List (List Token)
  | [] => []
  | item :: rest => tokensOf item :: itemTokens rest

/-- The tokens of each field of an object. -/
def fieldTokens : List (Text × Value) → List (List Token)
  | [] => []
  | (key, value) :: rest => (.text key :: .colon :: tokensOf value) :: fieldTokens rest

end

/-- A text is scanned as some tokens wherever it stands, if what follows has a property. -/
def ScansBefore (P : Text → Prop) (t : Text) (tokens : List Token) : Prop :=
  ∀ offset rest, P rest → ∃ ls : List Lexeme, ls.map (·.token) = tokens ∧
    lexemesFrom 0 offset (t ++ rest) = ls ++ lexemesFrom 0 (offset + t.length) rest

/-- A text is scanned as some tokens wherever it stands, if a number may end behind it. -/
def Scans (t : Text) (tokens : List Token) : Prop :=
  ScansBefore EndsNumber t tokens

/-- A text is scanned as some tokens wherever it stands and whatever follows. -/
def ScansAlways (t : Text) (tokens : List Token) : Prop :=
  ScansBefore (fun _ => True) t tokens

section Composition

variable {P Q : Text → Prop} {s t : Text} {first second : List Token}

/-- Texts behind one another are scanned one after another. -/
theorem ScansBefore.append (hs : ScansBefore P s first) (ht : ScansBefore Q t second)
    (h : ∀ rest, Q rest → P (t ++ rest)) : ScansBefore Q (s ++ t) (first ++ second) := by
  intro offset rest hrest
  obtain ⟨ls, hls, hscan⟩ := hs offset (t ++ rest) (h rest hrest)
  obtain ⟨more, hmore, hend⟩ := ht (offset + s.length) rest hrest
  refine ⟨ls ++ more, by rw [List.map_append, hls, hmore], ?_⟩
  rw [List.append_assoc, hscan, hend, List.append_assoc, List.length_append, Nat.add_assoc]

/-- What is scanned before anything is scanned before what ends it. -/
theorem ScansAlways.scans (h : ScansAlways t first) : Scans t first := fun offset rest _ =>
  h offset rest trivial

/-- What is scanned whatever follows may be followed by any text. -/
theorem ScansAlways.append (hs : ScansAlways s first) (ht : Scans t second) :
    Scans (s ++ t) (first ++ second) :=
  ScansBefore.append hs ht fun _ _ => trivial

/-- Texts that are scanned whatever follows make such a text. -/
theorem ScansAlways.append_always (hs : ScansAlways s first) (ht : ScansAlways t second) :
    ScansAlways (s ++ t) (first ++ second) :=
  ScansBefore.append hs ht fun _ _ => trivial

/-- A number may end in front of a text that does not open like part of one. -/
theorem Scans.append (hs : Scans s first) (ht : ScansAlways t second) (hne : t ≠ [])
    (hend : EndsNumber t) : ScansAlways (s ++ t) (first ++ second) := by
  apply ScansBefore.append hs ht
  intro rest _
  cases t with
  | nil => exact absurd rfl hne
  | cons c t => exact hend

end Composition

/-! ## Single tokens -/

/-- What belongs to a token is passed over. -/
theorem lexemesFrom_skip (t rest : Text) (offset : Nat) :
    lexemesFrom t.length offset (t ++ rest) = lexemesFrom 0 (offset + t.length) rest := by
  induction t generalizing offset with
  | nil => rfl
  | cons c t ih =>
    rw [List.cons_append, lexemesFrom, if_pos (by simp)]
    simp only [List.length_cons, Nat.add_sub_cancel]
    rw [ih (offset + 1)]
    congr 1
    omega

/-- A text of one token. -/
theorem lexemesFrom_token {c : CodePoint} {t rest : Text} {offset : Nat} {token : Token}
    (hblank : isBlank c = false) (h : scanToken offset c (t ++ rest) = (token, t.length + 1)) :
    lexemesFrom 0 offset (c :: t ++ rest) =
      ⟨offset, token⟩ :: lexemesFrom 0 (offset + (c :: t).length) rest := by
  rw [List.cons_append, lexemesFrom, if_neg (by decide), if_neg (by simp [hblank]), h]
  dsimp only
  rw [Nat.add_sub_cancel, lexemesFrom_skip]
  congr 2
  rw [List.length_cons]
  omega

/-- A text that is one token whatever follows. -/
theorem ScansAlways.of_token {c : CodePoint} {t : Text} {token : Token} (hblank : isBlank c = false)
    (h : ∀ offset rest, scanToken offset c (t ++ rest) = (token, t.length + 1)) :
    ScansAlways (c :: t) [token] := fun offset rest _ =>
  ⟨[⟨offset, token⟩], rfl, lexemesFrom_token hblank (h offset rest)⟩

/-- Blanks are no tokens. -/
theorem ScansAlways.of_blanks {t : Text} (h : ∀ c ∈ t, isBlank c = true) : ScansAlways t [] := by
  intro offset rest _
  refine ⟨[], rfl, ?_⟩
  induction t generalizing offset with
  | nil => rfl
  | cons c t ih =>
    obtain ⟨hc, ht⟩ := List.forall_mem_cons.1 h
    rw [List.cons_append, lexemesFrom, if_neg (by decide), if_pos hc, ih ht]
    simp only [List.nil_append, List.length_cons]
    congr 1
    omega

/-- What a quote opens is the string behind it. -/
theorem scanToken_quote {offset width : Nat} {rest t : Text}
    (h : scanString offset (offset + 1) rest = .ok (t, width)) :
    scanToken offset '"' rest = (.text t, width + 1) := by
  rw [scanToken, if_neg (by decide), if_neg (by decide), if_neg (by decide), if_neg (by decide),
    if_neg (by decide), if_neg (by decide), if_pos rfl, h]

/-- The JSON string of a text is one token. -/
theorem scansAlways_writeText (t : Text) : ScansAlways (writeText t) [.text t] := by
  have htext : writeText t = CodePoint.ofChar '"' :: (t.flatMap escapeOne ++ [CodePoint.ofChar '"']) := rfl
  rw [htext]
  apply ScansAlways.of_token (by decide)
  intro offset rest
  rw [List.append_assoc, List.singleton_append, List.length_append]
  exact scanToken_quote (scanString_flatMap t _ _ rest)

/-- The words of JSON are scalars. -/
theorem scansAlways_null : ScansAlways "null" [.scalar .null] :=
  ScansAlways.of_token (by decide) fun _ _ => rfl

/-- The word for true is scanned. -/
theorem scansAlways_true : ScansAlways "true" [.scalar (.bool true)] :=
  ScansAlways.of_token (by decide) fun _ _ => rfl

/-- The word for false is scanned. -/
theorem scansAlways_false : ScansAlways "false" [.scalar (.bool false)] :=
  ScansAlways.of_token (by decide) fun _ _ => rfl

/-! ## Numbers -/

/-- A number that is not negative opens with a digit. -/
theorem opens_of_scanMagnitude {negative : Bool} {t : Text} {result : Value × Text}
    (h : scanMagnitude negative t = some result) :
    ∃ c rest, t = c :: rest ∧ (Text.asciiDigit? c).isSome = true := by
  cases t with
  | nil => cases h
  | cons c rest =>
    refine ⟨c, rest, rfl, ?_⟩
    by_contra hdigit
    have hnone : Text.asciiDigit? c = none := by simpa using hdigit
    have hzero : c ≠ CodePoint.ofChar '0' := by
      rintro rfl
      cases hnone
    have hwhole : scanWhole (c :: rest) = ([], c :: rest) := by
      rw [scanWhole, if_neg hzero]
      simp [Numeral.takeDigits, hnone]
    rw [scanMagnitude, hwhole] at h
    cases h

/-- A number opens with a digit, or with a minus and a digit. -/
theorem opens_of_scanNumber {t : Text} {result : Value × Text} (h : scanNumber t = some result) :
    ∃ c rest, t = c :: rest ∧ ((Text.asciiDigit? c).isSome = true ∨ c = CodePoint.ofChar '-' ∧
      ∃ d more, rest = d :: more ∧ (Text.asciiDigit? d).isSome = true) := by
  cases t with
  | nil => cases h
  | cons c rest =>
    refine ⟨c, rest, rfl, ?_⟩
    by_cases hc : c = CodePoint.ofChar '-'
    · rw [hc, scanNumber_minus] at h
      exact Or.inr ⟨hc, opens_of_scanMagnitude h⟩
    · rw [scanNumber_of_ne_minus hc] at h
      obtain ⟨d, more, heq, hd⟩ := opens_of_scanMagnitude h
      rw [(List.cons.inj heq).1]
      exact Or.inl hd

/-- The number of a digit. -/
theorem val_of_asciiDigit? {c : CodePoint} (h : (Text.asciiDigit? c).isSome = true) :
    0x30 ≤ c.val ∧ c.val ≤ 0x39 := by
  unfold Text.asciiDigit? at h
  split at h
  · next hc => exact hc
  · cases h

/-- No word of JSON opens like a number. -/
theorem find?_wordScalars {t : Text} {result : Value × Text} (h : scanNumber t = some result) :
    wordScalars.find? (fun w => Text.startsWith t w.1) = none := by
  obtain ⟨c, rest, rfl, hopen⟩ := opens_of_scanNumber h
  rw [List.find?_eq_none]
  intro w hw
  obtain ⟨a, b, l, hword, ha, hb⟩ : ∃ a b l, Text.ofString w.1 = a :: b :: l ∧
      Text.asciiDigit? a = none ∧ Text.asciiDigit? b = none := by
    simp only [wordScalars, List.mem_cons, List.not_mem_nil, or_false] at hw
    rcases hw with rfl | rfl | rfl | rfl | rfl | rfl <;> exact ⟨_, _, _, rfl, by decide, by decide⟩
  rw [Text.startsWith, hword]
  rcases hopen with hc | ⟨-, d, more, rfl, hd⟩
  · have hne : a ≠ c := by
      rintro rfl
      rw [ha] at hc
      cases hc
    simp [List.isPrefixOf, hne]
  · have hne : b ≠ d := by
      rintro rfl
      rw [hb] at hd
      cases hd
    simp [List.isPrefixOf, hne]

/-- A number is one token. -/
theorem Scans.of_number {t : Text} {v : Value}
    (h : ∀ rest, EndsNumber rest → scanNumber (t ++ rest) = some (v, rest)) : Scans t [.scalar v] := by
  intro offset rest hrest
  have hnumber := h rest hrest
  have hword := find?_wordScalars hnumber
  obtain ⟨c, behind, heq, hopen⟩ := opens_of_scanNumber hnumber
  have hval : c.val = 0x2D ∨ 0x30 ≤ c.val ∧ c.val ≤ 0x39 := by
    rcases hopen with hc | ⟨rfl, -⟩
    · exact Or.inr (val_of_asciiDigit? hc)
    · exact Or.inl rfl
  have hne : ∀ d : CodePoint, (d.val < 0x2D ∨ 0x39 < d.val) → c ≠ d := by
    rintro d hd rfl
    omega
  cases t with
  | nil => cases h [] trivial
  | cons d t =>
    obtain ⟨rfl, rfl⟩ := List.cons.inj heq
    refine ⟨[⟨offset, .scalar v⟩], rfl, lexemesFrom_token ?_ ?_⟩
    · simp [isBlank, hne ' ' (by decide), hne '\t' (by decide), hne '\n' (by decide),
        hne '\r' (by decide)]
    · rw [List.cons_append] at hword hnumber
      rw [scanToken, if_neg (hne '[' (by decide)), if_neg (hne ']' (by decide)),
        if_neg (hne _ (by decide)), if_neg (hne _ (by decide)), if_neg (hne ',' (by decide)),
        if_neg (hne ':' (by decide)), if_neg (hne '"' (by decide)), hword]
      simp only [hnumber, List.length_append]
      congr 1
      omega

/-! ## Values -/

/-- Line breaks and indentation are blank. -/
theorem scansAlways_breakLine (indent depth : Nat) : ScansAlways (breakLine indent depth) [] := by
  apply ScansAlways.of_blanks
  refine List.forall_mem_cons.2 ⟨by decide, fun c hc => ?_⟩
  rw [List.eq_of_mem_replicate hc]
  decide

/-- A comma and a line break are one token. -/
theorem scansAlways_comma (indent depth : Nat) : ScansAlways ("," ++ breakLine indent depth) [.comma] :=
  ScansAlways.append_always (ScansAlways.of_token (by decide) fun _ _ => rfl)
    (scansAlways_breakLine indent depth)

/-- Parts with commas and line breaks between them. -/
theorem scans_join {indent depth : Nat} {parts : List Text} {tokens : List (List Token)}
    (h : List.Forall₂ Scans parts tokens) :
    Scans (Text.join ("," ++ breakLine indent depth) parts) (commaTokens tokens) := by
  have hcomma := scansAlways_comma indent depth
  have hend : EndsNumber ("," ++ breakLine indent depth) := by
    refine ⟨by decide, by decide, by decide, by decide⟩
  induction h with
  | nil => exact (ScansAlways.of_blanks (List.forall_mem_nil _)).scans
  | @cons part token parts tokens hpart hparts ih =>
    cases hparts with
    | nil =>
      rw [Text.join, List.intercalate_singleton, commaTokens, List.intercalate_singleton]
      exact hpart
    | cons hnext hrest =>
      rw [Text.join, List.intercalate_cons_cons, commaTokens, List.intercalate_cons_cons]
      exact (hpart.append hcomma (List.cons_ne_nil _ _) hend).append ih

/-- Parts between brackets are scanned as their tokens with commas between them. -/
theorem scans_writeBlock {indent depth : Nat} {opening closing : Text} {first last : Token}
    {parts : List Text} {tokens : List (List Token)} (hopening : ScansAlways opening [first])
    (hclosing : ScansAlways closing [last]) (h : List.Forall₂ Scans parts tokens) :
    ScansAlways (writeBlock indent depth opening closing parts)
      (first :: commaTokens tokens ++ [last]) := by
  unfold writeBlock
  split
  · next hnil =>
    rw [List.isEmpty_iff.1 hnil] at h
    cases h
    exact hopening.append_always hclosing
  · have hjoin : Scans (Text.join ("," ++ breakLine indent (depth + 1)) parts) (commaTokens tokens) :=
      scans_join h
    have hfront := (hopening.append_always (scansAlways_breakLine indent (depth + 1))).append hjoin
    have hback := (scansAlways_breakLine indent depth).append_always hclosing
    have hend : EndsNumber (breakLine indent depth ++ closing) :=
      ⟨by decide, by decide, by decide, by decide⟩
    rw [List.append_assoc _ (breakLine indent depth)]
    exact hfront.append hback (List.cons_ne_nil _ _) hend

end Json

/-- Whether a value is finite if it is a number. -/
def Value.isFinite : Value → Bool
  | .float x => x.isFinite
  | _ => true

namespace Json

/-- A finite number is written as its text. -/
theorem writeFloat_of_isFinite {x : Binary64} (h : x.isFinite = true) : writeFloat x = x.text := by
  cases x with
  | nan => cases h
  | infinite negative => cases h
  | finite negative rank => rfl

mutual

/-- The text of a value is scanned as the tokens of the value. -/
theorem scans_writeAt (indent depth : Nat) {v : Value} (hv : v.every Value.isFinite = true) :
    Scans (writeAt indent depth v) (tokensOf v) := by
  cases v with
  | null => exact scansAlways_null.scans
  | bool b =>
    cases b with
    | false => exact scansAlways_false.scans
    | true => exact scansAlways_true.scans
  | int n => exact Scans.of_number fun _ hrest => scanNumber_ofInt n hrest
  | float x =>
    rw [writeAt, writeFloat_of_isFinite hv]
    exact Scans.of_number fun _ hrest => scanNumber_text hv hrest
  | text t => exact (scansAlways_writeText t).scans
  | list items =>
    exact (scans_writeBlock (ScansAlways.of_token (by decide) fun _ _ => rfl)
      (ScansAlways.of_token (by decide) fun _ _ => rfl) (scans_writeItems indent (depth + 1)
        (Value.every_list.1 hv).2)).scans
  | object fields =>
    exact (scans_writeBlock (ScansAlways.of_token (by decide) fun _ _ => rfl)
      (ScansAlways.of_token (by decide) fun _ _ => rfl) (scans_writeFields indent (depth + 1)
        (Value.every_object.1 hv).2)).scans

/-- The texts of the items of a list are scanned as the tokens of the items. -/
theorem scans_writeItems (indent depth : Nat) {items : List Value}
    (h : Value.everyItem Value.isFinite items = true) :
    List.Forall₂ Scans (writeItems indent depth items) (itemTokens items) := by
  match items with
  | [] => exact .nil
  | item :: rest =>
    obtain ⟨hitem, hrest⟩ := Value.everyItem_cons.1 h
    exact .cons (scans_writeAt indent depth hitem) (scans_writeItems indent depth hrest)

/-- The texts of the fields of an object are scanned as the tokens of the fields. -/
theorem scans_writeFields (indent depth : Nat) {fields : List (Text × Value)}
    (h : Value.everyField Value.isFinite fields = true) :
    List.Forall₂ Scans (writeFields indent depth fields) (fieldTokens fields) := by
  match fields with
  | [] => exact .nil
  | (key, value) :: rest =>
    obtain ⟨hvalue, hrest⟩ := Value.everyField_cons.1 h
    refine .cons ?_ (scans_writeFields indent depth hrest)
    have hcolon : ScansAlways ": " [.colon] :=
      ScansAlways.append_always (ScansAlways.of_token (t := []) (by decide) fun _ _ => rfl)
        (ScansAlways.of_blanks (by decide : ∀ c ∈ Text.ofString " ", isBlank c = true))
    exact ((scansAlways_writeText key).append_always hcolon).append (scans_writeAt indent depth hvalue)

end

end Json

end PipelineGraph
