import PipelineGraph.Proofs.Text.Printing

/-!
# Reading the literals of a line

A line of a script is read from left to right. Outside a literal a quote opens one and a number sign
begins a comment; inside, a backslash opens an escape and the quote that opened the literal closes
it. A line that is cut off inside a literal cannot be read. Neither can one with a quote right behind
a word or behind another literal, which would be a prefix or make longer quotes, nor one with a
backslash outside a literal.

The literal of a text is read back as that text.
-/

namespace PipelineGraph.Text

open Json (hexDigit?)

/-- What the reader of a literal waits for. -/
inductive Reading where
  | plain
  /-- What follows a backslash. -/
  | escape
  /-- So many more hexadecimal digits, behind those that write a number. -/
  | hexadecimal (left value : Nat)
  /-- At most so many more octal digits, behind those that write a number. -/
  | octal (left value : Nat)

/-- What a code point does to a literal. -/
inductive Progress where
  /-- The literal ends with what is given. -/
  | close (more : Text)
  /-- The literal goes on behind what is given. -/
  | stay (more : Text) (reading : Reading)

/-- More text in front of what a code point does. -/
def Progress.behind (more : Text) : Progress → Progress
  | close rest => close (more ++ rest)
  | stay rest reading => stay (more ++ rest) reading

/-- What a backslash and one more code point stand for; a line that goes on stands for nothing. -/
def simpleEscape? (c : CodePoint) : Option Text :=
  if c = '\\' ∨ c = '\'' ∨ c = '"' then some [c]
  else if c = 'a' then some [.ofNat 0x07]
  else if c = 'b' then some [.ofNat 0x08]
  else if c = 'f' then some [.ofNat 0x0C]
  else if c = 'n' then some [CodePoint.ofChar '\n']
  else if c = 'r' then some [CodePoint.ofChar '\r']
  else if c = 't' then some [CodePoint.ofChar '\t']
  else if c = 'v' then some [.ofNat 0x0B]
  else if c = '\n' then some []
  else none

/-- The value of an octal digit. -/
def octalDigit? (c : CodePoint) : Option Nat :=
  if 0x30 ≤ c.val ∧ c.val ≤ 0x37 then some (c.val - 0x30) else none

/-- How many hexadecimal digits a letter behind a backslash wants. -/
def hexWidth? (c : CodePoint) : Option Nat :=
  if c = 'x' then some 2 else if c = 'u' then some 4 else if c = 'U' then some 8 else none

/-- Whether a code point cannot stand in the line of a script. -/
def isForeign (c : CodePoint) : Bool :=
  c = '\n' || c = '\r' || c.val = 0 || c.isSurrogate

namespace Reading

/-- What a code point does to a literal outside escapes. -/
def nextPlain (mark c : CodePoint) : Option Progress :=
  if c = mark then some (.close [])
  else if c = '\\' then some (.stay [] escape)
  else if isForeign c then none
  else some (.stay [c] plain)

/-- What a code point behind a backslash does; escapes by name are not read. -/
def nextEscape (c : CodePoint) : Option Progress :=
  match simpleEscape? c, octalDigit? c, hexWidth? c with
  | some t, _, _ => some (.stay t plain)
  | none, some digit, _ => some (.stay [] (octal 2 digit))
  | none, none, some width => some (.stay [] (hexadecimal width 0))
  | none, none, none =>
    if isForeign c || c = 'N' then none else some (.stay [CodePoint.ofChar '\\', c] plain)

/-- What a code point does to a literal with a given mark. -/
def next (mark c : CodePoint) : Reading → Option Progress
  | plain => nextPlain mark c
  | escape => nextEscape c
  | hexadecimal left value =>
    (hexDigit? c).bind fun digit =>
      if 1 < left then some (.stay [] (hexadecimal (left - 1) (value * 16 + digit)))
      else if value * 16 + digit < 0x110000 then some (.stay [.ofNat (value * 16 + digit)] plain)
      else none
  | octal left value =>
    match octalDigit? c with
    | some digit =>
      if 1 < left then some (.stay [] (octal (left - 1) (value * 8 + digit)))
      else some (.stay [.ofNat (value * 8 + digit)] plain)
    | none => (nextPlain mark c).map (.behind [.ofNat value])

end Reading

/-- Where the reader of a line stands. -/
inductive Place where
  /-- Outside a literal, behind a word or a literal or not. -/
  | code (behindWord : Bool)
  /-- Inside a literal with a given mark that holds some text so far. -/
  | literal (mark : CodePoint) (held : Text) (reading : Reading)

/-- Whether a code point is part of a word; what is not in ASCII may be. -/
def isWordPart (c : CodePoint) : Bool :=
  (0x30 ≤ c.val && c.val ≤ 0x39) || (0x41 ≤ c.val && c.val ≤ 0x5A) || c.val = 0x5F ||
    (0x61 ≤ c.val && c.val ≤ 0x7A) || 0x80 ≤ c.val

/-- The texts of the literals of a line from a place on, if the line can be read. -/
def literalsFrom : Place → Text → Option (List Text)
  | .code _, [] => some []
  | .literal _ _ _, [] => none
  | .code behindWord, c :: rest =>
    if c = '#' then some []
    else if c = '\'' ∨ c = '"' then
      if behindWord then none else literalsFrom (.literal c [] .plain) rest
    else if c = '\\' then none
    else literalsFrom (.code (isWordPart c)) rest
  | .literal mark held reading, c :: rest =>
    match reading.next mark c with
    | none => none
    | some (.close more) => (literalsFrom (.code true) rest).map ((held ++ more) :: ·)
    | some (.stay more reading) => literalsFrom (.literal mark (held ++ more) reading) rest

/-- The texts of the literals of a line, if it can be read. -/
def literals (line : Text) : Option (List Text) :=
  literalsFrom (.code false) line

/-- Whether a text opens with a quote. -/
def opensQuote : Text → Prop
  | [] => False
  | c :: _ => c = CodePoint.ofChar '\'' ∨ c = CodePoint.ofChar '"'

/-- A code point that neither opens a literal nor begins a comment nor joins lines. -/
def IsCode (c : CodePoint) : Prop :=
  0x20 ≤ c.val ∧ c.val ≤ 0x7E ∧ c.val ≠ 0x22 ∧ c.val ≠ 0x23 ∧ c.val ≠ 0x27 ∧ c.val ≠ 0x5C

instance : DecidablePred IsCode :=
  fun c => inferInstanceAs (Decidable (0x20 ≤ c.val ∧ c.val ≤ 0x7E ∧ c.val ≠ 0x22 ∧ c.val ≠ 0x23 ∧
    c.val ≠ 0x27 ∧ c.val ≠ 0x5C))

/-! ## Code -/

variable {c mark : CodePoint} {held rest : Text} {behindWord : Bool}

/-- Code points of code are read one by one. -/
theorem literalsFrom_code (h : IsCode c) :
    literalsFrom (.code behindWord) (c :: rest) = literalsFrom (.code (isWordPart c)) rest := by
  have hne : ∀ d : Char, ¬ IsCode (CodePoint.ofChar d) → c ≠ CodePoint.ofChar d := fun d hd heq =>
    hd (heq ▸ h)
  simp [literalsFrom, hne '#' (by decide), hne '\'' (by decide), hne '"' (by decide),
    hne '\\' (by decide)]

/-- What stands in front matters only to a quote. -/
theorem literalsFrom_code_eq (h : ¬ opensQuote rest) :
    literalsFrom (.code behindWord) rest = literalsFrom (.code false) rest := by
  cases rest with
  | nil => simp [literalsFrom]
  | cons c rest =>
    unfold opensQuote at h
    simp [literalsFrom, h]

/-- A text of code holds no literal. -/
theorem literalsFrom_append {t : Text} (ht : ∀ c ∈ t, IsCode c) (h : ¬ opensQuote rest) :
    literalsFrom (.code behindWord) (t ++ rest) = literalsFrom (.code false) rest := by
  induction t generalizing behindWord with
  | nil => exact literalsFrom_code_eq h
  | cons c t ih =>
    obtain ⟨hc, ht⟩ := List.forall_mem_cons.1 ht
    rw [List.cons_append, literalsFrom_code hc]
    exact ih ht

/-! ## Literals -/

/-- What stands for itself in a literal is read as itself. -/
theorem literalsFrom_plain (hmark : c ≠ mark) (hslash : c ≠ CodePoint.ofChar '\\')
    (h : isPrintable c = true) :
    literalsFrom (.literal mark held .plain) (c :: rest) =
      literalsFrom (.literal mark (held ++ [c]) .plain) rest := by
  obtain ⟨hlower, hsurrogate⟩ := val_of_isPrintable h
  have hforeign : isForeign c = false := by
    have hne : ∀ d : Char, d.toNat < 0x20 → c ≠ CodePoint.ofChar d := by
      rintro d hd rfl
      exact absurd hlower (by simpa [CodePoint.ofChar] using hd)
    have hval : c.val ≠ 0 := by omega
    simp [isForeign, hne '\n' (by decide), hne '\r' (by decide), hval, hsurrogate]
  simp [literalsFrom, Reading.next, Reading.nextPlain, hmark, hslash, hforeign]

/-- What a backslash and one more code point stand for is read from them. -/
theorem literalsFrom_escape {more : Text} (hmark : mark ≠ CodePoint.ofChar '\\')
    (h : simpleEscape? c = some more) :
    literalsFrom (.literal mark held .plain) (CodePoint.ofChar '\\' :: c :: rest) =
      literalsFrom (.literal mark (held ++ more) .plain) rest := by
  simp [literalsFrom, Reading.next, Reading.nextPlain, Reading.nextEscape, hmark.symm, h]

/-- Hexadecimal digits are read as the code point of their number. -/
theorem literalsFrom_digits {digits : Text} {left value n : Nat} (hlength : digits.length = left + 1)
    (hvalue : hexValueFrom value digits = some n) (hn : n < 0x110000) :
    literalsFrom (.literal mark held (.hexadecimal (left + 1) value)) (digits ++ rest) =
      literalsFrom (.literal mark (held ++ [.ofNat n]) .plain) rest := by
  induction left generalizing digits value with
  | zero =>
    obtain ⟨c, rfl⟩ := List.length_eq_one_iff.1 hlength
    obtain ⟨digit, hdigit, hvalue⟩ := Option.bind_eq_some_iff.1 hvalue
    obtain rfl := Option.some.inj hvalue
    simp [literalsFrom, Reading.next, hdigit, hn]
  | succ left ih =>
    obtain ⟨c, digits, rfl⟩ := List.exists_cons_of_length_eq_add_one hlength
    obtain ⟨digit, hdigit, hvalue⟩ := Option.bind_eq_some_iff.1 hvalue
    simpa [literalsFrom, Reading.next, hdigit] using ih (by simpa using hlength) hvalue

/-- A hexadecimal escape is read as the code point of its number. -/
theorem literalsFrom_hex {letter : CodePoint} {width : Nat} (hmark : mark ≠ CodePoint.ofChar '\\')
    (hsimple : simpleEscape? letter = none) (hoctal : octalDigit? letter = none)
    (hwidth : hexWidth? letter = some (width + 1)) (hfits : c.val < 16 ^ (width + 1)) :
    literalsFrom (.literal mark held .plain)
        (CodePoint.ofChar '\\' :: letter :: (hex (width + 1) c.val ++ rest)) =
      literalsFrom (.literal mark (held ++ [c]) .plain) rest := by
  have hcode : CodePoint.ofNat c.val = c := by simp [CodePoint.ofNat, c.isLt]
  have hdigits : literalsFrom (.literal mark held (.hexadecimal (width + 1) 0))
      (hex (width + 1) c.val ++ rest) = literalsFrom (.literal mark (held ++ [c]) .plain) rest := by
    rw [literalsFrom_digits (length_hex (Nat.succ_pos width) hfits) (hexValueFrom_hex _ _) c.isLt, hcode]
  simpa [literalsFrom, Reading.next, Reading.nextPlain, Reading.nextEscape, hmark.symm, hsimple,
    hoctal, hwidth] using hdigits

/-- What stands for a code point in a literal is read as that code point. -/
theorem literalsFrom_quoteOne (hmark : mark = CodePoint.ofChar '\'' ∨ mark = CodePoint.ofChar '"') :
    literalsFrom (.literal mark held .plain) (quoteOne mark c ++ rest) =
      literalsFrom (.literal mark (held ++ [c]) .plain) rest := by
  have hslash : mark ≠ CodePoint.ofChar '\\' := by
    rcases hmark with rfl | rfl <;> decide
  unfold quoteOne
  split_ifs with hspecial hprintable
  · have hsimple : simpleEscape? c = some [c] := by
      rcases hspecial with rfl | rfl
      · rcases hmark with rfl | rfl <;> decide
      · decide
    exact literalsFrom_escape hslash hsimple
  · rw [not_or] at hspecial
    exact literalsFrom_plain hspecial.1 hspecial.2 hprintable
  · unfold escape
    split_ifs with hfeed hreturn htab hbyte hshort
    · rw [hfeed]
      exact literalsFrom_escape hslash (by decide)
    · rw [hreturn]
      exact literalsFrom_escape hslash (by decide)
    · rw [htab]
      exact literalsFrom_escape hslash (by decide)
    · exact literalsFrom_hex hslash (by decide) (by decide) (by decide) (by omega)
    · exact literalsFrom_hex hslash (by decide) (by decide) (by decide) (by omega)
    · have hlt := c.isLt
      exact literalsFrom_hex hslash (by decide) (by decide) (by decide) (by omega)

/-- A literal between marks is read as what it holds. -/
theorem literalsFrom_body (hmark : mark = CodePoint.ofChar '\'' ∨ mark = CodePoint.ofChar '"')
    (t : Text) :
    literalsFrom (.literal mark held .plain) (t.flatMap (quoteOne mark) ++ mark :: rest) =
      (literalsFrom (.code true) rest).map ((held ++ t) :: ·) := by
  induction t generalizing held with
  | nil => simp [literalsFrom, Reading.next, Reading.nextPlain]
  | cons c t ih =>
    rw [List.flatMap_cons, List.append_assoc, literalsFrom_quoteOne hmark, ih, List.append_assoc,
      List.singleton_append]

/-- The literal of a text is read as that text. -/
theorem literalsFrom_quoted (t : Text) :
    literalsFrom (.code false) (t.quoted ++ rest) = (literalsFrom (.code true) rest).map (t :: ·) := by
  have hmark := quoteMark_eq t
  have hcomment : quoteMark t ≠ CodePoint.ofChar '#' := by
    rcases hmark with h | h <;> rw [h] <;> decide
  have hbody : literalsFrom (.literal (quoteMark t) [] .plain)
      (t.flatMap (quoteOne (quoteMark t)) ++ quoteMark t :: rest) =
        (literalsFrom (.code true) rest).map (t :: ·) :=
    literalsFrom_body hmark t
  simpa [quoted, literalsFrom, hmark, hcomment] using hbody

end PipelineGraph.Text
