import PipelineGraph.Proofs.Number.Written
import PipelineGraph.Proofs.Text.Hexadecimal
import PipelineGraph.Text.Blank
import PipelineGraph.Text.Quoted

/-!
# What is printed

The only blank that is printable is the space, so no printable code point ends a line, and none is a
control or a surrogate. Escapes and quoted literals are printable whatever they stand for.
-/

namespace PipelineGraph.Text

/-- A text of printable code points. -/
def IsPrintable (t : Text) : Prop :=
  ∀ c ∈ t, isPrintable c = true

instance : DecidablePred IsPrintable :=
  fun t => inferInstanceAs (Decidable (∀ c ∈ t, isPrintable c = true))

/-- Printable texts put together are printable. -/
theorem IsPrintable.append {s t : Text} (hs : s.IsPrintable) (ht : t.IsPrintable) :
    IsPrintable (s ++ t) :=
  List.forall_mem_append.2 ⟨hs, ht⟩

/-- The code points that end a line. -/
def lineEnds : List CodePoint :=
  [0x0A, 0x0B, 0x0C, 0x0D, 0x1C, 0x1D, 0x1E, 0x85, 0x2028, 0x2029].map CodePoint.ofNat

variable {c : CodePoint}

/-- The code points of ASCII from the space on are printable. -/
theorem isPrintable_of_ascii (hlower : 0x20 ≤ c.val) (hupper : c.val ≤ 0x7E) :
    isPrintable c = true := by
  apply List.any_eq_true.2
  refine ⟨(0x20, 0x7E), List.mem_cons_self, ?_⟩
  simp [hlower, hupper]

/-- A printable code point lies in one of the intervals. -/
theorem exists_range_of_isPrintable (h : isPrintable c = true) :
    ∃ r ∈ printableRanges, r.1 ≤ c.val ∧ c.val ≤ r.2 := by
  obtain ⟨r, hr, hrange⟩ := List.any_eq_true.1 h
  exact ⟨r, hr, by simpa using hrange⟩

/-- No control and no surrogate is printable. -/
theorem val_of_isPrintable (h : isPrintable c = true) : 0x20 ≤ c.val ∧ c.isSurrogate = false := by
  have hranges : ∀ r ∈ printableRanges, 0x20 ≤ r.1 ∧ (r.2 < 0xD800 ∨ 0xDFFF < r.1) := by
    decide +kernel
  obtain ⟨r, hr, hlower, hupper⟩ := exists_range_of_isPrintable h
  obtain ⟨hfirst, hsurrogate⟩ := hranges r hr
  refine ⟨by omega, ?_⟩
  simp only [CodePoint.isSurrogate, CodePoint.isHighSurrogate, CodePoint.isLowSurrogate,
    Bool.or_eq_false_iff, Bool.and_eq_false_iff, decide_eq_false_iff_not]
  omega

/-- No printable code point ends a line. -/
theorem not_mem_lineEnds (h : isPrintable c = true) : c ∉ lineEnds := by
  intro hc
  have hends : ∀ e ∈ lineEnds, isPrintable e = false := by decide +kernel
  rw [hends c hc] at h
  cases h

/-! ## Numerals -/

/-- The numeral of a natural number holds nothing but digits. -/
theorem isDigit_of_mem_ofNat {n : Nat} (hc : c ∈ Text.ofNat n) :
    0x30 ≤ c.val ∧ c.val ≤ 0x39 := by
  obtain ⟨digit, hdigit, rfl⟩ := List.mem_map.1 hc
  exact CodePoint.val_of_isDigit (Nat.isDigit_of_mem_toDigits (by decide) (by decide) hdigit)

/-- The numeral of an integer holds nothing but digits and a minus. -/
theorem val_of_mem_ofInt {n : Int} (h : c ∈ ofInt n) :
    c.val = 0x2D ∨ 0x30 ≤ c.val ∧ c.val ≤ 0x39 := by
  unfold ofInt at h
  split at h
  · rcases List.mem_append.1 h with hminus | hdigit
    · rw [List.mem_singleton.1 hminus]
      exact Or.inl rfl
    · exact Or.inr (isDigit_of_mem_ofNat hdigit)
  · exact Or.inr (isDigit_of_mem_ofNat h)

/-! ## Escapes -/

/-- An escape opens with a backslash, and printable code points follow that are not blank. -/
theorem escape_spec (c : CodePoint) : escape c ≠ [] ∧
    ∀ e ∈ escape c, isPrintable e = true ∧ isBlank e = false := by
  have hhex : ∀ {start : Text} (width n : Nat), start ≠ [] →
      (∀ e ∈ start, isPrintable e = true ∧ isBlank e = false) →
      start ++ hex width n ≠ [] ∧
        ∀ e ∈ start ++ hex width n, isPrintable e = true ∧ isBlank e = false := by
    intro start width n hne hstart
    refine ⟨by simp [hne], List.forall_mem_append.2 ⟨hstart, fun e he => ?_⟩⟩
    have hdigit := isHexDigit_of_mem_hex e he
    unfold IsHexDigit at hdigit
    refine ⟨isPrintable_of_ascii (by omega) (by omega), ?_⟩
    simp only [isBlank, CodeRanges.has, blankRanges, List.any_cons, List.any_nil, Bool.or_false,
      Bool.or_eq_false_iff, Bool.and_eq_false_iff, decide_eq_false_iff_not]
    omega
  unfold escape
  split_ifs
  · decide
  · decide
  · decide
  · exact hhex 2 c.val (by decide) (by decide)
  · exact hhex 4 c.val (by decide) (by decide)
  · exact hhex 8 c.val (by decide) (by decide)

/-- What stands for a code point inside a literal is printable. -/
theorem isPrintable_quoteOne {mark : CodePoint} (hmark : isPrintable mark = true) (c : CodePoint) :
    IsPrintable (quoteOne mark c) := by
  unfold quoteOne
  split_ifs with hspecial hprintable
  · rcases hspecial with rfl | rfl
    · exact List.forall_mem_cons.2 ⟨by decide, List.forall_mem_singleton.2 hmark⟩
    · decide
  · exact List.forall_mem_singleton.2 hprintable
  · exact fun e he => ((escape_spec c).2 e he).1

/-- The mark of a literal is a single or a double quote. -/
theorem quoteMark_eq (t : Text) :
    quoteMark t = CodePoint.ofChar '\'' ∨ quoteMark t = CodePoint.ofChar '"' := by
  unfold quoteMark
  split
  · exact Or.inr rfl
  · exact Or.inl rfl

/-- Quoted literals are printable. -/
theorem isPrintable_quoted (t : Text) : IsPrintable t.quoted := by
  have hmark : isPrintable (quoteMark t) = true := by
    rcases quoteMark_eq t with h | h <;> rw [h] <;> decide
  refine IsPrintable.append (List.forall_mem_cons.2 ⟨hmark, ?_⟩) (List.forall_mem_singleton.2 hmark)
  intro e he
  obtain ⟨c, -, he⟩ := List.mem_flatMap.1 he
  exact isPrintable_quoteOne hmark c e he

end PipelineGraph.Text
