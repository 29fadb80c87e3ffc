import PipelineGraph.Proofs.Number.Written
import PipelineGraph.Proofs.Text.Literals
import PipelineGraph.Script.Expr

/-!
# The lines of statements

If the names and words of a statement are spelled without quotes, number signs and backslashes, its
lines are printable and can be read, and the literals of a line are the quoted texts and the words
of the expressions that it is written from, in their order.
-/

namespace PipelineGraph

open Text (IsCode IsPrintable literalsFrom literals literalsFrom_code literalsFrom_append
  literalsFrom_quoted literalsFrom_plain opensQuote)

namespace Text

/-- A text of code. -/
def IsCodeText (t : Text) : Prop :=
  ∀ c ∈ t, IsCode c

instance : DecidablePred IsCodeText :=
  fun t => inferInstanceAs (Decidable (∀ c ∈ t, IsCode c))

/-- Code texts put together are code text. -/
theorem IsCodeText.append {s t : Text} (hs : s.IsCodeText) (ht : t.IsCodeText) :
    IsCodeText (s ++ t) :=
  List.forall_mem_append.2 ⟨hs, ht⟩

/-- Code is printable. -/
theorem IsCodeText.isPrintable {t : Text} (h : t.IsCodeText) : t.IsPrintable := fun c hc =>
  isPrintable_of_ascii (h c hc).1 (h c hc).2.1

/-- A text of code whose last code point is no part of a word. -/
def IsOpening (t : Text) : Prop :=
  t.IsCodeText ∧ (t.getLast?.any fun c => !isWordPart c) = true

instance : DecidablePred IsOpening :=
  fun t => inferInstanceAs (Decidable (t.IsCodeText ∧ (t.getLast?.any fun c => !isWordPart c) = true))

/-- What follows such a text is read as if nothing stood in front of it. -/
theorem literalsFrom_opening {t rest : Text} {behindWord : Bool} (h : t.IsOpening) :
    literalsFrom (.code behindWord) (t ++ rest) = literalsFrom (.code false) rest := by
  obtain ⟨hcode, hlast⟩ := h
  rcases List.eq_nil_or_concat' t with rfl | ⟨start, c, rfl⟩
  · cases hlast
  · obtain ⟨hstart, hc⟩ := List.forall_mem_append.1 hcode
    have hc := hc c (List.mem_singleton_self c)
    have hword : isWordPart c = false := by simpa using hlast
    have hquote : ¬ opensQuote (c :: rest) := by
      rintro (rfl | rfl) <;> exact absurd hc (by decide)
    rw [List.append_assoc, List.singleton_append, literalsFrom_append hstart hquote,
      literalsFrom_code hc, hword]

/-- More code in front changes nothing about what opens. -/
theorem IsOpening.prepend {s t : Text} (hs : s.IsCodeText) (ht : t.IsOpening) :
    IsOpening (s ++ t) := by
  have hne : t ≠ [] := by
    rintro rfl
    cases ht.2
  refine ⟨hs.append ht.1, ?_⟩
  rw [List.getLast?_append_of_ne_nil _ hne]
  exact ht.2

/-- The numeral of an integer is code. -/
theorem isCodeText_ofInt (n : Int) : (Text.ofInt n).IsCodeText := by
  intro c hc
  have hval := val_of_mem_ofInt hc
  unfold IsCode
  omega

/-- Characters of code make a text of code. -/
theorem isCodeText_map {l : List Char} (h : ∀ c ∈ l, IsCode (CodePoint.ofChar c)) :
    IsCodeText (l.map CodePoint.ofChar) :=
  List.forall_mem_map.2 h

end Text

/-- The text of a number is code. -/
theorem Binary64.isCodeText_text (x : Binary64) : x.text.IsCodeText := by
  cases x with
  | nan => decide
  | infinite negative => cases negative <;> decide
  | finite negative rank =>
    have hdigit : ∀ c : Char, c.isDigit = true → IsCode (CodePoint.ofChar c) := by
      intro c h
      have hval := CodePoint.val_of_isDigit h
      unfold IsCode
      omega
    have hmark : ∀ c ∈ ['.', 'e', '-', '+'], IsCode (CodePoint.ofChar c) := by
      simp only [List.forall_mem_cons, List.not_mem_nil, false_imp_iff, implies_true, and_true]
      decide
    have hmagnitude := Text.isCodeText_map (Decimal.forall_mem_text hdigit hmark .standard
      (isWritten_shortest rank))
    unfold text
    dsimp only
    split
    · exact Text.IsCodeText.append (by decide) hmagnitude
    · exact hmagnitude

namespace Script

open Text (IsCodeText IsOpening literalsFrom_opening isCodeText_ofInt)

namespace Expr

mutual

/-- Names and words of an expression are spelled as code. -/
def Spelled : Expr → Prop
  | name x => x.IsCodeText
  | quoted _ => True
  | word s => IsCodeText s
  | integer _ => True
  | number _ => True
  | nothing => True
  | emptyTable => True
  | list items => AllSpelled items
  | pair first second => Spelled first ∧ Spelled second
  | member owner field => Spelled owner ∧ field.IsCodeText
  | entry table key => Spelled table ∧ Spelled key
  | call callee arguments => Spelled callee ∧ AllSpelled arguments
  | named parameter argument => parameter.IsCodeText ∧ Spelled argument
  | function parameter body => parameter.IsCodeText ∧ Spelled body
  | choice result condition alternative =>
    Spelled result ∧ Spelled condition ∧ Spelled alternative

/-- Names and words of expressions are spelled as code. -/
def AllSpelled : List Expr → Prop
  | [] => True
  | e :: rest => Spelled e ∧ AllSpelled rest

end

mutual

/-- The texts of the literals of an expression. -/
def literals : Expr → List Text
  | name _ => []
  | quoted t => [t]
  | word s => [Text.ofString s]
  | integer _ => []
  | number _ => []
  | nothing => []
  | emptyTable => []
  | list items => allLiterals items
  | pair first second => literals first ++ literals second
  | member owner _ => literals owner
  | entry table key => literals table ++ literals key
  | call callee arguments => literals callee ++ allLiterals arguments
  | named _ argument => literals argument
  | function _ body => literals body
  | choice result condition alternative =>
    literals result ++ literals condition ++ literals alternative

/-- The texts of the literals of expressions. -/
def allLiterals : List Expr → List Text
  | [] => []
  | e :: rest => literals e ++ allLiterals rest

end

/-- A text that opens with code opens with no quote. -/
theorem not_opensQuote_append {t rest : Text} (ht : t.IsCodeText) (hne : t ≠ []) :
    ¬ opensQuote (t ++ rest) := by
  obtain ⟨c, t, rfl⟩ := List.exists_cons_of_ne_nil hne
  have hc := (List.forall_mem_cons.1 ht).1
  rintro (rfl | rfl) <;> exact absurd hc (by decide)

/-- A word between double quotes is read as that word. -/
theorem literalsFrom_word {t rest : Text} (ht : t.IsCodeText) :
    literalsFrom (.code false) ("\"" ++ t ++ "\"" ++ rest) =
      (literalsFrom (.code true) rest).map (t :: ·) := by
  have hbody : ∀ held, literalsFrom (.literal '"' held .plain) (t ++ CodePoint.ofChar '"' :: rest) =
      (literalsFrom (.code true) rest).map ((held ++ t) :: ·) := by
    induction t with
    | nil =>
      intro held
      simp [literalsFrom, Text.Reading.next, Text.Reading.nextPlain]
    | cons c t ih =>
      intro held
      obtain ⟨hc, ht⟩ := List.forall_mem_cons.1 ht
      have hne : ∀ d : Char, ¬ IsCode (CodePoint.ofChar d) → c ≠ CodePoint.ofChar d :=
        fun d hd heq => hd (heq ▸ hc)
      rw [List.cons_append, literalsFrom_plain (hne '"' (by decide)) (hne '\\' (by decide))
        (Text.isPrintable_of_ascii hc.1 hc.2.1), ih ht, List.append_assoc, List.singleton_append]
  have hcomment : CodePoint.ofChar '"' ≠ CodePoint.ofChar '#' := by decide
  have hopen : ∀ t : Text, literalsFrom (.code false) (CodePoint.ofChar '"' :: t) =
      literalsFrom (.literal '"' [] .plain) t := fun t => by
    simp [literalsFrom, hcomment]
  rw [List.append_assoc, List.append_assoc]
  exact (hopen _).trans (hbody [])

/-- Code adds no literal. -/
theorem literalsFrom_none {t rest : Text} (ht : t.IsCodeText) (hrest : ¬ opensQuote rest) :
    literalsFrom (.code false) (t ++ rest) =
      (literalsFrom (.code false) rest).map (([] : List Text) ++ ·) := by
  rw [literalsFrom_append ht hrest]
  simp

mutual

/-- The literals of an expression are read from its text. -/
theorem literalsFrom_text {e : Expr} (he : e.Spelled) {rest : Text} (hrest : ¬ opensQuote rest) :
    literalsFrom (.code false) (e.text ++ rest) =
      (literalsFrom (.code false) rest).map (e.literals ++ ·) := by
  cases e with
  | name x => exact literalsFrom_none he hrest
  | quoted t =>
    rw [text, literalsFrom_quoted, Text.literalsFrom_code_eq hrest]
    rfl
  | word s =>
    rw [text, literalsFrom_word he, Text.literalsFrom_code_eq hrest]
    rfl
  | integer n => exact literalsFrom_none (isCodeText_ofInt n) hrest
  | number x => exact literalsFrom_none x.isCodeText_text hrest
  | nothing => exact literalsFrom_none (by decide) hrest
  | emptyTable => exact literalsFrom_none (by decide) hrest
  | list items =>
    simp only [text, List.append_assoc]
    rw [literalsFrom_opening (by decide),
      literalsFrom_join he (not_opensQuote_append (by decide) (by decide)),
      literalsFrom_append (by decide) hrest, literals]
  | pair first second =>
    simp only [text, List.append_assoc]
    rw [literalsFrom_opening (by decide),
      literalsFrom_text he.1 (not_opensQuote_append (by decide) (by decide)),
      literalsFrom_opening (by decide),
      literalsFrom_text he.2 (not_opensQuote_append (by decide) (by decide)),
      literalsFrom_append (by decide) hrest]
    simp [literals, Function.comp_def]
  | member owner field =>
    simp only [text, List.append_assoc]
    rw [literalsFrom_text he.1 (not_opensQuote_append (by decide) (by decide)),
      literalsFrom_opening (by decide), literalsFrom_append he.2 hrest, literals]
  | entry table key =>
    simp only [text, List.append_assoc]
    rw [literalsFrom_text he.1 (not_opensQuote_append (by decide) (by decide)),
      literalsFrom_opening (by decide),
      literalsFrom_text he.2 (not_opensQuote_append (by decide) (by decide)),
      literalsFrom_append (by decide) hrest]
    simp [literals, Function.comp_def]
  | call callee arguments =>
    simp only [text, List.append_assoc]
    rw [literalsFrom_text he.1 (not_opensQuote_append (by decide) (by decide)),
      literalsFrom_opening (by decide),
      literalsFrom_join he.2 (not_opensQuote_append (by decide) (by decide)),
      literalsFrom_append (by decide) hrest]
    simp [literals, Function.comp_def]
  | named parameter argument =>
    simp only [text, List.append_assoc]
    rw [literalsFrom_append he.1 (not_opensQuote_append (by decide) (by decide)),
      literalsFrom_opening (by decide), literalsFrom_text he.2 hrest, literals]
  | function parameter body =>
    simp only [text, List.append_assoc]
    rw [literalsFrom_opening (by decide),
      literalsFrom_append he.1 (not_opensQuote_append (by decide) (by decide)),
      literalsFrom_opening (by decide), literalsFrom_text he.2 hrest, literals]
  | choice result condition alternative =>
    simp only [text, List.append_assoc]
    rw [literalsFrom_text he.1 (not_opensQuote_append (by decide) (by decide)),
      literalsFrom_opening (by decide),
      literalsFrom_text he.2.1 (not_opensQuote_append (by decide) (by decide)),
      literalsFrom_opening (by decide), literalsFrom_text he.2.2 hrest]
    simp [literals, Function.comp_def]

/-- The literals of expressions are read from their texts with commas between them. -/
theorem literalsFrom_join {items : List Expr} (hitems : AllSpelled items) {rest : Text}
    (hrest : ¬ opensQuote rest) :
    literalsFrom (.code false) (Text.join ", " (texts items) ++ rest) =
      (literalsFrom (.code false) rest).map (allLiterals items ++ ·) := by
  match items with
  | [] => exact literalsFrom_none (by decide) hrest
  | [e] =>
    rw [texts, texts, Text.join, List.intercalate_singleton, literalsFrom_text hitems.1 hrest]
    simp [allLiterals]
  | e :: next :: more =>
    have hmore := literalsFrom_join hitems.2 hrest
    simp only [texts, Text.join, List.intercalate_cons_cons, List.append_assoc] at hmore ⊢
    rw [literalsFrom_text hitems.1 (not_opensQuote_append (by decide) (by decide)),
      literalsFrom_opening (by decide), hmore]
    simp [allLiterals, Function.comp_def]

end

mutual

/-- The text of an expression is printable. -/
theorem isPrintable_text {e : Expr} (he : e.Spelled) : e.text.IsPrintable := by
  have code : ∀ {t : Text}, t.IsCodeText → t.IsPrintable := fun h => h.isPrintable
  cases e with
  | name x => exact code he
  | quoted t => exact Text.isPrintable_quoted t
  | word s => exact IsPrintable.append (IsPrintable.append (by decide) (code he)) (by decide)
  | integer n => exact code (isCodeText_ofInt n)
  | number x => exact code x.isCodeText_text
  | nothing => exact code (by decide)
  | emptyTable => exact code (by decide)
  | list items =>
    exact IsPrintable.append (IsPrintable.append (by decide) (isPrintable_join he)) (by decide)
  | pair first second =>
    apply IsPrintable.append (IsPrintable.append ?_ (isPrintable_text he.2)) (by decide)
    exact IsPrintable.append (IsPrintable.append (by decide) (isPrintable_text he.1)) (by decide)
  | member owner field =>
    exact IsPrintable.append (IsPrintable.append (isPrintable_text he.1) (by decide)) (code he.2)
  | entry table key =>
    apply IsPrintable.append (IsPrintable.append ?_ (isPrintable_text he.2)) (by decide)
    exact IsPrintable.append (isPrintable_text he.1) (by decide)
  | call callee arguments =>
    apply IsPrintable.append (IsPrintable.append ?_ (isPrintable_join he.2)) (by decide)
    exact IsPrintable.append (isPrintable_text he.1) (by decide)
  | named parameter argument =>
    exact IsPrintable.append (IsPrintable.append (code he.1) (by decide)) (isPrintable_text he.2)
  | function parameter body =>
    apply IsPrintable.append (IsPrintable.append ?_ (by decide)) (isPrintable_text he.2)
    exact IsPrintable.append (by decide) (code he.1)
  | choice result condition alternative =>
    apply IsPrintable.append (IsPrintable.append ?_ (by decide)) (isPrintable_text he.2.2)
    exact IsPrintable.append (IsPrintable.append (isPrintable_text he.1) (by decide))
      (isPrintable_text he.2.1)

/-- The texts of expressions with commas between them are printable. -/
theorem isPrintable_join {items : List Expr} (hitems : AllSpelled items) :
    IsPrintable (Text.join ", " (texts items)) := by
  match items with
  | [] => decide
  | [e] =>
    rw [texts, texts, Text.join, List.intercalate_singleton]
    exact isPrintable_text hitems.1
  | e :: next :: more =>
    have hmore := isPrintable_join hitems.2
    simp only [texts, Text.join, List.intercalate_cons_cons] at hmore ⊢
    exact IsPrintable.append (IsPrintable.append (isPrintable_text hitems.1) (by decide)) hmore

end

/-- Expressions are spelled as code if each of them is. -/
theorem allSpelled_iff {items : List Expr} : AllSpelled items ↔ ∀ e ∈ items, e.Spelled := by
  induction items with
  | nil => simp [AllSpelled]
  | cons e rest ih => simp [AllSpelled, ih]

/-- Expressions are written one by one. -/
theorem texts_eq (items : List Expr) : texts items = items.map text := by
  induction items with
  | nil => rfl
  | cons e rest ih => rw [texts, ih, List.map_cons]

end Expr

namespace Statement

/-- Names and words of a statement are spelled as code. -/
def Spelled : Statement → Prop
  | assign x e => x.IsCodeText ∧ e.Spelled
  | evaluate e => e.Spelled
  | within resource x body => resource.Spelled ∧ x.IsCodeText ∧ body.Spelled
  | assignSpread x callee arguments method input =>
    x.IsCodeText ∧ callee.Spelled ∧ Expr.AllSpelled arguments ∧ method.IsCodeText ∧ input.Spelled

/-- The texts of the literals of each line of a statement. -/
def literals : Statement → List (List Text)
  | assign _ e => [e.literals]
  | evaluate e => [e.literals]
  | within resource _ body => resource.literals :: body.literals
  | assignSpread _ callee arguments _ input =>
    callee.literals :: arguments.map Expr.literals ++ [input.literals]

end Statement

/-- What opens a line adds no literal. -/
theorem literals_opening {front line : Text} (h : front.IsOpening) :
    Text.literals (front ++ line) = Text.literals line :=
  literalsFrom_opening h

/-- A deeper indentation changes no literal. -/
@[simp] theorem literals_indented (line : Text) : Text.literals (indented line) = Text.literals line :=
  literals_opening (by decide)

/-- A deeper indentation is printable. -/
theorem isPrintable_indented {line : Text} (h : line.IsPrintable) : (indented line).IsPrintable :=
  IsPrintable.append (by decide) h

/-- The literals of a line with code behind an expression are those of the expression. -/
theorem Expr.literals_text {e : Expr} (he : e.Spelled) {back : Text} (hback : back.IsCodeText) :
    Text.literals (e.text ++ back) = some e.literals := by
  have hquote : ¬ opensQuote back := by
    intro h
    cases back with
    | nil => exact h
    | cons c back =>
      have hc := (List.forall_mem_cons.1 hback).1
      rcases h with rfl | rfl <;> exact absurd hc (by decide)
  have hend : literalsFrom (.code false) back = some [] := by
    have happend : literalsFrom (.code false) (back ++ []) = literalsFrom (.code false) [] :=
      literalsFrom_append hback id
    rwa [List.append_nil] at happend
  rw [Text.literals, literalsFrom_text he hquote, hend]
  simp

namespace Statement

/-- The literals of the lines of a statement are read from them. -/
theorem literals_lines {s : Statement} (hs : s.Spelled) :
    s.lines.map Text.literals = s.literals.map some := by
  have hassign : Text.IsOpening " = " := by decide
  have hline : ∀ e : Expr, e.Spelled → Text.literals e.text = some e.literals := fun e he => by
    simpa using Expr.literals_text he (by decide : IsCodeText [])
  induction s with
  | assign x e =>
    obtain ⟨hx, he⟩ := hs
    rw [lines, literals, List.map_singleton, literals_opening (hassign.prepend hx), hline e he]
    rfl
  | evaluate e =>
    rw [lines, literals, List.map_singleton, hline e hs]
    rfl
  | within resource x body ih =>
    obtain ⟨hresource, hx, hbody⟩ := hs
    have hback : IsCodeText (" as " ++ x ++ ":") :=
      ((by decide : IsCodeText " as ").append hx).append (by decide)
    have hfirst : Text.literals ("with " ++ resource.text ++ " as " ++ x ++ ":") =
        some resource.literals := by
      simp only [List.append_assoc] at hback ⊢
      rw [literals_opening (by decide)]
      exact Expr.literals_text hresource hback
    simp only [lines, List.map_cons, List.map_map, Function.comp_def, literals_indented, hfirst, literals]
    rw [ih hbody]
  | assignSpread x callee arguments method input =>
    obtain ⟨hx, hcallee, harguments, hmethod, hinput⟩ := hs
    have hfirst : Text.literals (x ++ " = " ++ callee.text ++ "(") = some callee.literals := by
      rw [List.append_assoc, literals_opening (hassign.prepend hx)]
      exact Expr.literals_text hcallee (by decide)
    have hmiddle : ∀ e ∈ arguments, Text.literals (indented (e.text ++ ",")) = some e.literals := by
      intro e he
      rw [literals_indented]
      exact Expr.literals_text (Expr.allSpelled_iff.1 harguments e he) (by decide)
    have hlast : Text.literals (")." ++ method ++ "(" ++ input.text ++ ")") = some input.literals := by
      have hfront : IsOpening (")." ++ (method ++ "(")) :=
        IsOpening.prepend (by decide) (IsOpening.prepend hmethod (by decide))
      have hsplit : ")." ++ method ++ "(" ++ input.text ++ ")" =
          (")." ++ (method ++ "(")) ++ (input.text ++ ")" : Text) := by
        simp only [List.append_assoc]
      rw [hsplit, literals_opening hfront]
      exact Expr.literals_text hinput (by decide)
    rw [lines, Expr.texts_eq]
    simp only [List.map_append, List.map_cons, List.map_nil, List.map_map, hfirst, hlast, literals]
    congr 2
    exact List.map_congr_left hmiddle

/-- The lines of a statement are printable. -/
theorem isPrintable_lines {s : Statement} (hs : s.Spelled) : ∀ line ∈ s.lines, line.IsPrintable := by
  induction s with
  | assign x e =>
    obtain ⟨hx, he⟩ := hs
    refine List.forall_mem_singleton.2 ?_
    exact IsPrintable.append (IsPrintable.append hx.isPrintable (by decide)) (Expr.isPrintable_text he)
  | evaluate e => exact List.forall_mem_singleton.2 (Expr.isPrintable_text hs)
  | within resource x body ih =>
    obtain ⟨hresource, hx, hbody⟩ := hs
    refine List.forall_mem_cons.2 ⟨?_, List.forall_mem_map.2 fun line hline => ?_⟩
    · apply IsPrintable.append (IsPrintable.append ?_ hx.isPrintable) (by decide)
      exact IsPrintable.append (IsPrintable.append (by decide) (Expr.isPrintable_text hresource)) (by decide)
    · exact isPrintable_indented (ih hbody line hline)
  | assignSpread x callee arguments method input =>
    obtain ⟨hx, hcallee, harguments, hmethod, hinput⟩ := hs
    rw [lines, Expr.texts_eq]
    refine List.forall_mem_append.2 ⟨List.forall_mem_cons.2 ⟨?_, ?_⟩, List.forall_mem_singleton.2 ?_⟩
    · apply IsPrintable.append (IsPrintable.append ?_ (Expr.isPrintable_text hcallee)) (by decide)
      exact IsPrintable.append hx.isPrintable (by decide)
    · simp only [List.forall_mem_map]
      intro e he
      apply isPrintable_indented
      exact IsPrintable.append (Expr.isPrintable_text (Expr.allSpelled_iff.1 harguments e he)) (by decide)
    · apply IsPrintable.append (IsPrintable.append ?_ (Expr.isPrintable_text hinput)) (by decide)
      exact IsPrintable.append (IsPrintable.append (by decide) hmethod.isPrintable) (by decide)

end Statement

end Script

end PipelineGraph
