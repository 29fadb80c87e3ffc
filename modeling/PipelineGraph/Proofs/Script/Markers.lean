import PipelineGraph.Proofs.Text.Literals
import PipelineGraph.Script.Compile

/-!
# Texts on one line

A text on one line is made of its words with single spaces between them and with escapes for what
cannot be printed. Since an escape holds neither a blank nor anything that is not printable, putting
a text on one line twice is putting it there once.
-/

namespace PipelineGraph

namespace Text

/-- A word: it is not empty and holds no blank. -/
def IsWord (w : Text) : Prop :=
  w ≠ [] ∧ ∀ c ∈ w, isBlank c = false

/-- Blanks in front of a text change nothing. -/
theorem words_of_isBlank {c : CodePoint} (h : isBlank c = true) (rest : Text) :
    words (c :: rest) = words rest := by
  rw [words.eq_def]
  exact if_pos h

/-- A code point that is followed by a blank ends a word. -/
theorem words_of_last {c blank : CodePoint} (hc : isBlank c = false) (h : isBlank blank = true)
    (rest : Text) : words (c :: blank :: rest) = [c] :: words rest := by
  rw [words.eq_def]
  simp only [hc, Bool.false_eq_true, if_false, words_of_isBlank h]
  cases words rest with
  | nil => rfl
  | cons word more => exact if_pos h

/-- A code point in front of a word is part of it. -/
theorem words_of_more {c next : CodePoint} {rest word : Text} {more : List Text}
    (hc : isBlank c = false) (hnext : isBlank next = false)
    (h : words (next :: rest) = word :: more) : words (c :: next :: rest) = (c :: word) :: more := by
  rw [words.eq_def]
  simp only [hc, hnext, h, Bool.false_eq_true, if_false]

/-- A word at the front of a text, with a blank behind it. -/
theorem words_append {w : Text} (hw : w.IsWord) {blank : CodePoint} (hblank : isBlank blank = true)
    (rest : Text) : words (w ++ blank :: rest) = w :: words rest := by
  obtain ⟨hne, hw⟩ := hw
  induction w with
  | nil => exact absurd rfl hne
  | cons c w ih =>
    obtain ⟨hc, hrest⟩ := List.forall_mem_cons.1 hw
    cases w with
    | nil => exact words_of_last hc hblank rest
    | cons next w =>
      exact words_of_more hc (List.forall_mem_cons.1 hrest).1 (ih (List.cons_ne_nil _ _) hrest)

/-- A word alone. -/
theorem words_of_isWord {w : Text} (hw : w.IsWord) : words w = [w] := by
  obtain ⟨hne, hw⟩ := hw
  induction w with
  | nil => exact absurd rfl hne
  | cons c w ih =>
    obtain ⟨hc, hrest⟩ := List.forall_mem_cons.1 hw
    cases w with
    | nil => simp [words, hc]
    | cons next w =>
      exact words_of_more hc (List.forall_mem_cons.1 hrest).1 (ih (List.cons_ne_nil _ _) hrest)

/-- The words of a text are words. -/
theorem isWord_of_mem_words (t : Text) : ∀ w ∈ words t, w.IsWord := by
  induction t with
  | nil => simp [words]
  | cons c rest ih =>
    unfold words
    by_cases hblank : isBlank c = true
    · rw [if_pos hblank]
      exact ih
    · have hc : isBlank c = false := Bool.eq_false_iff.2 hblank
      have hsingle : IsWord [c] := ⟨by simp, List.forall_mem_singleton.2 hc⟩
      rw [if_neg hblank]
      split
      · next next behind word more hwords =>
        rw [hwords] at ih
        obtain ⟨hword, hmore⟩ := List.forall_mem_cons.1 ih
        split
        · exact List.forall_mem_cons.2 ⟨hsingle, List.forall_mem_cons.2 ⟨hword, hmore⟩⟩
        · have hlonger : IsWord (c :: word) :=
            ⟨List.cons_ne_nil _ _, List.forall_mem_cons.2 ⟨hc, hword.2⟩⟩
          exact List.forall_mem_cons.2 ⟨hlonger, hmore⟩
      · exact List.forall_mem_cons.2 ⟨hsingle, ih⟩

/-- Words with single spaces between them are found again. -/
theorem words_join {ws : List Text} (h : ∀ w ∈ ws, w.IsWord) : words (join " " ws) = ws := by
  induction ws with
  | nil => rfl
  | cons w ws ih =>
    obtain ⟨hw, hws⟩ := List.forall_mem_cons.1 h
    cases ws with
    | nil =>
      rw [join, List.intercalate_singleton]
      exact words_of_isWord hw
    | cons next ws =>
      have hspace : isBlank (CodePoint.ofChar ' ') = true := by decide
      rw [join, List.intercalate_cons_cons, List.append_assoc]
      change words (w ++ CodePoint.ofChar ' ' :: join " " (next :: ws)) = _
      rw [words_append hw hspace, ih hws]

end Text

namespace Script

open Text (IsPrintable IsWord)

/-- What stands for a code point on one line. -/
def shown (c : CodePoint) : Text :=
  if Text.isPrintable c then [c] else Text.escape c

/-- What stands for a code point on one line is printable, and blank only for a blank. -/
theorem shown_spec (c : CodePoint) : shown c ≠ [] ∧ IsPrintable (shown c) ∧
    (Text.isBlank c = false → ∀ e ∈ shown c, Text.isBlank e = false) := by
  unfold shown
  split
  · next h =>
    exact ⟨by simp, List.forall_mem_singleton.2 h, fun hblank => List.forall_mem_singleton.2 hblank⟩
  · obtain ⟨hne, hescape⟩ := Text.escape_spec c
    exact ⟨hne, fun e he => (hescape e he).1, fun _ e he => (hescape e he).2⟩

/-- Printable code points stand for themselves. -/
theorem flatMap_shown {t : Text} (h : t.IsPrintable) : t.flatMap shown = t := by
  induction t with
  | nil => rfl
  | cons c t ih =>
    obtain ⟨hc, ht⟩ := List.forall_mem_cons.1 h
    rw [List.flatMap_cons, ih ht, shown, if_pos hc, List.singleton_append]

/-- A text on one line is printable. -/
theorem isPrintable_oneLine (t : Text) : (oneLine t).IsPrintable := by
  intro e he
  obtain ⟨c, -, he⟩ := List.mem_flatMap.1 he
  exact (shown_spec c).2.1 e he

/-- A text on one line is its words as they are shown, with single spaces between them. -/
theorem oneLine_eq (t : Text) : oneLine t = Text.join " " (t.words.map (·.flatMap shown)) := by
  change (Text.join " " t.words).flatMap shown = _
  generalize t.words = ws
  induction ws with
  | nil => rfl
  | cons w ws ih =>
    cases ws with
    | nil => simp [Text.join, List.intercalate_singleton]
    | cons next ws =>
      have hspace : (Text.ofString " ").flatMap shown = Text.ofString " " := by decide
      simp only [Text.join, List.map_cons, List.intercalate_cons_cons, List.flatMap_append, hspace] at ih ⊢
      rw [ih]

/-- A text that is on one line already stays as it is. -/
theorem oneLine_oneLine (t : Text) : oneLine (oneLine t) = oneLine t := by
  have hwords : (oneLine t).words = t.words.map (·.flatMap shown) := by
    rw [oneLine_eq]
    apply Text.words_join
    intro w hw
    obtain ⟨v, hv, rfl⟩ := List.mem_map.1 hw
    obtain ⟨hne, hblank⟩ := Text.isWord_of_mem_words t v hv
    constructor
    · obtain ⟨c, v, rfl⟩ := List.exists_cons_of_ne_nil hne
      simp [(shown_spec c).1]
    · intro e he
      obtain ⟨c, hc, he⟩ := List.mem_flatMap.1 he
      exact (shown_spec c).2.2 (hblank c hc) e he
  calc oneLine (oneLine t)
      = (Text.join " " (oneLine t).words).flatMap shown := rfl
    _ = (oneLine t).flatMap shown := by rw [hwords, ← oneLine_eq]
    _ = oneLine t := flatMap_shown (isPrintable_oneLine t)

namespace Block

/-- The label in the comment that marks a block. -/
def shownLabel (b : Block) : Text :=
  if oneLine b.context.node.label = [] then "(unnamed)" else oneLine b.context.node.label

/-- The label in a comment stays as it is on one line. -/
theorem oneLine_shownLabel (b : Block) : oneLine b.shownLabel = b.shownLabel := by
  unfold shownLabel
  split
  · decide +kernel
  · exact oneLine_oneLine _

/-- The comment that marks a block is printable. -/
theorem isPrintable_marker (b : Block) : b.marker.IsPrintable := by
  have hlabel : b.shownLabel.IsPrintable := by
    unfold shownLabel
    split
    · decide
    · exact isPrintable_oneLine _
  have hkind : b.context.node.kind.name.IsPrintable := by
    cases b.context.node.kind <;> decide
  have hid := isPrintable_oneLine b.context.node.id
  have hopen : IsPrintable "# [" := by decide
  have hclose : IsPrintable "] " := by decide
  have hfront : IsPrintable " (" := by decide
  have hback : IsPrintable ")" := by decide
  exact ((((hopen.append hkind).append hclose).append hlabel).append hfront).append hid |>.append hback

end Block

end Script

end PipelineGraph
