import PipelineGraph.Text.Basic

/-!
# The order of texts

Texts are ordered as words in a dictionary are, by the numbers of their code points. Sorting texts of
which no two are the same gives an increasing list, and there is only one with the same texts.
-/

namespace PipelineGraph

namespace CodePoint

instance : Std.Irrefl (α := CodePoint) (· < ·) :=
  ⟨fun c => Nat.lt_irrefl c.val⟩

instance : Std.Asymm (α := CodePoint) (· < ·) :=
  ⟨fun _ _ h => Nat.lt_asymm h⟩

instance : Trans (α := CodePoint) (· < ·) (· < ·) (· < ·) :=
  ⟨fun h h' => Nat.lt_trans h h'⟩

/-- Of two code points with different numbers one comes first. -/
instance : Std.Trichotomous (α := CodePoint) (· < ·) := by
  refine ⟨fun ⟨m, _⟩ ⟨n, _⟩ hlt hgt => ?_⟩
  have heq : m = n := Nat.le_antisymm (Nat.not_lt.1 hgt) (Nat.not_lt.1 hlt)
  subst heq
  rfl

end CodePoint

namespace Text

/-- No two texts stand before each other. -/
instance : Std.Antisymm (α := Text) (· < ·) :=
  ⟨fun _ _ h h' => absurd h' (List.lt_asymm h)⟩

/-- A text does not stand before itself. -/
instance : Std.Irrefl (α := Text) (· < ·) :=
  ⟨List.lt_irrefl⟩

/-- Sorted texts do not decrease. -/
theorem sort_ordered (texts : List Text) : (sort texts).Pairwise (· ≤ ·) := by
  refine (List.pairwise_mergeSort ?_ ?_ texts).imp of_decide_eq_true
  · intro a b c hab hbc
    simp only [decide_eq_true_eq, List.le_iff_lt_or_eq] at hab hbc ⊢
    rcases hab with hab | rfl
    · rcases hbc with hbc | rfl
      · exact Or.inl (List.lt_trans hab hbc)
      · exact Or.inl hab
    · exact hbc
  · intro a b
    simpa only [Bool.or_eq_true, decide_eq_true_eq] using List.le_total a b

/-- Texts of which no two are the same increase once they are sorted. -/
theorem sort_increasing {texts : List Text} (h : texts.Nodup) : (sort texts).Pairwise (· < ·) := by
  have hnodup : (sort texts).Nodup := (List.mergeSort_perm texts _).nodup_iff.2 h
  refine ((sort_ordered texts).and hnodup).imp fun ⟨hle, hne⟩ => ?_
  exact (List.le_iff_lt_or_eq.1 hle).resolve_right hne

end Text

end PipelineGraph
