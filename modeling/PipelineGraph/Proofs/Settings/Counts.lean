import PipelineGraph.Proofs.Number.Numerals
import PipelineGraph.Settings

/-!
# Counts

A count is read as a number before it is an integer. So the integer that an entry gives is used as it
stands if it is a number, and the default stands in if it is beyond all numbers. Any other integer is
replaced by another one.
-/

namespace PipelineGraph

/-- An entry gives an integer as a number or as a numeral. -/
def Value.Gives (entry : Value) (n : Int) : Prop :=
  entry = .int n ∨ entry = .text (.ofInt n)

section Reading

variable {entry : Value} {n : Int}

/-- The number of an entry that gives an integer is the one that the integer is read as. -/
theorem numberSetting?_of_gives (hentry : entry.Gives n) :
    numberSetting? (some entry) = Binary64.ofInt? n := by
  rcases hentry with rfl | rfl
  · rfl
  · exact Binary64.filter_ofText?_ofInt n

/-- A count is the integer that an entry is read as, if that reaches the minimum. -/
theorem countSetting_of_read (hentry : entry.Gives n) {x : Binary64} {m : Int}
    (hx : Binary64.ofInt? n = some x) (hm : x.toInt? = some m) (default minimum : Int) :
    countSetting (some entry) default minimum = if minimum ≤ m then m else default := by
  rw [countSetting, countSetting?, numberSetting?_of_gives hentry, hx, Option.bind_some, hm]
  split
  · next hle => simp [Option.filter, hle]
  · next hlt => simp [Option.filter, hlt]

/-- An integer that is a number is used as it stands, unless it is below the minimum. -/
theorem countSetting_of_isExact (hentry : entry.Gives n) (hexact : Binary64.IsExact n)
    (default minimum : Int) :
    countSetting (some entry) default minimum = if minimum ≤ n then n else default := by
  obtain ⟨x, hx, hvalue⟩ := hexact.ofInt?
  exact countSetting_of_read hentry hx hvalue default minimum

/-- For an integer beyond all numbers the default stands in. -/
theorem countSetting_of_beyond (hentry : entry.Gives n) (hbeyond : Binary64.ofInt? n = none)
    (default minimum : Int) : countSetting (some entry) default minimum = default := by
  rw [countSetting, countSetting?, numberSetting?_of_gives hentry, hbeyond]
  rfl

/-- An integer between two numbers is replaced by another one. -/
theorem exists_countSetting_of_not_isExact (hentry : entry.Gives n) (hexact : ¬ Binary64.IsExact n)
    (hread : Binary64.ofInt? n ≠ none) :
    ∃ m, m ≠ n ∧ ∀ default minimum,
      countSetting (some entry) default minimum = if minimum ≤ m then m else default := by
  obtain ⟨x, hx⟩ := Option.ne_none_iff_exists'.1 hread
  obtain ⟨m, hm⟩ := Binary64.exists_toInt?_of_ofInt? hx
  refine ⟨m, ?_, countSetting_of_read hentry hx hm⟩
  rintro rfl
  exact hexact ⟨x, hm⟩

/--
A count is the integer that its entry gives or the default, for every default and every minimum, exactly
if that integer is a number or beyond all numbers.
-/
theorem countSetting_eq_or_default_iff (hentry : entry.Gives n) :
    (∀ default minimum, countSetting (some entry) default minimum = n ∨
      countSetting (some entry) default minimum = default) ↔
      Binary64.IsExact n ∨ Binary64.ofInt? n = none := by
  constructor
  · intro h
    by_contra hneither
    obtain ⟨hexact, hread⟩ := not_or.1 hneither
    obtain ⟨m, hne, hcount⟩ := exists_countSetting_of_not_isExact hentry hexact hread
    -- With the other integer as the minimum, a default beside it is not used.
    have hthird := h (m + 1) m
    rw [hcount, if_pos (Int.le_refl m)] at hthird
    omega
  · rintro (hexact | hbeyond) default minimum
    · rw [countSetting_of_isExact hentry hexact]
      split
      · exact Or.inl rfl
      · exact Or.inr rfl
    · exact Or.inr (countSetting_of_beyond hentry hbeyond default minimum)

/-- Up to `2 ^ 53` a count is what its entry gives, unless that is below the minimum. -/
theorem countSetting_of_natAbs_le (hentry : entry.Gives n) (hle : n.natAbs ≤ 2 ^ 53)
    (default minimum : Int) :
    countSetting (some entry) default minimum = if minimum ≤ n then n else default :=
  countSetting_of_isExact hentry (Binary64.isExact_of_natAbs_le hle) default minimum

example : countSetting (some (.text "9007199254740993")) 4 1 = 9007199254740992 := by
  decide +kernel

end Reading

/-! ## Settings -/

section Settings

variable {d : Defaults} {config : Fields} {entry : Value} {n : Int}

/-- The settings of a splitter are the integers of its entries, as far as they are in bounds. -/
theorem SplitterSettings.ofConfig_eq {overlap : Value} {m : Int}
    (hsize : config.get? "chunkSize" = some entry) (hn : entry.Gives n) (hexact : Binary64.IsExact n)
    (hoverlap : config.get? "chunkOverlap" = some overlap) (hm : overlap.Gives m)
    (hexact' : Binary64.IsExact m) :
    ofConfig d config =
      let size := if 1 ≤ n then n else d.chunkSize
      ⟨size, if 0 ≤ m ∧ m < size then m else 0⟩ := by
  unfold ofConfig
  rw [hsize, hoverlap, countSetting_of_isExact hn hexact, countSetting_of_isExact hm hexact']
  generalize (if 1 ≤ n then n else d.chunkSize) = size
  dsimp only
  congr 1
  by_cases hpos : 0 ≤ m
  · rw [if_pos hpos]
    by_cases hlt : m < size
    · rw [if_neg (Int.not_le_of_gt hlt), if_pos ⟨hpos, hlt⟩]
    · rw [if_pos (Int.not_lt.1 hlt), if_neg fun h => hlt h.2]
  · rw [if_neg hpos, ite_self, if_neg fun h => hpos h.1]

/-- The number of results is the integer of its entry, if that is in bounds. -/
theorem StoreSettings.topK_ofConfig (htop : config.get? "topK" = some entry) (hn : entry.Gives n)
    (hexact : Binary64.IsExact n) : (ofConfig d config).topK = if 1 ≤ n then n else d.topK := by
  unfold ofConfig
  rw [htop]
  exact countSetting_of_isExact hn hexact d.topK 1

end Settings

end PipelineGraph
