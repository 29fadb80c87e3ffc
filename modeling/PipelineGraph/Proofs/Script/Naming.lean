import PipelineGraph.Script.Names
import Mathlib.Data.List.Nodup
import Mathlib.Data.List.Perm.Subperm

/-!
# Handing out names

A request always gets a free name: of more numbered names than there are names to avoid, one is
free. So names that are handed out one after another differ from each other and from the names
taken before.
-/

namespace PipelineGraph

namespace CodePoint

/-- A character is recovered from its code point. -/
theorem ofChar_injective : Function.Injective ofChar := by
  intro a b h
  simp only [ofChar, mk.injEq] at h
  exact Char.ext (UInt32.toNat_inj.1 h)

end CodePoint

/-- A natural number is recovered from its decimal digits. -/
theorem Text.ofNat_injective : Function.Injective Text.ofNat := by
  intro m n h
  have hdigits : Nat.toDigits 10 m = Nat.toDigits 10 n :=
    List.map_injective_iff.2 CodePoint.ofChar_injective h
  rw [← Nat.ofDigitChars_ten_toDigits (n := m), hdigits, Nat.ofDigitChars_ten_toDigits]

namespace Script.Names

variable {names : Names} {base x : Text}

/-- A name is free if it is not taken and no keyword. -/
theorem isFree_iff : names.isFree x = true ↔ x ∉ names.taken ∧ x ∉ keywords := by
  simp [isFree]

/-- Different numbers make different names. -/
theorem numbered_injective (base : Text) : Function.Injective (numbered base) := by
  intro m n h
  simp only [numbered, List.append_assoc, List.append_cancel_left_eq] at h
  exact Text.ofNat_injective h

/-- The search for a free name ends at the first free one, or behind all that it may try. -/
theorem firstFree_spec (names : Names) (base : Text) (count n : Nat) :
    ∃ m, names.firstFree base count n = numbered base m ∧ n ≤ m ∧ m ≤ n + count ∧
      (∀ k, n ≤ k → k < m → names.isFree (numbered base k) = false) ∧
      (m < n + count → names.isFree (numbered base m) = true) := by
  induction count generalizing n with
  | zero => exact ⟨n, rfl, Nat.le_refl n, Nat.le_refl n, fun k _ _ => by omega, fun h => by omega⟩
  | succ count ih =>
    by_cases hfree : names.isFree (numbered base n) = true
    · refine ⟨n, by simp [firstFree, hfree], Nat.le_refl n, by omega, fun k _ _ => by omega, fun _ => hfree⟩
    · obtain ⟨m, hm, hle, hlt, hbusy, hend⟩ := ih (n + 1)
      refine ⟨m, by simpa [firstFree, hfree] using hm, by omega, by omega, ?_, fun h => hend (by omega)⟩
      intro k hk hkm
      by_cases hkn : k = n
      · rw [hkn]
        exact Bool.eq_false_iff.2 hfree
      · exact hbusy k (by omega) hkm

/-- Of more numbered names than there are names to avoid, one is free. -/
theorem exists_isFree (names : Names) (base : Text) (n : Nat) :
    ∃ k, n ≤ k ∧ k ≤ n + (names.taken.length + keywords.length) ∧
      names.isFree (numbered base k) = true := by
  by_contra hnone
  push Not at hnone
  let tried := (List.range (names.taken.length + keywords.length + 1)).map fun i => numbered base (n + i)
  have hnodup : tried.Nodup :=
    List.nodup_range.map fun i j h => Nat.add_left_cancel (numbered_injective base h)
  have hsub : tried ⊆ names.taken ++ keywords := by
    intro t ht
    obtain ⟨i, hi, rfl⟩ := List.mem_map.1 ht
    have hi := List.mem_range.1 hi
    have hbusy := hnone (n + i) (by omega) (by omega)
    rw [ne_eq, isFree_iff] at hbusy
    rw [List.mem_append]
    tauto
  have hlength := (hnodup.subperm hsub).length_le
  simp only [tried, List.length_map, List.length_range, List.length_append] at hlength
  omega

/-- A request gets its base if that is free, or else the base with the least number that is free. -/
theorem choose_spec (names : Names) (base : Text) :
    names.isFree (names.choose base) = true ∧
      (names.choose base = adjust base ∨
        names.isFree (adjust base) = false ∧ ∃ m, 2 ≤ m ∧ names.choose base = numbered (adjust base) m ∧
          ∀ k, 2 ≤ k → k < m → names.isFree (numbered (adjust base) k) = false) := by
  by_cases hfree : names.isFree (adjust base) = true
  · simp [choose, hfree]
  · obtain ⟨m, hm, hle, hlt, hbusy, hend⟩ := names.firstFree_spec (adjust base)
      (names.taken.length + keywords.length) 2
    have hchoose : names.choose base = numbered (adjust base) m := by simp [choose, hfree, hm]
    refine ⟨?_, Or.inr ⟨Bool.eq_false_iff.2 hfree, m, hle, hchoose, hbusy⟩⟩
    rw [hchoose]
    by_cases hlast : m < 2 + (names.taken.length + keywords.length)
    · exact hend hlast
    · obtain ⟨k, hk, hkm, hkfree⟩ := names.exists_isFree (adjust base) 2
      by_cases hkm' : k < m
      · exact absurd hkfree (by simp [hbusy k hk hkm'])
      · obtain rfl : k = m := by omega
        exact hkfree

/-- What an identifier keeps, what a base has with a word in front, and what numbers do not change, the
name for the base has. -/
theorem choose_induction {P : Text → Prop} (hbase : Text.isIdentifier base = true → P base)
    (hword : P ("node_" ++ base)) (hnumber : ∀ x n, P x → P (numbered x n)) (names : Names) :
    P (names.choose base) := by
  have hadjust : P (adjust base) := by
    unfold adjust
    split
    · next hidentifier => exact hbase hidentifier
    · exact hword
  rcases (names.choose_spec base).2 with hchoose | ⟨-, n, -, hchoose, -⟩ <;> rw [hchoose]
  · exact hadjust
  · exact hnumber _ n hadjust

/-- No name that is handed out is a keyword. -/
theorem choose_not_mem_keywords (names : Names) (base : Text) : names.choose base ∉ keywords :=
  (isFree_iff.1 (names.choose_spec base).1).2

/-- A name that is handed out was not taken. -/
theorem claim_not_mem_taken (names : Names) (base : Text) : (names.claim base).1 ∉ names.taken :=
  (isFree_iff.1 (names.choose_spec base).1).1

/-- A name that is handed out is taken from then on. -/
@[simp] theorem taken_claim : (names.claim base).2.taken = (names.claim base).1 :: names.taken :=
  rfl

/-- Every request gets a name. -/
@[simp] theorem length_claimAll (names : Names) (bases : List Text) :
    (names.claimAll bases).1.length = bases.length := by
  induction bases generalizing names with
  | nil => rfl
  | cons base rest ih => simp [claimAll, ih]

/-- What holds of every name for some bases holds of the names that are handed out for them. -/
theorem forall_claimAll {Q : Text → Prop} {bases : List Text}
    (h : ∀ (names : Names), ∀ base ∈ bases, Q (names.choose base)) (names : Names) :
    ∀ x ∈ (names.claimAll bases).1, Q x := by
  induction bases generalizing names with
  | nil => simp [claimAll]
  | cons base rest ih =>
    simp only [claimAll, List.forall_mem_cons]
    exact ⟨h names base List.mem_cons_self, ih (fun names b hb => h names b (List.mem_cons_of_mem _ hb)) _⟩

/-- After several requests their names are taken, besides those taken before. -/
theorem mem_taken_claimAll (names : Names) (bases : List Text) :
    x ∈ (names.claimAll bases).2.taken ↔ x ∈ (names.claimAll bases).1 ∨ x ∈ names.taken := by
  induction bases generalizing names with
  | nil => simp [claimAll]
  | cons base rest ih =>
    simp only [claimAll, ih, taken_claim, List.mem_cons]
    tauto

/-- Names that are handed out one after another are different, and none was taken before. -/
theorem claimAll_nodup (names : Names) (bases : List Text) :
    (names.claimAll bases).1.Nodup ∧ ∀ x ∈ (names.claimAll bases).1, x ∉ names.taken := by
  induction bases generalizing names with
  | nil => simp [claimAll]
  | cons base rest ih =>
    obtain ⟨hnodup, hfresh⟩ := ih (names.claim base).2
    simp only [taken_claim, List.mem_cons, not_or] at hfresh
    refine ⟨List.nodup_cons.2 ⟨fun h => (hfresh _ h).1 rfl, hnodup⟩, ?_⟩
    simp only [claimAll, List.forall_mem_cons]
    exact ⟨names.claim_not_mem_taken base, fun x hx => (hfresh x hx).2⟩

end Script.Names

end PipelineGraph
