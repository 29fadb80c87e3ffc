import PipelineGraph.Proofs.Script.Naming

/-!
# The search for a name

A request tries its base, and then the base with one number after the other, until a name is free.
This search has no bound of its own. It ends because all that it passes over are names to avoid, of
which there are finitely many, and because no two numbers make the same name. So requests in a row are
all answered, each in one way: with the first free name of its base, given what was handed out before.
-/

namespace PipelineGraph

namespace Text

variable {t : Text}

/-- A code point that opens an identifier is no digit. -/
theorem digits_has_eq_false_of_opensIdentifier {c : CodePoint} (h : opensIdentifier c = true) :
    digits.has c = false := by
  -- Stated with truth values, since the kernel computes these faster than it decides propositions.
  have hapart : (digits.all fun q => identifierStarters.all fun r => r.2.blt q.1 || q.2.blt r.1) = true := by
    decide +kernel
  obtain ⟨r, hr, hin⟩ := List.any_eq_true.1 h
  refine List.any_eq_false.2 fun q hq => ?_
  have hrq := List.all_eq_true.1 (List.all_eq_true.1 hapart q hq) r hr
  simp only [Bool.or_eq_true, Nat.blt_eq] at hrq
  simp only [Bool.and_eq_true, decide_eq_true_eq] at hin ⊢
  omega

/-- No identifier begins with a digit. -/
theorem opensWithDigit_eq_false_of_isIdentifier (h : isIdentifier t = true) : opensWithDigit t = false := by
  cases t with
  | nil => rfl
  | cons c rest => exact digits_has_eq_false_of_opensIdentifier (Bool.and_eq_true_iff.1 h).1

end Text

namespace Script.Names

/-- The first free name of a base: the base itself if it is free, and otherwise the base with the least
number, from two on, that makes it free. -/
inductive FirstFree (free : Text → Prop) (base : Text) : Text → Prop where
  | itself (free_base : free base) : FirstFree free base base
  | numbered {n : Nat} (busy : ¬ free base) (two_le : 2 ≤ n) (free_numbered : free (numbered base n))
    (least : ∀ k, 2 ≤ k → k < n → ¬ free (numbered base k)) : FirstFree free base (numbered base n)

variable {names : Names} {base candidate x y : Text} {bases given : List Text} {n m : Nat}

/-! ## One request -/

/-- What is adjusted is what is no identifier or begins with a digit. -/
theorem adjust_eq (base : Text) : adjust base =
    if Text.isIdentifier base && !Text.opensWithDigit base then base else "node_" ++ base := by
  unfold adjust
  split
  · next h => simp [h, Text.opensWithDigit_eq_false_of_isIdentifier h]
  · next h => simp [h]

/-- A search has one result at most. -/
theorem Search.unique (h : names.Search base candidate n x) (h' : names.Search base candidate n y) :
    x = y := by
  induction h with
  | found free =>
    cases h' with
    | found free' => rfl
    | passed busy' behind' => rw [free] at busy'; cases busy'
  | passed busy behind ih =>
    cases h' with
    | found free' => rw [busy] at free'; cases free'
    | passed busy' behind' => exact ih behind'

/-- A search passes over numbers until one makes a free name. -/
theorem Search.of_numbered (hle : n ≤ m) (hbusy : ∀ k, n ≤ k → k < m → names.isFree (numbered base k) = false)
    (hfree : names.isFree (numbered base m) = true) :
    names.Search base (numbered base n) (n + 1) (numbered base m) := by
  obtain ⟨distance, rfl⟩ := Nat.exists_eq_add_of_le hle
  induction distance generalizing n with
  | zero => exact .found hfree
  | succ distance ih =>
    rw [show n + (distance + 1) = n + 1 + distance by omega] at hbusy hfree ⊢
    exact .passed (hbusy n (Nat.le_refl n) (by omega))
      (ih (by omega) (fun k hk hkm => hbusy k (by omega) hkm) hfree)

/-- A search for a base finds its first free name. -/
theorem FirstFree.search (h : FirstFree (names.isFree · = true) base x) : names.Search base base 2 x := by
  cases h with
  | itself hfree => exact .found hfree
  | numbered hbusy hle hfree hleast =>
    exact .passed (Bool.eq_false_iff.2 hbusy)
      (.of_numbered hle (fun k hk hkn => Bool.eq_false_iff.2 (hleast k hk hkn)) hfree)

/-- The name that is chosen for a base is the first free one of the adjusted base. -/
theorem firstFree_choose (names : Names) (base : Text) :
    FirstFree (names.isFree · = true) (adjust base) (names.choose base) := by
  obtain ⟨hfree, hchoose | ⟨hbusy, n, hle, hchoose, hleast⟩⟩ := names.choose_spec base
  · rw [hchoose] at hfree ⊢
    exact .itself hfree
  · rw [hchoose] at hfree ⊢
    exact .numbered (Bool.eq_false_iff.1 hbusy) hle hfree fun k hk hkn => Bool.eq_false_iff.1 (hleast k hk hkn)

/-- Every request gets a name, and it is the one that is chosen for the base. -/
theorem request_iff : names.Request base x ↔ x = names.choose base := by
  have hchosen : names.Request base (names.choose base) := by
    unfold Request
    rw [← adjust_eq]
    exact (names.firstFree_choose base).search
  constructor
  · exact fun h => Search.unique h hchosen
  · rintro rfl
    exact hchosen

/-! ## Requests in a row -/

/-- Requests in a row get the names that are claimed for their bases. -/
theorem requests_iff : Requests names bases given ↔ given = (names.claimAll bases).1 := by
  induction bases generalizing names given with
  | nil =>
    constructor
    · rintro ⟨⟩
      rfl
    · rintro rfl
      exact .nil
  | cons base rest ih =>
    constructor
    · rintro (_ | ⟨first, behind⟩)
      obtain rfl := request_iff.1 first
      rw [ih.1 behind]
      rfl
    · rintro rfl
      exact .cons (request_iff.2 rfl) (ih.2 rfl)

/-- What each of several requests gets is free when it is made, and the first such name of its base. -/
theorem firstFree_claimAll (names : Names) (bases : List Text) {i : Nat} (h : bases[i]? = some base) :
    ∃ x, (names.claimAll bases).1[i]? = some x ∧
      FirstFree (fun y => y ∉ names.taken ∧ y ∉ (names.claimAll bases).1.take i ∧ y ∉ keywords)
        (adjust base) x := by
  induction bases generalizing names i with
  | nil => cases h
  | cons first rest ih =>
    cases i with
    | zero =>
      obtain rfl := Option.some.inj h
      refine ⟨names.choose first, rfl, ?_⟩
      simpa only [isFree_iff, List.take_zero, List.not_mem_nil, not_false_eq_true, true_and] using
        names.firstFree_choose first
    | succ i =>
      obtain ⟨x, hx, hfirst⟩ := ih (names.claim first).2 h
      refine ⟨x, hx, ?_⟩
      -- What the first request got moves from the names given before to those taken.
      have hfree : ∀ y, (y ∉ (names.claim first).2.taken ∧
            y ∉ ((names.claim first).2.claimAll rest).1.take i ∧ y ∉ keywords) ↔
          y ∉ names.taken ∧ y ∉ (names.claimAll (first :: rest)).1.take (i + 1) ∧ y ∉ keywords := by
        intro y
        simp only [taken_claim, claimAll, List.take_succ_cons, List.mem_cons]
        tauto
      simpa only [hfree] using hfirst

/--
Requests for names are all answered, each in one way, and never with the same name. Whatever names are
reserved and whatever bases are asked for one after another, every search ends, though it has no bound.
The names that are handed out differ from each other; none is reserved or a keyword. Each is the first
one of its adjusted base that is free at the moment: not reserved, not handed out by an earlier request,
and no keyword.
-/
theorem requests_never_repeat (reserved bases : List Text) :
    let given := (claimAll ⟨reserved⟩ bases).1
    (∀ answers, Requests ⟨reserved⟩ bases answers ↔ answers = given) ∧
      given.length = bases.length ∧ given.Nodup ∧ (∀ x ∈ given, x ∉ reserved ∧ x ∉ keywords) ∧
      ∀ (i : Nat) (base : Text), bases[i]? = some base → ∃ x, given[i]? = some x ∧
        FirstFree (fun y => y ∉ reserved ∧ y ∉ given.take i ∧ y ∉ keywords) (adjust base) x := by
  intro given
  obtain ⟨hnodup, hfresh⟩ := claimAll_nodup ⟨reserved⟩ bases
  have hwords : ∀ x ∈ given, x ∉ keywords :=
    forall_claimAll (fun names base _ => names.choose_not_mem_keywords base) ⟨reserved⟩
  exact ⟨fun answers => requests_iff, length_claimAll _ _, hnodup, fun x hx => ⟨hfresh x hx, hwords x hx⟩,
    fun i base h => firstFree_claimAll ⟨reserved⟩ bases h⟩

/-- Bases that are empty, repeated, reserved, keywords, or names with a number that was handed out. -/
theorem requests_never_repeat_colliding :
    let reserved : List Text := ["inputs", "x_3"]
    let bases : List Text := ["", "x", "x", "x_2", "x", "class", "class", "inputs", "2x", ""]
    let given : List Text :=
      ["node_", "x", "x_2", "x_2_2", "x_4", "class_2", "class_3", "inputs_2", "node_2x", "node__2"]
    let last : Text := "node__2"
    Requests ⟨reserved⟩ bases given ∧ given.Nodup ∧ (last ∈ given ∧ last ∉ reserved ∧ last ∉ keywords) ∧
      bases[4]? = some (Text.ofString "x") ∧
      FirstFree (fun y => y ∉ reserved ∧ y ∉ given.take 4 ∧ y ∉ keywords) "x" "x_4" := by
  intro reserved bases given last
  have hgiven : (claimAll ⟨reserved⟩ bases).1 = given := by decide +kernel
  have hadjust : adjust (Text.ofString "x") = Text.ofString "x" := by decide +kernel
  obtain ⟨hanswers, -, hnodup, havoid, hfirst⟩ := requests_never_repeat reserved bases
  rw [hgiven] at hanswers hnodup havoid hfirst
  have hlast : last ∈ given := by decide
  obtain ⟨x, hx, hfree⟩ := hfirst 4 "x" rfl
  obtain rfl := Option.some.inj hx
  exact ⟨(hanswers given).2 rfl, hnodup, ⟨hlast, havoid last hlast⟩, rfl, hadjust ▸ hfree⟩

end Script.Names

end PipelineGraph
