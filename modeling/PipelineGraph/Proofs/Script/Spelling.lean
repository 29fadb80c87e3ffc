import PipelineGraph.Proofs.Script.DataFlow
import PipelineGraph.Proofs.Text.Printing

/-!
# How names are spelled

All names that a script hands out are spelled with small letters of ASCII, digits and low lines, and
hold a low line. So no block assigns a name that stands for something else in the script, and no
part of a name can be taken for the beginning of a literal or of a comment.
-/

namespace PipelineGraph

/-- A small letter of ASCII, a digit or a low line. -/
def CodePoint.IsPlain (c : CodePoint) : Prop :=
  0x30 ≤ c.val ∧ c.val ≤ 0x39 ∨ c.val = 0x5F ∨ 0x61 ≤ c.val ∧ c.val ≤ 0x7A

instance : DecidablePred CodePoint.IsPlain :=
  fun c => inferInstanceAs
    (Decidable (0x30 ≤ c.val ∧ c.val ≤ 0x39 ∨ c.val = 0x5F ∨ 0x61 ≤ c.val ∧ c.val ≤ 0x7A))

namespace Text

/-- A text of small letters, digits and low lines. -/
def IsPlain (t : Text) : Prop :=
  ∀ c ∈ t, c.IsPlain

instance : DecidablePred IsPlain :=
  fun t => inferInstanceAs (Decidable (∀ c ∈ t, c.IsPlain))

/-- Plain texts put together are plain. -/
theorem IsPlain.append {s t : Text} (hs : s.IsPlain) (ht : t.IsPlain) : IsPlain (s ++ t) := by
  intro c hc
  rcases List.mem_append.1 hc with hc | hc
  · exact hs c hc
  · exact ht c hc

/-- Written numbers are plain. -/
theorem isPlain_ofNat (n : Nat) : (Text.ofNat n).IsPlain := fun _ hc =>
  Or.inl (isDigit_of_mem_ofNat hc)

end Text

namespace Script

open Text (IsPlain IsVariableLike)

/-- A letter or digit of ASCII is plain in lower case. -/
theorem isPlain_lowerLetter {c : CodePoint} (h : isAsciiAlnum c = true) : (lowerLetter c).IsPlain := by
  simp only [isAsciiAlnum, Bool.or_eq_true, Bool.and_eq_true, decide_eq_true_eq] at h
  unfold lowerLetter
  split
  · next hcapital =>
    have hlt : c.val + 0x20 < 0x110000 := by omega
    simp only [CodePoint.ofNat, hlt, dif_pos, CodePoint.IsPlain]
    omega
  · simp only [CodePoint.IsPlain]
    omega

/-- Joined words are plain. -/
theorem isPlain_joinWords (afterGap : Bool) (t : Text) : (joinWords afterGap t).IsPlain := by
  induction t generalizing afterGap with
  | nil => simp [joinWords, IsPlain]
  | cons c rest ih =>
    simp only [joinWords]
    split
    · next h => exact List.forall_mem_cons.2 ⟨isPlain_lowerLetter h, ih _⟩
    · split
      · exact ih _
      · exact List.forall_mem_cons.2 ⟨by decide, ih _⟩

/-- A slug is plain. -/
theorem isPlain_slug (t : Text) : (slug t).IsPlain := fun c hc =>
  isPlain_joinWords true t c (Text.trim_subset _ _ (List.mem_of_mem_take hc))

/-- The base of a variable is plain. -/
theorem isPlain_variableBase (id label : Text) (position : Nat) :
    (variableBase id label position).IsPlain := by
  unfold variableBase
  apply IsPlain.append (IsPlain.append ?_ (by decide))
  · split
    · exact IsPlain.append (by decide) (Text.isPlain_ofNat position)
    · exact isPlain_slug id
  · split
    · decide
    · exact isPlain_slug label

/-- A name is plain if its base is. -/
theorem isPlain_choose (names : Names) {base : Text} (h : base.IsPlain) :
    (names.choose base).IsPlain :=
  Names.choose_induction (fun _ => h) (IsPlain.append (by decide) h)
    (fun _ n hx => IsPlain.append (IsPlain.append hx (by decide)) (Text.isPlain_ofNat n)) names

/-- The variables of the nodes are plain. -/
theorem isPlain_of_claimVariables {g : FlowGraph} {sequence : List Text} {id : Text}
    (hnodup : sequence.Nodup) (hids : sequence ⊆ g.ids) (hid : id ∈ sequence) :
    ((claimVariables g sequence).1.of id).IsPlain :=
  forall_of_claimVariables (fun names id label position =>
    isPlain_choose names (isPlain_variableBase id label position)) hnodup hids hid

/-- A name is spelled as a variable and stands for nothing else. -/
structure IsVariable (x : Text) : Prop where
  plain : x.IsPlain
  like : x.IsVariableLike
  unreserved : x ∉ reservedNames

/-- How the names are spelled that a block uses as variables. -/
structure BlockContext.Spelled (c : BlockContext) : Prop where
  output : IsVariable c.output
  sources : ∀ x ∈ c.sources, IsVariable x
  auxiliary : (auxiliaryEnding? c.node.role).isSome = true → IsVariable c.auxiliary

/-- An auxiliary variable is spelled like the variable that it goes with. -/
theorem isVariable_claimAuxiliary {names : Names} {n : Node} {output : Text}
    (hreserved : reservedNames ⊆ names.taken) (houtput : IsVariable output)
    (hsome : (auxiliaryEnding? n.role).isSome = true) :
    IsVariable (claimAuxiliary names n output).1 := by
  have hfresh := (claimAuxiliary_spec names n output).1 hsome
  obtain ⟨ending, hending⟩ := Option.isSome_iff_exists.1 hsome
  have hspelled : ending.IsPlain ∧ ending.IsUncapitalized := by
    cases hrole : n.role <;> rw [hrole] at hending <;> cases hending <;> decide
  simp only [claimAuxiliary, hending] at hfresh ⊢
  refine ⟨isPlain_choose names ?_, isVariableLike_choose names ⟨?_, ?_⟩, fun h => hfresh (hreserved h)⟩
  · exact IsPlain.append (IsPlain.append houtput.plain (by decide)) hspelled.1
  · exact List.mem_append_left _ (List.mem_append_left _ houtput.like.1)
  · exact Text.IsUncapitalized.append (Text.IsUncapitalized.append houtput.like.2 (by decide)) hspelled.2

/-- The names of all blocks are spelled as variables if those of the nodes are. -/
theorem spelled_blocksFrom {d : Defaults} {g : FlowGraph} {vars : Variables} {names : Names}
    {emitted : List Text} {nodes : List Node} (hreserved : reservedNames ⊆ names.taken)
    (hvars : ∀ id ∈ g.ids, IsVariable (vars.of id)) (hnodes : ∀ n ∈ nodes, n.id ∈ g.ids) :
    ∀ b ∈ (blocksFrom d g vars names emitted nodes).1, b.context.Spelled := by
  induction nodes generalizing names emitted with
  | nil => simp [blocksFrom]
  | cons n rest ih =>
    obtain ⟨hn, hrest⟩ := List.forall_mem_cons.1 hnodes
    simp only [blocksFrom, List.forall_mem_cons]
    refine ⟨⟨hvars n.id hn, ?_, isVariable_claimAuxiliary hreserved (hvars n.id hn)⟩, ?_⟩
    · intro x hx
      obtain ⟨u, hu, rfl⟩ := List.mem_map.1 hx
      exact hvars u (FlowGraph.mem_producers.1 (List.mem_filter.1 hu).1).source_mem
    · exact ih (List.Subset.trans hreserved (claimAuxiliary_spec names n (vars.of n.id)).2) hrest

/-- The variables of the nodes of a graph are spelled as variables. -/
theorem isVariable_of_claimVariables (g : FlowGraph) :
    ∀ id ∈ g.ids, IsVariable ((claimVariables g g.sequence).1.of id) := by
  intro id hid
  have hid := FlowGraph.mem_sequence.2 hid
  have hids : g.sequence ⊆ g.ids := fun _ => FlowGraph.mem_sequence.1
  obtain ⟨hreserved, hlike, -⟩ := of_claimVariables g.sequence_nodup hids hid
  exact ⟨isPlain_of_claimVariables g.sequence_nodup hids hid, hlike, hreserved⟩

/-- The names of all blocks of a script are spelled as variables. -/
theorem spelled_compile (d : Defaults) (s : Snapshot) :
    ∀ b ∈ (compile d s).1.blocks, b.context.Spelled := by
  rw [blocks_compile]
  apply spelled_blocksFrom
  · intro x hx
    exact (Names.mem_taken_claimAll _ _).2 (Or.inr hx)
  · exact isVariable_of_claimVariables s.flow
  · intro n hn
    apply List.mem_map_of_mem
    exact s.flow.filterMap_node?_sequence.2.mem_iff.1 hn

/-- A block assigns nothing but variables. -/
theorem BlockContext.Spelled.assigns {c : BlockContext} (h : c.Spelled) (d : Defaults) :
    ∀ x ∈ (c.fragment d).assigns, IsVariable x := by
  intro x hx
  rcases BlockContext.eq_of_mem_assigns d hx with rfl | ⟨rfl, hsome⟩
  · exact h.output
  · exact h.auxiliary hsome

end Script

end PipelineGraph
