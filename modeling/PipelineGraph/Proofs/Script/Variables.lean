import PipelineGraph.Proofs.Script.Naming
import PipelineGraph.Proofs.Script.Reading
import PipelineGraph.Proofs.Text.Printing

/-!
# The variables of a script

The variables of different nodes differ, none is reserved, and each holds a low line and no capital
letter. So no variable is a name that a block imports.
-/

namespace PipelineGraph

/-- The capital letters of ASCII. -/
def CodePoint.IsCapital (c : CodePoint) : Prop :=
  0x41 ≤ c.val ∧ c.val ≤ 0x5A

instance : DecidablePred CodePoint.IsCapital :=
  fun c => inferInstanceAs (Decidable (0x41 ≤ c.val ∧ c.val ≤ 0x5A))

namespace Text

/-- A text without capital letters. -/
def IsUncapitalized (t : Text) : Prop :=
  ∀ c ∈ t, ¬ c.IsCapital

instance : DecidablePred IsUncapitalized :=
  fun t => inferInstanceAs (Decidable (∀ c ∈ t, ¬ c.IsCapital))

/-- A text with a low line and without capital letters. -/
def IsVariableLike (t : Text) : Prop :=
  CodePoint.ofChar '_' ∈ t ∧ t.IsUncapitalized

instance : DecidablePred IsVariableLike :=
  fun t => inferInstanceAs (Decidable (CodePoint.ofChar '_' ∈ t ∧ t.IsUncapitalized))

/-- Texts without capitals put together have none. -/
theorem IsUncapitalized.append {s t : Text} (hs : s.IsUncapitalized) (ht : t.IsUncapitalized) :
    IsUncapitalized (s ++ t) := by
  intro c hc
  rcases List.mem_append.1 hc with hc | hc
  · exact hs c hc
  · exact ht c hc

/-- The digits of a natural number are no capital letters. -/
theorem isUncapitalized_ofNat (n : Nat) : (Text.ofNat n).IsUncapitalized := by
  intro c hc
  have hval := isDigit_of_mem_ofNat hc
  unfold CodePoint.IsCapital
  omega

/-- The numeral of an integer holds no capital letter. -/
theorem isUncapitalized_ofInt (n : Int) : (Text.ofInt n).IsUncapitalized := by
  intro c hc
  have hval := val_of_mem_ofInt hc
  unfold CodePoint.IsCapital
  omega

/-- Trimming adds nothing to a text. -/
theorem trim_subset (drop : CodePoint → Bool) (t : Text) : t.trim drop ⊆ t := by
  intro c hc
  rw [trim, List.mem_reverse] at hc
  have hc := (List.dropWhile_suffix drop).subset hc
  rw [List.mem_reverse] at hc
  exact (List.dropWhile_suffix drop).subset hc

end Text

namespace Script

open Text (IsUncapitalized IsVariableLike)

/-- A letter in lower case is no capital letter. -/
theorem not_isCapital_lowerLetter (c : CodePoint) : ¬ (lowerLetter c).IsCapital := by
  unfold lowerLetter
  split
  · next h =>
    have hlt : c.val + 0x20 < 0x110000 := by omega
    simp only [CodePoint.ofNat, hlt, dif_pos, CodePoint.IsCapital]
    omega
  · next h => exact h

/-- Joined words hold no capital letter. -/
theorem isUncapitalized_joinWords (afterGap : Bool) (t : Text) :
    (joinWords afterGap t).IsUncapitalized := by
  induction t generalizing afterGap with
  | nil => simp [joinWords, IsUncapitalized]
  | cons c rest ih =>
    simp only [joinWords]
    split
    · exact List.forall_mem_cons.2 ⟨not_isCapital_lowerLetter c, ih _⟩
    · split
      · exact ih _
      · exact List.forall_mem_cons.2 ⟨by decide, ih _⟩

/-- A slug holds no capital letter. -/
theorem isUncapitalized_slug (t : Text) : (slug t).IsUncapitalized := fun c hc =>
  isUncapitalized_joinWords true t c (Text.trim_subset _ _ (List.mem_of_mem_take hc))

/-- The base of a variable has its form. -/
theorem isVariableLike_variableBase (id label : Text) (position : Int) :
    (variableBase id label position).IsVariableLike := by
  unfold variableBase
  refine ⟨List.mem_append_left _ (List.mem_append_right _ (by decide)), ?_⟩
  refine IsUncapitalized.append (IsUncapitalized.append ?_ (by decide)) ?_
  · split
    · decide
    · exact isUncapitalized_slug label
  · split
    · exact IsUncapitalized.append (by decide) (Text.isUncapitalized_ofInt _)
    · exact isUncapitalized_slug id

/-- A name keeps the form of its base. -/
theorem isVariableLike_choose (names : Names) {base : Text} (h : base.IsVariableLike) :
    (names.choose base).IsVariableLike := by
  refine Names.choose_induction (fun _ => h) ?_ (fun x n hx => ?_) names
  · exact ⟨List.mem_append_right _ h.1, IsUncapitalized.append (by decide) h.2⟩
  · refine ⟨List.mem_append_left _ (List.mem_append_left _ hx.1), ?_⟩
    exact IsUncapitalized.append (IsUncapitalized.append hx.2 (by decide)) (Text.isUncapitalized_ofNat n)

/-- No name that a block imports has the form of a variable. -/
theorem not_isVariableLike_known (c : BlockContext) (d : Defaults) :
    ∀ x ∈ (c.fragment d).imports.map Import.known, ¬ x.IsVariableLike := by
  cases hrole : c.node.role <;> simp only [BlockContext.fragment, hrole]
  case llm =>
    simp only [BlockContext.llm]
    split <;> decide
  all_goals
    simp only [BlockContext.trigger, BlockContext.fileUpload, BlockContext.textSplitter,
      BlockContext.webScraper, BlockContext.runTool, BlockContext.transcription,
      BlockContext.processing, BlockContext.vectorStore, BlockContext.router, BlockContext.email,
      BlockContext.slack, BlockContext.action]
    decide

/-! ## The variables of nodes -/

variable {g : FlowGraph} {id : Text} {sequence : List Text}

/-- Every node has a base. -/
theorem lookup_variableBases (hid : id ∈ g.ids) :
    ∃ (label : Text) (position : Nat),
      (variableBases g).lookup id = some (variableBase id label position) := by
  have hlookup : ∀ (nodes : List Node) (start : Nat), id ∈ nodes.map (·.id) →
      ∃ (label : Text) (position : Nat), ((nodes.zipIdx start).map fun x =>
        (x.1.id, variableBase x.1.id x.1.label x.2)).lookup id =
          some (variableBase id label position) := by
    intro nodes
    induction nodes with
    | nil => simp
    | cons n rest ih =>
      intro start hmem
      by_cases h : id = n.id
      · exact ⟨n.label, start, by simp [h]⟩
      · have hkey : (id == n.id) = false := beq_eq_false_iff_ne.2 h
        obtain ⟨label, position, hrest⟩ := ih (start + 1) (List.mem_of_ne_of_mem h hmem)
        exact ⟨label, position, by simpa [List.zipIdx_cons, List.lookup_cons, hkey] using hrest⟩
  exact hlookup g.nodes 0 hid

/-- The variables of the nodes of a sequence, in its order. -/
theorem map_of_claimVariables (hnodup : sequence.Nodup) :
    sequence.map (claimVariables g sequence).1.of =
      (Names.claimAll ⟨reservedNames⟩
        (sequence.map fun id => ((variableBases g).lookup id).getD [])).1 := by
  have hzip : ∀ (ids names : List Text), ids.Nodup → names.length = ids.length →
      ids.map (Variables.of (ids.zip names)) = names := by
    intro ids
    induction ids with
    | nil => intro names _ hlength; simp_all
    | cons id rest ih =>
      intro names hids hlength
      obtain ⟨x, names, rfl⟩ := List.exists_cons_of_length_eq_add_one hlength
      obtain ⟨hid, hrest⟩ := List.nodup_cons.1 hids
      simp only [List.zip_cons_cons, List.map_cons, List.cons.injEq]
      refine ⟨by simp [Variables.of], ?_⟩
      rw [← ih names hrest (by simpa using hlength)]
      refine List.map_congr_left fun w hw => ?_
      have hne : (w == id) = false := beq_eq_false_iff_ne.2 fun h => hid (h ▸ hw)
      simp [Variables.of, List.lookup_cons, hne, ih names hrest (by simpa using hlength)]
  exact hzip _ _ hnodup (by simp)

/-- The variables of different nodes of a sequence differ. -/
theorem claimVariables_injOn (hnodup : sequence.Nodup) {u v : Text} (hu : u ∈ sequence)
    (hv : v ∈ sequence) (h : (claimVariables g sequence).1.of u = (claimVariables g sequence).1.of v) :
    u = v := by
  have hnames := (Names.claimAll_nodup ⟨reservedNames⟩
    (sequence.map fun id => ((variableBases g).lookup id).getD [])).1
  rw [← map_of_claimVariables hnodup] at hnames
  exact List.inj_on_of_nodup_map hnames hu hv h

/-- The variable of a node is one of the names that are handed out. -/
theorem mem_claimAll_of_claimVariables (hnodup : sequence.Nodup) (hid : id ∈ sequence) :
    (claimVariables g sequence).1.of id ∈ (Names.claimAll ⟨reservedNames⟩
      (sequence.map fun id => ((variableBases g).lookup id).getD [])).1 := by
  rw [← map_of_claimVariables hnodup]
  exact List.mem_map_of_mem hid

/-- What holds of every name for the base of a node holds of the nodes' variables. -/
theorem forall_of_claimVariables {Q : Text → Prop}
    (h : ∀ (names : Names) (id label : Text) (position : Nat), Q (names.choose (variableBase id label position)))
    (hnodup : sequence.Nodup) (hids : sequence ⊆ g.ids) (hid : id ∈ sequence) :
    Q ((claimVariables g sequence).1.of id) := by
  refine Names.forall_claimAll (fun names base hbase => ?_) _ _ (mem_claimAll_of_claimVariables hnodup hid)
  obtain ⟨w, hw, rfl⟩ := List.mem_map.1 hbase
  obtain ⟨label, position, hlookup⟩ := lookup_variableBases (hids hw)
  rw [hlookup]
  exact h names w label position

/-- The variable of a node is not reserved and has the form of a variable. -/
theorem of_claimVariables (hnodup : sequence.Nodup) (hids : sequence ⊆ g.ids) (hid : id ∈ sequence) :
    (claimVariables g sequence).1.of id ∉ reservedNames ∧
      ((claimVariables g sequence).1.of id).IsVariableLike ∧
      (claimVariables g sequence).1.of id ∈ (claimVariables g sequence).2.taken := by
  have hmem := mem_claimAll_of_claimVariables (g := g) hnodup hid
  refine ⟨(Names.claimAll_nodup _ _).2 _ hmem, ?_, (Names.mem_taken_claimAll _ _).2 (Or.inl hmem)⟩
  exact forall_of_claimVariables (fun names id label position =>
    isVariableLike_choose names (isVariableLike_variableBase id label position)) hnodup hids hid

end Script

end PipelineGraph
