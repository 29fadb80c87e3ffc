import PipelineGraph.Graph.Demo
import PipelineGraph.Proofs.Script.HelperCode
import PipelineGraph.Proofs.Script.Spelling
import PipelineGraph.Proofs.Settings.Usability

/-!
# What the header of a script provides

A block uses its input, names that it assigns, names that the script's language knows, names that
it imports and helpers that it lists, and it uses all that it imports and calls all helpers that it
lists. With what helpers use and list themselves, the header of a script has what its blocks need
and nothing else.
-/

namespace PipelineGraph

/-- The name that stands for a number: one that is not finite is written as a word. -/
def Binary64.uses : Binary64 → List Script.Use
  | .finite _ _ => []
  | .infinite _ => [⟨"inf", false⟩]
  | .nan => [⟨"nan", false⟩]

namespace Script

namespace Expr

mutual

/-- The names that an expression uses and does not bind. -/
def uses : Expr → List Use
  | name x => [⟨x, false⟩]
  | quoted _ => []
  | word _ => []
  | integer _ => []
  | number x => x.uses
  | nothing => []
  | emptyTable => []
  | list items => usesAll items
  | pair first second => uses first ++ uses second
  | member owner _ => uses owner
  | entry table key => uses table ++ uses key
  | call (name x) arguments => ⟨x, true⟩ :: usesAll arguments
  | call callee arguments => uses callee ++ usesAll arguments
  | named _ argument => uses argument
  | function parameter body => freeOf [parameter] (uses body)
  | choice result condition alternative => uses result ++ uses condition ++ uses alternative

/-- The names that expressions use. -/
def usesAll : List Expr → List Use
  | [] => []
  | e :: rest => uses e ++ usesAll rest

end

/-- Names are used one by one. -/
@[simp] theorem usesAll_map_name (xs : List Text) :
    usesAll (xs.map name) = xs.map fun x => ⟨x, false⟩ := by
  induction xs with
  | nil => rfl
  | cons x rest ih => simp [usesAll, uses, ih]

end Expr

/-- The names that a statement uses. -/
def Statement.uses : Statement → List Use
  | assign _ e => e.uses
  | evaluate e => e.uses
  | within resource _ body => resource.uses ++ body.uses
  | assignSpread _ (.name x) arguments _ input => ⟨x, true⟩ :: Expr.usesAll arguments ++ input.uses
  | assignSpread _ callee arguments _ input =>
    callee.uses ++ Expr.usesAll arguments ++ input.uses

/-- The names that a fragment uses. -/
def Fragment.uses (f : Fragment) : List Use :=
  f.statements.flatMap Statement.uses

/-- The input of a block uses its sources, or the inputs of the script if it has none. -/
theorem Sources.uses_expr (sources : Sources) :
    sources.expr.uses = if sources = [] then [⟨"inputs", false⟩] else sources.map fun x => ⟨x, false⟩ := by
  match sources with
  | [] => rfl
  | [x] => rfl
  | x :: y :: rest => exact Expr.usesAll_map_name (x :: y :: rest)

/-- No name stands for a finite number. -/
theorem uses_of_isFinite {x : Binary64} (h : x.isFinite = true) : x.uses = [] := by
  cases x with
  | finite negative rank => rfl
  | infinite negative => cases h
  | nan => cases h

/-- No name stands for the temperature of a model if the default is finite. -/
theorem uses_temperature {d : Defaults} (hfinite : d.temperature.isFinite = true) (config : Fields) :
    (ModelSettings.ofConfig d config).temperature.uses = [] :=
  uses_of_isFinite (isFinite_numberSetting hfinite _)

namespace BlockContext

/-- What a fragment uses and what it lists as needed from outside belong together. -/
structure Balanced (c : BlockContext) (f : Fragment) : Prop where
  /-- Every name that is used comes from the input, the fragment itself, the language or the lists. -/
  provided : ∀ u ∈ f.uses, u ∈ c.input.uses ∨ u.name ∈ f.assigns ∨ u.name = "inputs" ∨
    u.name ∈ knownNames ∨ u.name ∈ f.imports.map Import.known ∨ u.name ∈ f.helpers.map Helper.name
  /-- Every name that is imported is used. -/
  imported : ∀ i ∈ f.imports, i.known ∈ f.uses.map (·.name)
  /-- Every helper that is listed is called. -/
  called : ∀ h ∈ f.helpers, ⟨h.name, true⟩ ∈ f.uses

variable {c : BlockContext}

attribute [local simp] Expr.uses Expr.usesAll Expr.method Statement.uses Fragment.uses Import.known
  Fragment.assigns Statement.assigns knownNames inputText inputTexts freeOf

/-- A trigger imports nothing and calls no helper. -/
theorem trigger_balanced {default : Expr} (hdefault : default.uses = []) :
    c.Balanced (c.trigger default) := by
  refine ⟨?_, ?_, ?_⟩ <;> simp [trigger, triggerInput]
  split
  · simp [hdefault]
  · exact fun u hu => Or.inl hu

/-- A file upload uses the path type it imports. -/
theorem fileUpload_balanced : c.Balanced c.fileUpload := by
  refine ⟨?_, ?_, ?_⟩ <;> simp [fileUpload, triggerInput]
  split
  · rintro u (hu | rfl | rfl)
    · simp at hu
    all_goals simp
  · rintro u (hu | rfl | rfl)
    · exact Or.inl hu
    all_goals simp

/-- A model call uses all the classes it imports; the one for the system prompt only with a prompt. -/
theorem llm_balanced (s : ModelSettings) (hfinite : s.temperature.uses = []) :
    c.Balanced (c.llm s) := by
  by_cases hprompt : s.systemPrompt = [] <;>
    refine ⟨?_, ?_, ?_⟩ <;> simp [llm, hprompt, hfinite]
  all_goals exact fun u hu => Or.inl hu

/-- A text splitter imports the splitter that it uses. -/
theorem textSplitter_balanced (s : SplitterSettings) : c.Balanced (c.textSplitter s) := by
  refine ⟨?_, ?_, ?_⟩ <;> simp [textSplitter]
  all_goals exact fun u hu => Or.inl hu

/-- A scraper uses the loader it imports and calls the helper it lists. -/
theorem webScraper_balanced : c.Balanced c.webScraper := by
  refine ⟨?_, ?_, ?_⟩ <;> simp [webScraper]
  all_goals exact fun u hu => Or.inl hu

/-- A step that runs a tool uses the tool it imports and calls the helper it lists. -/
theorem runTool_balanced (source tool : Text) : c.Balanced (c.runTool source tool) := by
  refine ⟨?_, ?_, ?_⟩ <;> simp [runTool]
  all_goals exact fun u hu => Or.inl hu

/-- A transcription uses the client it imports and calls the helper it lists. -/
theorem transcription_balanced : c.Balanced c.transcription := by
  refine ⟨?_, ?_, ?_⟩ <;> simp [transcription]
  rintro u (hu | rfl | rfl)
  · exact Or.inl hu
  all_goals simp

/-- A step of no special role uses the runnable it imports. -/
theorem processing_balanced : c.Balanced c.processing := by
  refine ⟨?_, ?_, ?_⟩ <;> simp [processing]
  all_goals exact fun u hu => Or.inl hu

/-- A vector store uses both classes it imports and calls both helpers it lists. -/
theorem vectorStore_balanced (s : StoreSettings) : c.Balanced (c.vectorStore s) := by
  refine ⟨?_, ?_, ?_⟩ <;> simp [vectorStore]
  rintro u (hu | rfl | rfl | hu)
  · exact Or.inl hu
  · simp
  · simp
  · exact Or.inl hu

/-- A router uses both runnables it imports. -/
theorem router_balanced : c.Balanced c.router := by
  refine ⟨?_, ?_, ?_⟩ <;> simp [router]
  rintro u (⟨rfl | rfl, hne⟩ | rfl | hu)
  · simp
  · exact absurd rfl hne
  · simp
  · exact Or.inl hu

/-- A mail calls the helpers it lists. -/
theorem email_balanced (s : EmailSettings) : c.Balanced (c.email s) := by
  refine ⟨?_, ?_, ?_⟩ <;> simp [email]
  all_goals exact fun u hu => Or.inl hu

/-- A message to a channel uses what it imports and calls the helper it lists. -/
theorem slack_balanced (s : ChannelSettings) : c.Balanced (c.slack s) := by
  refine ⟨?_, ?_, ?_⟩ <;> simp [slack]
  all_goals exact fun u hu => Or.inl hu

/-- An effect of no special role calls the helper it lists. -/
theorem action_balanced : c.Balanced c.action := by
  refine ⟨?_, ?_, ?_⟩ <;> simp [action]
  all_goals exact fun u hu => Or.inl hu

/-- Whatever the role of its node, a block is balanced if its numbers are finite. -/
theorem fragment_balanced (c : BlockContext) {d : Defaults} (hfinite : d.temperature.isFinite = true) :
    c.Balanced (c.fragment d) := by
  cases hrole : c.node.role <;> simp only [fragment, hrole]
  case chatInput => exact trigger_balanced rfl
  case webhook => exact trigger_balanced rfl
  case fileUpload => exact fileUpload_balanced
  case trigger => exact trigger_balanced rfl
  case llm => exact llm_balanced _ (uses_temperature hfinite _)
  case textSplitter => exact textSplitter_balanced _
  case webScraper => exact webScraper_balanced
  case imageGeneration => exact runTool_balanced _ _
  case transcription => exact transcription_balanced
  case codeInterpreter => exact runTool_balanced _ _
  case processing => exact processing_balanced
  case vectorStore => exact vectorStore_balanced _
  case router => exact router_balanced
  case email => exact email_balanced _
  case slack => exact slack_balanced _
  case action => exact action_balanced

end BlockContext

/-! ## Imports -/

namespace Import

/-- The line that makes an import, among others from the same module. -/
def line (imports : List Import) (i : Import) : Text :=
  if i.name.isNone then wholeLine i.source else namedLine imports i.source

variable {imports : List Import} {source x line : Text}

/-- Whole modules are those that some import names without a name. -/
theorem mem_wholeModules : source ∈ wholeModules imports ↔ ∃ i ∈ imports, i.name.isNone ∧ i.source = source := by
  simp [wholeModules, Text.sort, and_assoc]

/-- Names are imported from the modules that some import names with a name. -/
theorem mem_namedModules : source ∈ namedModules imports ↔ ∃ i ∈ imports, i.name.isSome ∧ i.source = source := by
  simp [namedModules, Text.sort, and_assoc]

/-- The names from a module are those that some import names. -/
theorem mem_namesFrom : x ∈ namesFrom imports source ↔ ⟨source, some x⟩ ∈ imports := by
  simp only [namesFrom, Text.sort, List.mem_mergeSort, mem_firstOccurrences, List.mem_filterMap,
    List.mem_filter, decide_eq_true_eq]
  constructor
  · rintro ⟨⟨_, _⟩, ⟨hi, rfl⟩, rfl⟩
    exact hi
  · intro h
    exact ⟨_, ⟨h, rfl⟩, rfl⟩

/-- The lines of a class of modules are those of its imports. -/
theorem mem_part {belongs : Text → Bool} :
    line ∈ part imports belongs ↔ ∃ i ∈ imports, belongs i.source ∧ line = i.line imports := by
  simp only [part, List.mem_append, List.mem_map, List.mem_filter, mem_wholeModules, mem_namedModules]
  constructor
  · rintro (⟨_, ⟨⟨i, hi, hname, rfl⟩, hbelongs⟩, rfl⟩ | ⟨_, ⟨⟨i, hi, hname, rfl⟩, hbelongs⟩, rfl⟩)
    · exact ⟨i, hi, hbelongs, by simp [Import.line, hname]⟩
    · exact ⟨i, hi, hbelongs, by simp [Import.line, Option.ne_none_iff_isSome.2 hname]⟩
  · rintro ⟨i, hi, hbelongs, rfl⟩
    by_cases hname : i.name.isNone
    · exact Or.inl ⟨i.source, ⟨⟨i, hi, hname, rfl⟩, hbelongs⟩, by simp [Import.line, hname]⟩
    · have hsome : i.name.isSome := by simpa [Option.isSome_iff_ne_none] using hname
      exact Or.inr ⟨i.source, ⟨⟨i, hi, hsome, rfl⟩, hbelongs⟩, by simp [Import.line, hname]⟩

/-- Besides a blank line, the lines of imports are those of each import. -/
theorem mem_lines (hline : line ≠ []) :
    line ∈ lines imports ↔ ∃ i ∈ imports, line = i.line imports := by
  have hparts : line ∈ lines imports ↔ line ∈ part imports (· ∈ standardModules) ∨
      line ∈ part imports (· ∉ standardModules) := by
    simp only [lines]
    split
    · next h => simp only [List.isEmpty_iff.1 h, List.not_mem_nil, false_or]
    · split
      · next h => simp only [List.isEmpty_iff.1 h, List.not_mem_nil, or_false]
      · simp only [List.mem_append, List.mem_cons, hline, false_or]
  rw [hparts, mem_part, mem_part]
  constructor
  · rintro (⟨i, hi, -, heq⟩ | ⟨i, hi, -, heq⟩) <;> exact ⟨i, hi, heq⟩
  · rintro ⟨i, hi, heq⟩
    by_cases hstandard : i.source ∈ standardModules
    · exact Or.inl ⟨i, hi, decide_eq_true hstandard, heq⟩
    · exact Or.inr ⟨i, hi, decide_eq_true hstandard, heq⟩

end Import

/-! ## Helpers -/

namespace Helper

/-- The helpers that a script declares are those of a list and those that they call. -/
theorem mem_close {helpers : List Helper} {h : Helper} :
    h ∈ Helper.close helpers ↔ h ∈ helpers ∨ ∃ k ∈ helpers, h ∈ k.calls := by
  have hall : h ∈ Helper.all := by cases h <;> decide
  simp [Helper.close, hall]

/-- What a declared helper calls is declared. -/
theorem calls_mem_close {helpers : List Helper} {h k : Helper}
    (hh : h ∈ Helper.close helpers) (hk : k ∈ h.calls) : k ∈ Helper.close helpers := by
  rw [Helper.mem_close] at hh ⊢
  rcases hh with hh | ⟨g, -, hg⟩
  · exact Or.inr ⟨h, hh, hk⟩
  · -- A helper that is called calls no other.
    have hlast : h.calls = [] := by cases g <;> cases h <;> simp_all [Helper.calls]
    rw [hlast] at hk
    cases hk

/-- No helper calls itself by its list. -/
theorem not_mem_calls (h : Helper) : h ∉ h.calls := by
  cases h <;> decide

/-- No name that a helper imports has the form of a variable. -/
theorem not_isVariableLike_known (h : Helper) : ∀ i ∈ h.imports, ¬ i.known.IsVariableLike := by
  cases h <;> decide

end Helper

/-! ## Whole scripts -/

/-- The header of a script has what its blocks need and nothing else. -/
structure Fits (s : Script) : Prop where
  /-- What a block uses is assigned by a block, or it is known, imported, or a helper. -/
  provided : ∀ b ∈ s.blocks, ∀ u ∈ b.fragment.uses,
    (∃ other ∈ s.blocks, u.name ∈ other.fragment.assigns) ∨ u.name = "inputs" ∨
      u.name ∈ knownNames ∨ u.name ∈ s.imports.map Import.known ∨ u.name ∈ s.helpers.map Helper.name
  /-- What a block assigns is a name that nothing else has. -/
  unshadowed : ∀ b ∈ s.blocks, ∀ x ∈ b.fragment.assigns, x ≠ "inputs" ∧ x ∉ knownNames ∧
    x ∉ s.imports.map Import.known ∧ x ∉ s.helpers.map Helper.name
  /-- What a helper uses is known, imported, or a helper. -/
  helper_provided : ∀ h ∈ s.helpers, ∀ u ∈ h.function.uses,
    u.name ∈ knownNames ∨ u.name ∈ s.imports.map Import.known ∨ u.name ∈ s.helpers.map Helper.name
  /-- What is imported is used by a block or by a helper. -/
  import_used : ∀ i ∈ s.imports, (∃ b ∈ s.blocks, i.known ∈ b.fragment.uses.map (·.name)) ∨
    ∃ h ∈ s.helpers, i.known ∈ h.function.uses.map (·.name)
  /-- A helper is called by a block or by another helper. -/
  helper_called : ∀ h ∈ s.helpers, (∃ b ∈ s.blocks, ⟨h.name, true⟩ ∈ b.fragment.uses) ∨
    ∃ other ∈ s.helpers, other ≠ h ∧ ⟨h.name, true⟩ ∈ other.function.uses
  /-- The lines of the imports make all imports, and no others. -/
  import_lines : ∀ line, line ≠ [] → (line ∈ s.importLines ↔ ∃ i ∈ s.imports, line = i.line s.imports)
  /-- A line that imports names from a module lists all names that are imported from it. -/
  import_names : ∀ source x, x ∈ Import.namesFrom s.imports source ↔ ⟨source, some x⟩ ∈ s.imports
  /-- The lines of a helper are those of its function. -/
  helper_lines : ∀ h ∈ s.helpers, h.source = h.function.lines.map Text.ofString
  /-- The function of a helper has the helper's name. -/
  helper_named : ∀ h ∈ s.helpers, Text.ofString h.function.name = h.name

variable {s : Script}

/-- What a block imports, the script imports. -/
theorem mem_imports_of_block {b : Block} {i : Import} (hb : b ∈ s.blocks) (hi : i ∈ b.fragment.imports) :
    i ∈ s.imports :=
  List.mem_append_left _ (List.mem_flatMap_of_mem hb hi)

/-- What a declared helper imports, the script imports. -/
theorem mem_imports_of_helper {h : Helper} {i : Import} (hh : h ∈ s.helpers) (hi : i ∈ h.imports) :
    i ∈ s.imports :=
  List.mem_append_right _ (List.mem_flatMap_of_mem hh hi)

/-- A helper that a block lists is declared. -/
theorem mem_helpers_of_block {b : Block} {h : Helper} (hb : b ∈ s.blocks)
    (hh : h ∈ b.fragment.helpers) : h ∈ s.helpers :=
  Helper.mem_close.2 (Or.inl (List.mem_flatMap_of_mem hb hh))

/-- Besides the blank lines, the lines of a script's imports are those of each import. -/
theorem mem_importLines {line : Text} (hline : line ≠ []) :
    line ∈ s.importLines ↔ ∃ i ∈ s.imports, line = i.line s.imports := by
  rw [← Import.mem_lines hline]
  simp only [importLines]
  split
  · next h => simp [List.isEmpty_iff.1 h]
  · simp [hline]

/-- The header of a script fits if its blocks are balanced, assign variables and read variables. -/
theorem fits_of_balanced (hbalanced : ∀ b ∈ s.blocks, b.context.Balanced b.fragment)
    (hassigns : ∀ b ∈ s.blocks, ∀ x ∈ b.fragment.assigns, IsVariable x)
    (himports : ∀ b ∈ s.blocks, ∀ x ∈ b.fragment.imports.map Import.known, ¬ x.IsVariableLike)
    (hinput : ∀ b ∈ s.blocks, ∀ x ∈ b.context.sources, ∃ other ∈ s.blocks, x ∈ other.fragment.assigns) :
    s.Fits where
  provided := by
    intro b hb u hu
    rcases (hbalanced b hb).provided u hu with h | h | h | h | h | h
    · rw [BlockContext.input, Sources.uses_expr] at h
      split at h
      · rw [List.mem_singleton] at h
        exact Or.inr (Or.inl (by rw [h]))
      · obtain ⟨x, hx, rfl⟩ := List.mem_map.1 h
        exact Or.inl (hinput b hb x hx)
    · exact Or.inl ⟨b, hb, h⟩
    · exact Or.inr (Or.inl h)
    · exact Or.inr (Or.inr (Or.inl h))
    · obtain ⟨i, hi, hname⟩ := List.mem_map.1 h
      rw [← hname]
      exact Or.inr (Or.inr (Or.inr (Or.inl (List.mem_map_of_mem (mem_imports_of_block hb hi)))))
    · obtain ⟨k, hk, hname⟩ := List.mem_map.1 h
      rw [← hname]
      exact Or.inr (Or.inr (Or.inr (Or.inr (List.mem_map_of_mem (mem_helpers_of_block hb hk)))))
  unshadowed := by
    intro b hb x hx
    obtain ⟨-, hlike, hreserved⟩ := hassigns b hb x hx
    refine ⟨?_, ?_, ?_, ?_⟩
    · rintro rfl
      exact absurd hlike (by decide)
    · have hknown : ∀ y ∈ knownNames, ¬ y.IsVariableLike := by decide
      exact fun h => hknown x h hlike
    · intro h
      obtain ⟨i, hi, rfl⟩ := List.mem_map.1 h
      rcases List.mem_append.1 hi with hi | hi
      · obtain ⟨other, hother, hi⟩ := List.mem_flatMap.1 hi
        exact himports other hother _ (List.mem_map_of_mem hi) hlike
      · obtain ⟨k, -, hi⟩ := List.mem_flatMap.1 hi
        exact k.not_isVariableLike_known i hi hlike
    · intro h
      obtain ⟨k, -, rfl⟩ := List.mem_map.1 h
      exact hreserved (by cases k <;> decide)
  helper_provided := by
    intro h hh u hu
    rcases h.uses_function u hu with hknown | ⟨k, hk, hname⟩ | himport
    · exact Or.inl hknown
    · rw [hname]
      rcases List.mem_cons.1 hk with rfl | hk
      · exact Or.inr (Or.inr (List.mem_map_of_mem hh))
      · exact Or.inr (Or.inr (List.mem_map_of_mem (Helper.calls_mem_close hh hk)))
    · obtain ⟨i, hi, hname⟩ := List.mem_map.1 himport
      rw [← hname]
      exact Or.inr (Or.inl (List.mem_map_of_mem (mem_imports_of_helper hh hi)))
  import_used := by
    intro i hi
    rcases List.mem_append.1 hi with hi | hi
    · obtain ⟨b, hb, hi⟩ := List.mem_flatMap.1 hi
      exact Or.inl ⟨b, hb, (hbalanced b hb).imported i hi⟩
    · obtain ⟨h, hh, hi⟩ := List.mem_flatMap.1 hi
      exact Or.inr ⟨h, hh, h.imports_function i hi⟩
  helper_called := by
    intro h hh
    rcases Helper.mem_close.1 hh with hh | ⟨k, hk, hcall⟩
    · obtain ⟨b, hb, hh⟩ := List.mem_flatMap.1 hh
      exact Or.inl ⟨b, hb, (hbalanced b hb).called h hh⟩
    · refine Or.inr ⟨k, Helper.mem_close.2 (Or.inl hk), ?_, k.calls_function h hcall⟩
      rintro rfl
      exact k.not_mem_calls hcall
  import_lines := fun _ => mem_importLines
  import_names := fun _ _ => Import.mem_namesFrom
  helper_lines := fun h _ => h.source_eq
  helper_named := fun h _ => h.name_function

/-- The nodes that a block reads from have blocks that assign their variables. -/
theorem assigns_of_sources (d : Defaults) (s : Snapshot) :
    ∀ b ∈ (compile d s).1.blocks, ∀ x ∈ b.context.sources,
      ∃ other ∈ (compile d s).1.blocks, x ∈ other.fragment.assigns := by
  intro b hb x hx
  have hnodes := s.flow.filterMap_node?_sequence
  have hsources := (blocksFrom_spec [] [] (by rw [hnodes.1, List.nil_append]) (fun _ => Iff.rfl) b
    (blocks_compile d s ▸ hb)).2.2.1
  rw [hsources] at hx
  obtain ⟨u, hu, rfl⟩ := List.mem_map.1 hx
  have hbefore : u ∈ s.flow.before b.context.node.id := of_decide_eq_true (List.mem_filter.1 hu).2
  have hsequence : u ∈ s.flow.sequence := (List.takeWhile_prefix _).subset hbefore
  rw [← map_id_compile d s] at hsequence
  obtain ⟨other, hother, rfl⟩ := List.mem_map.1 hsequence
  have hfollows := follows_compile d s other hother
  refine ⟨other, hother, ?_⟩
  rw [hfollows.fragment, ← hfollows.output]
  exact other.context.output_mem_assigns d

/--
If the default temperature of a model is finite, the header of every script fits: the script has the
imports and the helpers that its blocks need, and no others.
-/
theorem header_fits (d : Defaults) (s : Snapshot) (hfinite : d.temperature.isFinite = true) :
    (compile d s).1.Fits := by
  have hfragment : ∀ b ∈ (compile d s).1.blocks, b.fragment = b.context.fragment d := fun b hb =>
    (follows_compile d s b hb).fragment
  apply fits_of_balanced
  · intro b hb
    rw [hfragment b hb]
    exact b.context.fragment_balanced hfinite
  · intro b hb
    rw [hfragment b hb]
    exact (spelled_compile d s b hb).assigns d
  · intro b hb
    rw [hfragment b hb]
    exact Script.not_isVariableLike_known b.context d
  · exact assigns_of_sources d s

/-- The demo graph with the defaults. -/
theorem header_fits_demo :
    ({} : Defaults).temperature.isFinite = true ∧ (compile {} Snapshot.demo).1.Fits :=
  ⟨by decide +kernel, header_fits {} Snapshot.demo (by decide +kernel)⟩

end Script

end PipelineGraph
