import PipelineGraph.Script.Compile
import Mathlib.Tactic.Tauto

/-!
# What a block reads and assigns

The names that the expressions of a block read, apart from those that a function binds, and the
names that its statements assign. A block reads nothing but its sources, its auxiliary variable,
names that scripts reserve and names that it imports.
-/

namespace PipelineGraph.Script

namespace Expr

mutual

/-- The names that an expression reads. -/
def reads : Expr → List Text
  | name x => [x]
  | quoted _ => []
  | word _ => []
  | integer _ => []
  | number _ => []
  | nothing => []
  | emptyTable => []
  | list items => readsAll items
  | pair first second => reads first ++ reads second
  | member owner _ => reads owner
  | entry table key => reads table ++ reads key
  | call callee arguments => reads callee ++ readsAll arguments
  | named _ argument => reads argument
  | function parameter body => (reads body).filter (· ≠ parameter)
  | choice result condition alternative => reads result ++ reads condition ++ reads alternative

/-- The names that expressions read. -/
def readsAll : List Expr → List Text
  | [] => []
  | e :: rest => reads e ++ readsAll rest

end

/-- Names are read one by one. -/
@[simp] theorem readsAll_map_name (xs : List Text) : readsAll (xs.map name) = xs := by
  induction xs with
  | nil => rfl
  | cons x rest ih => simp [readsAll, reads, ih]

end Expr

namespace Statement

/-- The names that a statement reads. -/
def reads : Statement → List Text
  | assign _ e => e.reads
  | evaluate e => e.reads
  | within resource _ body => resource.reads ++ body.reads
  | assignSpread _ callee arguments _ input =>
    callee.reads ++ Expr.readsAll arguments ++ input.reads

/-- The names that a statement assigns. -/
def assigns : Statement → List Text
  | assign x _ => [x]
  | evaluate _ => []
  | within _ x body => x :: body.assigns
  | assignSpread x _ _ _ _ => [x]

end Statement

/-- The name that an import makes known. -/
def Import.known (i : Import) : Text :=
  i.name.getD i.source

namespace Fragment

/-- The names that a fragment reads. -/
def reads (f : Fragment) : List Text :=
  f.statements.flatMap Statement.reads

/-- The names that a fragment assigns. -/
def assigns (f : Fragment) : List Text :=
  f.statements.flatMap Statement.assigns

end Fragment

attribute [local simp] Expr.reads Expr.readsAll Expr.method Statement.reads Fragment.reads Import.known

/-- The input of a block reads its sources, or the inputs of the script if it has none. -/
theorem Sources.reads_expr (sources : Sources) :
    sources.expr.reads = if sources = [] then [Text.ofString "inputs"] else sources := by
  match sources with
  | [] => rfl
  | [x] => rfl
  | x :: y :: rest => simp [Sources.expr]

namespace BlockContext

variable {c : BlockContext} {x : Text}

/-- The names that a block may read without having imported them. -/
def mayRead (c : BlockContext) : List Text :=
  c.sources ++ (if (auxiliaryEnding? c.node.role).isSome then [c.auxiliary] else []) ++ reservedNames

/-- What the input of a block reads, the block may read. -/
theorem mem_mayRead_of_input (h : x ∈ c.input.reads) : x ∈ c.mayRead := by
  rw [input, Sources.reads_expr] at h
  split at h
  · simp only [List.mem_singleton] at h
    simp [mayRead, reservedNames, h]
  · simp [mayRead, h]

/-- A reserved name is one that every block may read. -/
theorem mem_mayRead_of_reserved (h : x ∈ reservedNames) : x ∈ c.mayRead := by
  simp [mayRead, h]

/-- The auxiliary variable is one that the block may read if its role needs it. -/
theorem mem_mayRead_of_auxiliary (haux : (auxiliaryEnding? c.node.role).isSome = true)
    (h : x = c.auxiliary) : x ∈ c.mayRead := by
  simp [mayRead, haux, h]

/-- What the input as one text reads, the block may read. -/
theorem mem_mayRead_of_inputText (h : x ∈ c.inputText.reads) : x ∈ c.mayRead := by
  simp only [inputText, Expr.reads, Expr.readsAll, List.append_nil, List.mem_append,
    List.mem_singleton] at h
  rcases h with rfl | h
  · exact mem_mayRead_of_reserved (by simp [reservedNames, Helper.all])
  · exact mem_mayRead_of_input h

/-- What the input as a list of texts reads, the block may read. -/
theorem mem_mayRead_of_inputTexts (h : x ∈ c.inputTexts.reads) : x ∈ c.mayRead := by
  simp only [inputTexts, Expr.reads, Expr.readsAll, List.append_nil, List.mem_append,
    List.mem_singleton] at h
  rcases h with rfl | h
  · exact mem_mayRead_of_reserved (by simp [reservedNames, Helper.all])
  · exact mem_mayRead_of_input h

/-- What a trigger reads from the inputs or from what leads to it, the block may read. -/
theorem mem_mayRead_of_triggerInput {default : Expr} (hdefault : default.reads = [])
    (h : x ∈ (c.triggerInput default).reads) : x ∈ c.mayRead := by
  simp only [triggerInput, Expr.method, Expr.reads, Expr.readsAll, List.append_nil,
    List.nil_append, List.mem_append, List.mem_singleton] at h
  rcases h with rfl | h
  · exact mem_mayRead_of_reserved (by simp [reservedNames])
  · split at h
    · simp [hdefault] at h
    · exact mem_mayRead_of_input h

/-- A fragment reads only what its block may read and what it imports. -/
def ReadsOnly (c : BlockContext) (f : Fragment) : Prop :=
  ∀ x ∈ f.reads, x ∈ c.mayRead ∨ x ∈ f.imports.map Import.known

/-- A trigger reads the inputs or what leads to it. -/
theorem trigger_readsOnly {default : Expr} (hdefault : default.reads = []) :
    c.ReadsOnly (c.trigger default) := by
  intro x hx
  simp only [trigger, Fragment.reads, List.flatMap_cons, List.flatMap_nil, Statement.reads,
    List.append_nil] at hx
  exact Or.inl (mem_mayRead_of_triggerInput hdefault hx)

/-- A file upload reads its auxiliary variable besides what a trigger reads. -/
theorem fileUpload_readsOnly (haux : (auxiliaryEnding? c.node.role).isSome = true) :
    c.ReadsOnly c.fileUpload := by
  intro x hx
  have htrigger := @mem_mayRead_of_triggerInput c x (.quoted []) rfl
  have hauxiliary := @mem_mayRead_of_auxiliary c x haux
  simp [fileUpload] at hx ⊢
  tauto

/-- A model call reads its model and what leads to it. -/
theorem llm_readsOnly (s : ModelSettings) (haux : (auxiliaryEnding? c.node.role).isSome = true) :
    c.ReadsOnly (c.llm s) := by
  intro x hx
  have hauxiliary := @mem_mayRead_of_auxiliary c x haux
  have htext := @mem_mayRead_of_inputText c x
  by_cases hprompt : s.systemPrompt = []
  all_goals
    simp [llm, hprompt] at hx ⊢
    tauto

/-- A text splitter reads its splitter and what leads to it. -/
theorem textSplitter_readsOnly (s : SplitterSettings)
    (haux : (auxiliaryEnding? c.node.role).isSome = true) : c.ReadsOnly (c.textSplitter s) := by
  intro x hx
  have hauxiliary := @mem_mayRead_of_auxiliary c x haux
  have htext := @mem_mayRead_of_inputText c x
  simp [textSplitter] at hx ⊢
  tauto

/-- A scraper reads what leads to it. -/
theorem webScraper_readsOnly : c.ReadsOnly c.webScraper := by
  intro x hx
  have htexts := @mem_mayRead_of_inputTexts c x
  simp [webScraper] at hx ⊢
  tauto

/-- A step that runs a tool reads what leads to it. -/
theorem runTool_readsOnly (source tool : Text) : c.ReadsOnly (c.runTool source tool) := by
  intro x hx
  have htext := @mem_mayRead_of_inputText c x
  simp [runTool] at hx ⊢
  tauto

/-- A transcription reads its opened file and what leads to it. -/
theorem transcription_readsOnly (haux : (auxiliaryEnding? c.node.role).isSome = true) :
    c.ReadsOnly c.transcription := by
  intro x hx
  have hauxiliary := @mem_mayRead_of_auxiliary c x haux
  have htext := @mem_mayRead_of_inputText c x
  have hopen : x = Text.ofString "open" → x ∈ c.mayRead := fun h =>
    mem_mayRead_of_reserved (by simp [reservedNames, h])
  simp [transcription] at hx ⊢
  tauto

/-- A step of no special role reads what leads to it. -/
theorem processing_readsOnly : c.ReadsOnly c.processing := by
  intro x hx
  have hinput := @mem_mayRead_of_input c x
  simp [processing] at hx ⊢
  tauto

/-- A vector store reads its store and what leads to it. -/
theorem vectorStore_readsOnly (s : StoreSettings)
    (haux : (auxiliaryEnding? c.node.role).isSome = true) : c.ReadsOnly (c.vectorStore s) := by
  intro x hx
  have hauxiliary := @mem_mayRead_of_auxiliary c x haux
  have htext := @mem_mayRead_of_inputText c x
  have htexts := @mem_mayRead_of_inputTexts c x
  simp [vectorStore] at hx ⊢
  tauto

/-- A router reads what leads to it. -/
theorem router_readsOnly : c.ReadsOnly c.router := by
  intro x hx
  simp only [router, Fragment.reads, Statement.reads, Expr.reads, Expr.readsAll, Import.known,
    List.flatMap_cons, List.flatMap_nil, List.append_nil, List.mem_append, List.mem_filter,
    List.mem_cons, List.not_mem_nil, or_false, false_and, List.map_cons, List.map_nil,
    Option.getD_some] at hx ⊢
  rcases hx with (hbranch | (⟨hbool | hvalue, -⟩ | hlambda | ⟨hvalue, -⟩) | hlambda) | hinput
  · exact Or.inr (Or.inl hbranch)
  · exact Or.inl (mem_mayRead_of_reserved (by simp [reservedNames, hbool]))
  · exact Or.inl (mem_mayRead_of_reserved (by simp [reservedNames, hvalue]))
  · exact Or.inr (Or.inr hlambda)
  · exact Or.inl (mem_mayRead_of_reserved (by simp [reservedNames, hvalue]))
  · exact Or.inr (Or.inr hlambda)
  · exact Or.inl (mem_mayRead_of_input hinput)

/-- A mail reads what leads to it. -/
theorem email_readsOnly (s : EmailSettings) : c.ReadsOnly (c.email s) := by
  intro x hx
  have htext := @mem_mayRead_of_inputText c x
  have hsend : x = Helper.sendEmail.name → x ∈ c.mayRead := fun h =>
    mem_mayRead_of_reserved (by simp [reservedNames, Helper.all, h])
  simp [email] at hx ⊢
  tauto

/-- A message to a channel reads its client and what leads to it. -/
theorem slack_readsOnly (s : ChannelSettings)
    (haux : (auxiliaryEnding? c.node.role).isSome = true) : c.ReadsOnly (c.slack s) := by
  intro x hx
  have hauxiliary := @mem_mayRead_of_auxiliary c x haux
  have htext := @mem_mayRead_of_inputText c x
  simp [slack] at hx ⊢
  tauto

/-- An effect of no special role reads what leads to it. -/
theorem action_readsOnly : c.ReadsOnly c.action := by
  intro x hx
  have hinput := @mem_mayRead_of_input c x
  have hdeliver : x = Helper.deliver.name → x ∈ c.mayRead := fun h =>
    mem_mayRead_of_reserved (by simp [reservedNames, Helper.all, h])
  simp [action] at hx ⊢
  tauto

/-- Whatever the role of its node, a block reads only what it may read and what it imports. -/
theorem fragment_readsOnly (c : BlockContext) (d : Defaults) : c.ReadsOnly (c.fragment d) := by
  cases hrole : c.node.role <;> simp only [fragment, hrole]
  case chatInput => exact trigger_readsOnly rfl
  case webhook => exact trigger_readsOnly rfl
  case fileUpload => exact fileUpload_readsOnly (by rw [hrole]; rfl)
  case trigger => exact trigger_readsOnly rfl
  case llm => exact llm_readsOnly _ (by rw [hrole]; rfl)
  case textSplitter => exact textSplitter_readsOnly _ (by rw [hrole]; rfl)
  case webScraper => exact webScraper_readsOnly
  case imageGeneration => exact runTool_readsOnly _ _
  case transcription => exact transcription_readsOnly (by rw [hrole]; rfl)
  case codeInterpreter => exact runTool_readsOnly _ _
  case processing => exact processing_readsOnly
  case vectorStore => exact vectorStore_readsOnly _ (by rw [hrole]; rfl)
  case router => exact router_readsOnly
  case email => exact email_readsOnly _
  case slack => exact slack_readsOnly _ (by rw [hrole]; rfl)
  case action => exact action_readsOnly

/-- Every block assigns its output. -/
theorem output_mem_assigns (c : BlockContext) (d : Defaults) :
    c.output ∈ (c.fragment d).assigns := by
  cases hrole : c.node.role <;>
    simp [fragment, hrole, Fragment.assigns, Statement.assigns, trigger, fileUpload, llm,
      textSplitter, webScraper, runTool, transcription, processing, vectorStore, router, email,
      slack, action]

/-- Besides its output, a block assigns at most the auxiliary variable that its role needs. -/
theorem eq_of_mem_assigns (d : Defaults) (h : x ∈ (c.fragment d).assigns) :
    x = c.output ∨ x = c.auxiliary ∧ (auxiliaryEnding? c.node.role).isSome = true := by
  cases hrole : c.node.role <;>
    simp [fragment, hrole, Fragment.assigns, Statement.assigns, trigger, fileUpload, llm,
      textSplitter, webScraper, runTool, transcription, processing, vectorStore, router, email,
      slack, action, auxiliaryEnding?] at h ⊢ <;>
    tauto

end BlockContext

end PipelineGraph.Script
