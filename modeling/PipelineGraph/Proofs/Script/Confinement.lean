import PipelineGraph.Proofs.Script.Lines
import PipelineGraph.Proofs.Script.Markers
import PipelineGraph.Proofs.Script.Spelling

/-!
# Texts of a graph stay where a script puts them

Whatever the texts of a graph are, a script shows them in literals, which read back as these texts,
and in comments of one line. All lines of its blocks are printable, and how many there are depends on
roles alone.
-/

namespace PipelineGraph.Script

open Text (IsCodeText IsPrintable)

/-- A name that is spelled as a variable is code. -/
theorem IsVariable.isCodeText {x : Text} (h : IsVariable x) : x.IsCodeText := by
  intro c hc
  have hplain := h.plain c hc
  unfold CodePoint.IsPlain at hplain
  unfold Text.IsCode
  omega

/-- How many lines the block of a role has, its comment included. -/
def lineCount : Role → Nat
  | .fileUpload => 3
  | .llm => 3
  | .textSplitter => 3
  | .transcription => 3
  | .vectorStore => 4
  | .router => 5
  | .slack => 3
  | _ => 2

namespace BlockContext

variable {c : BlockContext}

/-- The text of a trigger's default: an empty one, if nothing leads to the trigger. -/
def defaultLiterals (c : BlockContext) : List Text :=
  if c.sources.isEmpty then [[]] else []

/--
The texts of the literals in each line of a block: the id of the node, its label or what stands for
an empty label, its settings, and the words that belong to the role.
-/
def literals (c : BlockContext) (d : Defaults) : List (List Text) :=
  match c.node.role with
  | .chatInput => [c.node.id :: c.defaultLiterals]
  | .webhook => [[c.node.id]]
  | .fileUpload => [c.node.id :: c.defaultLiterals, ["utf-8", ""]]
  | .trigger => [[c.node.id]]
  | .llm =>
    let s := ModelSettings.ofConfig d c.node.config
    [[s.model], if s.systemPrompt = [] then [] else [s.systemPrompt]]
  | .textSplitter => [[], []]
  | .webScraper => [[]]
  | .imageGeneration => [[]]
  | .transcription => [["rb"], ["whisper-1"]]
  | .codeInterpreter => [[]]
  | .processing => [[c.labelOr c.output]]
  | .vectorStore => [[(StoreSettings.ofConfig d c.node.config).index], [], []]
  | .router => [[], [], [], []]
  | .email =>
    let s := EmailSettings.ofConfig d c.node.config
    [[s.recipient, s.subject]]
  | .slack => [["SLACK_BOT_TOKEN"], [(ChannelSettings.ofConfig d c.node.config).channel]]
  | .action => [[c.labelOr c.node.id]]

/-- The input of a block holds no literal. -/
theorem literals_input (c : BlockContext) : c.input.literals = [] := by
  have hnames : ∀ xs : List Text, Expr.allLiterals (xs.map .name) = [] := by
    intro xs
    induction xs with
    | nil => rfl
    | cons x xs ih => simpa [Expr.allLiterals, Expr.literals] using ih
  unfold input
  match c.sources with
  | [] => rfl
  | [x] => rfl
  | x :: y :: rest => exact hnames (x :: y :: rest)

/-- The input of a block is spelled as code. -/
theorem Spelled.input (h : c.Spelled) : c.input.Spelled := by
  have hnames : ∀ xs : List Text, (∀ x ∈ xs, IsVariable x) → Expr.AllSpelled (xs.map .name) := by
    intro xs hxs
    rw [Expr.allSpelled_iff]
    intro e he
    obtain ⟨x, hx, rfl⟩ := List.mem_map.1 he
    exact (hxs x hx).isCodeText
  have hsources := h.sources
  unfold BlockContext.input
  match c.sources, hsources with
  | [], _ => exact (by decide : IsCodeText "inputs")
  | [x], hsources => exact (hsources x (List.mem_singleton_self x)).isCodeText
  | x :: y :: rest, hsources => exact hnames (x :: y :: rest) hsources

attribute [local simp] Expr.Spelled Expr.AllSpelled Expr.method Statement.Spelled
  Expr.literals Expr.allLiterals Statement.literals literals_input inputText inputTexts

/-- The statements of a block are spelled as code if its names are. -/
theorem Spelled.fragment (h : c.Spelled) (d : Defaults) :
    ∀ s ∈ (c.fragment d).statements, s.Spelled := by
  have houtput := h.output.isCodeText
  have hinput := h.input
  have hauxiliary : (auxiliaryEnding? c.node.role).isSome = true → c.auxiliary.IsCodeText :=
    fun hsome => (h.auxiliary hsome).isCodeText
  have htrigger : ∀ default : Expr, default.Spelled → (c.triggerInput default).Spelled := by
    intro default hdefault
    have hget : IsCodeText "inputs" ∧ IsCodeText "get" := by decide
    simp only [triggerInput, Expr.method, Expr.Spelled, Expr.AllSpelled, true_and, and_true]
    refine ⟨hget, ?_⟩
    split
    · exact hdefault
    · exact hinput
  cases hrole : c.node.role <;> simp only [BlockContext.fragment, hrole]
  all_goals rw [hrole] at hauxiliary
  case chatInput => simp [trigger, houtput, htrigger (.quoted []) trivial]
  case webhook => simp [trigger, houtput, htrigger .emptyTable trivial]
  case fileUpload =>
    simp +decide [fileUpload, houtput, htrigger (.quoted []) trivial, hauxiliary rfl]
  case trigger => simp [trigger, houtput, htrigger .nothing trivial]
  case llm =>
    by_cases hprompt : (ModelSettings.ofConfig d c.node.config).systemPrompt = [] <;>
      simp +decide [llm, hprompt, houtput, hinput, hauxiliary rfl]
  case textSplitter => simp +decide [textSplitter, houtput, hinput, hauxiliary rfl]
  case webScraper => simp +decide [webScraper, houtput, hinput]
  case imageGeneration => simp +decide [runTool, houtput, hinput]
  case transcription => simp +decide [transcription, houtput, hinput, hauxiliary rfl]
  case codeInterpreter => simp +decide [runTool, houtput, hinput]
  case processing => simp +decide [processing, houtput, hinput]
  case vectorStore => simp +decide [vectorStore, houtput, hinput, hauxiliary rfl]
  case router => simp +decide [router, houtput, hinput]
  case email => simp +decide [email, houtput, hinput]
  case slack => simp +decide [slack, houtput, hinput, hauxiliary rfl]
  case action => simp +decide [action, houtput, hinput]

/-- The literals of the statements of a block. -/
theorem literals_fragment (c : BlockContext) (d : Defaults) :
    (c.fragment d).statements.flatMap Statement.literals = c.literals d := by
  have htrigger : ∀ default : Expr, (c.triggerInput default).literals =
      c.node.id :: if c.sources.isEmpty then default.literals else [] := by
    intro default
    simp only [triggerInput]
    split <;> simp
  cases hrole : c.node.role <;> simp only [fragment, literals, hrole]
  case chatInput => simp [trigger, htrigger, defaultLiterals]
  case webhook => simp [trigger, htrigger]
  case fileUpload => simp [fileUpload, htrigger, defaultLiterals]
  case trigger => simp [trigger, htrigger]
  case llm =>
    by_cases hprompt : (ModelSettings.ofConfig d c.node.config).systemPrompt = [] <;>
      simp [llm, hprompt]
  case textSplitter => simp [textSplitter]
  case webScraper => simp [webScraper]
  case imageGeneration => simp [runTool]
  case transcription => simp [transcription]
  case codeInterpreter => simp [runTool]
  case processing => simp [processing]
  case vectorStore => simp [vectorStore]
  case router => simp [router]
  case email => simp [email]
  case slack => simp [slack]
  case action => simp [action]

/-- How many lines have literals depends on the role alone. -/
theorem length_literals (c : BlockContext) (d : Defaults) :
    (c.literals d).length + 1 = lineCount c.node.role := by
  cases hrole : c.node.role <;> simp [literals, lineCount, hrole]

end BlockContext

/-! ## Whole scripts -/

/-- The literals of several lines, if all of them can be read. -/
def readLines (lines : List Text) : Option (List Text) :=
  (lines.mapM Text.literals).map List.flatten

/-- Lines are read one after another. -/
theorem readLines_append {first second : List Text} {texts more : List Text}
    (hfirst : readLines first = some texts) (hsecond : readLines second = some more) :
    readLines (first ++ second) = some (texts ++ more) := by
  obtain ⟨found, hfound, rfl⟩ := Option.map_eq_some_iff.1 hfirst
  obtain ⟨others, hothers, rfl⟩ := Option.map_eq_some_iff.1 hsecond
  simp [readLines, List.mapM_append, hfound, hothers]

/-- Lines whose literals are known. -/
theorem readLines_of_map {lines : List Text} {texts : List (List Text)}
    (h : lines.map Text.literals = texts.map some) : readLines lines = some texts.flatten := by
  have hall : lines.mapM Text.literals = some texts := by
    induction lines generalizing texts with
    | nil =>
      obtain rfl : texts = [] := by simpa using h.symm
      rfl
    | cons line lines ih =>
      cases texts with
      | nil => simp at h
      | cons text texts =>
        obtain ⟨hline, hrest⟩ := List.cons.inj h
        simp [List.mapM_cons, hline, ih hrest]
  rw [readLines, hall]
  rfl

/-- Every text of a graph stays where its script puts it. -/
structure Confines (d : Defaults) (s : Script) : Prop where
  /-- The lines of the body are printable. -/
  printable : ∀ line ∈ s.body, (indented line).IsPrintable
  /-- No line of the body is broken in two, and none holds a null or a surrogate. -/
  unbroken : ∀ line ∈ s.body, ∀ c ∈ line, c ∉ Text.lineEnds ∧ c.val ≠ 0 ∧ c.isSurrogate = false
  /-- How many lines a block has depends on its role alone. -/
  size : ∀ b ∈ s.blocks, b.lines.length = lineCount b.context.node.role
  /-- The literals of a block read back as the texts that the node has there. -/
  literals : ∀ b ∈ s.blocks, (b.fragment.statements.flatMap Statement.lines).map
    (fun line => Text.literals (indented line)) = (b.context.literals d).map some
  /-- The body holds the literals of its blocks and those of the results, and no others. -/
  read : readLines s.body =
    some (s.blocks.flatMap (fun b => (b.context.literals d).flatten) ++ s.results.map (·.1))
  /-- The comment that marks a block shows the label and the id as they are on one line. -/
  marker : ∀ b ∈ s.blocks,
    b.marker = "# [" ++ b.context.node.kind.name ++ "] " ++ b.shownLabel ++
      " (" ++ oneLine b.context.node.id ++ ")" ∧
    oneLine b.shownLabel = b.shownLabel ∧
    oneLine (oneLine b.context.node.id) = oneLine b.context.node.id

section Parts

variable {d : Defaults} {s : Script}

/-- The literals of a block's lines. -/
theorem Block.literals_lines {b : Block} (hspelled : b.context.Spelled)
    (hfragment : b.fragment = b.context.fragment d) :
    (b.fragment.statements.flatMap Statement.lines).map Text.literals =
      (b.context.literals d).map some := by
  rw [← b.context.literals_fragment, hfragment, List.map_flatMap, List.map_flatMap]
  exact List.flatMap_congr fun s hs => Statement.literals_lines (hspelled.fragment d s hs)

/-- The lines of a block are printable. -/
theorem Block.isPrintable_lines {b : Block} (hspelled : b.context.Spelled)
    (hfragment : b.fragment = b.context.fragment d) : ∀ line ∈ b.lines, line.IsPrintable := by
  refine List.forall_mem_cons.2 ⟨b.isPrintable_marker, fun line hline => ?_⟩
  obtain ⟨s, hs, hline⟩ := List.mem_flatMap.1 hline
  rw [hfragment] at hs
  exact Statement.isPrintable_lines (hspelled.fragment d s hs) line hline

/-- The line of a result. -/
def resultLine (r : Text × Text) : Text :=
  indented (r.1.quoted ++ ": " ++ r.2 ++ ",")

/-- The lines that return results, if there are any. -/
theorem returnLines_eq (hresults : s.results ≠ []) :
    s.returnLines = (if s.blocks.isEmpty then [] else [[]]) ++ [Text.ofString "return \x7b"] ++
      s.results.map resultLine ++ [Text.ofString "\x7d"] := by
  simp [returnLines, hresults, resultLine]

/-- The line of a result is printable and holds its id as its only literal. -/
theorem resultLine_spec {r : Text × Text} (hr : IsVariable r.2) :
    (resultLine r).IsPrintable ∧ Text.literals (resultLine r) = some [r.1] := by
  have hback : IsCodeText (": " ++ r.2 ++ ",") :=
    IsCodeText.append (IsCodeText.append (by decide) hr.isCodeText) (by decide)
  have hline : resultLine r = indented ((Expr.quoted r.1).text ++ (": " ++ r.2 ++ ",")) := by
    simp only [resultLine, Expr.text, List.append_assoc]
  rw [hline, literals_indented]
  have hquoted : (Expr.quoted r.1).Spelled := trivial
  refine ⟨?_, Expr.literals_text hquoted hback⟩
  exact isPrintable_indented (IsPrintable.append (Text.isPrintable_quoted r.1) hback.isPrintable)

/-- The lines that return the results are printable. -/
theorem isPrintable_returnLines (hresults : ∀ r ∈ s.results, IsVariable r.2) :
    ∀ line ∈ s.returnLines, line.IsPrintable := by
  by_cases hnil : s.results = []
  · simp only [returnLines, hnil, List.isEmpty_nil, if_true, List.forall_mem_singleton]
    decide
  · rw [returnLines_eq hnil]
    have hfirst : ∀ line ∈ (if s.blocks.isEmpty then [] else [[]] : List Text), line.IsPrintable := by
      split <;> decide
    simp only [List.forall_mem_append, List.forall_mem_singleton, List.forall_mem_map]
    exact ⟨⟨⟨hfirst, by decide⟩, fun r hr => (resultLine_spec (hresults r hr)).1⟩, by decide⟩

/-- The literals of the lines that return the results are the ids of the results. -/
theorem readLines_returnLines (hresults : ∀ r ∈ s.results, IsVariable r.2) :
    readLines s.returnLines = some (s.results.map (·.1)) := by
  by_cases hnil : s.results = []
  · simp only [returnLines, hnil, List.isEmpty_nil, if_true]
    decide
  · have hfront : readLines ((if s.blocks.isEmpty then [] else [[]]) ++
        [Text.ofString "return \x7b"]) = some [] := by
      split <;> decide
    have hback : readLines ["\x7d"] = some [] := by decide
    have hmiddle : readLines (s.results.map resultLine) = some (s.results.map (·.1)) := by
      have hlines : (s.results.map resultLine).map Text.literals =
          (s.results.map fun r => [r.1]).map some := by
        rw [List.map_map, List.map_map]
        exact List.map_congr_left fun r hr => (resultLine_spec (hresults r hr)).2
      rw [readLines_of_map hlines, ← List.flatMap_def, ← List.map_eq_flatMap]
    rw [returnLines_eq hnil]
    simpa using readLines_append (readLines_append hfront hmiddle) hback

/-- Blocks with blank lines between them are read block by block. -/
theorem readLines_blocks {blocks : List Block}
    (h : ∀ b ∈ blocks, b.context.Spelled ∧ b.fragment = b.context.fragment d) :
    readLines ([([] : Text)].intercalate (blocks.map Block.lines)) =
      some (blocks.flatMap fun b => (b.context.literals d).flatten) := by
  have hblock : ∀ b ∈ blocks, readLines b.lines = some (b.context.literals d).flatten := by
    intro b hb
    have hmarker : readLines [b.marker] = some [] := rfl
    have hlines := readLines_of_map (Block.literals_lines (h b hb).1 (h b hb).2)
    exact readLines_append hmarker hlines
  have hblank : readLines [([] : Text)] = some [] := rfl
  induction blocks with
  | nil => rfl
  | cons b rest ih =>
    obtain ⟨hb, hrest⟩ := List.forall_mem_cons.1 hblock
    cases rest with
    | nil => simpa using hb
    | cons next rest =>
      have hmore := ih (List.forall_mem_cons.1 h).2 hrest
      rw [List.map_cons, List.map_cons, List.intercalate_cons_cons, ← List.map_cons]
      simpa using readLines_append (readLines_append hb hblank) hmore

/-- A line between blocks, or of one of them. -/
theorem mem_blocks {line : Text} {blocks : List Block}
    (h : line ∈ [([] : Text)].intercalate (blocks.map Block.lines)) :
    line = [] ∨ ∃ b ∈ blocks, line ∈ b.lines := by
  induction blocks with
  | nil => cases h
  | cons b rest ih =>
    cases rest with
    | nil =>
      rw [List.map_singleton, List.intercalate_singleton] at h
      exact Or.inr ⟨b, List.mem_singleton_self b, h⟩
    | cons next rest =>
      rw [List.map_cons, List.map_cons, List.intercalate_cons_cons, ← List.map_cons,
        List.mem_append, List.mem_append, List.mem_singleton] at h
      rcases h with (h | h) | h
      · exact Or.inr ⟨b, List.mem_cons_self, h⟩
      · exact Or.inl h
      · rcases ih h with h | ⟨b', hb', h⟩
        · exact Or.inl h
        · exact Or.inr ⟨b', List.mem_cons_of_mem _ hb', h⟩

/-- A script confines texts if its blocks and its results are spelled as variables. -/
theorem confines_of_spelled
    (hblocks : ∀ b ∈ s.blocks, b.context.Spelled ∧ b.fragment = b.context.fragment d)
    (hresults : ∀ r ∈ s.results, IsVariable r.2) : s.Confines d := by
  have hprintable : ∀ line ∈ s.body, line.IsPrintable := by
    intro line hline
    rcases List.mem_append.1 hline with hline | hline
    · rcases mem_blocks hline with rfl | ⟨b, hb, hline⟩
      · decide
      · exact Block.isPrintable_lines (hblocks b hb).1 (hblocks b hb).2 line hline
    · exact isPrintable_returnLines hresults line hline
  constructor
  · exact fun line hline => isPrintable_indented (hprintable line hline)
  · intro line hline c hc
    have hc := hprintable line hline c hc
    obtain ⟨hlower, hsurrogate⟩ := Text.val_of_isPrintable hc
    exact ⟨Text.not_mem_lineEnds hc, by omega, hsurrogate⟩
  · intro b hb
    have hlength := congrArg List.length (Block.literals_lines (hblocks b hb).1 (hblocks b hb).2)
    rw [List.length_map, List.length_map] at hlength
    rw [Block.lines, List.length_cons, hlength]
    exact b.context.length_literals d
  · intro b hb
    simp only [literals_indented]
    exact Block.literals_lines (hblocks b hb).1 (hblocks b hb).2
  · exact readLines_append (readLines_blocks hblocks) (readLines_returnLines hresults)
  · exact fun b _ => ⟨rfl, b.oneLine_shownLabel, oneLine_oneLine _⟩

end Parts

/--
Texts of a graph cannot leave the places that its script gives them, whatever they hold: the blocks
are those of the nodes, and every literal and every comment in the body is one for the text that it
stands for.
-/
theorem compile_confines (d : Defaults) (s : Snapshot) :
    ((compile d s).1.blocks.map (·.context.node)).Perm s.nodes ∧
      (compile d s).1.results.map (·.1) = s.flow.sinks ∧ (compile d s).1.Confines d := by
  refine ⟨?_, ?_, confines_of_spelled ?_ ?_⟩
  · rw [map_node_compile]
    exact s.flow.filterMap_node?_sequence.2
  · exact (List.map_map ..).trans (List.map_id _)
  · exact fun b hb => ⟨spelled_compile d s b hb, (follows_compile d s b hb).fragment⟩
  · intro r hr
    obtain ⟨id, hid, rfl⟩ := List.mem_map.1 hr
    exact isVariable_of_claimVariables s.flow id (List.mem_of_mem_filter hid)

end PipelineGraph.Script
