import PipelineGraph.Proofs.Script.Header
import PipelineGraph.Proofs.Script.Markers
import PipelineGraph.Proofs.Text.Order

/-!
# The header does not depend on how needs are listed

What a script needs from outside is a set: blocks list their imports and helpers in any order and more
than once. The header is what the set determines. Each import is made by one line, the lines of a part
stand in an order that leaves no choice, and the helpers are those that are listed or called, as they
are declared. So two lists of the same imports, or of the same helpers, give the same header.
-/

namespace PipelineGraph.Script

namespace Import

variable {imports others : List Import} {belongs : Text → Bool}

/-! ## Lists in order -/

/-- Whole modules are in increasing order. -/
theorem wholeModules_increasing (imports : List Import) : (wholeModules imports).Pairwise (· < ·) :=
  Text.sort_increasing (nodup_firstOccurrences _)

/-- The modules from which names are imported are in increasing order. -/
theorem namedModules_increasing (imports : List Import) : (namedModules imports).Pairwise (· < ·) :=
  Text.sort_increasing (nodup_firstOccurrences _)

/-- The names from a module are in increasing order. -/
theorem namesFrom_increasing (imports : List Import) (source : Text) :
    (namesFrom imports source).Pairwise (· < ·) :=
  Text.sort_increasing (nodup_firstOccurrences _)

/-- The lines of a class of modules are told by the imports. -/
theorem part_congr (h : ∀ i, i ∈ imports ↔ i ∈ others) (belongs : Text → Bool) :
    part imports belongs = part others belongs := by
  have hwhole : wholeModules imports = wholeModules others :=
    (wholeModules_increasing imports).eq_of_mem_iff (wholeModules_increasing others) fun source => by
      simp only [mem_wholeModules, h]
  have hnamed : namedModules imports = namedModules others :=
    (namedModules_increasing imports).eq_of_mem_iff (namedModules_increasing others) fun source => by
      simp only [mem_namedModules, h]
  have hnames : namesFrom imports = namesFrom others := funext fun source =>
    (namesFrom_increasing imports source).eq_of_mem_iff (namesFrom_increasing others source) fun x => by
      simp only [mem_namesFrom, h]
  have hline : namedLine imports = namedLine others := by
    funext source
    rw [namedLine, hnames, ← namedLine]
  rw [part, hwhole, hnamed, hline, ← part]

/-- The lines of all imports are told by the imports, however they are listed. -/
theorem lines_congr (h : ∀ i, i ∈ imports ↔ i ∈ others) : lines imports = lines others := by
  unfold lines
  rw [part_congr h, part_congr h]

/-! ## Lines by their parts -/

/-- What a line of imports says: a whole module, or names from a module. -/
inductive Clause where
  | whole (source : Text)
  | named (source : Text) (names : List Text)

namespace Clause

/-- The line of a clause. -/
def text : Clause → Text
  | whole source => "import " ++ source
  | named source names => "from " ++ source ++ " import " ++ Text.join ", " names

/-- The module of a clause. -/
def source : Clause → Text
  | whole source => source
  | named source _ => source

/-- The imports that a clause makes. -/
def makes : Clause → List Import
  | whole source => [⟨source, none⟩]
  | named source names => names.map fun x => ⟨source, some x⟩

/-- The order of clauses: whole modules first, and modules in increasing order. -/
def Before : Clause → Clause → Prop
  | whole first, whole second => first < second
  | whole _, named _ _ => True
  | named _ _, whole _ => False
  | named first _, named second _ => first < second

/-- A clause imports something, and its names are in increasing order. -/
def IsOrdered : Clause → Prop
  | whole _ => True
  | named _ names => names ≠ [] ∧ names.Pairwise (· < ·)

end Clause

/-- Lines of imports in two parts, the modules of the standard library and the others. -/
structure Arranged (imports : List Import) (standard other : List Clause) : Prop where
  /-- A blank line divides the parts if there are two. -/
  lines_eq : lines imports = standard.map Clause.text ++
    (if standard = [] ∨ other = [] then [] else [[]]) ++ other.map Clause.text
  standard_source : ∀ c ∈ standard, c.source ∈ standardModules
  other_source : ∀ c ∈ other, c.source ∉ standardModules
  standard_before : standard.Pairwise Clause.Before
  other_before : other.Pairwise Clause.Before
  ordered : ∀ c ∈ standard ++ other, c.IsOrdered
  /-- An import that is asked for is made by one line, and no other import is made. -/
  made : ∀ i, (standard ++ other).countP (i ∈ ·.makes) = if i ∈ imports then 1 else 0

/-- The clauses for the modules of a class. -/
def clauses (imports : List Import) (belongs : Text → Bool) : List Clause :=
  ((wholeModules imports).filter belongs).map .whole ++
    ((namedModules imports).filter belongs).map fun source => .named source (namesFrom imports source)

/-- The lines of a class of modules are those of its clauses. -/
theorem map_text_clauses (imports : List Import) (belongs : Text → Bool) :
    (clauses imports belongs).map Clause.text = part imports belongs := by
  simp only [clauses, part, List.map_append, List.map_map]
  rfl

/-- The clauses of a class have modules of the class. -/
theorem source_of_mem_clauses {c : Clause} (hc : c ∈ clauses imports belongs) :
    belongs c.source = true := by
  rcases List.mem_append.1 hc with hc | hc
  · obtain ⟨source, hsource, rfl⟩ := List.mem_map.1 hc
    exact (List.mem_filter.1 hsource).2
  · obtain ⟨source, hsource, rfl⟩ := List.mem_map.1 hc
    exact (List.mem_filter.1 hsource).2

/-- The clauses of a class are in order. -/
theorem clauses_before (imports : List Import) (belongs : Text → Bool) :
    (clauses imports belongs).Pairwise Clause.Before := by
  refine List.pairwise_append.2 ⟨?_, ?_, ?_⟩
  · exact List.pairwise_map.2 ((wholeModules_increasing imports).filter _)
  · exact List.pairwise_map.2 ((namedModules_increasing imports).filter _)
  · intro c hc c' hc'
    obtain ⟨source, -, rfl⟩ := List.mem_map.1 hc
    obtain ⟨source', -, rfl⟩ := List.mem_map.1 hc'
    trivial

/-- Each clause of a class is in order. -/
theorem isOrdered_of_mem_clauses {c : Clause} (hc : c ∈ clauses imports belongs) : c.IsOrdered := by
  rcases List.mem_append.1 hc with hc | hc
  · obtain ⟨source, -, rfl⟩ := List.mem_map.1 hc
    trivial
  · obtain ⟨source, hsource, rfl⟩ := List.mem_map.1 hc
    refine ⟨?_, namesFrom_increasing imports source⟩
    obtain ⟨⟨_, name⟩, hi, hname, rfl⟩ := mem_namedModules.1 (List.mem_filter.1 hsource).1
    obtain ⟨x, rfl⟩ := Option.isSome_iff_exists.1 hname
    exact List.ne_nil_of_mem (mem_namesFrom.2 hi)

/-- The clauses of a class make the imports from modules of the class. -/
theorem exists_clause_iff {i : Import} :
    (∃ c ∈ clauses imports belongs, i ∈ c.makes) ↔ i ∈ imports ∧ belongs i.source = true := by
  obtain ⟨source, name⟩ := i
  constructor
  · rintro ⟨c, hc, hi⟩
    have hbelongs := source_of_mem_clauses hc
    rcases List.mem_append.1 hc with hc | hc
    · obtain ⟨m, hm, rfl⟩ := List.mem_map.1 hc
      cases List.mem_singleton.1 hi
      obtain ⟨⟨_, name⟩, hmem, hname, rfl⟩ := mem_wholeModules.1 (List.mem_filter.1 hm).1
      cases Option.isNone_iff_eq_none.1 hname
      exact ⟨hmem, hbelongs⟩
    · obtain ⟨m, -, rfl⟩ := List.mem_map.1 hc
      obtain ⟨x, hx, heq⟩ := List.mem_map.1 hi
      cases heq
      exact ⟨mem_namesFrom.1 hx, hbelongs⟩
  · rintro ⟨hi, hbelongs⟩
    cases name with
    | none =>
      have hsource := List.mem_filter.2 ⟨mem_wholeModules.2 ⟨_, hi, rfl, rfl⟩, hbelongs⟩
      exact ⟨.whole source, List.mem_append_left _ (List.mem_map_of_mem hsource),
        List.mem_singleton.2 rfl⟩
    | some x =>
      have hsource := List.mem_filter.2 ⟨mem_namedModules.2 ⟨_, hi, rfl, rfl⟩, hbelongs⟩
      exact ⟨_, List.mem_append_right _ (List.mem_map_of_mem hsource),
        List.mem_map_of_mem (mem_namesFrom.2 hi)⟩

/-- A clause makes imports from its module. -/
theorem Clause.source_of_mem_makes {c : Clause} {i : Import} (hi : i ∈ c.makes) : i.source = c.source := by
  cases c with
  | whole source =>
    cases List.mem_singleton.1 hi
    rfl
  | named source names =>
    obtain ⟨x, -, rfl⟩ := List.mem_map.1 hi
    rfl

/-- What a clause makes, no clause behind it makes. -/
theorem Clause.Before.not_mem_makes {c c' : Clause} (h : c.Before c') {i : Import} (hi : i ∈ c.makes) :
    i ∉ c'.makes := by
  intro hi'
  have hsame : c.source = c'.source := (source_of_mem_makes hi).symm.trans (source_of_mem_makes hi')
  cases c with
  | whole source =>
    cases c' with
    | whole source' =>
      change source = source' at hsame
      exact List.lt_irrefl source (hsame ▸ h : source < source)
    | named source' names =>
      cases List.mem_singleton.1 hi
      obtain ⟨x, -, heq⟩ := List.mem_map.1 hi'
      cases heq
  | named source names =>
    cases c' with
    | whole source' => exact h
    | named source' names' =>
      change source = source' at hsame
      exact List.lt_irrefl source (hsame ▸ h : source < source)

/-- If no two elements of a list satisfy a predicate, one element does or none. -/
theorem countP_of_pairwise {A : Type} {p : A → Prop} [DecidablePred p] {l : List A}
    (h : l.Pairwise fun a b => p a → ¬ p b) {q : Prop} [Decidable q] (hq : (∃ a ∈ l, p a) ↔ q) :
    l.countP (p ·) = if q then 1 else 0 := by
  induction l with
  | nil =>
    have hnone : ¬ q := fun hq' => by simpa using hq.2 hq'
    rw [List.countP_nil, if_neg hnone]
  | cons a rest ih =>
    obtain ⟨ha, hrest⟩ := List.pairwise_cons.1 h
    by_cases hp : p a
    · have hnone : rest.countP (p ·) = 0 :=
        List.countP_eq_zero.2 fun b hb => by simpa using ha b hb hp
      have hsome : q := hq.1 ⟨a, List.mem_cons_self, hp⟩
      rw [List.countP_cons, hnone, decide_eq_true hp, if_pos rfl, if_pos hsome]
    · rw [List.countP_cons, decide_eq_false hp, if_neg Bool.false_ne_true, Nat.add_zero]
      refine ih hrest (Iff.trans ?_ hq)
      simp only [List.exists_mem_cons_iff, hp, false_or]

/-- A class makes each import from its modules by one clause, and no other import. -/
theorem countP_clauses (imports : List Import) (belongs : Text → Bool) (i : Import) :
    (clauses imports belongs).countP (i ∈ ·.makes) =
      if i ∈ imports ∧ belongs i.source = true then 1 else 0 :=
  countP_of_pairwise ((clauses_before imports belongs).imp fun h => h.not_mem_makes) exists_clause_iff

/-- The lines of imports are arranged. -/
theorem arranged_clauses (imports : List Import) :
    Arranged imports (clauses imports (· ∈ standardModules)) (clauses imports (· ∉ standardModules)) where
  lines_eq := by
    simp only [lines, ← map_text_clauses]
    generalize clauses imports (fun m => decide (m ∈ standardModules)) = standard
    generalize clauses imports (fun m => decide (m ∉ standardModules)) = other
    cases standard with
    | nil => simp
    | cons c rest =>
      cases other with
      | nil => simp
      | cons c' rest' => simp
  standard_source _ hc := of_decide_eq_true (source_of_mem_clauses hc)
  other_source _ hc := of_decide_eq_true (source_of_mem_clauses hc)
  standard_before := clauses_before imports _
  other_before := clauses_before imports _
  ordered _ hc := (List.mem_append.1 hc).elim isOrdered_of_mem_clauses isOrdered_of_mem_clauses
  made i := by
    rw [List.countP_append, countP_clauses, countP_clauses]
    by_cases hstandard : i.source ∈ standardModules
    · simp [hstandard]
    · simp [hstandard]

/-- Nothing is made that is not asked for. -/
theorem Arranged.mem_of_makes {standard other : List Clause} (h : Arranged imports standard other)
    {c : Clause} (hc : c ∈ standard ++ other) {i : Import} (hi : i ∈ c.makes) : i ∈ imports := by
  by_contra hnot
  have hnone := h.made i
  rw [if_neg hnot, List.countP_eq_zero] at hnone
  exact hnone c hc (decide_eq_true hi)

/-! ## Lines that are read -/

/-- The imports that a line makes, read word by word. -/
def made (line : Text) : List Import :=
  match line.words with
  | [keyword, source] => if keyword = "import" then [⟨source, none⟩] else []
  | keyword :: source :: second :: names =>
    if keyword = "from" ∧ second = "import" then
      names.map fun x => ⟨source, some (x.filter (· ≠ ','))⟩
    else []
  | _ => []

/-- An import of names that can be told apart in a line: words, and no comma in what is imported. -/
structure IsReadable (i : Import) : Prop where
  source : i.source.IsWord
  name : ∀ x ∈ i.name, x.IsWord ∧ CodePoint.ofChar ',' ∉ x

instance : DecidablePred Text.IsWord :=
  fun w => inferInstanceAs (Decidable (w ≠ [] ∧ ∀ c ∈ w, Text.isBlank c = false))

instance : DecidablePred IsReadable :=
  fun i => decidable_of_iff (i.source.IsWord ∧ ∀ x ∈ i.name, x.IsWord ∧ CodePoint.ofChar ',' ∉ x)
    ⟨fun ⟨hsource, hname⟩ => ⟨hsource, hname⟩, fun ⟨hsource, hname⟩ => ⟨hsource, hname⟩⟩

/-- Words that are listed with commas are found without them. -/
theorem map_words_join {names : List Text} (h : ∀ x ∈ names, x.IsWord ∧ CodePoint.ofChar ',' ∉ x) :
    ((Text.join ", " names).words.map fun x => x.filter (· ≠ CodePoint.ofChar ',')) = names := by
  induction names with
  | nil => rfl
  | cons x names ih =>
    obtain ⟨⟨hword, hcomma⟩, hnames⟩ := List.forall_mem_cons.1 h
    have hkept : x.filter (· ≠ CodePoint.ofChar ',') = x :=
      List.filter_eq_self.2 fun c hc => decide_eq_true fun heq => hcomma (heq ▸ hc)
    cases names with
    | nil =>
      rw [Text.join, List.intercalate_singleton, Text.words_of_isWord hword, List.map_singleton, hkept]
    | cons y names =>
      have hlisted : (x ++ [CodePoint.ofChar ',']).IsWord := by
        refine ⟨by simp, fun c hc => ?_⟩
        rcases List.mem_append.1 hc with hc | hc
        · exact hword.2 c hc
        · cases List.mem_singleton.1 hc
          decide
      have hsplit : Text.join ", " (x :: y :: names) =
          (x ++ [CodePoint.ofChar ',']) ++ CodePoint.ofChar ' ' :: Text.join ", " (y :: names) := by
        simp only [Text.join, List.intercalate_cons_cons, List.append_assoc]
        rfl
      have hspace : Text.isBlank (CodePoint.ofChar ' ') = true := by decide
      rw [hsplit, Text.words_append hlisted hspace, List.map_cons, ih hnames, List.filter_append, hkept]
      simp

/-- The words of the line of a whole module. -/
theorem words_whole {source : Text} (h : source.IsWord) :
    (Clause.whole source).text.words = [Text.ofString "import", source] := by
  have hkeyword : (Text.ofString "import").IsWord := ⟨by decide, by decide⟩
  have hspace : Text.isBlank (CodePoint.ofChar ' ') = true := by decide
  change Text.words (Text.ofString "import" ++ CodePoint.ofChar ' ' :: source) = _
  rw [Text.words_append hkeyword hspace, Text.words_of_isWord h]

/-- The words of the line of names from a module. -/
theorem words_named {source : Text} (h : source.IsWord) (names : List Text) :
    (Clause.named source names).text.words =
      Text.ofString "from" :: source :: Text.ofString "import" :: (Text.join ", " names).words := by
  have hfrom : (Text.ofString "from").IsWord := ⟨by decide, by decide⟩
  have himport : (Text.ofString "import").IsWord := ⟨by decide, by decide⟩
  have hspace : Text.isBlank (CodePoint.ofChar ' ') = true := by decide
  have hline : (Clause.named source names).text = Text.ofString "from" ++ CodePoint.ofChar ' ' ::
      (source ++ CodePoint.ofChar ' ' ::
        (Text.ofString "import" ++ CodePoint.ofChar ' ' :: Text.join ", " names)) := by
    simp only [Clause.text, List.append_assoc]
    rfl
  rw [hline, Text.words_append hfrom hspace, Text.words_append h hspace,
    Text.words_append himport hspace]

/-- The line of a clause makes the imports of the clause. -/
theorem made_text {c : Clause} (hc : c.IsOrdered) (h : ∀ i ∈ c.makes, i.IsReadable) :
    made c.text = c.makes := by
  cases c with
  | whole source =>
    have hsource : source.IsWord := (h ⟨source, none⟩ (List.mem_singleton.2 rfl)).source
    rw [made, words_whole hsource]
    exact if_pos rfl
  | named source names =>
    obtain ⟨x, hx⟩ := List.exists_mem_of_ne_nil names hc.1
    have hsource : source.IsWord := (h ⟨source, some x⟩ (List.mem_map_of_mem hx)).source
    have hnames : ∀ x ∈ names, x.IsWord ∧ CodePoint.ofChar ',' ∉ x := fun x hx =>
      (h ⟨source, some x⟩ (List.mem_map_of_mem hx)).name x rfl
    have hread := map_words_join hnames
    rw [made, words_named hsource]
    cases hwords : (Text.join ", " names).words with
    | nil =>
      rw [hwords] at hread
      exact absurd hread.symm hc.1
    | cons first rest =>
      rw [hwords] at hread
      simp only [and_self, if_true, Clause.makes]
      conv_rhs => rw [← hread, List.map_map]
      rfl

/-- Of arranged lines one makes an import that is asked for, and none makes another import. -/
theorem Arranged.countP_made {standard other : List Clause} (h : Arranged imports standard other)
    (hreadable : ∀ i ∈ imports, i.IsReadable) (i : Import) :
    (lines imports).countP (i ∈ Import.made ·) = if i ∈ imports then 1 else 0 := by
  have hmakes : ∀ c ∈ standard ++ other, Import.made c.text = c.makes := fun c hc =>
    made_text (h.ordered c hc) fun i hi => hreadable i (h.mem_of_makes hc hi)
  have hblank : (if standard = [] ∨ other = [] then [] else [[]] : List Text).countP
      (i ∈ Import.made ·) = 0 := by
    split <;> rfl
  have hcount : ∀ part : List Clause, part ⊆ standard ++ other →
      (part.map Clause.text).countP (i ∈ Import.made ·) = part.countP (i ∈ ·.makes) := by
    intro part hpart
    rw [List.countP_map]
    refine List.countP_congr fun c hc => ?_
    rw [Function.comp_apply, hmakes c (hpart hc)]
  rw [h.lines_eq, List.countP_append, List.countP_append, hblank, hcount standard (by simp),
    hcount other (by simp), Nat.add_zero, ← List.countP_append, h.made]

end Import

/-! ## Helpers -/

namespace Helper

variable {helpers others : List Helper}

/-- What a script declares for a list of helpers. -/
structure Declares (helpers declared : List Helper) : Prop where
  /-- Helpers are declared in a fixed order and once each. -/
  sublist : declared.Sublist all
  nodup : declared.Nodup
  listed : helpers ⊆ declared
  /-- What a declared helper calls is declared. -/
  called : ∀ h ∈ declared, h.calls ⊆ declared
  /-- Nothing else is declared. -/
  least : ∀ P : Helper → Prop, (∀ h ∈ helpers, P h) → (∀ h, P h → ∀ k ∈ h.calls, P k) →
    ∀ h ∈ declared, P h

/-- The helpers that a script declares are told by those that are listed, however they are listed. -/
theorem close_congr (h : ∀ k, k ∈ helpers ↔ k ∈ others) : close helpers = close others := by
  refine List.filter_congr fun k _ => decide_eq_decide.2 ?_
  simp only [List.mem_flatMap, h]

/-- A script declares what is listed and what that calls. -/
theorem declares_close (helpers : List Helper) : Declares helpers (close helpers) where
  sublist := List.filter_sublist
  nodup := List.Nodup.filter _ (by decide)
  listed _ hh := mem_close.2 (Or.inl hh)
  called _ hh _ hk := calls_mem_close hh hk
  least P hlisted hcalls h hh := by
    rcases mem_close.1 hh with hh | ⟨k, hk, hcall⟩
    · exact hlisted h hh
    · exact hcalls k (hlisted k hk) h hcall

end Helper

/-! ## Headers -/

/-- The imports of a block can be read. -/
theorem isReadable_of_fragment (c : BlockContext) (d : Defaults) :
    ∀ i ∈ (c.fragment d).imports, i.IsReadable := by
  cases hrole : c.node.role <;> simp only [BlockContext.fragment, hrole]
  case llm =>
    simp only [BlockContext.llm]
    split <;> decide +kernel
  all_goals
    simp only [BlockContext.trigger, BlockContext.fileUpload, BlockContext.textSplitter,
      BlockContext.webScraper, BlockContext.runTool, BlockContext.transcription,
      BlockContext.processing, BlockContext.vectorStore, BlockContext.router, BlockContext.email,
      BlockContext.slack, BlockContext.action]
    decide +kernel

/-- The imports of a script can be read. -/
theorem isReadable_compile (d : Defaults) (s : Snapshot) :
    ∀ i ∈ (compile d s).1.imports, i.IsReadable := by
  intro i hi
  rcases List.mem_append.1 hi with hi | hi
  · obtain ⟨b, hb, hi⟩ := List.mem_flatMap.1 hi
    rw [(follows_compile d s b hb).fragment] at hi
    exact isReadable_of_fragment b.context d i hi
  · obtain ⟨h, -, hi⟩ := List.mem_flatMap.1 hi
    have hall : ∀ h : Helper, ∀ i ∈ h.imports, i.IsReadable := fun h => by cases h <;> decide
    exact hall h i hi

/--
The header of a script does not depend on how its needs are listed. Lists of the same imports give the
same lines: the modules of the standard library, a blank line if there are others, and the others, in
each part whole modules before names from modules and all in increasing order, with one line for each
of the imports and no line for anything else. Read word by word, the lines make these imports, as long as
no blank or comma is in what is imported, which is so in scripts. Lists of the same helpers give the same
declarations, in the fixed order, once each, and with what they call. So scripts whose blocks need the
same have the same header.
-/
theorem header_of_needs :
    (∀ imports others : List Import, (∀ i, i ∈ imports ↔ i ∈ others) →
      Import.lines imports = Import.lines others) ∧
    (∀ imports : List Import, ∃ standard other, Import.Arranged imports standard other) ∧
    (∀ imports : List Import, (∀ i ∈ imports, i.IsReadable) → ∀ i,
      (Import.lines imports).countP (i ∈ Import.made ·) = if i ∈ imports then 1 else 0) ∧
    (∀ d s, ∀ i ∈ (compile d s).1.imports, i.IsReadable) ∧
    (∀ helpers others : List Helper, (∀ h, h ∈ helpers ↔ h ∈ others) →
      Helper.close helpers = Helper.close others) ∧
    (∀ helpers : List Helper, Helper.Declares helpers (Helper.close helpers)) ∧
    ∀ s t : Script,
      (∀ i, i ∈ s.blocks.flatMap (·.fragment.imports) ↔ i ∈ t.blocks.flatMap (·.fragment.imports)) →
      (∀ h, h ∈ s.blocks.flatMap (·.fragment.helpers) ↔ h ∈ t.blocks.flatMap (·.fragment.helpers)) →
      s.importLines = t.importLines ∧ s.helpers = t.helpers := by
  refine ⟨fun _ _ => Import.lines_congr, fun imports => ⟨_, _, Import.arranged_clauses imports⟩,
    fun imports => (Import.arranged_clauses imports).countP_made, isReadable_compile,
    fun _ _ => Helper.close_congr, Helper.declares_close, fun s t himports hhelpers => ?_⟩
  have hdeclared : s.helpers = t.helpers := Helper.close_congr hhelpers
  have hlines : Import.lines s.imports = Import.lines t.imports := by
    refine Import.lines_congr fun i => ?_
    rw [imports, imports, hdeclared, List.mem_append, List.mem_append, himports]
  refine ⟨?_, hdeclared⟩
  rw [importLines, hlines, ← importLines]

/-- Imports in another order and once more, a helper that another one calls, and blocks from behind. -/
theorem header_of_needs_shuffled :
    let imports : List Import :=
      [⟨"smtplib", none⟩, ⟨"m", some "b"⟩, ⟨"m", some "B"⟩, ⟨"os", none⟩, ⟨"M", some "a"⟩]
    let others : List Import :=
      [⟨"M", some "a"⟩, ⟨"os", none⟩, ⟨"m", some "B"⟩, ⟨"smtplib", none⟩, ⟨"os", none⟩, ⟨"m", some "b"⟩]
    let script := (compile {} Snapshot.demo).1
    let behind : Script := { script with blocks := script.blocks.reverse }
    ((∀ i, i ∈ imports ↔ i ∈ others) ∧ Import.lines imports = Import.lines others) ∧
    ((∀ i ∈ imports, i.IsReadable) ∧
      (Import.lines imports).countP (⟨"m", some "B"⟩ ∈ Import.made ·) = 1) ∧
    ((∀ h, h ∈ [Helper.deliver, .asText] ↔ h ∈ [Helper.asText, .deliver, .asText]) ∧
      Helper.close [.deliver, .asText] = Helper.close [.asText, .deliver, .asText]) ∧
    ((∀ i, i ∈ script.blocks.flatMap (·.fragment.imports) ↔
        i ∈ behind.blocks.flatMap (·.fragment.imports)) ∧
      (∀ h, h ∈ script.blocks.flatMap (·.fragment.helpers) ↔
        h ∈ behind.blocks.flatMap (·.fragment.helpers)) ∧
      script.importLines = behind.importLines ∧ script.helpers = behind.helpers) := by
  intro imports others script behind
  obtain ⟨hlines, -, hmade, -, hclose, -, hscripts⟩ := header_of_needs
  have hsame : ∀ i, i ∈ imports ↔ i ∈ others := by
    have hsub : imports ⊆ others := by decide
    have hsup : others ⊆ imports := by decide
    exact fun i => ⟨fun h => hsub h, fun h => hsup h⟩
  have hreadable : ∀ i ∈ imports, i.IsReadable := by decide
  have hhelpers : ∀ h, h ∈ [Helper.deliver, .asText] ↔ h ∈ [Helper.asText, .deliver, .asText] := by
    intro h
    cases h <;> decide
  have himports : ∀ i, i ∈ script.blocks.flatMap (·.fragment.imports) ↔
      i ∈ behind.blocks.flatMap (·.fragment.imports) := by
    simp [behind]
  have hcalls : ∀ h, h ∈ script.blocks.flatMap (·.fragment.helpers) ↔
      h ∈ behind.blocks.flatMap (·.fragment.helpers) := by
    simp [behind]
  exact ⟨⟨hsame, hlines _ _ hsame⟩, ⟨hreadable, hmade _ hreadable _⟩,
    ⟨hhelpers, hclose _ _ hhelpers⟩, himports, hcalls, hscripts _ _ himports hcalls⟩

end PipelineGraph.Script
