import Mathlib.Data.List.Induction
import PipelineGraph.CommandLine.Arguments

/-!
# Command lines in parts

Each argument of a command line has one use: it is positional, the name of an option, its value, or a
flag. Where an option begins depends on all that stands to its left, so the uses are told from the left.
A command line can be divided wherever no option waits for its value: what is positional in the parts is
positional in the whole, and a format in the second part counts more than one in the first.
-/

namespace PipelineGraph.CommandLine

namespace Arguments

/-- The option that takes a value. -/
abbrev formatName : Text :=
  Text.ofString "--format"

/-- What an argument is used for. -/
inductive Use where
  | positional
  | name
  | value
  | flag
deriving DecidableEq

/-- The uses of the arguments of a command line. -/
inductive Uses : List Text → List Use → Prop where
  | nil : Uses [] []
  /-- An option takes the next argument, whatever that is. -/
  | option {value : Text} {rest : List Text} {uses : List Use} (behind : Uses rest uses) :
    Uses (formatName :: value :: rest) (.name :: .value :: uses)
  | positional {argument : Text} {rest : List Text} {uses : List Use}
    (plain : isFlag argument = false) (behind : Uses rest uses) :
    Uses (argument :: rest) (.positional :: uses)
  /-- An option without a value is a flag. -/
  | flag {argument : Text} {rest : List Text} {uses : List Use} (flagged : isFlag argument = true)
    (last : argument = formatName → rest = []) (behind : Uses rest uses) :
    Uses (argument :: rest) (.flag :: uses)

/-- The arguments of a use, in their order. -/
def having (use : Use) (arguments : List Text) (uses : List Use) : List Text :=
  (arguments.zip uses).filterMap fun (argument, u) => if u = use then some argument else none

/-- The last argument is an option whose value is still to come. -/
def EndsOpen (arguments : List Text) : Prop :=
  arguments.getLast? = some formatName ∧ ∃ uses, Uses arguments (uses ++ [.flag])

/-- The arguments of a command line and of one that continues it. -/
def followedBy (a b : Arguments) : Arguments :=
  ⟨a.positional ++ b.positional, b.format <|> a.format⟩

variable {argument value : Text} {arguments xs ys rest : List Text} {uses us vs : List Use}

/-! ## One argument after the other -/

/-- The option with its value in front. -/
theorem ofList_format (value : Text) (rest : List Text) :
    ofList (formatName :: value :: rest) = (ofList rest).orFormat value :=
  if_pos rfl

/-- A positional argument is no option. -/
theorem ne_formatName (h : isFlag argument = false) : argument ≠ formatName := by
  rintro rfl
  exact absurd h (by decide)

/-- A positional argument in front. -/
theorem ofList_positional (h : isFlag argument = false) (rest : List Text) :
    ofList (argument :: rest) = (ofList rest).cons argument := by
  have hflag : ¬ isFlag argument = true := by simp [h]
  cases rest with
  | nil => exact if_neg hflag
  | cons next rest => rw [ofList, if_neg (ne_formatName h), if_neg hflag]

/-- A flag in front changes nothing. -/
theorem ofList_flag (h : isFlag argument = true) (hlast : argument = formatName → rest = []) :
    ofList (argument :: rest) = ofList rest := by
  cases rest with
  | nil => exact if_pos h
  | cons next rest =>
    have hname : argument ≠ formatName := fun heq => List.cons_ne_nil _ _ (hlast heq)
    rw [ofList, if_neg hname, if_pos h]

/-! ## Uses -/

/-- The arguments of a command line have uses. -/
theorem exists_uses (arguments : List Text) : ∃ uses, Uses arguments uses := by
  induction arguments using List.twoStepInduction with
  | nil => exact ⟨[], .nil⟩
  | singleton argument =>
    cases h : isFlag argument with
    | true => exact ⟨_, .flag h (fun _ => rfl) .nil⟩
    | false => exact ⟨_, .positional h .nil⟩
  | cons_cons argument next rest ih ih' =>
    obtain ⟨uses, huses⟩ := ih
    obtain ⟨uses', huses'⟩ := ih' next
    cases h : isFlag argument with
    | true =>
      by_cases hname : argument = formatName
      · subst hname
        exact ⟨_, .option huses⟩
      · exact ⟨_, .flag h (fun heq => absurd heq hname) huses'⟩
    | false => exact ⟨_, .positional h huses'⟩

/-- No argument has another use. -/
theorem Uses.unique (h : Uses arguments us) (h' : Uses arguments vs) : us = vs := by
  induction h generalizing vs with
  | nil =>
    cases h'
    rfl
  | option behind ih =>
    cases h' with
    | option behind' => rw [ih behind']
    | positional plain' behind' => exact absurd rfl (ne_formatName plain')
    | flag flagged' last' behind' => cases last' rfl
  | positional plain behind ih =>
    cases h' with
    | option behind' => exact absurd rfl (ne_formatName plain)
    | positional plain' behind' => rw [ih behind']
    | flag flagged' last' behind' => rw [plain] at flagged'; cases flagged'
  | flag flagged last behind ih =>
    cases h' with
    | option behind' => cases last rfl
    | positional plain' behind' => rw [plain'] at flagged; cases flagged
    | flag flagged' last' behind' => rw [ih behind']

/-- Each argument has a use. -/
theorem Uses.length_eq (h : Uses arguments uses) : uses.length = arguments.length := by
  induction h with
  | nil => rfl
  | option behind ih => simp [ih]
  | positional plain behind ih => simp [ih]
  | flag flagged last behind ih => simp [ih]

/-- What is positional comes in its order, and of the values the last one counts. -/
theorem Uses.ofList_eq (h : Uses arguments uses) :
    ofList arguments = ⟨having .positional arguments uses, (having .value arguments uses).getLast?⟩ := by
  induction h with
  | nil => rfl
  | option behind ih =>
    rw [ofList_format, ih]
    simp [orFormat, having, List.getLast?_cons]
  | positional plain behind ih =>
    rw [ofList_positional plain, ih]
    simp [cons, having]
  | flag flagged last behind ih =>
    rw [ofList_flag flagged last, ih]
    simp [having]

/-- What stands in front of the last argument does not close it. -/
theorem EndsOpen.cons (h : EndsOpen rest) {use : Use}
    (huses : ∀ uses, Uses rest uses → Uses (argument :: rest) (use :: uses)) :
    EndsOpen (argument :: rest) := by
  obtain ⟨hlast, uses, hrest⟩ := h
  refine ⟨?_, use :: uses, huses _ hrest⟩
  rw [List.getLast?_cons, hlast]
  rfl

/-- An option with its value in front of the last argument does not close it. -/
theorem EndsOpen.option (h : EndsOpen rest) : EndsOpen (formatName :: value :: rest) := by
  obtain ⟨hlast, uses, hrest⟩ := h
  refine ⟨?_, .name :: .value :: uses, .option hrest⟩
  rw [List.getLast?_cons, List.getLast?_cons, hlast]
  rfl

/-- Where no option waits for its value, the uses of two parts are those of the whole. -/
theorem Uses.append (h : Uses xs us) (hclosed : ¬ EndsOpen xs) (h' : Uses ys vs) :
    Uses (xs ++ ys) (us ++ vs) := by
  induction h with
  | nil => exact h'
  | option behind ih => exact .option (ih fun hopen => hclosed hopen.option)
  | positional plain behind ih =>
    exact .positional plain (ih fun hopen => hclosed (hopen.cons fun _ => .positional plain))
  | flag flagged last behind ih =>
    refine .flag flagged (fun hname => ?_)
      (ih fun hopen => hclosed (hopen.cons fun _ => .flag flagged last))
    -- An option that is the last argument would wait for its value.
    cases last hname
    subst hname
    exact absurd ⟨rfl, [], .flag flagged (fun _ => rfl) .nil⟩ hclosed

/-- Arguments of a use in two parts. -/
theorem having_append (h : us.length = xs.length) (use : Use) :
    having use (xs ++ ys) (us ++ vs) = having use xs us ++ having use ys vs := by
  rw [having, List.zip_append h.symm, List.filterMap_append]
  rfl

/-- Where no option waits for its value, a command line can be divided. -/
theorem ofList_append (hclosed : ¬ EndsOpen xs) (ys : List Text) :
    ofList (xs ++ ys) = (ofList xs).followedBy (ofList ys) := by
  obtain ⟨us, hus⟩ := exists_uses xs
  obtain ⟨vs, hvs⟩ := exists_uses ys
  rw [(hus.append hclosed hvs).ofList_eq, hus.ofList_eq, hvs.ofList_eq, having_append hus.length_eq,
    having_append hus.length_eq, List.getLast?_append, Option.or_eq_orElse]
  rfl

/--
A command line is split by the uses of its arguments. Each argument has one use, told from the left: what
is positional comes in its order, and of the values of options the last one counts. Where no option waits
for its value, a command line can be divided: the positional arguments of the parts are those of the whole,
and a format of the second part counts more. So an option with any value that is inserted there changes no
positional argument and counts if no format comes later, and a flag that is inserted there changes nothing.
-/
theorem splits_by_uses :
    (∀ arguments, ∃! uses, Uses arguments uses) ∧
    (∀ arguments uses, Uses arguments uses → uses.length = arguments.length ∧
      ofList arguments = ⟨having .positional arguments uses, (having .value arguments uses).getLast?⟩) ∧
    ∀ xs ys, ¬ EndsOpen xs →
      ofList (xs ++ ys) = (ofList xs).followedBy (ofList ys) ∧
      (∀ value, ofList (xs ++ formatName :: value :: ys) =
        ⟨(ofList (xs ++ ys)).positional, (ofList ys).format <|> some value⟩) ∧
      ∀ argument, isFlag argument = true → argument ≠ formatName →
        ofList (xs ++ argument :: ys) = ofList (xs ++ ys) := by
  refine ⟨fun arguments => ?_, fun _ _ h => ⟨h.length_eq, h.ofList_eq⟩, fun xs ys hclosed =>
    ⟨ofList_append hclosed ys, fun value => ?_, fun argument hflag hname => ?_⟩⟩
  · obtain ⟨uses, huses⟩ := exists_uses arguments
    exact ⟨uses, huses, fun _ h => h.unique huses⟩
  · rw [ofList_append hclosed, ofList_append hclosed, ofList_format]
    cases h : (ofList ys).format with
    | none => simp [followedBy, orFormat, h]
    | some later => simp [followedBy, orFormat, h]
  · rw [ofList_append hclosed, ofList_append hclosed, ofList_flag hflag fun heq => absurd heq hname]

/-- An option takes its own name as a value, and what begins with a hyphen counts as a format. -/
theorem splits_by_uses_repeated :
    let xs : List Text := ["export", "--format", "--format"]
    let ys : List Text := ["-v", "g.json", "--format"]
    let uses : List Use := [.positional, .name, .value]
    let fast : Text := "--fast"
    (Uses xs uses ∧ ofList xs = ⟨having .positional xs uses, (having .value xs uses).getLast?⟩) ∧
      ¬ EndsOpen xs ∧ isFlag fast = true ∧ fast ≠ formatName ∧
      ofList (xs ++ ys) = ⟨["export", "g.json"], some "--format"⟩ ∧
      ofList (xs ++ formatName :: "-x" :: ys) = ⟨["export", "g.json"], some "-x"⟩ ∧
      ofList (xs ++ fast :: ys) = ofList (xs ++ ys) := by
  intro xs ys uses fast
  obtain ⟨-, huses, hparts⟩ := splits_by_uses
  have hxs : Uses xs uses := .positional rfl (.option .nil)
  have hclosed : ¬ EndsOpen xs := by
    rintro ⟨-, others, hopen⟩
    have hlast := congrArg List.getLast? (hxs.unique hopen)
    rw [List.getLast?_concat] at hlast
    cases hlast
  obtain ⟨happend, hoption, hflag⟩ := hparts xs ys hclosed
  have hfast : isFlag fast = true := by decide
  have hname : fast ≠ formatName := by decide
  exact ⟨⟨hxs, (huses _ _ hxs).2⟩, hclosed, hfast, hname, happend.trans (by decide),
    (hoption "-x").trans (by decide), hflag fast hfast hname⟩

end Arguments

end PipelineGraph.CommandLine
