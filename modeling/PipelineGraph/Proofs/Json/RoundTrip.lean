import PipelineGraph.Json.Reader
import PipelineGraph.Proofs.Json.Scanning

/-!
# Reading written values

A reader is followed over tokens alone, as the places of the lexemes only matter for its messages.
Over the tokens of a value it goes from the state in which a value may come to the state in which
the value has come, with the same lists and objects open around it. Written values are therefore
read back, within the limits of a reader: the numbers of a value have to be finite and its integers
short, its objects must have distinct keys, and it must not be nested too deep.
-/

namespace PipelineGraph

/-- A key that is new goes to the end. -/
theorem Fields.put_of_not_mem {fields : Fields} {key : Text} {v : Value} (h : key ∉ fields.map Prod.fst) :
    fields.put key v = fields ++ [(key, v)] := by
  induction fields with
  | nil => rfl
  | cons field rest ih =>
    simp only [List.map_cons, List.mem_cons, not_or] at h
    rw [Fields.put, if_neg (Ne.symm h.1), ih h.2, List.cons_append]

/-- A key behind others is new if keys are distinct. -/
theorem Fields.not_mem_of_nodup {done rest : Fields} {field : Text × Value}
    (h : ((done ++ field :: rest).map Prod.fst).Nodup) : field.1 ∉ done.map Prod.fst := by
  rw [List.map_append, List.nodup_append] at h
  exact fun hold => h.2.2 field.1 hold field.1 List.mem_cons_self rfl

/-- Whether a value, apart from what it holds, is read as it is written. -/
def Value.isReadable (digits : Nat) : Value → Bool
  | .int n => n.natAbs < 10 ^ digits
  | .float x => x.isFinite
  | .object fields => (fields.map Prod.fst).Nodup
  | _ => true

namespace Json

namespace State

/-- The state behind tokens that all may come, if none of them goes beyond a limit. -/
def run (limits : Limits) : State → List Token → Option State
  | s, [] => some s
  | s, token :: rest =>
    match s.excess? limits token with
    | some _ => none
    | none => (s.next? token).bind fun s' => s'.run limits rest

variable {limits : Limits}

/-- Tokens are taken part by part. -/
theorem run_append (s : State) (first second : List Token) :
    s.run limits (first ++ second) = (s.run limits first).bind fun s' => s'.run limits second := by
  induction first generalizing s with
  | nil => rfl
  | cons token first ih =>
    rw [List.cons_append, run, run]
    cases s.excess? limits token with
    | some e => rfl
    | none =>
      cases s.next? token with
      | none => rfl
      | some s' => exact ih s'

/-- One token on. -/
theorem run_cons {s s' : State} {token : Token} (rest : List Token)
    (hexcess : s.excess? limits token = none) (hnext : s.next? token = some s') :
    s.run limits (token :: rest) = s'.run limits rest := by
  rw [run, hexcess, hnext]
  rfl

/-- One token is taken if it is within the limits and fits the state. -/
theorem read_cons (s : State) (stop : Nat) (l : Lexeme) (rest : List Lexeme) :
    s.read limits stop (l :: rest) =
      match s.excess? limits l.token, s.next? l.token with
      | some e, _ => .error (.excess e)
      | none, some s' => s'.read limits stop rest
      | none, none => .error (s.refuse l) := by
  cases s with
  | after v stack => cases stack <;> rfl
  | _ => rfl

/-- Reading goes the way of the tokens, or it fails because they lead nowhere. -/
theorem read_append (s : State) (stop : Nat) (ls rest : List Lexeme) :
    (∃ s', s.run limits (ls.map (·.token)) = some s' ∧
      s.read limits stop (ls ++ rest) = s'.read limits stop rest) ∨
    s.run limits (ls.map (·.token)) = none ∧ ∃ e, s.read limits stop (ls ++ rest) = .error e := by
  induction ls generalizing s with
  | nil => exact Or.inl ⟨s, rfl, rfl⟩
  | cons l ls ih =>
    rw [List.map_cons, run, List.cons_append, read_cons]
    cases s.excess? limits l.token with
    | some e => exact Or.inr ⟨rfl, _, rfl⟩
    | none =>
      cases s.next? l.token with
      | none => exact Or.inr ⟨rfl, _, rfl⟩
      | some s' => exact ih s'

/-- The first item of a list comes like any other, as no value opens with a closing bracket. -/
theorem run_firstItem {token : Token} (stack : List Frame) (rest : List Token)
    (h : token ≠ .closeBracket) :
    (firstItem stack).run limits (token :: rest) = (value (.items [] :: stack)).run limits (token :: rest) := by
  cases token with
  | closeBracket => exact absurd rfl h
  | _ => rfl

end State

/-- A value opens with a token that closes no list. -/
theorem exists_tokensOf (v : Value) :
    ∃ token rest, tokensOf v = token :: rest ∧ token ≠ .closeBracket := by
  cases v <;> exact ⟨_, _, rfl, by simp⟩

/-- One part stands alone. -/
theorem commaTokens_singleton (part : List Token) : commaTokens [part] = part :=
  List.intercalate_singleton

/-- A comma stands between the first part and the others. -/
theorem commaTokens_cons (part next : List Token) (rest : List (List Token)) :
    commaTokens (part :: next :: rest) = part ++ .comma :: commaTokens (next :: rest) := by
  rw [commaTokens, List.intercalate_cons_cons, List.append_assoc]
  rfl

/-- The tokens of parts open with those of the first part. -/
theorem exists_commaTokens (part : List Token) (rest : List (List Token)) :
    ∃ behind, commaTokens (part :: rest) = part ++ behind := by
  cases rest with
  | nil => exact ⟨[], by rw [commaTokens_singleton, List.append_nil]⟩
  | cons next rest => exact ⟨_, commaTokens_cons part next rest⟩

section Values

variable {nesting digits : Nat}

/-- A list opens if less is open than may be. -/
theorem run_openBracket {stack : List Frame} (rest : List Token) (h : stack.length < nesting) :
    (State.value stack).run ⟨some nesting, some digits⟩ (.openBracket :: rest) =
      (State.firstItem stack).run ⟨some nesting, some digits⟩ rest := by
  apply State.run_cons rest _ rfl
  simp [State.excess?, State.around?, State.valueExcess?, State.nestingExcess?, h]

/-- An object opens if less is open than may be. -/
theorem run_openBrace {stack : List Frame} (rest : List Token) (h : stack.length < nesting) :
    (State.value stack).run ⟨some nesting, some digits⟩ (.openBrace :: rest) =
      (State.firstKey stack).run ⟨some nesting, some digits⟩ rest := by
  apply State.run_cons rest _ rfl
  simp [State.excess?, State.around?, State.valueExcess?, State.nestingExcess?, h]

mutual

/-- Over the tokens of a value, a reader gets to the value. -/
theorem run_value (stack : List Frame) {v : Value} (hv : v.every (Value.isReadable digits) = true)
    (hdepth : stack.length + v.depth ≤ nesting) :
    (State.value stack).run ⟨some nesting, some digits⟩ (tokensOf v) = some (.after v stack) := by
  cases v with
  | null => rfl
  | bool b => rfl
  | int n =>
    have hshort : n.natAbs < 10 ^ digits := of_decide_eq_true hv
    apply State.run_cons [] _ rfl
    simp [State.excess?, State.around?, State.valueExcess?, hshort]
  | float x => rfl
  | text t => rfl
  | list items =>
    obtain ⟨-, hitems⟩ := Value.every_list.1 hv
    rw [Value.depth] at hdepth
    rw [tokensOf, List.cons_append, run_openBracket _ (by omega)]
    cases items with
    | nil => rfl
    | cons item rest =>
      have hrun := run_items stack [] (List.cons_ne_nil item rest) hitems (by omega)
      obtain ⟨behind, hbehind⟩ := exists_commaTokens (tokensOf item) (itemTokens rest)
      obtain ⟨token, more, htokens, hopens⟩ := exists_tokensOf item
      rw [itemTokens, hbehind, htokens, List.cons_append, List.cons_append] at hrun ⊢
      rw [State.run_firstItem stack _ hopens, hrun, List.nil_append]
  | object fields =>
    obtain ⟨hkeys, hfields⟩ := Value.every_object.1 hv
    rw [Value.depth] at hdepth
    rw [tokensOf, List.cons_append, run_openBrace _ (by omega)]
    cases fields with
    | nil => rfl
    | cons field rest =>
      have hrun := run_fields stack [] (List.cons_ne_nil field rest) hfields
        (of_decide_eq_true hkeys) (by omega)
      obtain ⟨key, value⟩ := field
      obtain ⟨behind, hbehind⟩ :=
        exists_commaTokens (.text key :: .colon :: tokensOf value) (fieldTokens rest)
      rw [fieldTokens, hbehind] at hrun ⊢
      exact hrun

/-- Over the tokens of items and the end of their list, a reader gets to the list. -/
theorem run_items (stack : List Frame) (done : List Value) {items : List Value} (hne : items ≠ [])
    (hitems : Value.everyItem (Value.isReadable digits) items = true)
    (hdepth : stack.length + 1 + Value.depthOfItems items ≤ nesting) :
    (State.value (.items done :: stack)).run ⟨some nesting, some digits⟩
        (commaTokens (itemTokens items) ++ [.closeBracket]) =
      some (.after (.list (done ++ items)) stack) := by
  match items with
  | [] => exact absurd rfl hne
  | [item] =>
    simp only [Value.depthOfItems] at hdepth
    have hitem := run_value (.items done :: stack) (Value.everyItem_cons.1 hitems).1
      (by simp only [List.length_cons]; omega)
    rw [itemTokens, itemTokens, commaTokens_singleton, State.run_append, hitem]
    rfl
  | item :: next :: rest =>
    obtain ⟨hitem, hrest⟩ := Value.everyItem_cons.1 hitems
    rw [Value.depthOfItems] at hdepth
    have hitem := run_value (.items done :: stack) hitem (by simp only [List.length_cons]; omega)
    have hrest := run_items stack (done ++ [item]) (List.cons_ne_nil next rest) hrest (by omega)
    rw [itemTokens, itemTokens, commaTokens_cons, List.append_assoc, State.run_append, hitem]
    rw [List.append_assoc, List.singleton_append] at hrest
    rw [← hrest]
    rfl

/-- Over the tokens of fields and the end of their object, a reader gets to the object. -/
theorem run_fields (stack : List Frame) (done : Fields) {fields : List (Text × Value)}
    (hne : fields ≠ []) (hfields : Value.everyField (Value.isReadable digits) fields = true)
    (hkeys : ((done ++ fields).map Prod.fst).Nodup)
    (hdepth : stack.length + 1 + Value.depthOfFields fields ≤ nesting) :
    (State.key done stack).run ⟨some nesting, some digits⟩
        (commaTokens (fieldTokens fields) ++ [.closeBrace]) =
      some (.after (.object (done ++ fields)) stack) := by
  match fields with
  | [] => exact absurd rfl hne
  | (key, value) :: rest =>
    obtain ⟨hvalue, hrest⟩ := Value.everyField_cons.1 hfields
    rw [Value.depthOfFields] at hdepth
    have hvalue := run_value (.fields done key :: stack) hvalue
      (by simp only [List.length_cons]; omega)
    have hput := Fields.put_of_not_mem (v := value) (Fields.not_mem_of_nodup hkeys)
    have hfield (behind : List Token) : (State.key done stack).run ⟨some nesting, some digits⟩
        (.text key :: .colon :: tokensOf value ++ behind) =
          (State.after value (.fields done key :: stack)).run ⟨some nesting, some digits⟩ behind := by
      rw [← Option.bind_some (f := fun s => State.run ⟨some nesting, some digits⟩ s behind), ← hvalue,
        ← State.run_append]
      rfl
    cases rest with
    | nil =>
      rw [fieldTokens, fieldTokens, commaTokens_singleton, hfield, ← hput]
      rfl
    | cons next rest =>
      have hsplit : done ++ (key, value) :: next :: rest = done.put key value ++ next :: rest := by
        rw [hput, List.append_assoc, List.singleton_append]
      rw [hsplit] at hkeys ⊢
      have hrest := run_fields stack (done.put key value) (List.cons_ne_nil next rest) hrest hkeys
        (by omega)
      rw [fieldTokens, fieldTokens, commaTokens_cons, List.append_assoc, hfield, ← hrest, fieldTokens]
      rfl

end

end Values

/-- The text of a value opens with an ASCII code point. -/
theorem exists_writeAt (indent depth : Nat) {v : Value} (hv : v.isFinite = true) :
    ∃ c rest, writeAt indent depth v = c :: rest ∧ c.val < 0x80 := by
  have hend : EndsNumber [] := trivial
  have hnumber : ∀ {t : Text} {result : Value × Text}, scanNumber t = some result →
      ∃ c rest, t = c :: rest ∧ c.val < 0x80 := by
    intro t result h
    obtain ⟨c, rest, rfl, hc | ⟨rfl, -⟩⟩ := opens_of_scanNumber h
    · have hdigit := val_of_asciiDigit? hc
      exact ⟨c, rest, rfl, by omega⟩
    · exact ⟨_, rest, rfl, by decide⟩
  have hblock : ∀ (opening closing : Text) (parts : List Text),
      (∃ c rest, opening = c :: rest ∧ c.val < 0x80) →
        ∃ c rest, writeBlock indent depth opening closing parts = c :: rest ∧ c.val < 0x80 := by
    rintro opening closing parts ⟨c, rest, rfl, hc⟩
    unfold writeBlock
    split <;> exact ⟨c, _, rfl, hc⟩
  cases v with
  | null => exact ⟨_, _, rfl, by decide⟩
  | bool b => cases b <;> exact ⟨_, _, rfl, by decide⟩
  | int n =>
    have h := scanNumber_ofInt n hend
    rw [List.append_nil] at h
    exact hnumber h
  | float x =>
    have h := scanNumber_text hv hend
    rw [List.append_nil] at h
    rw [writeAt, writeFloat_of_isFinite hv]
    exact hnumber h
  | text t => exact ⟨_, _, rfl, by decide⟩
  | list items => exact hblock _ _ _ ⟨_, _, rfl, by decide⟩
  | object fields => exact hblock _ _ _ ⟨_, _, rfl, by decide⟩

/-- A reader takes a written value as its tokens. -/
theorem exists_read_write (indent : Nat) {v : Value} (hv : v.every Value.isFinite = true) :
    ∃ ls : List Lexeme, ls.map (·.token) = tokensOf v ∧ read (write indent v) =
      ((State.value []).read .standard (write indent v).length (ls ++ [])).mapError
        (.ofRefusal (write indent v)) := by
  obtain ⟨ls, htokens, hscan⟩ := scans_writeAt indent 0 hv 0 [] trivial
  rw [List.append_nil] at hscan
  obtain ⟨c, rest, hopens, hc⟩ := exists_writeAt indent 0 (Value.every_root hv)
  have hmark : (write indent v).head? ≠ some (CodePoint.ofNat 0xFEFF) := by
    rw [write, hopens]
    rintro heq
    rw [Option.some.inj heq] at hc
    exact absurd hc (by decide)
  refine ⟨ls, htokens, ?_⟩
  rw [read, readWithin, if_neg hmark, lexemes, write, hscan]
  rfl

/-- What a reader makes of the tokens of a value is what it reads from the text of the value. -/
theorem read_write_of_run (indent : Nat) {v w : Value} (hv : v.every Value.isFinite = true)
    (h : (State.value []).run .standard (tokensOf v) = some (.after w [])) :
    read (write indent v) = .ok w := by
  obtain ⟨ls, htokens, hread⟩ := exists_read_write indent hv
  rw [← htokens] at h
  rcases State.read_append (State.value []) (write indent v).length ls [] with ⟨s, hrun, hend⟩ | ⟨hnone, -⟩
  · rw [hread, hend, Option.some.inj (hrun.symm.trans h)]
    rfl
  · cases hnone.symm.trans h

/-- If the tokens of a value lead a reader nowhere, the text of the value is refused. -/
theorem read_write_of_run_none (indent : Nat) {v : Value} (hv : v.every Value.isFinite = true)
    (h : (State.value []).run .standard (tokensOf v) = none) : ∃ e, read (write indent v) = .error e := by
  obtain ⟨ls, htokens, hread⟩ := exists_read_write indent hv
  rw [← htokens] at h
  rcases State.read_append (State.value []) (write indent v).length ls [] with ⟨s, hrun, -⟩ | ⟨-, e, hend⟩
  · cases hrun.symm.trans h
  · rw [hread, hend]
    exact ⟨_, rfl⟩

/-- What is readable is finite. -/
theorem isFinite_of_isReadable {digits : Nat} {v : Value} (h : v.isReadable digits = true) :
    v.isFinite = true := by
  cases v with
  | float x => exact h
  | _ => rfl

/--
A written value is read back, whatever the indentation: its numbers have to be finite, its integers
short, the keys of each of its objects distinct, and it must not be nested too deep.
-/
theorem read_write (indent : Nat) {v : Value}
    (hv : v.every (Value.isReadable maxIntegerDigits) = true) (hdepth : v.depth ≤ 988) :
    read (write indent v) = .ok v :=
  read_write_of_run indent (Value.every_mono (fun _ => isFinite_of_isReadable) hv)
    (run_value [] hv (by simpa using hdepth))

end Json

end PipelineGraph
