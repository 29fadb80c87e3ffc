import Mathlib.Data.List.Nodup
import PipelineGraph.Proofs.Settings.Counts
import PipelineGraph.Proofs.Settings.Usability

/-!
# Reports of entries that are not used

The notes about settings are made by comparison: an entry is reported if it differs from the value in use.
They come in the order of the keys of the role, once each. But an entry can differ from the value that it
gives, and it can equal a default without giving it. The first is so for numerals as texts and for integers
that are no numbers, the second for truth values that count as the default, and for nothing else if the
defaults can be used.
-/

namespace PipelineGraph

/-! ## What is read -/

/-- What a role makes of an entry: the value that the entry gives, if there is one, and the default. -/
structure Reading where
  key : Text
  given : Option Value
  default : Value

/-- The value in use. -/
def Reading.used (r : Reading) : Value :=
  r.given.getD r.default

/-- What a role makes of its entries, in the order of its keys. -/
def Settings.readings (d : Defaults) (config : Fields) : Role → List Reading
  | .llm =>
    [⟨"model", (textSetting? (config.get? "model") false).map .text, .text d.model⟩,
      ⟨"temperature", (numberSetting? (config.get? "temperature")).map .float, .float d.temperature⟩,
      ⟨"systemPrompt", (textSetting? (config.get? "systemPrompt") true).map .text, .text []⟩]
  | .textSplitter =>
    let size := countSetting (config.get? "chunkSize") d.chunkSize 1
    [⟨"chunkSize", (countSetting? (config.get? "chunkSize") 1).map .int, .int d.chunkSize⟩,
      ⟨"chunkOverlap", ((countSetting? (config.get? "chunkOverlap") 0).filter (· < size)).map .int, .int 0⟩]
  | .vectorStore =>
    [⟨"index", (textSetting? (config.get? "index") false).map .text, .text d.vectorIndex⟩,
      ⟨"topK", (countSetting? (config.get? "topK") 1).map .int, .int d.topK⟩]
  | .slack => [⟨"channel", (textSetting? (config.get? "channel") false).map .text, .text d.channel⟩]
  | .email =>
    [⟨"to", (textSetting? (config.get? "to") true).map .text, .text []⟩,
      ⟨"subject", (textSetting? (config.get? "subject") false).map .text, .text d.subject⟩]
  | _ => []

/-- An overlap that is no less than a chunk gives nothing, as one that cannot be read. -/
theorem SplitterSettings.chunkOverlap_ofConfig (d : Defaults) (config : Fields) :
    (ofConfig d config).chunkOverlap = ((countSetting? (config.get? "chunkOverlap") 0).filter
      (· < countSetting (config.get? "chunkSize") d.chunkSize 1)).getD 0 := by
  unfold ofConfig
  generalize countSetting (config.get? "chunkSize") d.chunkSize 1 = size
  rw [countSetting]
  cases countSetting? (config.get? "chunkOverlap") 0 with
  | none => exact ite_self 0
  | some overlap =>
    by_cases hle : size ≤ overlap
    · simp [Option.filter, hle, Int.not_lt.2 hle]
    · simp [Option.filter, hle, Int.not_le.1 hle]

/-- The settings of a role are the values in use. -/
theorem Settings.entries_ofConfig (d : Defaults) (role : Role) (config : Fields) :
    (ofConfig d role config).entries = (readings d config role).map fun r => (r.key, r.used) := by
  have htext : ∀ entry default allowBlank, Value.text (textSetting entry default allowBlank) =
      ((textSetting? entry allowBlank).map .text).getD (.text default) := by
    intro entry default allowBlank
    rw [textSetting]
    cases textSetting? entry allowBlank <;> rfl
  have hnumber : ∀ entry default, Value.float (numberSetting entry default) =
      ((numberSetting? entry).map .float).getD (.float default) := by
    intro entry default
    rw [numberSetting]
    cases numberSetting? entry <;> rfl
  have hcount : ∀ entry default minimum, Value.int (countSetting entry default minimum) =
      ((countSetting? entry minimum).map .int).getD (.int default) := by
    intro entry default minimum
    rw [countSetting]
    cases countSetting? entry minimum <;> rfl
  cases role with
  | llm => simp [ofConfig, entries, readings, Reading.used, ModelSettings.ofConfig, htext, hnumber]
  | textSplitter =>
    have hoverlap := congrArg Value.int (SplitterSettings.chunkOverlap_ofConfig d config)
    have hfiltered : ∀ o : Option Int, Value.int (o.getD 0) = (o.map .int).getD (.int 0) := fun o => by
      cases o <;> rfl
    simp only [ofConfig, entries, hoverlap, hfiltered]
    simp [readings, Reading.used, SplitterSettings.ofConfig, hcount]
  | vectorStore => simp [ofConfig, entries, readings, Reading.used, StoreSettings.ofConfig, htext, hcount]
  | slack => simp [ofConfig, entries, readings, Reading.used, ChannelSettings.ofConfig, htext]
  | email => simp [ofConfig, entries, readings, Reading.used, EmailSettings.ofConfig, htext]
  | _ => rfl

/-! ## Notes in order -/

/-- The entries of a node that are reported, by their keys and with the values in use. -/
def Node.reported (n : Node) (settings : Settings) : Fields :=
  settings.entries.filter fun (key, used) => (n.config.get? key).any fun entry => !entry.equalsUsed used

/-- The notes about settings are those of the entries that are reported. -/
theorem Node.settingsNotes_eq (n : Node) (settings : Settings) :
    n.settingsNotes settings = (n.reported settings).map fun (key, used) =>
      n.unusedNote key ((n.config.get? key).getD .null) used := by
  unfold settingsNotes reported
  rw [← List.filterMap_eq_map, List.filterMap_filter]
  refine congrArg (settings.entries.filterMap ·) (funext fun (key, used) => ?_)
  dsimp only [Function.comp_apply]
  split
  · next entry hentry => cases hequal : entry.equalsUsed used <;> simp [hentry, hequal]
  · next hentry => simp [hentry]

/-- No role reads two entries under one key. -/
theorem Settings.nodup_keys (settings : Settings) : (settings.entries.map Prod.fst).Nodup := by
  cases settings <;> exact of_decide_eq_true rfl

/-- None of the notes is about the key of another one. -/
theorem Node.nodup_reported_keys (n : Node) (settings : Settings) :
    ((n.reported settings).map Prod.fst).Nodup :=
  (List.filter_sublist.map Prod.fst).nodup settings.nodup_keys

/-- An entry is reported if it is there and differs from the value in use. -/
theorem Node.mem_reported {n : Node} {settings : Settings} {e : Text × Value} :
    e ∈ n.reported settings ↔ e ∈ settings.entries ∧
      ∃ entry, n.config.get? e.1 = some entry ∧ entry.equalsUsed e.2 = false := by
  obtain ⟨key, used⟩ := e
  simp [reported, Option.any_eq_true]

/-! ## What is reported -/

/-- An entry that is used in another form: a numeral as a text, or an integer that is no number. -/
def Value.IsRecast : (entry used : Value) → Prop
  | .text t, used => used ≠ .text t
  | .int n, _ => ¬ Binary64.IsExact n
  | _, _ => False

/-- A truth value that counts as a default. -/
def Value.IsTruthOf : (entry default : Value) → Prop
  | .bool b, .int n => truthInt b = n
  | .bool b, .float y => y.toInt? = some (truthInt b)
  | _, _ => False

/--
Whether an entry is reported: if it gives a value, only if it is used in another form, and if it gives none,
unless it is a truth value that counts as the default.
-/
def Reading.Reports (r : Reading) (entry : Value) : Prop :=
  match r.given with
  | some used => entry.IsRecast used
  | none => ¬ entry.IsTruthOf r.default

/-- A number that an entry gives is the entry. -/
theorem numberSetting?_float {x y : Binary64} (h : numberSetting? (some (.float y)) = some x) :
    y.isFinite = true ∧ y = x := by
  simpa [numberSetting?] using h

/-- A count is the integer that an entry is read as, if that reaches the minimum. -/
theorem countSetting?_eq_some {entry : Option Value} {minimum m : Int} :
    countSetting? entry minimum = some m ↔
      ∃ x, numberSetting? entry = some x ∧ x.toInt? = some m ∧ minimum ≤ m := by
  rw [countSetting?, Option.filter_eq_some_iff, Option.bind_eq_some_iff, decide_eq_true_eq]
  simp only [← exists_and_right, and_assoc]

/-- Where a default stands in, an entry is reported as long as no other entry than a truth value equals it. -/
theorem reports_of_default {entry default : Value}
    (h : (∀ b, entry ≠ .bool b) → entry.equalsUsed default = false) :
    entry.equalsUsed default = false ↔ ¬ entry.IsTruthOf default := by
  cases entry with
  | bool b => cases default <;> simp [Value.equalsUsed, Value.IsTruthOf]
  | _ => exact iff_of_true (h (by simp)) (by simp [Value.IsTruthOf])

section Reports

variable {config : Fields} {key : Text} {entry : Value}

/-- A text that an entry gives is not reported. -/
theorem reports_text (hentry : config.get? key = some entry) {default : Text} {allowBlank : Bool}
    (hdefault : allowBlank = true ∨ default.all Text.isBlank = false) :
    let r : Reading := ⟨key, (textSetting? (config.get? key) allowBlank).map .text, .text default⟩
    entry.equalsUsed r.used = false ↔ r.Reports entry := by
  rw [hentry]
  intro r
  cases hgiven : textSetting? (some entry) allowBlank with
  | none =>
    simp only [r, hgiven, Reading.used, Reading.Reports, Option.map_none, Option.getD_none]
    refine reports_of_default fun _ => ?_
    cases entry with
    | text t =>
      -- A text that is not used is blank, where the default must not be.
      have hblank : ¬ (allowBlank || !t.all Text.isBlank) = true := by
        intro hused
        rw [textSetting?, if_pos hused] at hgiven
        cases hgiven
      have hne : t ≠ default := by
        rintro rfl
        rcases hdefault with rfl | hdefault <;> simp_all
      exact decide_eq_false hne
    | _ => rfl
  | some t =>
    obtain rfl : entry = .text t := by
      unfold textSetting? at hgiven
      split at hgiven
      · next heq =>
        split at hgiven
        · rw [Option.some.inj heq, Option.some.inj hgiven]
        · cases hgiven
      · cases hgiven
    simp [r, hgiven, Reading.used, Reading.Reports, Value.equalsUsed, Value.IsRecast]

/-- A number that an entry gives is reported if it stands in a text or is not the integer of the entry. -/
theorem reports_number (hentry : config.get? key = some entry) {default : Binary64}
    (hdefault : default.isFinite = true) :
    let r : Reading := ⟨key, (numberSetting? (config.get? key)).map .float, .float default⟩
    entry.equalsUsed r.used = false ↔ r.Reports entry := by
  rw [hentry]
  intro r
  cases hgiven : numberSetting? (some entry) with
  | none =>
    simp only [r, hgiven, Reading.used, Reading.Reports, Option.map_none, Option.getD_none]
    refine reports_of_default fun hbool => ?_
    cases entry with
    | bool b => exact absurd rfl (hbool b)
    | int n =>
      refine decide_eq_false fun hvalue => ?_
      obtain ⟨x, hx, -⟩ := Binary64.IsExact.ofInt? ⟨default, hvalue⟩
      rw [show numberSetting? (some (.int n)) = Binary64.ofInt? n from rfl, hx] at hgiven
      cases hgiven
    | float x =>
      rw [Value.equalsUsed, ← Bool.not_eq_true]
      intro hequal
      rw [show numberSetting? (some (.float x)) = x.finite? from rfl, Binary64.finite?,
        if_pos (Binary64.isFinite_of_numEq hequal hdefault)] at hgiven
      cases hgiven
    | _ => rfl
  | some x =>
    simp only [r, hgiven, Reading.used, Reading.Reports, Option.map_some, Option.getD_some]
    cases entry with
    | int n =>
      change decide (x.toInt? = some n) = false ↔ ¬ Binary64.IsExact n
      rw [decide_eq_false_iff_not, Binary64.toInt?_of_ofInt? hgiven]
    | float y =>
      obtain ⟨hfinite, rfl⟩ := numberSetting?_float hgiven
      rw [Value.equalsUsed, Binary64.numEq_self hfinite]
      exact iff_of_false Bool.noConfusion id
    | text t => exact iff_of_true rfl (by simp [Value.IsRecast])
    | _ => cases hgiven

/--
A count that an entry gives is reported if it stands in a text or is not the integer of the entry. A count
can be refused for any reason that holds against the integer it is read as, but not against the default.
-/
theorem reports_count (hentry : config.get? key = some entry) {given : Option Int} {p : Int → Prop}
    {default : Int}
    (hgiven : ∀ m, given = some m ↔ ∃ x, numberSetting? (config.get? key) = some x ∧ x.toInt? = some m ∧ p m)
    (hexact : Binary64.IsExact default) (hp : p default) :
    let r : Reading := ⟨key, given.map .int, .int default⟩
    entry.equalsUsed r.used = false ↔ r.Reports entry := by
  rw [hentry] at hgiven
  intro r
  cases given with
  | none =>
    have hunread : ∀ x, numberSetting? (some entry) = some x → x.toInt? ≠ some default := by
      intro x hx hvalue
      cases (hgiven default).2 ⟨x, hx, hvalue, hp⟩
    refine reports_of_default fun hbool => ?_
    cases entry with
    | bool b => exact absurd rfl (hbool b)
    | int n =>
      refine decide_eq_false ?_
      rintro rfl
      obtain ⟨x, hx, hvalue⟩ := hexact.ofInt?
      exact hunread x hx hvalue
    | float x =>
      refine decide_eq_false fun hvalue => hunread x ?_ hvalue
      exact if_pos (Binary64.isFinite_of_toInt? hvalue)
    | _ => rfl
  | some m =>
    obtain ⟨x, hx, hm, -⟩ := (hgiven m).1 rfl
    change entry.equalsUsed (.int m) = false ↔ entry.IsRecast (.int m)
    cases entry with
    | int n =>
      change decide (n = m) = false ↔ ¬ Binary64.IsExact n
      rw [decide_eq_false_iff_not, ← Binary64.toInt?_of_ofInt? hx, hm, Option.some.injEq, eq_comm]
    | float y =>
      obtain ⟨-, rfl⟩ := numberSetting?_float hx
      rw [Value.equalsUsed, hm, decide_eq_true rfl]
      exact iff_of_false Bool.noConfusion id
    | text t => exact iff_of_true rfl (by simp [Value.IsRecast])
    | _ => cases hx

end Reports

/-- What a role makes of an entry tells whether it is reported. -/
theorem Settings.reports_of_mem {d : Defaults} (hd : d.Usable) (hsize : Binary64.IsExact d.chunkSize)
    (htop : Binary64.IsExact d.topK) {config : Fields} {role : Role} {r : Reading}
    (hr : r ∈ readings d config role) {entry : Value} (hentry : config.get? r.key = some entry) :
    entry.equalsUsed r.used = false ↔ r.Reports entry := by
  cases role with
  | llm =>
    simp only [readings, List.mem_cons, List.not_mem_nil, or_false] at hr
    rcases hr with rfl | rfl | rfl
    · exact reports_text hentry (Or.inr hd.model)
    · exact reports_number hentry hd.temperature
    · exact reports_text hentry (Or.inl rfl)
  | textSplitter =>
    simp only [readings, List.mem_cons, List.not_mem_nil, or_false] at hr
    rcases hr with rfl | rfl
    · exact reports_count hentry (fun m => countSetting?_eq_some) hsize hd.chunkSize
    · have hchunk := le_countSetting hd.chunkSize (config.get? "chunkSize")
      have hzero : Binary64.IsExact 0 := Binary64.isExact_of_natAbs_le (Nat.zero_le _)
      generalize countSetting (config.get? "chunkSize") d.chunkSize 1 = size at hchunk ⊢
      refine reports_count hentry (p := fun m => 0 ≤ m ∧ m < size) (fun m => ?_) hzero
        ⟨Int.le_refl 0, hchunk⟩
      simp only [Option.filter_eq_some_iff, countSetting?_eq_some, decide_eq_true_eq,
        ← exists_and_right, and_assoc]
  | vectorStore =>
    simp only [readings, List.mem_cons, List.not_mem_nil, or_false] at hr
    rcases hr with rfl | rfl
    · exact reports_text hentry (Or.inr hd.vectorIndex)
    · exact reports_count hentry (fun m => countSetting?_eq_some) htop hd.topK
  | slack =>
    obtain rfl := List.mem_singleton.1 hr
    exact reports_text hentry (Or.inr hd.channel)
  | email =>
    simp only [readings, List.mem_cons, List.not_mem_nil, or_false] at hr
    rcases hr with rfl | rfl
    · exact reports_text hentry (Or.inl rfl)
    · exact reports_text hentry (Or.inr hd.subject)
  | _ => cases hr

/--
The notes about the settings of a node are those of the entries that are reported, which are entries that the
role reads, in the order of the role and none of them twice. An entry that is not there is not reported;
what the role makes of an entry tells whether it is.
-/
theorem Node.settingsNotes_exact {d : Defaults} (hd : d.Usable) (hsize : Binary64.IsExact d.chunkSize)
    (htop : Binary64.IsExact d.topK) (n : Node) (role : Role) :
    let settings := Settings.ofConfig d role n.config
    let readings := Settings.readings d n.config role
    (n.settingsNotes settings = (n.reported settings).map fun (key, used) =>
        n.unusedNote key ((n.config.get? key).getD .null) used) ∧
      (n.reported settings).Sublist (readings.map fun r => (r.key, r.used)) ∧
      ((n.reported settings).map Prod.fst).Nodup ∧
      ∀ r ∈ readings, (r.key, r.used) ∈ n.reported settings ↔
        ∃ entry, n.config.get? r.key = some entry ∧ r.Reports entry := by
  intro settings readings
  have hentries : settings.entries = readings.map fun r => (r.key, r.used) :=
    Settings.entries_ofConfig d role n.config
  refine ⟨n.settingsNotes_eq settings, hentries ▸ List.filter_sublist, n.nodup_reported_keys settings, ?_⟩
  intro r hr
  rw [mem_reported, hentries, and_iff_right (List.mem_map_of_mem hr)]
  refine exists_congr fun entry => and_congr_right fun hentry => ?_
  exact Settings.reports_of_mem hd hsize htop hr hentry

/-- A size in use is reported as one that is not, and an overlap that is not in use is not reported. -/
theorem Node.settingsNotes_misled :
    let n : Node := ⟨"s", .processing, "Text Splitter",
      [("chunkSize", .text "500"), ("chunkOverlap", .bool false)], .origin⟩
    Settings.readings {} n.config n.role =
        [⟨"chunkSize", some (.int 500), .int 1000⟩, ⟨"chunkOverlap", none, .int 0⟩] ∧
      n.settingsNotes (n.settings {}) = [n.unusedNote "chunkSize" (.text "500") (.int 500)] := by
  intro n
  have hrole : n.role = .textSplitter := by decide
  have hsize : countSetting? (n.config.get? "chunkSize") 1 = some 500 := by decide +kernel
  have hoverlap : countSetting? (n.config.get? "chunkOverlap") 0 = none := rfl
  have hreadings : Settings.readings {} n.config .textSplitter =
      [⟨"chunkSize", some (.int 500), .int 1000⟩, ⟨"chunkOverlap", none, .int 0⟩] := by
    simp only [Settings.readings, hsize, hoverlap]
    rfl
  refine ⟨hrole ▸ hreadings, ?_⟩
  rw [Node.settingsNotes, Node.settings, hrole, Settings.entries_ofConfig, hreadings]
  rfl

end PipelineGraph
