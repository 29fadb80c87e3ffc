import Mathlib.Data.List.Forall2
import PipelineGraph.Script.Block

/-!
# Settings can be used

Whatever a config holds, the settings read from it keep to the bounds that the templates of the roles
rely on, as long as the defaults keep to them. Each value in use comes from the entry under its own key
or from its own default; the overlap of chunks depends on the size of the chunks besides.
-/

namespace PipelineGraph

/-! ## Bounds -/

/-- A language model has a name and a finite temperature. -/
structure ModelSettings.Usable (s : ModelSettings) : Prop where
  model : s.model.all Text.isBlank = false
  temperature : s.temperature.isFinite = true

/-- Chunks are not empty, and each overlaps the next one by less than itself. -/
structure SplitterSettings.Usable (s : SplitterSettings) : Prop where
  chunkSize : 1 ≤ s.chunkSize
  overlap_nonneg : 0 ≤ s.chunkOverlap
  overlap_lt : s.chunkOverlap < s.chunkSize

/-- A vector store has a name and is asked for something. -/
structure StoreSettings.Usable (s : StoreSettings) : Prop where
  index : s.index.all Text.isBlank = false
  topK : 1 ≤ s.topK

/-- A mail has a subject. -/
structure EmailSettings.Usable (s : EmailSettings) : Prop where
  subject : s.subject.all Text.isBlank = false

/-- A message has a channel to go to. -/
structure ChannelSettings.Usable (s : ChannelSettings) : Prop where
  channel : s.channel.all Text.isBlank = false

/-- The settings of a node keep to the bounds of their kind. -/
def Settings.Usable : Settings → Prop
  | .model s => s.Usable
  | .splitter s => s.Usable
  | .store s => s.Usable
  | .channel s => s.Usable
  | .email s => s.Usable
  | .none => True

/-- Defaults that keep to the bounds of what they stand in for. -/
structure Defaults.Usable (d : Defaults) : Prop where
  model : d.model.all Text.isBlank = false
  temperature : d.temperature.isFinite = true
  chunkSize : 1 ≤ d.chunkSize
  vectorIndex : d.vectorIndex.all Text.isBlank = false
  topK : 1 ≤ d.topK
  channel : d.channel.all Text.isBlank = false
  subject : d.subject.all Text.isBlank = false

/-- The standard defaults can be used. -/
theorem Defaults.usable_standard : ({} : Defaults).Usable where
  model := by decide
  temperature := by decide +kernel
  chunkSize := by decide
  vectorIndex := by decide
  topK := by decide
  channel := by decide
  subject := by decide

/-- A text that is not to be blank is not, if its default is not. -/
theorem isBlank_textSetting {default : Text} (hdefault : default.all Text.isBlank = false)
    (entry : Option Value) : (textSetting entry default false).all Text.isBlank = false := by
  unfold textSetting textSetting?
  split
  · split
    · next t hused => simpa using hused
    · exact hdefault
  · exact hdefault

/-- The number of an entry is finite. -/
theorem isFinite_of_numberSetting? {entry : Option Value} {x : Binary64}
    (h : numberSetting? entry = some x) : x.isFinite = true := by
  unfold numberSetting? at h
  split at h
  · unfold Binary64.ofInt? Binary64.ofIntQuotient? Binary64.finite? at h
    split at h
    · next hfinite => exact Option.some.inj h ▸ hfinite
    · cases h
  · split at h
    · next hfinite => exact Option.some.inj h ▸ hfinite
    · cases h
  · exact (Option.filter_eq_some_iff.1 h).2
  · cases h

/-- A number is finite if its default is. -/
theorem isFinite_numberSetting {default : Binary64} (hdefault : default.isFinite = true)
    (entry : Option Value) : (numberSetting entry default).isFinite = true := by
  unfold numberSetting
  cases h : numberSetting? entry with
  | none => exact hdefault
  | some x => exact isFinite_of_numberSetting? h

/-- A count is at least its minimum if its default is. -/
theorem le_countSetting {default minimum : Int} (hdefault : minimum ≤ default) (entry : Option Value) :
    minimum ≤ countSetting entry default minimum := by
  unfold countSetting
  cases h : countSetting? entry minimum with
  | none => exact hdefault
  | some n => exact of_decide_eq_true (Option.filter_eq_some_iff.1 h).2

/-- An overlap that is no less than the chunk is reset. -/
theorem SplitterSettings.usable_ofConfig {d : Defaults} (hsize : 1 ≤ d.chunkSize) (config : Fields) :
    (SplitterSettings.ofConfig d config).Usable := by
  have hchunk := le_countSetting hsize (config.get? "chunkSize")
  have hoverlap := le_countSetting (Int.le_refl 0) (config.get? "chunkOverlap")
  unfold ofConfig
  generalize countSetting (config.get? "chunkSize") d.chunkSize 1 = size at *
  generalize countSetting (config.get? "chunkOverlap") 0 0 = overlap at *
  dsimp only
  split
  · exact ⟨hchunk, Int.le_refl 0, by simp only; omega⟩
  · exact ⟨hchunk, hoverlap, by simp only; omega⟩

/-- Settings keep to their bounds if the defaults do. -/
theorem Settings.usable_ofConfig {d : Defaults} (hd : d.Usable) (role : Role) (config : Fields) :
    (ofConfig d role config).Usable := by
  cases role with
  | llm => exact ⟨isBlank_textSetting hd.model _, isFinite_numberSetting hd.temperature _⟩
  | textSplitter => exact SplitterSettings.usable_ofConfig hd.chunkSize config
  | vectorStore => exact ⟨isBlank_textSetting hd.vectorIndex _, le_countSetting hd.topK _⟩
  | slack => exact ⟨isBlank_textSetting hd.channel _⟩
  | email => exact ⟨isBlank_textSetting hd.subject _⟩
  | _ => trivial

/-! ## Templates -/

namespace Script.BlockContext

/-- What the template of a role makes of settings, if they are of the kind that it reads. -/
def template? (c : BlockContext) : Role → Settings → Option Fragment
  | .chatInput, .none => some (c.trigger (.quoted []))
  | .webhook, .none => some (c.trigger .emptyTable)
  | .fileUpload, .none => some c.fileUpload
  | .trigger, .none => some (c.trigger .nothing)
  | .llm, .model s => some (c.llm s)
  | .textSplitter, .splitter s => some (c.textSplitter s)
  | .webScraper, .none => some c.webScraper
  | .imageGeneration, .none =>
    some (c.runTool "langchain_community.utilities.dalle_image_generator" "DallEAPIWrapper")
  | .transcription, .none => some c.transcription
  | .codeInterpreter, .none => some (c.runTool "langchain_experimental.utilities" "PythonREPL")
  | .processing, .none => some c.processing
  | .vectorStore, .store s => some (c.vectorStore s)
  | .router, .none => some c.router
  | .email, .email s => some (c.email s)
  | .slack, .channel s => some (c.slack s)
  | .action, .none => some c.action
  | _, _ => none

variable (c : BlockContext) (d : Defaults)

/-- The template of a role reads the settings of the role. -/
theorem isSome_template? (role : Role) (config : Fields) :
    (c.template? role (.ofConfig d role config)).isSome = true := by
  cases role <;> rfl

/-- The block of a node is what the template of its role makes of its settings. -/
theorem template?_settings : c.template? c.node.role (c.node.settings d) = some (c.fragment d) := by
  unfold Node.settings fragment
  cases c.node.role <;> rfl

end Script.BlockContext

/-! ## What a value in use depends on -/

/-- The defaults under the keys of the entries for which they stand in. -/
def Defaults.entries (d : Defaults) : Fields :=
  [("model", .text d.model), ("temperature", .float d.temperature), ("systemPrompt", .text []),
    ("chunkSize", .int d.chunkSize), ("chunkOverlap", .int 0), ("index", .text d.vectorIndex),
    ("topK", .int d.topK), ("channel", .text d.channel), ("to", .text []),
    ("subject", .text d.subject)]

/-- Fields of the same keys have the same value under a key if it is the same wherever the key stands. -/
theorem Fields.get?_congr {fields others : Fields} {key : Text}
    (h : List.Forall₂ (fun x y => x.1 = y.1 ∧ (x.1 = key → x.2 = y.2)) fields others) :
    fields.get? key = others.get? key := by
  induction h with
  | nil => rfl
  | @cons x y fields others hxy _ ih =>
    obtain ⟨k, v⟩ := x
    obtain ⟨k', v'⟩ := y
    obtain ⟨rfl, hvalue⟩ : k = k' ∧ (k = key → v = v') := hxy
    simp only [get?, List.lookup_cons] at ih ⊢
    by_cases hkey : k = key
    · rw [hvalue hkey, ih]
    · have hne : (key == k) = false := by simpa using fun heq => hkey heq.symm
      simp only [hne, ih]

section Dependence

variable {entry entry' : Option Value}

/-- A text in use is told by its entry and its default. -/
theorem textSetting_congr {t t' : Text} (hentry : entry = entry')
    (hdefault : some (Value.text t) = some (.text t')) (allowBlank : Bool) :
    Value.text (textSetting entry t allowBlank) = .text (textSetting entry' t' allowBlank) := by
  simp only [Option.some.injEq, Value.text.injEq] at hdefault
  rw [hentry, hdefault]

/-- A number in use is told by its entry and its default. -/
theorem numberSetting_congr {x x' : Binary64} (hentry : entry = entry')
    (hdefault : some (Value.float x) = some (.float x')) :
    Value.float (numberSetting entry x) = .float (numberSetting entry' x') := by
  simp only [Option.some.injEq, Value.float.injEq] at hdefault
  rw [hentry, hdefault]

/-- A count in use is told by its entry and its default. -/
theorem countSetting_congr {n n' : Int} (hentry : entry = entry')
    (hdefault : some (Value.int n) = some (.int n')) (minimum : Int) :
    Value.int (countSetting entry n minimum) = .int (countSetting entry' n' minimum) := by
  simp only [Option.some.injEq, Value.int.injEq] at hdefault
  rw [hentry, hdefault]

variable {d d' : Defaults} {config config' : Fields} {key : Text}

/-- An overlap in use is told by its entry and the size of the chunks. -/
theorem SplitterSettings.overlap_congr
    (hentry : config.get? "chunkOverlap" = config'.get? "chunkOverlap")
    (hsize : (ofConfig d config).chunkSize = (ofConfig d' config').chunkSize) :
    (ofConfig d config).chunkOverlap = (ofConfig d' config').chunkOverlap := by
  simp only [ofConfig] at hsize ⊢
  rw [hentry, hsize]

/-- A value in use is told by the entry and the default under its key, an overlap by the size besides. -/
theorem Settings.get?_entries_congr (role : Role) (hentry : config.get? key = config'.get? key)
    (hdefault : d.entries.get? key = d'.entries.get? key)
    (hsize : key = "chunkOverlap" → (ofConfig d role config).entries.get? "chunkSize" =
      (ofConfig d' role config').entries.get? "chunkSize") :
    (ofConfig d role config).entries.get? key = (ofConfig d' role config').entries.get? key := by
  cases role with
  | llm =>
    refine Fields.get?_congr (.cons ⟨rfl, ?_⟩ (.cons ⟨rfl, ?_⟩ (.cons ⟨rfl, ?_⟩ .nil)))
    · rintro rfl
      exact textSetting_congr hentry hdefault false
    · rintro rfl
      exact numberSetting_congr hentry hdefault
    · rintro rfl
      exact textSetting_congr hentry hdefault true
  | textSplitter =>
    refine Fields.get?_congr (.cons ⟨rfl, ?_⟩ (.cons ⟨rfl, ?_⟩ .nil))
    · rintro rfl
      exact countSetting_congr hentry hdefault 1
    · rintro rfl
      have hchunk : some (Value.int (SplitterSettings.ofConfig d config).chunkSize) =
          some (.int (SplitterSettings.ofConfig d' config').chunkSize) := hsize rfl
      simp only [Option.some.injEq, Value.int.injEq] at hchunk
      exact congrArg Value.int (SplitterSettings.overlap_congr hentry hchunk)
  | vectorStore =>
    refine Fields.get?_congr (.cons ⟨rfl, ?_⟩ (.cons ⟨rfl, ?_⟩ .nil))
    · rintro rfl
      exact textSetting_congr hentry hdefault false
    · rintro rfl
      exact countSetting_congr hentry hdefault 1
  | slack =>
    refine Fields.get?_congr (.cons ⟨rfl, ?_⟩ .nil)
    rintro rfl
    exact textSetting_congr hentry hdefault false
  | email =>
    refine Fields.get?_congr (.cons ⟨rfl, ?_⟩ (.cons ⟨rfl, ?_⟩ .nil))
    · rintro rfl
      exact textSetting_congr hentry hdefault true
    · rintro rfl
      exact textSetting_congr hentry hdefault false
  | _ => rfl

end Dependence

/--
Settings can always be used, whatever the config holds: they are of the kind that the template of the
role reads, which is what a script is made from, and keep to their bounds if the defaults do. A value in
use does not change with other entries or other defaults than its own; only an overlap changes with the
size of the chunks.
-/
theorem Settings.always_usable {d : Defaults} (hd : d.Usable) (role : Role) (config : Fields) :
    (ofConfig d role config).Usable ∧
      (∀ c : Script.BlockContext, (c.template? role (ofConfig d role config)).isSome = true) ∧
      (∀ c : Script.BlockContext, c.node.role = role → c.node.config = config →
        c.template? role (ofConfig d role config) = some (c.fragment d)) ∧
      ∀ (d' : Defaults) (config' : Fields) (key : Text), config.get? key = config'.get? key →
        d.entries.get? key = d'.entries.get? key →
        (key = "chunkOverlap" → (ofConfig d role config).entries.get? "chunkSize" =
          (ofConfig d' role config').entries.get? "chunkSize") →
        (ofConfig d role config).entries.get? key = (ofConfig d' role config').entries.get? key := by
  refine ⟨usable_ofConfig hd role config, fun c => c.isSome_template? d role config, ?_,
    fun d' config' key => get?_entries_congr role⟩
  rintro c rfl rfl
  exact c.template?_settings d

/--
A size beyond all numbers falls back, and an overlap in digits of another script does not; another size
that falls back leaves the overlap as it is.
-/
theorem Settings.always_usable_fallback :
    let config : Fields := [("chunkSize", .int (Nat.pow 10 400)), ("chunkOverlap", .text "٣٠")]
    let other : Fields := [("chunkSize", .text "many"), ("chunkOverlap", .text "٣٠")]
    ({} : Defaults).Usable ∧ (ofConfig {} .textSplitter config).Usable ∧
      (ofConfig {} .textSplitter config).entries.get? "chunkSize" = some (.int 1000) ∧
      (ofConfig {} .textSplitter config).entries.get? "chunkOverlap" = some (.int 30) ∧
      (ofConfig {} .textSplitter config).entries.get? "chunkOverlap" =
        (ofConfig {} .textSplitter other).entries.get? "chunkOverlap" := by
  intro config other
  have hused := Settings.always_usable Defaults.usable_standard .textSplitter config
  have hsize : countSetting (config.get? "chunkSize") ({} : Defaults).chunkSize 1 = 1000 := by
    decide +kernel
  have hother : countSetting (other.get? "chunkSize") ({} : Defaults).chunkSize 1 = 1000 := by
    decide +kernel
  have hoverlap : countSetting (config.get? "chunkOverlap") 0 0 = 30 := by decide +kernel
  have hsettings : ofConfig {} .textSplitter config = .splitter ⟨1000, 30⟩ := by
    simp only [ofConfig, SplitterSettings.ofConfig, hsize, hoverlap]
    rfl
  have hotherSize : (ofConfig {} .textSplitter other).entries.get? "chunkSize" = some (.int 1000) := by
    simp only [ofConfig, SplitterSettings.ofConfig, hother]
    rfl
  have hsame := hused.2.2.2 {} other "chunkOverlap" rfl rfl fun _ => by rw [hotherSize, hsettings]; rfl
  refine ⟨Defaults.usable_standard, hused.1, ?_, ?_, hsame⟩
  · rw [hsettings]
    rfl
  · rw [hsettings]
    rfl

end PipelineGraph
