import Mathlib.Data.List.Chain
import Mathlib.Logic.Function.Basic
import Mathlib.Tactic.Tauto
import PipelineGraph.Simulation.Machine

/-!
# The history of a machine

The history of a machine is enough to tell its state: replayed from the first values, it gives the
present ones, and no record contradicts the values before it. The statuses that it records are a path
along their successors. A request that is not allowed leaves no trace at all. Who watches the
machine sees its history, and makes no difference to it.
-/

namespace PipelineGraph.Simulation

/-! ## Replaying changes -/

/-- The values of the fields after changes, if the field of each change had the change's old value
just before it. -/
def replay? (values : StateField → Option Text) : List Change → Option (StateField → Option Text)
  | [] => some values
  | c :: rest =>
    if values c.field = c.old then replay? (Function.update values c.field c.new) rest else none

/-- Changes in two parts are replayed one part after the other. -/
theorem replay?_append (values : StateField → Option Text) (before after : List Change) :
    replay? values (before ++ after) = (replay? values before).bind fun values => replay? values after := by
  induction before generalizing values with
  | nil => rfl
  | cons c rest ih =>
    simp only [List.cons_append, replay?]
    split
    · exact ih _
    · rfl

namespace RunStatus

/-- The changes of the status that lead from one status through others. -/
def changes : RunStatus → List RunStatus → List Change
  | _, [] => []
  | source, target :: rest => ⟨.status, some source.name, some target.name⟩ :: changes target rest

/-- The last step of a path is the last change. -/
theorem changes_concat (source : RunStatus) (path : List RunStatus) (target : RunStatus) :
    changes source (path ++ [target]) =
      changes source path ++ [⟨.status, some ((source :: path).getLast (List.cons_ne_nil _ _)).name,
        some target.name⟩] := by
  induction path generalizing source with
  | nil => rfl
  | cons next rest ih =>
    simp only [List.cons_append, changes, ih, List.getLast_cons (List.cons_ne_nil _ _)]

/-- Along successors, a run begins behind each status without a run, and ends behind it. -/
theorem running_iff_of_isChain {source : RunStatus} {path : List RunStatus}
    (h : (source :: path).IsChain fun a b => b ∈ a.successors) (i : ℕ) (status : RunStatus)
    (hi : path[i]? = some status) : status = .running ↔ (i % 2 = 0 ↔ source ≠ .running) := by
  induction path generalizing source i with
  | nil => cases hi
  | cons next rest ih =>
    obtain ⟨hnext, hrest⟩ := List.isChain_cons_cons.1 h
    have hturn : next = .running ↔ source ≠ .running := by
      revert hnext
      cases source <;> cases next <;> decide
    cases i with
    | zero =>
      cases hi
      simpa using hturn
    | succ i =>
      have hparity : (i + 1) % 2 = 0 ↔ ¬i % 2 = 0 := by omega
      rw [ih hrest i hi, hparity]
      tauto

end RunStatus

/-! ## What a history tells -/

namespace Machine

/-- The values of the fields of a machine. -/
def value (m : Machine) : StateField → Option Text
  | .status => some m.status.name
  | .active => m.active

/-- The changes of a machine's status. -/
def statusHistory (m : Machine) : List Change :=
  m.history.filter (·.field = .status)

/-- The history of a machine tells how it came to its state. -/
structure IsRecorded (m : Machine) : Prop where
  replays : replay? (value {}) m.history = some m.value
  path : ∃ path : List RunStatus, m.statusHistory = RunStatus.changes .idle path ∧
    (RunStatus.idle :: path).IsChain (fun a b => b ∈ a.successors) ∧
    (RunStatus.idle :: path).getLast (List.cons_ne_nil _ _) = m.status

/-- The history of a new machine is empty. -/
theorem isRecorded_new : IsRecorded {} where
  replays := rfl
  path := ⟨[], rfl, List.isChain_singleton _, rfl⟩

variable {m m' : Machine} {c : Change}

/-- A change of a machine is recorded behind all others. -/
theorem replays_concat (h : replay? (value {}) m.history = some m.value) (hold : m.value c.field = c.old)
    (hhistory : m'.history = m.history ++ [c]) (hvalue : Function.update m.value c.field c.new = m'.value) :
    replay? (value {}) m'.history = some m'.value := by
  rw [hhistory, replay?_append, h, Option.bind_some, replay?, if_pos hold, replay?, hvalue]

/-- An allowed status is recorded. -/
theorem IsRecorded.transition (h : m.IsRecorded) {target : RunStatus} (ht : m.transition target = .ok (c, m')) :
    m'.IsRecorded := by
  unfold Machine.transition at ht
  split at ht
  · next hallows =>
    cases ht
    refine ⟨replays_concat h.replays rfl rfl (funext fun field => by cases field <;> rfl), ?_⟩
    obtain ⟨path, hpath, hchain, hlast⟩ := h.path
    refine ⟨path ++ [target], ?_, ?_, ?_⟩
    · rw [RunStatus.changes_concat, hlast, ← hpath]
      simp [statusHistory]
    · rw [← List.cons_append]
      refine hchain.append (List.isChain_singleton _) ?_
      intro a ha b hb
      rw [List.getLast?_eq_some_getLast (List.cons_ne_nil _ _), hlast] at ha
      cases ha
      cases hb
      exact of_decide_eq_true hallows
    · simp
  · cases ht

/-- The active node is recorded. -/
theorem IsRecorded.setActive (h : m.IsRecorded) (id : Option Text) : (m.setActive id).2.IsRecorded where
  replays := replays_concat h.replays rfl rfl (funext fun field => by cases field <;> rfl)
  path := by
    obtain ⟨path, hpath, hrest⟩ := h.path
    refine ⟨path, ?_, hrest⟩
    rw [← hpath]
    simp [statusHistory, Machine.setActive]

end Machine

/-! ## Requests -/

/-- What may be asked of a machine. -/
inductive Request where
  | transition (target : RunStatus)
  | setActive (id : Option Text)

/-- What a watcher sees of changes. -/
def Watcher.view : Watcher → List Change → List Change
  | .nobody, _ => []
  | .somebody _, changes => changes

namespace WatchedMachine

/-- Ask for a change: whether it was made, and the machine behind it. -/
def ask (w : WatchedMachine) : Request → Except TransitionError Unit × WatchedMachine
  | .transition target =>
    match w.transition target with
    | .ok w' => (.ok (), w')
    | .error e => (.error e, w)
  | .setActive id => (.ok (), w.setActive id)

/-- Ask for changes, one after another. -/
def askAll (w : WatchedMachine) : List Request → List (Except TransitionError Unit) × WatchedMachine
  | [] => ([], w)
  | r :: rest => ((w.ask r).1 :: ((w.ask r).2.askAll rest).1, ((w.ask r).2.askAll rest).2)

/-- What holds at first and behind each request holds behind any number of them. -/
theorem askAll_induction {P : WatchedMachine → Prop} (hask : ∀ w r, P w → P (w.ask r).2) {w : WatchedMachine}
    (h : P w) (requests : List Request) : P (w.askAll requests).2 := by
  induction requests generalizing w with
  | nil => exact h
  | cons r rest ih => exact ih (hask w r h)

variable (w w' : WatchedMachine)

/-- A machine changes whoever is shown the change. -/
@[simp] theorem machine_tell (c : Change) (m : Machine) : (w.tell c m).machine = m := by
  unfold tell
  split <;> rfl

/-- A watcher keeps watching. -/
@[simp] theorem watcher_tell (c : Change) (m : Machine) : (w.tell c m).watcher = w.watcher := by
  unfold tell
  split <;> rfl

/-- A watched machine moves as its machine does. -/
theorem ask_transition (target : RunStatus) : w.ask (.transition target) =
    match w.machine.transition target with
    | .ok (change, machine) => (.ok (), w.tell change machine)
    | .error e => (.error e, w) := by
  simp only [ask, transition]
  cases w.machine.transition target <;> rfl

/-- The request for a status fails if the status may not follow the present one. -/
theorem ask_eq_error_iff (r : Request) (e : TransitionError) : (w.ask r).1 = .error e ↔
    ∃ target, r = .transition target ∧ target ∉ w.machine.status.successors ∧ e = ⟨w.machine.status, target⟩ := by
  cases r with
  | transition target =>
    rw [ask_transition]
    by_cases h : target ∈ w.machine.status.successors
    · simp [Machine.transition, Machine.allows, h]
    · simp [Machine.transition, Machine.allows, h, eq_comm]
  | setActive id => simp [ask]

/-- A request that fails changes nothing. -/
theorem ask_of_error {r : Request} {e : TransitionError} (h : (w.ask r).1 = .error e) : (w.ask r).2 = w := by
  cases r with
  | transition target =>
    rw [ask_transition] at h ⊢
    cases ht : w.machine.transition target with
    | ok changed =>
      rw [ht] at h
      cases h
    | error e => rfl
  | setActive id => cases h

/-- What is recorded of a machine stays recorded when it is asked for a change. -/
theorem isRecorded_ask (r : Request) (h : w.machine.IsRecorded) : (w.ask r).2.machine.IsRecorded := by
  cases r with
  | transition target =>
    rw [ask_transition]
    cases ht : w.machine.transition target with
    | ok changed =>
      simp only [machine_tell]
      exact h.transition ht
    | error e => exact h
  | setActive id =>
    simp only [ask, setActive, machine_tell]
    exact h.setActive id

/-- A request changes nothing, or it is told of the one change that it adds to the history. -/
theorem ask_cases (r : Request) : (w.ask r).2 = w ∨
    ∃ c m, (w.ask r).2 = w.tell c m ∧ m.history = w.machine.history ++ [c] := by
  cases r with
  | transition target =>
    rw [ask_transition]
    cases ht : w.machine.transition target with
    | ok changed =>
      refine Or.inr ⟨changed.1, changed.2, rfl, ?_⟩
      unfold Machine.transition at ht
      split at ht <;> cases ht
      rfl
    | error e => exact Or.inl rfl
  | setActive id => exact Or.inr ⟨_, _, rfl, rfl⟩

/-- Requests do not change who watches. -/
theorem watcher_ask (r : Request) : (w.ask r).2.watcher = w.watcher := by
  rcases w.ask_cases r with heq | ⟨c, m, heq, -⟩ <;> rw [heq]
  exact w.watcher_tell c m

/-- A watcher that has seen the history has also seen what a request adds to it. -/
theorem seen_ask (r : Request) (h : w.seen = w.watcher.view w.machine.history) :
    (w.ask r).2.seen = w.watcher.view (w.ask r).2.machine.history := by
  rcases w.ask_cases r with heq | ⟨c, m, heq, hhistory⟩ <;> rw [heq]
  · exact h
  · rw [machine_tell, hhistory]
    unfold tell
    split
    · next hw =>
      rw [hw] at h ⊢
      exact h
    · next hw =>
      rw [hw] at h ⊢
      exact congrArg (· ++ [c]) h

variable {w w'}

/-- A watcher sees the whole history, whatever is asked. -/
theorem seen_askAll (h : w.seen = w.watcher.view w.machine.history) (requests : List Request) :
    (w.askAll requests).2.seen = w.watcher.view (w.askAll requests).2.machine.history := by
  induction requests generalizing w with
  | nil => exact h
  | cons r rest ih =>
    have hrest := ih ((w.watcher_ask r).symm ▸ w.seen_ask r h)
    rw [w.watcher_ask r] at hrest
    exact hrest

/-- Two machines that differ in their watchers answer alike and move alike. -/
theorem ask_congr (h : w.machine = w'.machine) (r : Request) :
    (w.ask r).1 = (w'.ask r).1 ∧ (w.ask r).2.machine = (w'.ask r).2.machine := by
  cases r with
  | transition target =>
    rw [ask_transition, ask_transition, ← h]
    cases w.machine.transition target with
    | ok changed => simp
    | error e => exact ⟨rfl, h⟩
  | setActive id => simp [ask, setActive, h]

/-- Two machines that differ in their watchers answer all requests alike. -/
theorem askAll_congr (h : w.machine = w'.machine) (requests : List Request) :
    (w.askAll requests).1 = (w'.askAll requests).1 ∧
      (w.askAll requests).2.machine = (w'.askAll requests).2.machine := by
  induction requests generalizing w w' with
  | nil => exact ⟨rfl, h⟩
  | cons r rest ih =>
    obtain ⟨hanswer, hmachine⟩ := ask_congr h r
    obtain ⟨hanswers, hmachines⟩ := ih hmachine
    exact ⟨congrArg₂ List.cons hanswer hanswers, hmachines⟩

/--
A new machine that got any requests has a history that tells all about it, whoever watches. The
history can be replayed from the first values, and gives the present ones. The statuses in it are a
path along their successors to the present status, on which a run begins at every other place and
ends at the places between. A request fails if it is for a status that may not follow the present
one, and then nothing changes, neither what was seen nor the log. Who watches has seen the whole
history, and another watcher changes neither the answers to the requests nor the machine.
-/
theorem history_faithful (watcher : Watcher) (requests : List Request) :
    let w := (askAll { watcher } requests).2
    replay? (Machine.value {}) w.machine.history = some w.machine.value ∧
      (∃ path : List RunStatus, w.machine.statusHistory = RunStatus.changes .idle path ∧
        (RunStatus.idle :: path).IsChain (fun a b => b ∈ a.successors) ∧
        (RunStatus.idle :: path).getLast (List.cons_ne_nil _ _) = w.machine.status ∧
        ∀ i status, path[i]? = some status → (status = .running ↔ i % 2 = 0)) ∧
      (∀ r e, (w.ask r).1 = .error e ↔ ∃ target, r = .transition target ∧
        target ∉ w.machine.status.successors ∧ e = ⟨w.machine.status, target⟩) ∧
      (∀ r e, (w.ask r).1 = .error e → (w.ask r).2 = w) ∧
      w.seen = watcher.view w.machine.history ∧
      ∀ other, (askAll { watcher := other } requests).1 = (askAll { watcher } requests).1 ∧
        (askAll { watcher := other } requests).2.machine = w.machine := by
  intro w
  have hrecorded : w.machine.IsRecorded :=
    askAll_induction isRecorded_ask Machine.isRecorded_new requests
  have hseen : w.seen = watcher.view w.machine.history :=
    seen_askAll (w := { watcher }) (by cases watcher <;> rfl) requests
  obtain ⟨path, hpath, hchain, hlast⟩ := hrecorded.path
  refine ⟨hrecorded.replays, ⟨path, hpath, hchain, hlast, fun i status hi => ?_⟩, ask_eq_error_iff w,
    fun r e => ask_of_error w, hseen, fun other => ?_⟩
  · simpa using RunStatus.running_iff_of_isChain hchain i status hi
  · have hnew : WatchedMachine.machine { watcher := other } = WatchedMachine.machine { watcher } := rfl
    exact askAll_congr hnew requests

end WatchedMachine

end PipelineGraph.Simulation
