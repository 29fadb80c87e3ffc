import PipelineGraph.Proofs.Simulation.MirroredSchedulers
import PipelineGraph.Proofs.Simulation.Turns
import PipelineGraph.Simulation.Timetable

/-!
# Sessions that mirror others

A session mirrors another one if its scheduler does, and both have come to the same state and have
recorded the same. Only results of requests that were rejected may be recorded besides. An act keeps a
session mirrored if it comes to the same in both, whatever the listener does.
-/

namespace PipelineGraph.Simulation

open Scheduler

variable {M : Mirror} {places places' aside : List FutureId} {p : Plan}

/-- Mirrored entries are the same but for the summaries at the starts of runs. -/
inductive Entry.Mirrors (M : Mirror) : Entry → Entry → Prop
  | same (e : Entry) : Entry.Mirrors M e e
  | started {t t'} (h : M.summary t t') : Entry.Mirrors M (.event (.started t)) (.event (.started t'))

/-- The result of a request that was rejected: its graph could not be loaded, or a run was under way. -/
def Entry.isRejection : Entry → Bool
  | .result _ (.failed (.graph _)) => true
  | .result _ (.failed (.transition e)) => e = ⟨.running, .running⟩
  | _ => false

/-- What one session has recorded mirrors what another one has. -/
def TraceMirrors (M : Mirror) (aside : List FutureId) : List (Nat × Entry) → List (Nat × Entry) → Prop :=
  Interspersed (fun e e' => e'.1 = e.1 ∧ e.2.Mirrors M e'.2) fun e' => aside ≠ [] ∧ e'.2.isRejection = true

/-- A session mirrors another one, with calls aside. -/
structure Session.Mirrors (M : Mirror) (places aside : List FutureId) (s s' : Session) : Prop where
  scheduler : s.scheduler.Mirrors M places aside s'.scheduler
  machine : s'.machine = s.machine
  run : Option.Rel (Stands places) s.run s'.run
  cancelRequested : s'.cancelRequested = s.cancelRequested
  callers : List.Forall₂ (Stands places) s.callers s'.callers
  emitted : s'.emitted = s.emitted
  trace : TraceMirrors M aside s.trace s'.trace

/-! ## Records and requests -/

namespace Session.Mirrors

variable {s s' : Session} (h : s.Mirrors M places aside s')

include h

/-- Both schedulers may change so that they mirror each other. -/
theorem schedule (hgrow : places <+: places') {x x' : Scheduler Program Action}
    (hx : x.Mirrors M places' aside x') :
    Mirrors M places' aside { s with scheduler := x } { s' with scheduler := x' } where
  scheduler := hx
  machine := h.machine
  run := Stands.mono_option hgrow h.run
  cancelRequested := h.cancelRequested
  callers := Stands.mono_list hgrow h.callers
  emitted := h.emitted
  trace := h.trace

/-- Nothing is told by the log. -/
theorem log (records records' : List LogRecord) : (s.log records).Mirrors M places aside (s'.log records') :=
  { h with }

/-- Mirrored entries are written alike. -/
theorem note {e e' : Entry} (he : e.Mirrors M e') : (s.note e).Mirrors M places aside (s'.note e') :=
  { h with trace := h.trace.append (.both ⟨h.scheduler.now, he⟩ .nil) }

/-- The same change of both machines is recorded alike. -/
theorem change (c : Change) (m : Machine) : (s.change c m).Mirrors M places aside (s'.change c m) := by
  have hmachine : Mirrors M places aside { s with machine := m } { s' with machine := m } := { h with machine := rfl }
  exact (hmachine.log _ _).note (.same _)

/-- The same node is shown as active. -/
theorem setActive (id : Option Text) : (s.setActive id).Mirrors M places aside (s'.setActive id) := by
  simp only [Session.setActive, h.machine]
  exact h.change _ _

/-- Both runs are forgotten. -/
theorem forget : Mirrors M places aside { s with run := none } { s' with run := none } :=
  { h with run := .none }

/-- Whether a cancellation was asked for is set alike. -/
theorem request (requested : Bool) : Mirrors M places aside { s with cancelRequested := requested }
    { s' with cancelRequested := requested } :=
  { h with cancelRequested := rfl }

/-- The engine is asked alike to cancel its run. -/
theorem noteCancelRun : s'.noteCancelRun.1 = s.noteCancelRun.1 ∧
    s.noteCancelRun.2.Mirrors M places aside s'.noteCancelRun.2 := by
  have hrun := h.run
  unfold Session.noteCancelRun Session.cancelRun
  generalize s.run = R, s'.run = R' at hrun
  cases hrun with
  | none => exact ⟨rfl, h.note (.same _)⟩
  | @some R R' hR =>
    simp only [h.scheduler.hasEnded hR]
    by_cases hended : s.scheduler.hasEnded R = true
    · simp only [hended, if_true]
      exact ⟨trivial, h.note (.same _)⟩
    · simp only [hended]
      obtain ⟨hreply, hcancel⟩ := h.scheduler.cancel hR
      have hlogged := h.log [⟨.info, "[Engine] Cancellation requested"⟩] [⟨.info, "[Engine] Cancellation requested"⟩]
      have hrequested := (hlogged.schedule (List.prefix_refl _) hcancel).request true
      rcases hx : s.scheduler.cancel R with ⟨reply, x⟩
      rcases hx' : s'.scheduler.cancel R' with ⟨reply', x'⟩
      simp only [hx, hx'] at hreply hrequested
      subst hreply
      simp only [Session.log, hx, hx']
      cases reply' with
      | tooDeep => exact ⟨rfl, hrequested⟩
      | refused | taken => exact ⟨rfl, hrequested.note (.same _)⟩

/-- Callers at the same place are cancelled alike. -/
theorem noteCancelCaller {task task' : Option FutureId} (htask : Option.Rel (Stands places) task task') :
    (s'.noteCancelCaller task').1 = (s.noteCancelCaller task).1 ∧
      (s.noteCancelCaller task).2.Mirrors M places aside (s'.noteCancelCaller task').2 := by
  unfold Session.noteCancelCaller
  cases htask with
  | none => exact ⟨rfl, h.note (.same _)⟩
  | @some i i' ht =>
    obtain ⟨hreply, hcancel⟩ := h.scheduler.cancel ht
    have hscheduled := h.schedule (List.prefix_refl _) hcancel
    rcases hx : s.scheduler.cancel i with ⟨reply, x⟩
    rcases hx' : s'.scheduler.cancel i' with ⟨reply', x'⟩
    simp only [hx, hx'] at hreply hscheduled
    subst hreply
    simp only [hx, hx']
    cases reply' with
    | tooDeep => exact ⟨rfl, hscheduled⟩
    | refused | taken => exact ⟨rfl, hscheduled.note (.same _)⟩

/-- The latest callers stand at the same place. -/
theorem getLast_callers : Option.Rel (Stands places) s.callers.getLast? s'.callers.getLast? := by
  have hcallers := h.callers
  generalize s.callers = cs, s'.callers = cs' at hcallers
  induction hcallers with
  | nil => exact .none
  | cons hc hrest ih =>
    cases hrest with
    | nil => exact .some hc
    | cons => simpa only [List.getLast?_cons_cons] using ih

/-- Callers of the same number stand at the same place. -/
theorem caller? (caller : Int) : Option.Rel (Stands places) (s.caller? caller) (s'.caller? caller) := by
  have hcallers := h.callers
  unfold Session.caller?
  split
  · exact .none
  · generalize caller.toNat = n
    generalize s.callers = cs, s'.callers = cs' at hcallers
    induction hcallers generalizing n with
    | nil => exact .none
    | cons hc _ ih =>
      cases n with
      | zero => exact .some hc
      | succ n => exact ih n

end Session.Mirrors

/-! ## Acts -/

/-- What came of an act in one session mirrors what came of one in another session, where both have
given related results. -/
inductive Act.Mirrored {α β : Type} (M : Mirror) (places aside : List FutureId)
    (R : List FutureId → α → β → Prop) : Except Interrupt α × Session → Except Interrupt β × Session → Prop
  | ok {places' s s' a b} (hgrow : places <+: places') (h : s.Mirrors M places' aside s') (hR : R places' a b) :
    Act.Mirrored M places aside R (.ok a, s) (.ok b, s')
  | error {places' s s'} (hgrow : places <+: places') (h : s.Mirrors M places' aside s') (i : Interrupt) :
    Act.Mirrored M places aside R (.error i, s) (.error i, s')

namespace Act

variable {α α' β β' : Type} {s s' : Session} {R : List FutureId → α → α' → Prop}
  {R' : List FutureId → β → β' → Prop}

/-- What is mirrored from more places is so from fewer. -/
theorem Mirrored.mono {r : Except Interrupt α × Session} {r' : Except Interrupt α' × Session}
    (hgrow : places <+: places') (h : Mirrored M places' aside R r r') : Mirrored M places aside R r r' := by
  cases h with
  | ok hmore h hR => exact .ok (hgrow.trans hmore) h hR
  | error hmore h i => exact .error (hgrow.trans hmore) h i

/-- One act after another is mirrored if both are. -/
theorem Mirrored.bind {act : Act α} {act' : Act α'} {next : α → Act β} {next' : α' → Act β'}
    (hact : Mirrored M places aside R (act.run s) (act'.run s'))
    (hnext : ∀ {places' t t' a a'}, places <+: places' → t.Mirrors M places' aside t' → R places' a a' →
      Mirrored M places' aside R' ((next a).run t) ((next' a').run t')) :
    Mirrored M places aside R' ((act >>= next).run s) ((act' >>= next').run s') := by
  rw [run_bind, run_bind]
  generalize act.run s = r, act'.run s' = r' at hact
  cases hact with
  | ok hgrow h hR => exact (hnext hgrow h hR).mono hgrow
  | error hgrow h i => exact .error hgrow h i

/-- Acts that give nothing. -/
abbrev Mirrored.Done : List FutureId → Unit → Unit → Prop :=
  fun _ _ _ => True

/-- Sessions may change so that they mirror each other. -/
theorem mirrored_modify {f f' : Session → Session} (hf : (f s).Mirrors M places aside (f' s')) :
    Mirrored M places aside Mirrored.Done ((modify f : Act Unit).run s) ((modify f' : Act Unit).run s') :=
  .ok (List.prefix_refl _) hf trivial

variable (h : s.Mirrors M places aside s')

include h

/-- Logs are written to in both sessions. -/
theorem mirrored_log (level : LogLevel) (message message' : Text) :
    Mirrored M places aside Mirrored.Done ((log level message).run s) ((log level message').run s') :=
  mirrored_modify (h.log _ _)

/-- The same node is shown as active in both sessions. -/
theorem mirrored_setActive (id : Option Text) :
    Mirrored M places aside Mirrored.Done ((setActive id).run s) ((setActive id).run s') :=
  mirrored_modify (h.setActive id)

/-- Acts may stop with the same fault. -/
theorem mirrored_fail (f : Fault) : Mirrored M places aside R ((fail f : Act α).run s) ((fail f : Act α').run s') :=
  .error (List.prefix_refl _) h _

/-- Both machines make the same transition, or refuse it. -/
theorem mirrored_transition (target : RunStatus) :
    Mirrored M places aside Mirrored.Done ((transition target).run s) ((transition target).run s') := by
  unfold transition
  simp only [run_bind, run_get, h.machine]
  cases s.machine.transition target with
  | ok changed => exact mirrored_modify (h.change _ _)
  | error e => exact mirrored_fail h _

/-- Requests with the same reply go equally deep. -/
theorem mirrored_checkReply {reply reply' : Reply} (hreply : reply' = reply) :
    Mirrored M places aside Mirrored.Done ((checkReply reply).run s) ((checkReply reply').run s') := by
  subst hreply
  unfold checkReply
  split
  · exact mirrored_fail h _
  · exact .ok (List.prefix_refl _) h trivial

/-- The listener does the same in both sessions. -/
theorem mirrored_react (hook : Hook) :
    Mirrored M places aside Mirrored.Done ((react hook).run s) ((react hook).run s') := by
  cases hook with
  | cancel =>
    obtain ⟨hreply, hnoted⟩ := h.noteCancelRun
    exact mirrored_checkReply hnoted hreply
  | cancelCaller =>
    obtain ⟨hreply, hnoted⟩ := h.noteCancelCaller h.getLast_callers
    exact mirrored_checkReply hnoted hreply
  | fail => exact mirrored_fail h _

/-- The listener is told of mirrored events, and does the same. -/
theorem mirrored_emit {e e' : Event} (he : Entry.Mirrors M (.event e) (.event e')) :
    Mirrored M places aside Mirrored.Done ((emit p e).run s) ((emit p e').run s') := by
  unfold emit
  split
  · simp only [run_bind, run_get, run_modify, h.emitted]
    have hnoted := h.note he
    have htold : Session.Mirrors M places aside { s.note (.event e) with emitted := s.emitted + 1 }
      { s'.note (.event e') with emitted := s.emitted + 1 } := { hnoted with emitted := rfl }
    cases p.hooks.lookup s.emitted with
    | none => exact .ok (List.prefix_refl _) htold trivial
    | some hook => exact mirrored_react htold hook
  · exact .ok (List.prefix_refl _) h trivial

/-- Runs end alike with the same verdict. -/
theorem mirrored_finish (verdict : Verdict) :
    Mirrored M places aside Mirrored.Done ((finish p verdict).run s) ((finish p verdict).run s') := by
  have hend : ∀ {places t t'}, t.Mirrors M places aside t' →
      Mirrored M places aside Mirrored.Done
        ((do transition verdict.status; emit p (.ended verdict)
             log .info ("[Engine] Simulation " ++ verdict.status.name) : Act Unit).run t)
        ((do transition verdict.status; emit p (.ended verdict)
             log .info ("[Engine] Simulation " ++ verdict.status.name) : Act Unit).run t') := by
    intro places t t' ht
    refine (mirrored_transition ht _).bind fun _ ht _ => ?_
    exact (mirrored_emit ht (.same _)).bind fun _ ht _ => mirrored_log ht _ _ _
  unfold finish
  rw [run_bind, run_bind, run_get, run_get]
  dsimp only
  rw [h.machine]
  split
  · exact (mirrored_setActive h none).bind fun _ ht _ => hend ht
  · exact hend h

omit h in
/-- A run is forgotten whatever came of both acts. -/
theorem Mirrored.forgetRun {act act' : Act Unit}
    (hact : Mirrored M places aside Mirrored.Done (act.run s) (act'.run s')) :
    Mirrored M places aside Mirrored.Done ((forgetRun act).run s) ((forgetRun act').run s') := by
  simp only [Act.forgetRun, ExceptT.run_mk]
  change Mirrored M places aside Mirrored.Done ((act.run s).1, { (act.run s).2 with run := none })
    ((act'.run s').1, { (act'.run s').2 with run := none })
  generalize act.run s = r, act'.run s' = r' at hact
  cases hact with
  | ok hgrow h hR => exact .ok hgrow h.forget hR
  | error hgrow h i => exact .error hgrow h.forget i

end Act

end PipelineGraph.Simulation
