import Mathlib.Data.List.Forall2
import Mathlib.Data.List.Nodup
import Mathlib.Data.List.Range
import PipelineGraph.Proofs.Simulation.Branching
import PipelineGraph.Simulation.Session

/-!
# What mirrors what

A scheduler mirrors another one if each future of the other one stands at some place in it, in the same
state, and so do all jobs. Besides these it may hold tasks of its own, which begin simulations
aside and are known to nobody. What mirrors something still does when more futures get a place.
-/

namespace PipelineGraph.Simulation

/-- A list has the elements of another one in their order, and elements of its own among them. -/
inductive Interspersed {α β : Type} (R : α → β → Prop) (Q : β → Prop) : List α → List β → Prop
  | nil : Interspersed R Q [] []
  | both {a b as bs} (h : R a b) (hrest : Interspersed R Q as bs) : Interspersed R Q (a :: as) (b :: bs)
  | aside {b as bs} (h : Q b) (hrest : Interspersed R Q as bs) : Interspersed R Q as (b :: bs)

namespace Interspersed

variable {α β : Type} {R R' : α → β → Prop} {Q Q' : β → Prop} {as cs : List α} {bs ds : List β}

/-- Elements may be related and counted as own in a weaker way. -/
theorem imp (h : Interspersed R Q as bs) (hR : ∀ a b, R a b → R' a b) (hQ : ∀ b, Q b → Q' b) :
    Interspersed R' Q' as bs := by
  induction h with
  | nil => exact nil
  | both h _ ih => exact both (hR _ _ h) ih
  | aside h _ ih => exact aside (hQ _ h) ih

/-- Lists with elements interspersed may be appended. -/
theorem append (h : Interspersed R Q as bs) (h' : Interspersed R Q cs ds) :
    Interspersed R Q (as ++ cs) (bs ++ ds) := by
  induction h with
  | nil => exact h'
  | both h _ ih => exact both h ih
  | aside h _ ih => exact aside h ih

/-- One more element may be put anywhere among the others. -/
theorem insert (h : Interspersed R Q as bs) {b : β} (hb : Q b) (n : ℕ) :
    Interspersed R Q as (bs.take n ++ b :: bs.drop n) := by
  induction h generalizing n with
  | nil => simpa using aside hb nil
  | both h hrest ih =>
    cases n with
    | zero => exact aside hb (both h hrest)
    | succ n => exact both h (ih n)
  | aside h hrest ih =>
    cases n with
    | zero => exact aside hb (aside h hrest)
    | succ n => exact aside h (ih n)

/-- What is interspersed is all that a list has besides. -/
theorem exists_perm {as bs : List α} {Q : α → Prop} (h : Interspersed (· = ·) Q as bs) :
    as.Sublist bs ∧ ∃ more, bs.Perm (as ++ more) ∧ ∀ b ∈ more, Q b := by
  induction h with
  | nil => exact ⟨List.Sublist.slnil, [], List.Perm.refl _, fun b hb => by cases hb⟩
  | both h _ ih =>
    obtain ⟨hsub, more, hperm, hmore⟩ := ih
    exact ⟨h ▸ hsub.cons_cons _, more, h ▸ hperm.cons _, hmore⟩
  | @aside b as bs h _ ih =>
    obtain ⟨hsub, more, hperm, hmore⟩ := ih
    refine ⟨hsub.cons _, b :: more, (hperm.cons b).trans List.perm_middle.symm, ?_⟩
    exact List.forall_mem_cons.2 ⟨h, hmore⟩

/-- Lists whose elements correspond have nothing interspersed. -/
theorem of_forall₂ (h : List.Forall₂ R as bs) : Interspersed R Q as bs := by
  induction h with
  | nil => exact nil
  | cons h _ ih => exact both h ih

/-- The elements of two lists correspond if nothing may be interspersed. -/
theorem forall₂ (h : Interspersed R Q as bs) (hQ : ∀ b, ¬ Q b) : List.Forall₂ R as bs := by
  induction h with
  | nil => exact .nil
  | both h _ ih => exact .cons h ih
  | aside h => exact absurd h (hQ _)

end Interspersed

/-! ## What may differ -/

/-- What graphs are taken for each other, and the summaries of runs on them; runs are told by the flow. -/
structure Mirror where
  graph : Snapshot → Snapshot → Prop
  summary : Text → Text → Prop
  flow : ∀ {g g'}, graph g g' → g'.flow = g.flow
  told : ∀ {g g'}, graph g g' → summary g.summary g'.summary

/-- A future stands at a place, where the places of all futures are listed. -/
def Stands (places : List FutureId) (id place : FutureId) : Prop :=
  places[id]? = some place

variable {M : Mirror} {places places' aside : List FutureId} {i j i' j' : FutureId}

/-- A future keeps its place when others get one. -/
theorem Stands.mono (h : places <+: places') (hi : Stands places i j) : Stands places' i j := by
  obtain ⟨more, rfl⟩ := h
  exact (List.getElem?_append_left (List.getElem?_eq_some_iff.1 hi).1).trans hi

/-- A future has one place. -/
theorem Stands.eq (hi : Stands places i j) (hi' : Stands places i j') : j = j' :=
  Option.some.inj (hi.symm.trans hi')

/-- Mirrored requests are for mirrored graphs, or fail in the same way. -/
inductive GraphMirrors (M : Mirror) : Except LoadError Snapshot → Except LoadError Snapshot → Prop
  | error (e : LoadError) : GraphMirrors M (.error e) (.error e)
  | ok {g g'} (h : M.graph g g') : GraphMirrors M (.ok g) (.ok g')

/-- Mirrored actions are the same but for the graphs of simulations. -/
inductive Action.Mirrors (M : Mirror) : Action → Action → Prop
  | simulate {g g'} (h : GraphMirrors M g g') : Action.Mirrors M (.simulate g) (.simulate g')
  | cancel : Action.Mirrors M .cancel .cancel
  | cancelCaller (caller : Option Int) : Action.Mirrors M (.cancelCaller caller) (.cancelCaller caller)
  | probe : Action.Mirrors M .probe .probe

/-- Actions mirror themselves if graphs do. -/
theorem Action.mirrors_refl (hM : ∀ g, M.graph g g) (a : Action) : a.Mirrors M a := by
  cases a with
  | simulate graph =>
    cases graph with
    | error e => exact .simulate (.error e)
    | ok g => exact .simulate (.ok (hM g))
  | cancel => exact .cancel
  | cancelCaller caller => exact .cancelCaller caller
  | probe => exact .probe

/-- A job does the same for the futures at other places. -/
inductive Job.Mirrors (M : Mirror) (places : List FutureId) : Job Action → Job Action → Prop
  | resume {t t'} (h : Stands places t t') : Job.Mirrors M places (.resume t) (.resume t')
  | wake {t t' x x'} (h : Stands places t t') (hx : Stands places x x') :
    Job.Mirrors M places (.wake t x) (.wake t' x')
  | count {g g' c c'} (h : Stands places g g') (hc : Stands places c c') :
    Job.Mirrors M places (.count g c) (.count g' c')
  | elapse {x x'} (h : Stands places x x') : Job.Mirrors M places (.elapse x) (.elapse x')
  | act {a a'} (h : a.Mirrors M a') : Job.Mirrors M places (.act a) (.act a')

/-- Two programs are at the same place of the same visit or call, and wait for futures that stand
for each other. -/
inductive Program.Mirrors (M : Mirror) (places : List FutureId) : Program → Program → Prop
  | enter (v : Visit) : Program.Mirrors M places (.enter v) (.enter v)
  | leave (v : Visit) : Program.Mirrors M places (.leave v) (.leave v)
  | fanOut (v : Visit) : Program.Mirrors M places (.fanOut v) (.fanOut v)
  | join (v : Visit) {cs cs'} (h : List.Forall₂ (Stands places) cs cs') :
    Program.Mirrors M places (.join v cs) (.join v cs')
  | call (caller : Nat) {g g'} (h : GraphMirrors M g g') : Program.Mirrors M places (.call caller g) (.call caller g')
  | conclude (caller : Nat) : Program.Mirrors M places (.conclude caller) (.conclude caller)

/-- Mirrored tasks have mirrored programs and wait for futures at the same place. -/
structure TaskState.Mirrors (M : Mirror) (places : List FutureId) (t t' : TaskState Program) : Prop where
  program : t.program.Mirrors M places t'.program
  mustCancel : t'.mustCancel = t.mustCancel
  waiter : Option.Rel (Stands places) t.waiter t'.waiter

/-- Mirrored gatherings have counted the same number of children at the same places. -/
structure GatheringState.Mirrors (places : List FutureId) (g g' : GatheringState) : Prop where
  children : List.Forall₂ (Stands places) g.children g'.children
  counted : g'.counted = g.counted
  cancelRequested : g'.cancelRequested = g.cancelRequested

/-- Mirrored futures are of the same kind. -/
inductive FutureKind.Mirrors (M : Mirror) (places : List FutureId) : FutureKind Program → FutureKind Program → Prop
  | sleep : FutureKind.Mirrors M places .sleep .sleep
  | gathering {g g'} (h : g.Mirrors places g') : FutureKind.Mirrors M places (.gathering g) (.gathering g')
  | task {t t'} (h : t.Mirrors M places t') : FutureKind.Mirrors M places (.task t) (.task t')

/-- Mirrored futures have the same ending and mirrored jobs behind it. -/
structure Future.Mirrors (M : Mirror) (places : List FutureId) (f f' : Future Program Action) : Prop where
  kind : f.kind.Mirrors M places f'.kind
  ending : f'.ending = f.ending
  callbacks : List.Forall₂ (Job.Mirrors M places) f.callbacks f'.callbacks

/-- Mirrored timers are due at the same time. -/
structure Timer.Mirrors (M : Mirror) (places : List FutureId) (t t' : Timer Action) : Prop where
  deadline : t'.deadline = t.deadline
  job : t.job.Mirrors M places t'.job

/-- A task that begins a simulation aside, and for whose end nothing waits. -/
structure Future.IsAside (f : Future Program Action) : Prop where
  call : ∃ t caller graph, f.kind = .task t ∧ t.program = .call caller graph
  callbacks : f.callbacks = []

/-- A scheduler mirrors another one, and holds tasks aside. -/
structure Scheduler.Mirrors (M : Mirror) (places aside : List FutureId) (s s' : Scheduler Program Action) : Prop where
  now : s'.now = s.now
  ready : Interspersed (Job.Mirrors M places) (fun job => ∃ y ∈ aside, job = .resume y) s.ready s'.ready
  timers : List.Forall₂ (Timer.Mirrors M places) s.timers s'.timers
  length : places.length = s.futures.length
  taken : (places ++ aside).Perm (List.range s'.futures.length)
  futures : ∀ {i j}, Stands places i j → ∃ f f', s.future? i = some f ∧ s'.future? j = some f' ∧ f.Mirrors M places f'
  asides : ∀ y ∈ aside, ∃ f', s'.future? y = some f' ∧ f'.IsAside

/-- Nothing is mirrored in schedulers without anything. -/
theorem Scheduler.mirrors_empty : Scheduler.Mirrors M [] [] {} {} where
  now := rfl
  ready := .nil
  timers := .nil
  length := rfl
  taken := List.Perm.refl _
  futures hij := by cases hij
  asides y hy := by cases hy

/-! ## More places -/

section Mono

variable (h : places <+: places')

include h

/-- An optional future keeps its place when others get one. -/
theorem Stands.mono_option {o o' : Option FutureId} (ho : Option.Rel (Stands places) o o') :
    Option.Rel (Stands places') o o' := by
  cases ho with
  | none => exact .none
  | some hi => exact .some (hi.mono h)

/-- Several futures keep their places when others get one. -/
theorem Stands.mono_list {is js : List FutureId} (hs : List.Forall₂ (Stands places) is js) :
    List.Forall₂ (Stands places') is js :=
  hs.imp fun _ _ hi => hi.mono h

/-- Jobs stay mirrored when other futures get a place. -/
theorem Job.Mirrors.mono {job job' : Job Action} (hjob : job.Mirrors M places job') : job.Mirrors M places' job' := by
  cases hjob with
  | resume ht => exact .resume (ht.mono h)
  | wake ht hx => exact .wake (ht.mono h) (hx.mono h)
  | count hg hc => exact .count (hg.mono h) (hc.mono h)
  | elapse hx => exact .elapse (hx.mono h)
  | act ha => exact .act ha

/-- Programs stay mirrored when other futures get a place. -/
theorem Program.Mirrors.mono {pr pr' : Program} (hpr : pr.Mirrors M places pr') : pr.Mirrors M places' pr' := by
  cases hpr with
  | enter v => exact .enter v
  | leave v => exact .leave v
  | fanOut v => exact .fanOut v
  | join v hcs => exact .join v (Stands.mono_list h hcs)
  | call caller hg => exact .call caller hg
  | conclude caller => exact .conclude caller

/-- Kinds stay mirrored when other futures get a place. -/
theorem FutureKind.Mirrors.mono {kind kind' : FutureKind Program} (hkind : kind.Mirrors M places kind') :
    kind.Mirrors M places' kind' := by
  cases hkind with
  | sleep => exact .sleep
  | gathering hg => exact .gathering ⟨Stands.mono_list h hg.children, hg.counted, hg.cancelRequested⟩
  | task ht => exact .task ⟨ht.program.mono h, ht.mustCancel, Stands.mono_option h ht.waiter⟩

/-- Futures stay mirrored when others get a place. -/
theorem Future.Mirrors.mono {f f' : Future Program Action} (hf : f.Mirrors M places f') : f.Mirrors M places' f' :=
  ⟨hf.kind.mono h, hf.ending, hf.callbacks.imp fun _ _ hjob => hjob.mono h⟩

end Mono

end PipelineGraph.Simulation
