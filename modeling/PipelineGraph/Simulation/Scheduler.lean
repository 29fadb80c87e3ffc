import PipelineGraph.Simulation.Fault

/-!
# Cooperative scheduling

Tasks take turns. A task runs until it awaits a future; when the future ends, the task is put at
the end of a queue of jobs and goes on when its turn comes. There are three kinds of futures: a
sleep ends when its timer fires, a gathering ends when its children have ended or at the first
child that is interrupted, and a task ends with its program.

Time stands still while there are jobs. When there are none, the clock moves to the earliest
deadline and the jobs of all timers due then are queued in the order of their making.

A cancellation is a request. It is passed on to what a task waits for; where nothing can take
it, the task keeps it until its next turn. The way of a request leads from one future to the next
and is bounded: a request that goes too deep ends there, and what it has reached before keeps it.
-/

namespace PipelineGraph.Simulation

/-- The number of a future, in the order of their making. -/
abbrev FutureId := Nat

/-- What a turn of the queue does, where `A` is the type of outside actions. -/
inductive Job (A : Type) where
  /-- Let a task go on. -/
  | resume (task : FutureId)
  /-- Let a task go on with the ending of what it waited for. -/
  | wake (task source : FutureId)
  /-- Count a child of a gathering that has ended. -/
  | count (gathering child : FutureId)
  /-- End a sleep. -/
  | elapse (sleep : FutureId)
  | act (action : A)

/-- A task: its program, a request to cancel it that it has not seen, and what it waits for. -/
structure TaskState (P : Type) where
  program : P
  mustCancel : Bool := false
  waiter : Option FutureId := none

/-- A gathering: its children, how many have ended, and whether a request to cancel was passed on. -/
structure GatheringState where
  children : List FutureId
  counted : Nat := 0
  cancelRequested : Bool := false

/-- The kinds of futures, where `P` is the type of programs. -/
inductive FutureKind (P : Type) where
  | sleep
  | gathering (g : GatheringState)
  | task (t : TaskState P)

/-- A future: its ending once it has one, and the jobs that are queued then. -/
structure Future (P A : Type) where
  kind : FutureKind P
  ending : Option Ending := none
  callbacks : List (Job A) := []

/-- A job with the time at which it is due. -/
structure Timer (A : Type) where
  deadline : Nat
  job : Job A

/-- The answer to a request to cancel. -/
inductive Reply where
  | refused
  | taken
  /-- The request has gone through too many futures. -/
  | tooDeep
deriving DecidableEq

/-- Whether a request was taken. -/
def Reply.isTaken : Reply → Bool
  | taken => true
  | _ => false

/-- The clock, the queue of jobs, the timers in the order of their making, and the futures. -/
structure Scheduler (P A : Type) where
  now : Nat := 0
  ready : List (Job A) := []
  timers : List (Timer A) := []
  futures : List (Future P A) := []

namespace Scheduler

variable {P A : Type}

/-! ## Queue and timers -/

/-- Put a job at the end of the queue. -/
def push (s : Scheduler P A) (job : Job A) : Scheduler P A :=
  { s with ready := s.ready ++ [job] }

/-- Set a timer. -/
def setTimer (s : Scheduler P A) (deadline : Nat) (job : Job A) : Scheduler P A :=
  { s with timers := s.timers ++ [⟨deadline, job⟩] }

/-- The earliest deadline of some timers. -/
def earliest? (timers : List (Timer A)) : Option Nat :=
  (timers.map (·.deadline)).min?

/-- Move the clock to the earliest deadline and queue the jobs that are due. -/
def advance? (s : Scheduler P A) : Option (Scheduler P A) :=
  (earliest? s.timers).map fun time =>
    let due := s.timers.filter (·.deadline ≤ time)
    { s with
      now := time
      ready := s.ready ++ due.map (·.job)
      timers := s.timers.filter (time < ·.deadline) }

/-! ## Futures -/

/-- A future by its number. -/
def future? (s : Scheduler P A) (id : FutureId) : Option (Future P A) :=
  s.futures[id]?

/-- Change a future. -/
def modifyFuture (s : Scheduler P A) (id : FutureId) (f : Future P A → Future P A) :
    Scheduler P A :=
  { s with futures := s.futures.modify id f }

/-- A new future: its number, and the scheduler with it. -/
def make (s : Scheduler P A) (kind : FutureKind P) : FutureId × Scheduler P A :=
  (s.futures.length, { s with futures := s.futures ++ [{ kind }] })

/-- The kind of a future. -/
def kind? (s : Scheduler P A) (id : FutureId) : Option (FutureKind P) :=
  (s.future? id).map (·.kind)

/-- A task by its number. -/
def task? (s : Scheduler P A) (id : FutureId) : Option (TaskState P) :=
  match s.kind? id with
  | some (.task t) => some t
  | _ => none

/-- Whether a task keeps a request to cancel it. -/
def mustCancel (s : Scheduler P A) (id : FutureId) : Bool :=
  ((s.task? id).map (·.mustCancel)).getD false

/-- Change the state of a task. -/
def modifyTask (s : Scheduler P A) (id : FutureId) (f : TaskState P → TaskState P) :
    Scheduler P A :=
  s.modifyFuture id fun future =>
    match future.kind with
    | .task t => { future with kind := .task (f t) }
    | _ => future

/-- Change the state of a gathering. -/
def modifyGathering (s : Scheduler P A) (id : FutureId) (f : GatheringState → GatheringState) :
    Scheduler P A :=
  s.modifyFuture id fun future =>
    match future.kind with
    | .gathering g => { future with kind := .gathering (f g) }
    | _ => future

/-- How a future has ended. -/
def ending? (s : Scheduler P A) (id : FutureId) : Option Ending :=
  (s.future? id).bind (·.ending)

/-- Whether a future has ended. -/
def hasEnded (s : Scheduler P A) (id : FutureId) : Bool :=
  (s.ending? id).isSome

/-- End a future that has not ended and queue its jobs. -/
def complete (s : Scheduler P A) (id : FutureId) (ending : Ending) : Scheduler P A :=
  match s.future? id with
  | none => s
  | some future =>
    if future.ending.isSome then s
    else
      let s := s.modifyFuture id fun f => { f with ending := some ending, callbacks := [] }
      { s with ready := s.ready ++ future.callbacks }

/-- Queue a job when a future has ended, at once if it has. -/
def whenEnded (s : Scheduler P A) (id : FutureId) (job : Job A) : Scheduler P A :=
  if s.hasEnded id then s.push job
  else s.modifyFuture id fun f => { f with callbacks := f.callbacks ++ [job] }

/-! ## Cancellation -/

/-- Keep a request to cancel a task until its next turn. -/
def markCancel (s : Scheduler P A) (id : FutureId) : Scheduler P A :=
  s.modifyTask id fun t => { t with mustCancel := true }

/-- Put a request to several futures, one after another. It is taken if one of them takes it; where it
goes too deep, the others are not asked. -/
def askEach (ask : FutureId → Scheduler P A → Reply × Scheduler P A) :
    List FutureId → Scheduler P A → Reply × Scheduler P A
  | [], s => (.refused, s)
  | id :: rest, s =>
    match ask id s with
    | (.tooDeep, s) => (.tooDeep, s)
    | (reply, s) =>
      match askEach ask rest s with
      | (.refused, s) => (reply, s)
      | answer => answer

/--
Ask a future to cancel. A sleep ends at once, a gathering passes the request to all its children, and
a task to what it waits for. `room` is how many futures the request can still go through.
-/
def cancelWithin : (room : Nat) → FutureId → Scheduler P A → Reply × Scheduler P A
  | 0, _, s => (.tooDeep, s)
  | room + 1, id, s =>
    match s.future? id with
    | none => (.refused, s)
    | some future =>
      if future.ending.isSome then (.refused, s)
      else
        match future.kind with
        | .sleep => (.taken, s.complete id (.error .cancelled))
        | .gathering g =>
          match askEach (cancelWithin room) g.children s with
          | (.taken, s) => (.taken, s.modifyGathering id fun g => { g with cancelRequested := true })
          | answer => answer
        | .task t =>
          match t.waiter with
          | none => (.taken, s.markCancel id)
          | some source =>
            match cancelWithin room source s with
            | (.refused, s) => (.taken, s.markCancel id)
            | answer => answer

/-- How many futures a request to cancel can go through. -/
def maxRequestDepth : Nat := 986

/-- Ask a future to cancel. -/
def cancel (s : Scheduler P A) (id : FutureId) : Reply × Scheduler P A :=
  cancelWithin maxRequestDepth id s

/-- Ask several futures to cancel, as far as the requests do not go too deep. -/
def cancelEach (s : Scheduler P A) (ids : List FutureId) : Reply × Scheduler P A :=
  askEach (fun id s => s.cancel id) ids s

/-! ## Tasks, sleeps and gatherings -/

/-- A new task, which waits for its first turn. -/
def spawn (s : Scheduler P A) (program : P) : FutureId × Scheduler P A :=
  let (id, s) := s.make (.task { program })
  (id, s.push (.resume id))

/-- New tasks, in order. -/
def spawnAll (s : Scheduler P A) : List P → List FutureId × Scheduler P A
  | [] => ([], s)
  | program :: rest =>
    let (id, s) := s.spawn program
    let (ids, s) := s.spawnAll rest
    (id :: ids, s)

/-- A new sleep that ends after some time. -/
def sleep (s : Scheduler P A) (microseconds : Nat) : FutureId × Scheduler P A :=
  let (id, s) := s.make .sleep
  (id, s.setTimer (s.now + microseconds) (.elapse id))

/-- A new gathering, which counts each of its children when it has ended. -/
def gather (s : Scheduler P A) (children : List FutureId) : FutureId × Scheduler P A :=
  let (id, s) := s.make (.gathering { children })
  (id, children.foldl (fun s child => s.whenEnded child (.count id child)) s)

/-- Count a child that has ended, and end the gathering if the child decides it. -/
def countChild (s : Scheduler P A) (id child : FutureId) : Scheduler P A :=
  let s := s.modifyGathering id fun g => { g with counted := g.counted + 1 }
  match s.kind? id, s.ending? child with
  | some (.gathering _), some (.error i) => s.complete id (.error i)
  | some (.gathering g), some (.ok ()) =>
    if g.counted = g.children.length then
      s.complete id (if g.cancelRequested then .error .cancelled else .ok ())
    else s
  | _, _ => s

/-- Let a task wait for a future; a request to cancel that the task keeps is passed on at once. -/
def await (s : Scheduler P A) (task source : FutureId) : Scheduler P A :=
  let s := s.modifyTask task fun t => { t with waiter := some source }
  let s := s.whenEnded source (.wake task source)
  if s.mustCancel task then
    match s.cancel source with
    | (.taken, s) => s.modifyTask task fun t => { t with mustCancel := false }
    | (_, s) => s
  else s

/-- End a task whose program has come to its end; a request that came too late still cancels it. -/
def endTask (s : Scheduler P A) (id : FutureId) : Scheduler P A :=
  s.complete id (if s.mustCancel id then .error .cancelled else .ok ())

end Scheduler

end PipelineGraph.Simulation
