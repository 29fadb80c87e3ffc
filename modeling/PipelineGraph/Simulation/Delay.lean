import PipelineGraph.Text.Basic
import PipelineGraph.Number.Binary64

/-!
# Delays

A delay is given in milliseconds, brought to seconds as a binary64 number, and waited for in whole
microseconds. Each of these steps rounds once, so half a microsecond may go either way.

A delay that is not positive is no delay: who waits for it only lets the others that are ready go
first. A positive delay goes by a timer, also one that rounds to no microsecond.
-/

namespace PipelineGraph.Simulation

/-- A number of milliseconds, given as an integer or as a binary64 number. -/
inductive Milliseconds where
  | whole (n : Int)
  | binary (x : Binary64)
deriving DecidableEq

/-- Why a time cannot be waited for. -/
inductive DelayError where
  /-- An integer beyond the finite numbers. -/
  | outOfRange
  /-- A time without end. -/
  | infinite
  /-- No time at all. -/
  | undefined
deriving DecidableEq

/-- The message of an error. -/
def DelayError.message : DelayError → Text
  | outOfRange => "integer division result too large for a float"
  | infinite => "cannot convert float infinity to integer"
  | undefined => "cannot convert float NaN to integer"

namespace Milliseconds

/-- The number nearest to some milliseconds divided by a positive number. -/
def quotient (m : Milliseconds) (divisor : Nat) : Except DelayError Binary64 :=
  match m with
  | whole n =>
    match Binary64.ofIntQuotient? n divisor with
    | some x => .ok x
    | none => .error .outOfRange
  | binary x => .ok (x.scaled 1 divisor)

/-- The time in microseconds at which something happens that many milliseconds after the start. -/
def moment : Milliseconds → Nat
  | whole n => (n * 1000).toNat
  | binary x => ((x.scaled 1000 1).round?.getD 0).toNat

end Milliseconds

/-- How long to wait. -/
inductive Delay where
  | pause
  | timer (microseconds : Nat)
  /-- Who waits for it fails. -/
  | unusable (e : DelayError)
deriving DecidableEq

namespace Delay

/-- The delay of a number of seconds. -/
def ofSeconds : Binary64 → Delay
  | .nan => unusable .undefined
  | .infinite true => pause
  | .infinite false => unusable .infinite
  | .finite true _ => pause
  | .finite false rank =>
    if rank.val = 0 then pause
    else
      match ((Binary64.finite false rank).scaled 1000000 1).round? with
      | some microseconds => timer microseconds.toNat
      | none => unusable .infinite

/-- The delay of a number of milliseconds. -/
def ofMilliseconds (m : Milliseconds) : Except DelayError Delay :=
  (m.quotient 1000).map ofSeconds

/-- The delay of a tenth of a number of milliseconds. -/
def ofTenth (m : Milliseconds) : Except DelayError Delay := do
  ofMilliseconds (.binary (← m.quotient 10))

end Delay

end PipelineGraph.Simulation
