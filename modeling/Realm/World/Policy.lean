import Realm.Time.Duration
import Realm.World.Error

/-!
# Policies

A policy decides, once for each tick, whether a system runs. It may keep a state between ticks
and it may fail, which ends the tick.
-/

namespace Realm

/-- Types of policies: the decision for a tick of the given length, and the policy afterwards. -/
class Policy (P : Type) where
  decide : P → Duration → Except WorldError Bool × P

/-- Fires once the time since it last fired reaches `rate`, and then starts again from zero. Time
beyond the rate is dropped, so one call never fires twice and a long stall is not made up for. -/
structure Interval where
  rate : Duration
  accumulated : Duration
  deriving DecidableEq, Repr

namespace Interval

def every (rate : Duration) : Interval := ⟨rate, .zero⟩

/-- Lets a tick pass: whether the interval fires, and the interval afterwards. -/
def advance (i : Interval) (delta : Duration) : Bool × Interval :=
  let accumulated := i.accumulated.saturatingAdd delta
  if i.rate ≤ accumulated then (true, { i with accumulated := .zero })
  else (false, { i with accumulated })

/-- Lets ticks pass one after the other: for each whether the interval fired and what it holds. -/
def advanceAll (i : Interval) : List Duration → List (Bool × Interval)
  | [] => []
  | delta :: deltas => i.advance delta :: advanceAll (i.advance delta).2 deltas

end Interval

/-- The policies that cannot fail: at every tick, or at an interval. -/
inductive Cadence where
  | always
  | interval (interval : Interval)
  deriving DecidableEq, Repr

namespace Cadence

def advance : Cadence → Duration → Bool × Cadence
  | .always, _ => (true, .always)
  | .interval i, delta => ((i.advance delta).1, .interval (i.advance delta).2)

instance : Policy Cadence where
  decide cadence delta := (.ok (cadence.advance delta).1, (cadence.advance delta).2)

end Cadence

end Realm
