/-!
# Durations

Spans of time in nanoseconds, up to a greatest span whose seconds still fit 64 bits. Adding
stops at that greatest span.
-/

namespace Realm

structure Duration where
  nanos : Nat
  deriving DecidableEq, Repr, Inhabited

namespace Duration

def zero : Duration := ⟨0⟩

def nanosPerSecond : Nat := 1000000000

def nanosPerMilli : Nat := 1000000

def greatest : Duration := ⟨UInt64.size * nanosPerSecond - 1⟩

def ofParts (seconds nanos : Nat) : Duration := ⟨seconds * nanosPerSecond + nanos⟩

def ofMillis (millis : Nat) : Duration := ⟨millis * nanosPerMilli⟩

def ofSeconds (seconds : Nat) : Duration := ⟨seconds * nanosPerSecond⟩

def seconds (d : Duration) : Nat := d.nanos / nanosPerSecond

def subsecond (d : Duration) : Nat := d.nanos % nanosPerSecond

/-- The sum, or the greatest span if the sum exceeds it. -/
def saturatingAdd (a b : Duration) : Duration := ⟨min (a.nanos + b.nanos) greatest.nanos⟩

def add (a b : Duration) : Duration := ⟨a.nanos + b.nanos⟩

instance : Add Duration := ⟨add⟩

/-- The shorter span comes first. -/
instance : LE Duration := ⟨fun a b => a.nanos ≤ b.nanos⟩

instance (a b : Duration) : Decidable (a ≤ b) := inferInstanceAs (Decidable (a.nanos ≤ b.nanos))

/-- A number of units with a fraction of `digits` places, without zeros at its end. -/
def decimal (whole fraction digits : Nat) : String :=
  let places := (List.range digits).map fun i => fraction / Nat.pow 10 (digits - 1 - i) % 10
  let kept := (places.reverse.dropWhile (· = 0)).reverse
  toString whole ++
    if kept.isEmpty then "" else "." ++ String.ofList (kept.map Nat.digitChar)

/-- How a span is shown: in the largest unit of which it holds a whole one. -/
def display (d : Duration) : String :=
  let inUnit := fun (size digits : Nat) (unit : String) =>
    decimal (d.nanos / size) (d.nanos % size) digits ++ unit
  if nanosPerSecond ≤ d.nanos then inUnit nanosPerSecond 9 "s"
  else if nanosPerMilli ≤ d.nanos then inUnit nanosPerMilli 6 "ms"
  else if 1000 ≤ d.nanos then inUnit 1000 3 "µs"
  else inUnit 1 0 "ns"

end Duration

end Realm
