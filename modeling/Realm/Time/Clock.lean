import Realm.Time.Instant

/-!
# Things that time changes

Something that runs by itself does all it can at an instant, and then nothing until the next
instant at which one of its timers is due. `elapse` lets time pass up to an instant, `runUntil` up
to the first instant at which something holds.
-/

namespace Realm

class Clocked (S : Type) where
  /-- Everything that happens at an instant without time passing. -/
  settle : Instant → S → S
  /-- The next instant at which something happens by itself. -/
  due? : S → Option Instant

/-- What is paired with something that time does not change. -/
instance {S T : Type} [Clocked S] : Clocked (S × T) :=
  ⟨fun now s => (Clocked.settle now s.1, s.2), fun s => Clocked.due? s.1⟩

namespace Clocked

variable {S : Type} [Clocked S]

/-- The next instant at which something happens, if it comes after `now` and not after `limit`. -/
def next? (now limit : Instant) (s : S) : Option { due : Instant // now < due ∧ due ≤ limit } :=
  match due? s with
  | none => none
  | some due => if h : now < due ∧ due ≤ limit then some ⟨due, h⟩ else none

def elapse (now target : Instant) (s : S) : S :=
  match next? now target s with
  | none => settle target s
  | some ⟨due, h⟩ =>
    have : target - due < target - now := Nat.sub_lt_sub_left (Nat.lt_of_lt_of_le h.1 h.2) h.1
    elapse due target (settle due s)
termination_by target - now

/-- Lets time pass until something holds, but not beyond `limit`; with the instant reached. -/
def runUntil (done : S → Bool) (now limit : Instant) (s : S) : Instant × S :=
  if done s then (now, s)
  else
    match next? now limit s with
    | none => (limit, settle limit s)
    | some ⟨due, h⟩ =>
      have : limit - due < limit - now := Nat.sub_lt_sub_left (Nat.lt_of_lt_of_le h.1 h.2) h.1
      runUntil done due limit (settle due s)
termination_by limit - now

end Clocked

/-- The earlier of two instants, either of which may be missing. -/
def Instant.earlier (a b : Option Instant) : Option Instant :=
  match a, b with
  | some a, some b => some (min a b)
  | some a, none => some a
  | none, b => b

def Instant.earliest (dues : List (Option Instant)) : Option Instant :=
  dues.foldl Instant.earlier none

end Realm
