import Realm.Time.Instant

/-!
# Pulses

A pulse emits ticks at a fixed rate to one consumer, who is behind by at most one of them: while a
tick is waiting to be taken no other is emitted. A pulse that is due while its last tick was not
taken skips this tick, and the next one comes a full period after the consumer caught up. A
pulse ends when it is told to stop, and when it notices that nobody listens any more.

What a pulse does at an instant is `Pulse.wake`; time passes in `Pulse.elapse`.
-/

namespace Realm

inductive PulsePhase where
  /-- It sleeps until an instant. -/
  | sleeping (due : Instant)
  /-- It was due while its last tick was still waiting, and waits for the consumer. -/
  | blocked
  | finished
  deriving DecidableEq, Repr

structure Pulse where
  /-- The milliseconds between two ticks. -/
  rate : Nat
  phase : PulsePhase
  /-- The instant of the tick that waits to be taken. -/
  waiting : Option Instant
  /-- Whether the pulse was told to stop. -/
  stopping : Bool
  /-- Whether the consumer still listens. -/
  heard : Bool
  deriving DecidableEq, Repr

namespace Pulse

/-- One thing that a pulse does at an instant, if there is anything to do. Being told to stop comes
before everything else. -/
def wake (now : Instant) (p : Pulse) : Pulse :=
  match p.phase with
  | .finished => p
  | .sleeping due =>
    if p.stopping then { p with phase := .finished }
    else if now < due then p
    else if !p.heard then { p with phase := .finished }
    else match p.waiting with
      | none => { p with waiting := some now, phase := .sleeping (now + p.rate) }
      | some _ => { p with phase := .blocked }
  | .blocked =>
    if p.stopping || !p.heard then { p with phase := .finished }
    else match p.waiting with
      | none => { p with phase := .sleeping (now + p.rate) }
      | some _ => p

/-- Everything a pulse does at an instant: it may notice that its tick was taken, emit one, and
find that one waiting. -/
def settle (now : Instant) (p : Pulse) : Pulse := wake now (wake now (wake now p))

def start (rate : Nat) (now : Instant) : Pulse := ⟨rate, .sleeping now, none, false, true⟩

/-- The instant at which a pulse does something next without anybody else. -/
def due? (p : Pulse) : Option Instant :=
  match p.phase with
  | .sleeping due => some due
  | _ => none

/-- Lets time pass until an instant without the consumer: a tick may be emitted, and the next time
the pulse is due it is blocked. -/
def elapse (target : Instant) (p : Pulse) : Pulse :=
  let next := fun (p : Pulse) =>
    match p.due? with
    | some due => if due ≤ target then p.settle due else p
    | none => p
  (next (next p)).settle target

def stop (p : Pulse) : Pulse := { p with stopping := true }

def take (p : Pulse) : Option Instant × Pulse := (p.waiting, { p with waiting := none })

def unhear (p : Pulse) : Pulse := { p with heard := false, waiting := none }

def isFinished (p : Pulse) : Bool := p.phase = .finished

inductive Heard where
  | tick (emitted : Instant)
  | closed
  | empty
  deriving DecidableEq, Repr

def poll (p : Pulse) : Heard × Pulse :=
  match p.take with
  | (some emitted, p) => (.tick emitted, p)
  | (none, _) => (if p.isFinished then .closed else .empty, p)

/-- The consumer waits for a tick, for at most `patience` milliseconds; with the instant at which
the waiting is over. -/
def await (now : Instant) (patience : Nat) (p : Pulse) : Heard × Instant × Pulse :=
  match p.poll with
  | (.empty, p) =>
    match p.due? with
    | some due =>
      if due ≤ now + patience then
        let (heard, p) := (p.settle due).poll
        (heard, due, p)
      else (.empty, now + patience, p)
    | none => (.empty, now + patience, p)
  | (heard, p) => (heard, now, p)

end Pulse

end Realm
