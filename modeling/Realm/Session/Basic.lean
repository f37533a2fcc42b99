import Realm.Account.Basic
import Realm.Message.Command
import Realm.Message.Event
import Realm.Net.Connection

/-!
# Sessions

A session binds an authenticated client to its entity. Commands wait in one bounded queue until
the next tick, events in another until the end of a tick; when a queue is full the newest item
is dropped. Ending a session empties both queues, closes its connection and is final. A session
knows its connection by number only, so what concerns both takes the connection beside it.
-/

namespace Realm

structure SessionLimits where
  commands : Nat
  events : Nat
  deriving DecidableEq, Repr

structure Session where
  connection : ConnectionId
  account : AccountId
  entity : Handle
  commands : Bounded Command
  events : Bounded Event
  terminated : Bool
  deriving DecidableEq, Repr

namespace Session

def fresh (connection : ConnectionId) (account : AccountId) (entity : Handle)
    (limits : SessionLimits) : Session :=
  ⟨connection, account, entity, .empty limits.commands, .empty limits.events, false⟩

def queueCommand (s : Session) (c : Command) : Bool × Session :=
  if s.terminated then (false, s)
  else
    let (accepted, commands) := s.commands.offer c
    (accepted, { s with commands })

def dequeueCommand (s : Session) : Option Command × Session :=
  if s.terminated then (none, s)
  else
    let (command, commands) := s.commands.pop
    (command, { s with commands })

def queueEvent (s : Session) (e : Event) : Bool × Session :=
  if s.terminated then (false, s)
  else
    let (accepted, events) := s.events.offer e
    (accepted, { s with events })

def dequeueEvent (s : Session) : Option Event × Session :=
  if s.terminated then (none, s)
  else
    let (event, events) := s.events.pop
    (event, { s with events })

def write (c : Connection) (e : Event) : Bool × Connection := c.send e.toPacket

/-- Hands an event to the writer of a connection and flushes, if the event was accepted. -/
def send (c : Connection) (e : Event) : Bool × Connection :=
  match write c e with
  | (true, c) => c.flush
  | (false, c) => (false, c)

def terminate (s : Session) : Session :=
  if s.terminated then s
  else { s with terminated := true, commands := s.commands.clear, events := s.events.clear }

/-- Closes the connection of a session that is about to end; an ended one leaves it alone. -/
def hangUp (s : Session) (c : Connection) : Connection := if s.terminated then c else c.close

/-- Whether a session is over: it was ended, or its connection is closed. -/
def isFinished (s : Session) (connectionClosed : Bool) : Bool := s.terminated || connectionClosed

/-- Hands events to a writer in order until one is refused: the events left, without the refused
one, the connection, and how many were accepted. -/
def writeAll : List Event → Connection → List Event × Connection × Nat
  | [], c => ([], c, 0)
  | e :: rest, c =>
    match write c e with
    | (false, c) => (rest, c, 0)
    | (true, c) =>
      let (left, c, written) := writeAll rest c
      (left, c, written + 1)

/-- Drains the event queue into the writer of the connection and flushes once if anything was
accepted. The event that the writer refuses is lost. -/
def drainEvents (s : Session) (c : Connection) : Session × Connection :=
  if s.terminated then (s, c)
  else
    let (left, c, written) := writeAll s.events.items c
    ({ s with events := { s.events with items := left } },
      if written > 0 then c.flush.2 else c)

end Session

end Realm
