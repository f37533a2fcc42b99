import Realm.Net.Connections
import Realm.Session.Registry

/-!
# The lobby

The sessions and connections that the simulation shares with the rest of the server. What
concerns a session and its connection together is done here.
-/

namespace Realm

structure Lobby where
  sessions : Sessions
  connections : Connections
  deriving DecidableEq, Repr

namespace Lobby

def empty : Lobby := ⟨.empty, .empty⟩

def session? (l : Lobby) (id : ConnectionId) : Option Session := l.sessions.get? id

def modifySession (l : Lobby) (id : ConnectionId) (f : Session → Session) : Lobby :=
  { l with sessions := l.sessions.modify id f }

def modifyConnection (l : Lobby) (id : ConnectionId) (f : Connection → Connection) : Lobby :=
  { l with connections := l.connections.modify id f }

def isFinished (l : Lobby) (s : Session) : Bool :=
  s.isFinished (l.connections.isClosed s.connection)

/-- Ends a session that is registered: its queues are emptied and its connection is closed. -/
def terminate (l : Lobby) (id : ConnectionId) : Lobby :=
  match l.session? id with
  | none => l
  | some s => (l.modifySession id Session.terminate).modifyConnection id s.hangUp

def endSession (l : Lobby) (id : ConnectionId) : Lobby :=
  let l := l.terminate id
  { l with sessions := (l.sessions.remove id).2 }

def broadcast (l : Lobby) (e : Event) : Lobby :=
  { l with sessions := l.sessions.modifyAll fun s => (s.queueEvent e).2 }

/-- Queues a command on the session of a connection; whether it was accepted, if there is one. -/
def queueCommand (l : Lobby) (id : ConnectionId) (c : Command) : Option Bool × Lobby :=
  ((l.session? id).map fun s => (s.queueCommand c).1,
    l.modifySession id fun s => (s.queueCommand c).2)

/-- Queues an event on the session of a connection; whether it was accepted, if there is one. -/
def queueEvent (l : Lobby) (id : ConnectionId) (e : Event) : Option Bool × Lobby :=
  ((l.session? id).map fun s => (s.queueEvent e).1,
    l.modifySession id fun s => (s.queueEvent e).2)

def takeCommand (l : Lobby) (id : ConnectionId) : Option Command × Lobby :=
  ((l.session? id).bind fun s => s.dequeueCommand.1, l.modifySession id (·.dequeueCommand.2))

def drainEvents (l : Lobby) (id : ConnectionId) : Lobby :=
  match l.session? id, l.connections.find? id with
  | some s, some c =>
    let (s, c) := s.drainEvents c
    (l.modifySession id fun _ => s).modifyConnection id fun _ => c
  | _, _ => l

end Lobby

end Realm
