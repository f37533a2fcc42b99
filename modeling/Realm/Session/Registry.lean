import Realm.Session.Basic

/-!
# The registry of sessions

The live sessions, at most one for each connection, in the order of their connections.
-/

namespace Realm

structure Sessions where
  sessions : List Session
  deriving DecidableEq, Repr

namespace Sessions

def empty : Sessions := ⟨[]⟩

def get? (r : Sessions) (id : ConnectionId) : Option Session :=
  r.sessions.find? fun s => s.connection = id

/-- Puts a session at its place, instead of the one its connection had before. -/
def insertSession (new : Session) : List Session → List Session
  | [] => [new]
  | s :: rest =>
    if new.connection < s.connection then new :: s :: rest
    else if new.connection = s.connection then new :: rest
    else s :: insertSession new rest

def put (r : Sessions) (new : Session) : Option Session × Sessions :=
  (r.get? new.connection, ⟨insertSession new r.sessions⟩)

def remove (r : Sessions) (id : ConnectionId) : Option Session × Sessions :=
  (r.get? id, ⟨r.sessions.filter fun s => s.connection ≠ id⟩)

def modify (r : Sessions) (id : ConnectionId) (f : Session → Session) : Sessions :=
  ⟨r.sessions.map fun s => if s.connection = id then f s else s⟩

def modifyAll (r : Sessions) (f : Session → Session) : Sessions := ⟨r.sessions.map f⟩

def size (r : Sessions) : Nat := r.sessions.length

end Sessions

end Realm
