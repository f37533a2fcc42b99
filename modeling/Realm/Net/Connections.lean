import Realm.Net.Connection

/-!
# The table of connections

Connections are numbered from one in the order they are opened. The table keeps every connection
that was ever opened, because sessions and writers may hold on to one that was removed; the
registered ones are those a client can be reached on.
-/

namespace Realm

structure Connections where
  /-- Every connection opened so far, in the order of their numbers. -/
  opened : List Connection
  /-- The numbers of the registered ones, in the order they were registered. -/
  registered : List ConnectionId
  deriving DecidableEq, Repr

namespace Connections

def empty : Connections := ⟨[], []⟩

def nextId (t : Connections) : ConnectionId := t.opened.length + 1

def register (t : Connections) (address : SocketAddress) (capacity : Nat) :
    Connection × Connections :=
  let c := Connection.fresh t.nextId address capacity
  (c, ⟨t.opened ++ [c], t.registered ++ [c.id]⟩)

/-- A connection that was opened, registered or not. -/
def find? (t : Connections) (id : ConnectionId) : Option Connection :=
  t.opened.find? fun c => c.id = id

def get? (t : Connections) (id : ConnectionId) : Option Connection :=
  if id ∈ t.registered then t.find? id else none

def modify (t : Connections) (id : ConnectionId) (f : Connection → Connection) : Connections :=
  { t with opened := t.opened.map fun c => if c.id = id then f c else c }

/-- Removes a registered connection and closes it; the connection as it then is. -/
def remove (t : Connections) (id : ConnectionId) : Option Connection × Connections :=
  match t.get? id with
  | none => (none, t)
  | some c => (some c.close,
      { t.modify id Connection.close with registered := t.registered.erase id })

def size (t : Connections) : Nat := t.registered.length

def closeAll (t : Connections) : Nat × Connections :=
  (t.size, t.registered.foldl (fun t id => t.modify id Connection.close) t)

def drainEach (t : Connections) :
    List Connection → List (ConnectionId × Option (List Outbound)) × Connections
  | [] => ([], t)
  | c :: rest =>
    let (items, drained) := c.drain none
    let (taken, t) := (t.modify c.id fun _ => drained).drainEach rest
    ((c.id, items) :: taken, t)

/-- Every writer takes all that waits for it; nothing is taken for a connection whose writer is
gone. -/
def drainAll (t : Connections) : List (ConnectionId × Option (List Outbound)) × Connections :=
  t.drainEach t.opened

/-- Whether a connection is closed; one that was never opened counts as closed. -/
def isClosed (t : Connections) (id : ConnectionId) : Bool :=
  match t.find? id with
  | some c => c.closed
  | none => true

end Connections

end Realm
