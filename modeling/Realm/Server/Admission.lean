import Realm.Net.Connections

/-!
# Admission of clients

The accept loop compares the number of registered connections with the limit before it lets a
client in, but the client's connection is registered only when its handler begins to run, and that
may be later.
-/

namespace Realm

structure Admission where
  /-- The greatest number of connections. -/
  limit : Nat
  connections : Connections
  /-- The clients that were let in and whose handler has not begun. -/
  expected : List SocketAddress
  deriving DecidableEq, Repr

inductive AdmissionEvent where
  /-- A client arrives. -/
  | arrival (address : SocketAddress)
  /-- The handler of the `n`-th expected client begins. -/
  | beginning (n : Nat)
  /-- The handler of a connection ends. -/
  | departure (id : ConnectionId)
  deriving DecidableEq, Repr

namespace Admission

/-- A client arrives: it is let in if the registered connections leave room for it. -/
def arrive (a : Admission) (address : SocketAddress) : Admission :=
  if a.connections.size < a.limit then { a with expected := a.expected ++ [address] } else a

/-- Lets a handler begin: its connection is registered with room for `capacity` items. -/
def begin (a : Admission) (capacity n : Nat) : Option (Connection × Admission) :=
  a.expected[n]?.map fun address =>
    let (c, connections) := a.connections.register address capacity
    (c, { a with connections, expected := a.expected.eraseIdx n })

def step (capacity : Nat) (a : Admission) : AdmissionEvent → Admission
  | .arrival address => a.arrive address
  | .beginning n => ((a.begin capacity n).map (·.2)).getD a
  | .departure id => { a with connections := (a.connections.remove id).2 }

def run (capacity : Nat) (a : Admission) (events : List AdmissionEvent) : Admission :=
  events.foldl (step capacity) a

end Admission

end Realm
