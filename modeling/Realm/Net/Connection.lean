import Realm.Bounded
import Realm.Net.Address
import Realm.Wire.Packet

/-!
# Connections

A connection is the server's side of one client. It never touches the socket: what is to be sent
waits in a bounded queue for the connection's writer. Closing marks the connection and puts a
last item into the queue, behind which nothing is accepted any more; like every other item it
needs a free place.
-/

namespace Realm

abbrev ConnectionId := Nat

inductive Outbound where
  /-- Write a packet into the writer's buffer. -/
  | packet (packet : Wire.Packet)
  /-- Push the buffer to the socket. -/
  | flush
  /-- Push the buffer, end the stream and stop. -/
  | close
  deriving DecidableEq, Repr

structure Connection where
  id : ConnectionId
  address : SocketAddress
  queue : Bounded Outbound
  closed : Bool
  /-- Whether the writer has gone, so that nothing is taken from the queue any more. -/
  writerGone : Bool
  deriving DecidableEq, Repr

namespace Connection

def fresh (id : ConnectionId) (address : SocketAddress) (capacity : Nat) : Connection :=
  ⟨id, address, .empty capacity, false, false⟩

/-- Puts an item into the queue, unless the writer is gone or the queue is full. -/
def enqueue (c : Connection) (item : Outbound) : Bool × Connection :=
  if c.writerGone then (false, c)
  else
    let (accepted, queue) := c.queue.offer item
    (accepted, { c with queue })

def offer (c : Connection) (item : Outbound) : Bool × Connection :=
  if c.closed then (false, c) else c.enqueue item

def send (c : Connection) (p : Wire.Packet) : Bool × Connection := c.offer (.packet p)

/-- Asks the writer to push what it has. -/
def flush (c : Connection) : Bool × Connection := c.offer .flush

/-- Closes the connection, once: the writer is told to finish if the queue has room for it. -/
def close (c : Connection) : Connection :=
  if c.closed then c else { (c.enqueue .close).2 with closed := true }

/-- Sends a packet, flushes and closes, whatever is accepted of it. -/
def dismiss (c : Connection) (p : Wire.Packet) : Connection :=
  (c.send p).2.flush.2.close

/-- The writer takes the first `n` items, or all if `n` is none. A writer that is gone takes
nothing. -/
def drain (c : Connection) (n : Option Nat) : Option (List Outbound) × Connection :=
  if c.writerGone then (none, c)
  else
    let (items, queue) := c.queue.drain n
    (some items, { c with queue })

/-- The writer goes away, with all that was queued for it. -/
def dropWriter (c : Connection) : Connection :=
  { c with writerGone := true, queue := c.queue.clear }

end Connection

end Realm
