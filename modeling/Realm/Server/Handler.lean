import Realm.Account.Login
import Realm.Server.Downlink
import Realm.Server.Uplink

/-!
# Connection handlers

Each client is served by a reader and a writer. When the reader ends, the connection is closed and
the writer gets some time to push what was queued; after that the connection is removed, and the
socket with it, whether the writer was done or not.
-/

namespace Realm

structure Handler where
  uplink : Uplink
  downlink : Downlink
  /-- Until when the writer may go on, once the reader has ended. -/
  leaving : Option Instant
  /-- Whether the connection was removed. -/
  gone : Bool

namespace Handler

/-- How long the writer may go on after the reader has ended. -/
def drainTimeout : Duration := .ofSeconds 2

def start (now : Instant) (c : Connection) : Handler := ⟨.start c.id now, .fresh, none, false⟩

def client (h : Handler) : ConnectionId := h.uplink.client

def write (h : Handler) (connections : Connections) : Handler × Connections :=
  match connections.find? h.client with
  | none => (h, connections)
  | some c =>
    let (downlink, c) := h.downlink.drain c
    ({ h with downlink }, connections.modify h.client fun _ => c)

def read (limits : LineLimits) (now : Instant) (h : Handler) (hub : Hub) : Handler × Hub :=
  let (uplink, router) :=
    h.uplink.settle limits (hub.connections.isClosed h.client) now hub.router
  ({ h with uplink }, { hub with router })

/-- Closes the connection when the reader has ended. -/
def leave (now : Instant) (h : Handler) (connections : Connections) : Handler × Connections :=
  if h.uplink.result?.isSome ∧ h.leaving = none then
    ({ h with leaving := some (now + drainTimeout.millis) },
      connections.modify h.client Connection.close)
  else (h, connections)

/-- Removes the connection when the writer is done or its time is over. -/
def remove (now : Instant) (h : Handler) (connections : Connections) : Handler × Connections :=
  if h.leaving.isSome ∧ !h.gone ∧ (h.downlink.finished ∨ h.leaving.any (· ≤ now)) then
    ({ h with gone := true },
      ((connections.remove h.client).2).modify h.client Connection.dropWriter)
  else (h, connections)

def settle (limits : LineLimits) (now : Instant) (h : Handler) (hub : Hub) : Handler × Hub :=
  if h.gone then (h, hub)
  else
    let (h, hub) := h.read limits now hub
    let (h, connections) := h.leave now hub.connections
    let (h, connections) := h.write connections
    let (h, connections) := h.remove now connections
    (h, { hub with connections })

def due? (limits : LineLimits) (h : Handler) : Option Instant :=
  if h.gone then none else Instant.earlier (h.uplink.due? limits) h.leaving

def result? (h : Handler) : Option (Except ServerError Unit) :=
  if h.gone then h.uplink.result? else none

/-- Whether the client has been told that nothing further comes. -/
def isSilent (h : Handler) : Bool := h.gone || h.downlink.finished

/-- The client sends bytes; whether there was anybody to send them to. -/
def feed (h : Handler) (bytes : List UInt8) : Bool × Handler :=
  if h.gone then (false, h) else (true, { h with uplink := h.uplink.feed bytes })

def hangUp (h : Handler) : Handler := { h with uplink := h.uplink.hangUp }

end Handler

structure HandlerDesk where
  limits : LineLimits
  handler : Handler
  hub : Hub

namespace HandlerDesk

def settle (now : Instant) (d : HandlerDesk) : HandlerDesk :=
  let (handler, hub) := d.handler.settle d.limits now d.hub
  { d with handler, hub }

instance : Clocked HandlerDesk := ⟨settle, fun d => d.handler.due? d.limits⟩

end HandlerDesk

end Realm
