import Realm.Server.Routing

/-!
# The uplink

The reader of a connection frames what the client sends into packets and publishes them one after
the other. It ends when the client stops writing, when the server closes the connection, when the
client is silent for too long, and at the first thing that cannot be framed or decoded. While a
packet is being published nothing else is noticed.
-/

namespace Realm

/-- What a reader accepts and for how long it waits. -/
structure LineLimits where
  /-- How long a client may take to send a packet. -/
  idle : Duration
  /-- The longest payload that is accepted. -/
  maxPacket : Nat
  /-- The time that a login has. -/
  loginDeadline : Duration
  deriving DecidableEq, Repr

inductive UplinkPhase where
  /-- It waits for a packet since an instant. -/
  | reading (since : Instant)
  | publishing (delivery : Delivery Inbound)
  | ended (result : Except ServerError Unit)

structure Uplink where
  client : ConnectionId
  /-- The bytes that were sent but not framed yet. -/
  unread : List UInt8
  /-- Whether the client has stopped writing. -/
  hungUp : Bool
  phase : UplinkPhase

namespace Uplink

def start (client : ConnectionId) (now : Instant) : Uplink := ⟨client, [], false, .reading now⟩

def feed (u : Uplink) (bytes : List UInt8) : Uplink := { u with unread := u.unread ++ bytes }

def hangUp (u : Uplink) : Uplink := { u with hungUp := true }

inductive Glimpse where
  | packet (packet : Wire.Packet) (rest : List UInt8)
  /-- They are part of a packet, or nothing, and more may come. -/
  | incomplete
  /-- The client stopped between two packets. -/
  | ended
  | broken (error : Wire.WireError)

/-- Stands for the bytes that a client may still send. -/
def pending : Wire.Fault := ⟨.other, "more may come"⟩

/-- Looks at the bytes that were sent. As long as the client may go on, a reader that runs out of
them has only to wait. -/
def glimpse (limit : Nat) (u : Uplink) : Glimpse :=
  match Wire.Packet.read limit ⟨[u.unread], if u.hungUp then none else some pending⟩ with
  | (.ok (some p), s) => .packet p s.remaining
  | (.ok none, _) => .ended
  | (.error (.stream _), _) => .incomplete
  | (.error e, _) => .broken e

def finish (u : Uplink) (result : Except ServerError Unit) : Uplink :=
  { u with phase := .ended result }

def idleError (limits : LineLimits) (client : ConnectionId) : ServerError :=
  .network s!"connection {client} idle for {limits.idle.display}"

def accept (limits : LineLimits) (now : Instant) (router : Router Inbound) (u : Uplink)
    (p : Wire.Packet) : Uplink :=
  match Routed.ofPacket now limits.loginDeadline u.client p with
  | .error e => u.finish (.error e)
  | .ok routed =>
    match routed.delivery router with
    | none => { u with phase := .reading now }
    | some d => { u with phase := .publishing d }

/-- One thing that a reader does at an instant, if there is anything to do; `closed` tells whether
the server has closed the connection. -/
def step? (limits : LineLimits) (closed : Bool) (now : Instant) (router : Router Inbound)
    (u : Uplink) : Option (Uplink × Router Inbound) :=
  match u.phase with
  | .ended _ => none
  | .publishing d =>
    let (router, d) := d.advance now router
    if d.isDone then some ({ u with phase := .reading now }, router)
    else some ({ u with phase := .publishing d }, router)
  | .reading since =>
    if closed then some (u.finish (.ok ()), router)
    else match u.glimpse limits.maxPacket with
      | .packet p rest => some (accept limits now router { u with unread := rest } p, router)
      | .ended => some (u.finish (.ok ()), router)
      | .broken e => some (u.finish (.error (Routed.faultOf u.client e)), router)
      | .incomplete =>
        if since + limits.idle.millis ≤ now then
          some (u.finish (.error (idleError limits u.client)), router)
        else none

def steps (limits : LineLimits) (closed : Bool) (now : Instant) :
    (rounds : Nat) → Uplink → Router Inbound → Uplink × Router Inbound
  | 0, u, router => (u, router)
  | rounds + 1, u, router =>
    match u.step? limits closed now router with
    | some (u, router) => steps limits closed now rounds u router
    | none => (u, router)

/-- Everything that a reader does at an instant. Reading a packet takes two bytes at least and is
followed by one attempt to publish it, so a round for each byte is enough, with some to begin and to
end with. -/
def settle (limits : LineLimits) (closed : Bool) (now : Instant) (u : Uplink)
    (router : Router Inbound) : Uplink × Router Inbound :=
  u.steps limits closed now (u.unread.length + 3) router

def due? (limits : LineLimits) (u : Uplink) : Option Instant :=
  match u.phase with
  | .reading since => some (since + limits.idle.millis)
  | .publishing d => d.waitUntil
  | .ended _ => none

def result? (u : Uplink) : Option (Except ServerError Unit) :=
  match u.phase with
  | .ended result => some result
  | _ => none

end Uplink

end Realm
