import Realm.Message.Inbound
import Realm.Router.Delivery
import Realm.Server.Error

/-!
# Routing of client packets

A packet that a client sent is decoded and published on the topic of its message. A packet of an
unknown kind is skipped; any other that cannot be decoded ends the connection. Logins carry a
deadline.
-/

namespace Realm

inductive Routed where
  /-- Nothing: its kind is unknown. -/
  | skipped
  /-- It is published on a topic. -/
  | published (topic : Topic) (mail : Mail Inbound)
  deriving DecidableEq, Repr

namespace Routed

def faultOf (client : ConnectionId) (e : Wire.WireError) : ServerError :=
  .protocol s!"connection {client}: {e.message}"

/-- Decodes a packet of a client. Time for a login is counted from now. -/
def ofPacket (now : Instant) (loginDeadline : Duration) (client : ConnectionId)
    (p : Wire.Packet) : Except ServerError Routed :=
  match Command.catalog.decode p with
  | .ok (topic, command) =>
    let deadline := if topic = .login then some (now + loginDeadline.millis) else none
    .ok (.published topic ⟨client, .command command, deadline⟩)
  | .error e => if e.isFatal then .error (faultOf client e) else .ok .skipped

/-- The number under which the packets of a client wait in line. They are published one after
the other; odd numbers are left to the announcement of the client's login. -/
def ticket (client : ConnectionId) : Nat := 2 * client

/-- The delivery of what was routed; of nothing, it is done at once. -/
def delivery (router : Router Inbound) : Routed → Option (Delivery Inbound)
  | .skipped => none
  | .published topic mail => some (router.publish (ticket mail.client) topic mail)

end Routed

/-- A router that routes packets one after the other: what came of each and the milliseconds it
took, the router afterwards and the time. -/
def Router.routeAll (loginDeadline : Duration) (router : Router Inbound) (now : Instant) :
    List (ConnectionId × Wire.Packet) →
      List (Except ServerError Unit × Nat) × Router Inbound × Instant
  | [] => ([], router, now)
  | (client, p) :: rest =>
    match Routed.ofPacket now loginDeadline client p with
    | .error e =>
      let (results, last) := routeAll loginDeadline router now rest
      ((.error e, 0) :: results, last)
    | .ok routed =>
      let (after, time) := match routed.delivery router with
        | none => (router, now)
        | some d =>
          let outcome := d.run now router []
          (outcome.router, outcome.time)
      let (results, last) := routeAll loginDeadline after time rest
      ((.ok (), time - now) :: results, last)

end Realm
