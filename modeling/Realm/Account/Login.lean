import Realm.Account.Authenticator
import Realm.Message.Event
import Realm.Message.Inbound
import Realm.Net.Connections
import Realm.Router.Delivery

/-!
# The login service

The service takes login mail and authenticates each request on the side, a limited number of them
at once and one for each connection. A request beyond the limit is turned away; a further one of
the same connection is ignored. An accepted client is announced to the simulation; any other gets
its reason and is disconnected, if it is still there.
-/

namespace Realm

/-- What the login service shares with the rest of the server. -/
structure Hub where
  router : Router Inbound
  connections : Connections

inductive LoginStage where
  /-- The outcome is known, but nothing was done about it. -/
  | judged (outcome : AuthOutcome)
  /-- The workers are asked, under the number of the request. -/
  | authenticating (request : Nat)
  /-- The simulation is told. -/
  | announcing (delivery : Delivery Inbound)

/-- A login under way. It holds a permit until it ends. -/
structure Login where
  client : ConnectionId
  stage : LoginStage

structure LoginService where
  authenticator : Authenticator
  /-- The number of logins that may still begin. -/
  permits : Nat
  /-- The connections with a login under way. -/
  pending : List ConnectionId
  /-- In the order they began. -/
  logins : List Login

namespace LoginService

/-- A service without logins, which has at least one permit. -/
def start (authenticator : Authenticator) (maxPending : Nat) : LoginService :=
  ⟨authenticator, max 1 maxPending, [], []⟩

/-- Tells a client why its login failed and disconnects it, if it is still there. -/
def reject (connections : Connections) (client : ConnectionId) (reason : String) : Connections :=
  match connections.get? client with
  | none => connections
  | some _ => connections.modify client (·.dismiss (Event.loginRejected reason).toPacket)

def request (now : Instant) (s : LoginService) (hub : Hub) (client : ConnectionId)
    (username password : String) (expired : Bool) : LoginService × Hub :=
  if client ∈ s.pending then (s, hub)
  else if s.permits = 0 then
    (s, { hub with connections := reject hub.connections client AuthOutcome.outOfTime })
  else
    let s := { s with permits := s.permits - 1, pending := s.pending ++ [client] }
    if expired then ({ s with logins := s.logins ++ [⟨client, .judged .timedOut⟩] }, hub)
    else
      let (number, authenticator) := s.authenticator.submit now username password
      ({ s with authenticator, logins := s.logins ++ [⟨client, .authenticating number⟩] }, hub)

/-- Takes one piece of mail; what is no login request is ignored. -/
def take (now : Instant) (s : LoginService) (hub : Hub) (mail : Mail Inbound) :
    LoginService × Hub :=
  match mail.payload with
  | .command (.login username password) =>
    request now s hub mail.client username password (mail.isExpired now)
  | _ => (s, hub)

/-- The number under which the announcement of a client waits in line. A client has one login under
way at most; even numbers are left to its packets. -/
def ticket (client : ConnectionId) : Nat := 2 * client + 1

/-- Goes on announcing a client, who is rejected if that fails. `none` means that the login has
ended. -/
def announce (now : Instant) (hub : Hub) (client : ConnectionId) (d : Delivery Inbound) :
    Option Login × Hub :=
  let (router, d) := d.advance now hub.router
  let hub := { hub with router }
  if !d.isDone then (some ⟨client, .announcing d⟩, hub)
  else if d.succeeded then (none, hub)
  else (none, { hub with connections := reject hub.connections client AuthOutcome.internalError })

def conclude (now : Instant) (hub : Hub) (client : ConnectionId) (outcome : AuthOutcome) :
    Option Login × Hub :=
  match outcome with
  | .success account =>
    announce now hub client
      (hub.router.publish (ticket client) .authenticated ⟨client, .authenticated account, none⟩)
  | _ =>
    let reason := outcome.rejectionReason.getD AuthOutcome.internalError
    (none, { hub with connections := reject hub.connections client reason })

def proceed (now : Instant) (a : Authenticator) (hub : Hub) (login : Login) :
    Option Login × Hub :=
  match login.stage with
  | .judged outcome => conclude now hub login.client outcome
  | .announcing d => announce now hub login.client d
  | .authenticating number =>
    match a.outcome? number with
    | none => (some login, hub)
    | some outcome => conclude now hub login.client outcome

/-- The logins do what they can, in order. One that ends gives its permit back. -/
def proceedAll (now : Instant) (s : LoginService) (hub : Hub) : List Login → LoginService × Hub
  | [] => ({ s with logins := [] }, hub)
  | login :: rest =>
    match proceed now s.authenticator hub login with
    | (some login, hub) =>
      let (s, hub) := proceedAll now s hub rest
      ({ s with logins := login :: s.logins }, hub)
    | (none, hub) =>
      let s := { s with permits := s.permits + 1, pending := s.pending.erase login.client }
      proceedAll now s hub rest

def settle (now : Instant) (s : LoginService) (hub : Hub) : LoginService × Hub :=
  let s := { s with authenticator := s.authenticator.settle now }
  proceedAll now s hub s.logins

/-- Takes the mail of a mailbox, as much of it as `rounds` allows. -/
def takeAll (now : Instant) (mailbox : MailboxId) :
    (rounds : Nat) → LoginService → Hub → LoginService × Hub
  | 0, s, hub => (s, hub)
  | rounds + 1, s, hub =>
    match hub.router.receive mailbox with
    | (.mail mail, router) =>
      let (s, hub) := s.take now { hub with router } mail
      takeAll now mailbox rounds s hub
    | _ => (s, hub)

/-- Takes all mail of a mailbox and does everything that can be done about it. -/
def serve (now : Instant) (mailbox : MailboxId) (s : LoginService) (hub : Hub) :
    LoginService × Hub :=
  let (s, hub) := takeAll now mailbox (hub.router.backlog mailbox) s hub
  s.settle now hub

def dueOf? (login : Login) : Option Instant :=
  match login.stage with
  | .announcing d => d.waitUntil
  | _ => none

def due? (s : LoginService) : Option Instant :=
  Instant.earlier s.authenticator.due? (Instant.earliest (s.logins.map dueOf?))

end LoginService

structure LoginDesk where
  service : LoginService
  hub : Hub
  mailbox : MailboxId

namespace LoginDesk

def settle (now : Instant) (d : LoginDesk) : LoginDesk :=
  let (service, hub) := d.service.serve now d.mailbox d.hub
  { d with service, hub }

instance : Clocked LoginDesk := ⟨settle, fun d => d.service.due?⟩

/-- Whether a login is being announced, which keeps the topics from being changed. -/
def isAnnouncing (d : LoginDesk) : Bool :=
  d.service.logins.any fun login => match login.stage with
    | .announcing _ => true
    | _ => false

end LoginDesk

end Realm
