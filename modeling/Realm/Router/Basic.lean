import Realm.Message.Topic
import Realm.Router.Mailbox

/-!
# The router

A router keeps, for each topic, the list of subscribed mailboxes in the order of subscription.
Closing is final and concerns a mailbox as a whole: a mailbox that is unsubscribed from one topic,
or whose topic collapses, leaves every topic. A mailbox that its consumer closed or dropped stays
in the lists until the next change of subscriptions, but counts for nothing there.

Subscribing a mailbox to a further topic takes two steps, because the list of the topic may be
in use by others in between: first the mailbox is found open, then it is added.
-/

namespace Realm

structure RouterConfig where
  /-- How long one delivery waits for a place. -/
  publishTimeout : Duration
  /-- The number of places of each mailbox. -/
  mailboxCapacity : Nat
  deriving DecidableEq, Repr

inductive RouterError where
  | mailboxClosed (id : MailboxId)
  deriving DecidableEq, Repr

def RouterError.message : RouterError → String
  | .mailboxClosed id => s!"mailbox {id} is closed"

/-- The subscriptions of topics, and every mailbox that was ever made. -/
structure Router (α : Type) where
  config : RouterConfig
  boxes : List (Mailbox α)
  topics : List (Topic × List MailboxId)
  deriving Repr

namespace Router

variable {α : Type}

/-- The router without subscriptions. A mailbox has at least one place. -/
def new (config : RouterConfig) : Router α :=
  ⟨{ config with mailboxCapacity := max 1 config.mailboxCapacity }, [], []⟩

def nextId (r : Router α) : MailboxId := r.boxes.length + 1

def box? (r : Router α) (id : MailboxId) : Option (Mailbox α) :=
  r.boxes.find? fun m => m.id = id

def modifyBox (r : Router α) (id : MailboxId) (f : Mailbox α → Mailbox α) : Router α :=
  { r with boxes := r.boxes.map fun m => if m.id = id then f m else m }

def refuses (r : Router α) (id : MailboxId) : Bool :=
  match r.box? id with
  | some m => m.refuses
  | none => true

def subscribers (r : Router α) (topic : Topic) : List MailboxId :=
  (r.topics.lookup topic).getD []

def holds (r : Router α) (id : MailboxId) : Bool := r.topics.any fun entry => id ∈ entry.2

/-! ## Subscriptions -/

/-- Marks mailboxes as closed and takes them out of every topic; topics without subscriptions
disappear. -/
def closeAll (r : Router α) (closing : MailboxId → Bool) : Router α :=
  { r with
    boxes := r.boxes.map fun m => if closing m.id then m.mark else m
    topics := (r.topics.map fun (topic, ids) => (topic, ids.filter fun id => !closing id)).filter
      fun entry => !entry.2.isEmpty }

/-- Takes out the mailboxes that refuse mail. -/
def prune (r : Router α) : Router α := r.closeAll fun id => r.holds id && r.refuses id

def append (topic : Topic) (id : MailboxId) :
    List (Topic × List MailboxId) → List (Topic × List MailboxId)
  | [] => [(topic, [id])]
  | (other, ids) :: rest =>
    if other = topic then (other, ids ++ [id]) :: rest else (other, ids) :: append topic id rest

/-- The second step of a subscription: the closed mailboxes go, this one comes. -/
def attach (r : Router α) (topic : Topic) (id : MailboxId) : Router α :=
  let r := r.prune
  { r with topics := append topic id r.topics }

/-- Makes a mailbox that is subscribed to a topic. -/
def subscribe (r : Router α) (topic : Topic) : MailboxId × Router α :=
  let id := r.nextId
  let fresh := Mailbox.fresh id r.config.mailboxCapacity
  (id, { r with boxes := r.boxes ++ [fresh] }.attach topic id)

/-- The first step of a subscription to a further topic: the mailbox must not be closed, and some
topic must still hold it. -/
def isOpen (r : Router α) (id : MailboxId) : Bool :=
  match r.box? id with
  | some m => !m.closed && r.holds id
  | none => false

/-- Subscribes a mailbox to a further topic. Doing so twice counts twice. -/
def subscribeTo (r : Router α) (topic : Topic) (id : MailboxId) :
    Except RouterError (Router α) :=
  if r.isOpen id then .ok (r.attach topic id) else .error (.mailboxClosed id)

/-- Takes a mailbox off a topic and closes it; nothing happens if the topic does not hold it. -/
def unsubscribe (r : Router α) (topic : Topic) (id : MailboxId) : Router α :=
  if id ∈ r.subscribers topic then (r.closeAll (· = id)).prune else r

/-- Gives a topic up and closes every mailbox that was subscribed to it. -/
def collapse (r : Router α) (topic : Topic) : Router α :=
  let closing := r.subscribers topic
  if closing.isEmpty then r else (r.closeAll (· ∈ closing)).prune

/-- The number of open subscriptions of a topic, counting repeated ones. -/
def sizeOf (r : Router α) (topic : Topic) : Nat :=
  ((r.subscribers topic).filter fun id => !r.refuses id).length

def topicCount (r : Router α) : Nat :=
  (r.topics.filter fun entry => entry.2.any fun id => !r.refuses id).length

/-! ## Consumers -/

inductive Found (α : Type) where
  | mail (mail : Mail α)
  /-- No mail is there, and none will come. -/
  | ended
  /-- No mail is there yet. -/
  | nothing
  deriving Repr

def receive (r : Router α) (id : MailboxId) : Found α × Router α :=
  match r.box? id with
  | none => (.ended, r)
  | some m =>
    match m.take with
    | (some mail, m) => (.mail mail, r.modifyBox id fun _ => m)
    | (none, _) =>
      if m.consumer = .listening ∧ r.holds id then (.nothing, r) else (.ended, r)

def backlog (r : Router α) (id : MailboxId) : Nat := ((r.box? id).map (·.queue.size)).getD 0

inductive ConsumerAction where
  | take
  | close
  | drop
  deriving DecidableEq, Repr

/-- A consumer acts on its mailbox; the mail it got, if any. -/
def act (r : Router α) (id : MailboxId) : ConsumerAction → Option (Mail α) × Router α
  | .take =>
    match r.receive id with
    | (.mail mail, r) => (some mail, r)
    | (_, r) => (none, r)
  | .close => (none, r.modifyBox id Mailbox.close)
  | .drop => (none, r.modifyBox id Mailbox.drop)

def takeUpTo (r : Router α) (id : MailboxId) : Nat → List (Mail α) × Router α
  | 0 => ([], r)
  | n + 1 =>
    match r.act id .take with
    | (none, r) => ([], r)
    | (some mail, r) =>
      let (rest, r) := r.takeUpTo id n
      (mail :: rest, r)

def takeAll (r : Router α) (id : MailboxId) : List (Mail α) × Router α :=
  r.takeUpTo id (r.backlog id)

end Router

end Realm
