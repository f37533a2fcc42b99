import Realm.Router.Basic

/-!
# Deliveries

Publishing attempts the subscriptions of a topic one after the other and gives up at the first
that stays full for the whole publish timeout. Broadcasting attempts every distinct mailbox and
goes on past those that stay full. Either can take time, so a delivery is a state of its own that
is advanced whenever something may have changed: `Delivery.advance` does all that can be done at
one instant.
-/

namespace Realm

structure Delivery (α : Type) where
  /-- The number under which the delivery waits in line. -/
  ticket : Nat
  mail : Mail α
  /-- Whether the delivery goes on past a mailbox that stays full. -/
  persistent : Bool
  /-- The mailboxes still to be attempted, in order. -/
  todo : List MailboxId
  /-- Until when the first of them is waited for, once it was found full. -/
  waitUntil : Option Instant
  /-- The number of mailboxes that got the mail. -/
  delivered : Nat
  /-- Whether the delivery gave up. -/
  gaveUp : Bool
  deriving Repr

namespace Router

variable {α : Type}

def publish (r : Router α) (ticket : Nat) (topic : Topic) (mail : Mail α) : Delivery α :=
  ⟨ticket, mail, false, r.subscribers topic, none, 0, false⟩

def broadcast (r : Router α) (ticket : Nat) (mail : Mail α) : Delivery α :=
  ⟨ticket, mail, true, (r.topics.flatMap (·.2)).eraseDups, none, 0, false⟩

def offer (r : Router α) (id : MailboxId) (ticket : Nat) (mail : Mail α) : Bool × Router α :=
  match r.box? id with
  | none => (false, r)
  | some m =>
    let (accepted, m) := m.offer ticket mail
    (accepted, r.modifyBox id fun _ => m)

def withdraw (r : Router α) (id : MailboxId) (ticket : Nat) : Router α :=
  r.modifyBox id (·.leave ticket)

end Router

namespace Delivery

variable {α : Type}

def isDone (d : Delivery α) : Bool := d.todo.isEmpty

def succeeded (d : Delivery α) : Bool := d.isDone && !d.gaveUp

/-- Attempts mailboxes in order, `due` telling until when the first of them is waited for. A
closed mailbox is skipped, also one that was waited for; one that is full is waited for. -/
def attempt (now : Instant) (d : Delivery α) (r : Router α) :
    List MailboxId → Option Instant → (delivered : Nat) → Router α × Delivery α
  | [], _, delivered => (r, { d with todo := [], waitUntil := none, delivered })
  | id :: rest, due, delivered =>
    if r.refuses id then
      attempt now d ((if due.isSome then r.modifyBox id Mailbox.mark else r).withdraw id d.ticket)
        rest none delivered
    else
      match r.offer id d.ticket d.mail with
      | (true, r) => attempt now d r rest none (delivered + 1)
      | (false, r) =>
        let due := due.getD (now + r.config.publishTimeout.millis)
        if due ≤ now then
          let r := r.withdraw id d.ticket
          if d.persistent then attempt now d r rest none delivered
          else (r, { d with todo := [], waitUntil := none, delivered, gaveUp := true })
        else (r, { d with todo := id :: rest, waitUntil := some due, delivered })

def advance (now : Instant) (r : Router α) (d : Delivery α) : Router α × Delivery α :=
  attempt now d r d.todo d.waitUntil d.delivered

structure Timed where
  time : Instant
  mailbox : Option MailboxId
  action : Router.ConsumerAction
  deriving Repr

/-- How a delivery ended, with what the consumers took meanwhile and when. -/
structure Outcome (α : Type) where
  router : Router α
  delivery : Delivery α
  taken : List (Option (Mail α × Instant))
  time : Instant
  deriving Repr

/-- Lets a delivery and the actions of consumers, in order, take their time. Each round does one
action or ends one wait, so as many rounds are enough as there are actions and mailboxes. -/
def runFor (rounds : Nat) (now : Instant) (r : Router α) (d : Delivery α) (actions : List Timed) :
    Outcome α :=
  let (r, d) := d.advance now r
  match rounds with
  | 0 => ⟨r, d, [], now⟩
  | rounds + 1 =>
    match actions, d.waitUntil with
    | [], none => ⟨r, d, [], now⟩
    | [], some due => runFor rounds due r d []
    | a :: rest, due =>
      let time := max now a.time
      if due.any (· < time) then runFor rounds (due.getD now) r d (a :: rest)
      else
        let (mail, r) := match a.mailbox with
          | some id => r.act id a.action
          | none => (none, r)
        let outcome := runFor rounds time r d rest
        { outcome with taken := mail.map (·, time) :: outcome.taken }

def run (now : Instant) (r : Router α) (d : Delivery α) (actions : List Timed) : Outcome α :=
  runFor (actions.length + d.todo.length + 1) now r d actions

end Delivery

end Realm
