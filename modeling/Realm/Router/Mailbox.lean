import Realm.Bounded
import Realm.Net.Connection
import Realm.Time.Instant

/-!
# Mail and mailboxes

Mail carries a payload, the client it came from and possibly a deadline. A mailbox is a bounded
queue that one consumer takes mail from. Who finds it full may wait for a place; places that
become free go to those who wait, in the order they came.
-/

namespace Realm

structure Mail (α : Type) where
  client : ConnectionId
  payload : α
  deadline : Option Instant
  deriving DecidableEq, Repr

/-- Whether the deadline, if there is one, has come. -/
def Mail.isExpired {α : Type} (m : Mail α) (now : Instant) : Bool :=
  m.deadline.any (· ≤ now)

abbrev MailboxId := Nat

/-- What the consumer of a mailbox did with it. -/
inductive Consumer where
  /-- The consumer takes mail. -/
  | listening
  /-- The consumer accepts no further mail, but can take what is queued. -/
  | shut
  /-- The consumer dropped the mailbox. -/
  | gone
  deriving DecidableEq, Repr

structure Mailbox (α : Type) where
  id : MailboxId
  queue : Bounded (Mail α)
  /-- Whether the mailbox was marked as closed, by a router or by its consumer. -/
  closed : Bool
  consumer : Consumer
  /-- The deliveries that wait for a place, in the order they came. -/
  waiting : List Nat
  deriving Repr

namespace Mailbox

variable {α : Type}

def fresh (id : MailboxId) (capacity : Nat) : Mailbox α :=
  ⟨id, .empty capacity, false, .listening, []⟩

def refuses (m : Mailbox α) : Bool := m.closed || m.consumer != .listening

def mark (m : Mailbox α) : Mailbox α := { m with closed := true }

/-- The consumer closes the mailbox: queued mail can still be taken. -/
def close (m : Mailbox α) : Mailbox α := { m with closed := true, consumer := .shut }

/-- The consumer drops the mailbox with all mail in it. -/
def drop (m : Mailbox α) : Mailbox α := { m with consumer := .gone, queue := m.queue.clear }

def take (m : Mailbox α) : Option (Mail α) × Mailbox α :=
  let (mail, queue) := m.queue.pop
  (mail, { m with queue })

/-- The place of a delivery among those that wait: newcomers stand behind all others. -/
def rank (m : Mailbox α) (ticket : Nat) : Nat := m.waiting.idxOf ticket

def leave (m : Mailbox α) (ticket : Nat) : Mailbox α :=
  { m with waiting := m.waiting.erase ticket }

/-- A delivery offers its mail. It is queued if there is a place that nobody waiting earlier has a
claim on; else the delivery waits in line. -/
def offer (m : Mailbox α) (ticket : Nat) (mail : Mail α) : Bool × Mailbox α :=
  if m.rank ticket < m.queue.room then
    (true, { m.leave ticket with queue := m.queue.push mail })
  else if ticket ∈ m.waiting then (false, m)
  else (false, { m with waiting := m.waiting ++ [ticket] })

end Mailbox

end Realm
