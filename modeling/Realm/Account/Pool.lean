import Realm.Account.Storage
import Realm.Time.Clock

/-!
# Account workers

A fixed number of workers serve lookups from one bounded queue. Who finds the queue full waits for
a place; places go to those who wait in the order they came, and workers take the jobs of the
queue in the same order. A pool keeps every job that was ever submitted, in the order of
submission, so the queue is the jobs that are queued and the line before it the jobs that wait.

A worker that goes down is not replaced. When the last one has, no queued job is served any more
and no further one is accepted.
-/

namespace Realm

/-- The number of a job: how many were submitted before it. -/
abbrev Ticket := Nat

inductive JobState where
  /-- It waits for a place in the queue. -/
  | waiting
  /-- It is in the queue. -/
  | queued
  /-- A worker looks it up, until an instant, if the lookup ends. -/
  | running (due : Option Instant) (finding : Finding)
  /-- It was looked up. -/
  | answered (result : LookupResult)
  /-- It was accepted, but no answer will come. -/
  | dropped
  /-- The workers had stopped before it was accepted. -/
  | refused
  /-- Its requester gave up before it was accepted. -/
  | withdrawn

namespace JobState

def isWaiting : JobState → Bool
  | .waiting => true
  | _ => false

def isQueued : JobState → Bool
  | .queued => true
  | _ => false

def isRunning : JobState → Bool
  | .running _ _ => true
  | _ => false

def due? : JobState → Option Instant
  | .running due _ => due
  | _ => none

/-- What becomes of a job when the last worker has gone down. -/
def abandon : JobState → JobState
  | .waiting => .refused
  | .queued => .dropped
  | state => state

end JobState

structure Job where
  username : String
  state : JobState

structure Pool where
  storage : Storage
  /-- The number of places in the queue. -/
  capacity : Nat
  /-- The number of workers that have not gone down. -/
  workers : Nat
  /-- Every job, in the order of submission. -/
  jobs : List Job
  /-- The usernames looked up so far, in order. -/
  calls : List String

namespace Pool

/-- A pool that has just been started. There is at least one worker and one place. -/
def start (storage : Storage) (workers capacity : Nat) : Pool :=
  ⟨storage, max 1 capacity, max 1 workers, [], []⟩

def count (p : Pool) (test : JobState → Bool) : Nat := p.jobs.countP fun job => test job.state

def queued (p : Pool) : Nat := p.count JobState.isQueued

def state? (p : Pool) (ticket : Ticket) : Option JobState := p.jobs[ticket]?.map (·.state)

def setState (p : Pool) (ticket : Ticket) (state : JobState) : Pool :=
  { p with jobs := p.jobs.modify ticket fun job => { job with state } }

def admission (p : Pool) : JobState :=
  if p.workers = 0 then .refused
  else if p.queued < p.capacity ∧ p.count JobState.isWaiting = 0 then .queued
  else .waiting

def submit (p : Pool) (username : String) : Ticket × Pool :=
  (p.jobs.length, { p with jobs := p.jobs ++ [⟨username, p.admission⟩] })

/-- A requester gives up waiting for a place. -/
def withdraw (p : Pool) (ticket : Ticket) : Pool :=
  match p.state? ticket with
  | some .waiting => p.setState ticket .withdrawn
  | _ => p

/-- A worker goes down; with the last one, everything still to be done is abandoned. -/
def loseWorker (p : Pool) : Pool :=
  let workers := p.workers - 1
  { p with
    workers
    jobs := if workers = 0 then p.jobs.map fun job => { job with state := job.state.abandon }
      else p.jobs }

def first? (p : Pool) (test : JobState → Bool) : Option (Ticket × Job) :=
  (p.jobs.findIdx? fun job => test job.state).bind fun ticket =>
    p.jobs[ticket]?.map fun job => (ticket, job)

def finish? (now : Instant) (p : Pool) : Option Pool :=
  match p.first? fun state => state.due?.any (· ≤ now) with
  | some (ticket, ⟨_, .running _ (.answer result)⟩) => some (p.setState ticket (.answered result))
  | some (ticket, ⟨_, .running _ .crash⟩) => some (p.setState ticket .dropped).loseWorker
  | _ => none

/-- A worker without a job takes the first one of the queue. -/
def take? (now : Instant) (p : Pool) : Option Pool :=
  if p.count JobState.isRunning < p.workers then
    match p.first? JobState.isQueued with
    | some (ticket, job) =>
      let lookup := p.storage p.calls.length job.username
      some { p.setState ticket (.running (lookup.duration.map (now + ·)) lookup.finding) with
        calls := p.calls ++ [job.username] }
    | none => none
  else none

/-- The first job in the line gets a free place of the queue. -/
def enter? (p : Pool) : Option Pool :=
  if p.queued < p.capacity then
    (p.first? JobState.isWaiting).map fun (ticket, _) => p.setState ticket .queued
  else none

/-- One thing that happens at an instant, if anything does. -/
def step? (now : Instant) (p : Pool) : Option Pool :=
  p.finish? now <|> p.take? now <|> p.enter?

def steps (now : Instant) : (rounds : Nat) → Pool → Pool
  | 0, p => p
  | rounds + 1, p =>
    match p.step? now with
    | some p => steps now rounds p
    | none => p

/-- Everything that happens at an instant. Each thing moves a job onward, and a job moves at most
three times, so three rounds for each job are enough. -/
def settle (now : Instant) (p : Pool) : Pool := p.steps now (3 * p.jobs.length)

def due? (p : Pool) : Option Instant := Instant.earliest (p.jobs.map (·.state.due?))

instance : Clocked Pool := ⟨settle, due?⟩

/-- Why a job was not accepted. -/
inductive SubmitError where
  | timeout
  | closed
  deriving DecidableEq, Repr

def SubmitError.message : SubmitError → String
  | .timeout => "account job queue stayed full"
  | .closed => "account workers have stopped"

/-- Waits until a job was accepted, but not beyond `limit`, when its requester gives up. -/
def accept (now limit : Instant) (ticket : Ticket) (p : Pool) :
    Except SubmitError Unit × Instant × Pool :=
  let isSettled := fun (p : Pool) => !(p.state? ticket).any JobState.isWaiting
  let (now, p) := Clocked.runUntil isSettled now limit p
  match p.state? ticket with
  | some .waiting => (.error .timeout, now, p.withdraw ticket)
  | some .refused => (.error .closed, now, p)
  | _ => (.ok (), now, p)

end Pool

end Realm
