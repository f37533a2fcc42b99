import Realm.Account.Pool
import Realm.Time.Duration

/-!
# Authentication

A request is submitted to the workers and then waits for its answer, each for a limited time. Its
outcome is known at one instant and never changes: an answer that comes later concerns nobody.
-/

namespace Realm

inductive AuthOutcome where
  | success (account : Account)
  | accountNotFound
  | passwordMismatch
  /-- The workers were busy for too long, or did not answer in time. -/
  | timedOut
  /-- There was no answer, for the reason given. -/
  | fetchError (reason : String)
  deriving DecidableEq, Repr

namespace AuthOutcome

/-- What a client is told whose login has failed inside the server. -/
def internalError : String := "internal server error"

/-- What a client is told for whom the server had no time. -/
def outOfTime : String := "request timed out"

def rejectionReason : AuthOutcome → Option String
  | .success _ => none
  | .accountNotFound | .passwordMismatch => some "invalid credentials"
  | .timedOut => some outOfTime
  | .fetchError _ => some internalError

def ofResult (password : String) : LookupResult → AuthOutcome
  | .error e => .fetchError e.message
  | .ok none => .accountNotFound
  | .ok (some account) => if account.accepts password then .success account else .passwordMismatch

end AuthOutcome

/-- How long a request may wait. -/
structure AuthLimits where
  /-- For a place in the queue of the workers. -/
  consume : Duration
  /-- For the answer, once there was a place. -/
  fetch : Duration
  deriving DecidableEq, Repr

inductive AuthPhase where
  | queueing (limit : Instant)
  | fetching (limit : Instant)
  | concluded (outcome : AuthOutcome) (time : Instant)
  deriving Repr

def AuthPhase.due? : AuthPhase → Option Instant
  | .queueing limit | .fetching limit => some limit
  | .concluded _ _ => none

structure AuthRequest where
  ticket : Ticket
  password : String
  phase : AuthPhase
  deriving Repr

namespace AuthRequest

def outcome? (r : AuthRequest) : Option AuthOutcome :=
  match r.phase with
  | .concluded outcome _ => some outcome
  | _ => none

def conclude (r : AuthRequest) (now : Instant) (outcome : AuthOutcome) : AuthRequest :=
  { r with phase := .concluded outcome now }

/-- Gives up if the time for what the request waits for is over. -/
def expire (now : Instant) (r : AuthRequest) : AuthRequest :=
  if r.phase.due?.any (· ≤ now) then r.conclude now .timedOut else r

def observe (limits : AuthLimits) (now : Instant) (state : Option JobState) (r : AuthRequest) :
    AuthRequest :=
  match r.phase, state with
  | .concluded _ _, _ => r
  | .queueing _, some .waiting => r
  | .queueing _, some .queued | .queueing _, some (.running _ _) =>
    { r with phase := .fetching (now + limits.fetch.millis) }
  | _, some (.answered result) => r.conclude now (.ofResult r.password result)
  | _, some .dropped => r.conclude now (.fetchError "account worker dropped the request")
  | _, some .refused => r.conclude now (.fetchError Pool.SubmitError.closed.message)
  | _, _ => r

/-- Does everything a request can do at an instant. One that gives up waiting for a place leaves
the line. -/
def advance (limits : AuthLimits) (now : Instant) (pool : Pool) (r : AuthRequest) :
    AuthRequest × Pool :=
  let r := (r.observe limits now (pool.state? r.ticket)).expire now
  (r, if r.outcome? = some .timedOut then pool.withdraw r.ticket else pool)

/-- Submits a request. One that would have to wait, but has no time to, ends here. -/
def submit (limits : AuthLimits) (now : Instant) (pool : Pool) (username password : String) :
    AuthRequest × Pool :=
  let (ticket, pool) := pool.submit username
  advance limits now pool ⟨ticket, password, .queueing (now + limits.consume.millis)⟩

end AuthRequest

structure Authenticator where
  limits : AuthLimits
  pool : Pool
  /-- Every request, in the order they were made. -/
  requests : List AuthRequest

namespace Authenticator

def start (limits : AuthLimits) (pool : Pool) : Authenticator := ⟨limits, pool, []⟩

def submit (a : Authenticator) (now : Instant) (username password : String) :
    Nat × Authenticator :=
  let (r, pool) := AuthRequest.submit a.limits now a.pool username password
  (a.requests.length, { a with pool, requests := a.requests ++ [r] })

def advanceAll (limits : AuthLimits) (now : Instant) (pool : Pool) :
    List AuthRequest → Pool × List AuthRequest
  | [] => (pool, [])
  | r :: rest =>
    let (r, pool) := r.advance limits now pool
    let (pool, rest) := advanceAll limits now pool rest
    (pool, r :: rest)

def settle (now : Instant) (a : Authenticator) : Authenticator :=
  let (pool, requests) := advanceAll a.limits now (a.pool.settle now) a.requests
  { a with pool, requests }

def due? (a : Authenticator) : Option Instant :=
  Instant.earlier a.pool.due? (Instant.earliest (a.requests.map (·.phase.due?)))

instance : Clocked Authenticator := ⟨settle, due?⟩

def outcome? (a : Authenticator) (request : Nat) : Option AuthOutcome :=
  a.requests[request]?.bind (·.outcome?)

def isIdle (a : Authenticator) : Bool := a.requests.all fun r => r.outcome?.isSome

end Authenticator

end Realm
