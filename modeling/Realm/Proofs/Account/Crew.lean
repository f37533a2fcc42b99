import Realm.Proofs.Account.Line

/-!
# Workers and requesters

Workers take turns in listening to the queue; the one that listens takes the first job and looks it
up while another one listens. Requesters join the line, and now and then see what has become of
their jobs. Each of these is one step here. The lookups that begin and the jobs that are not
accepted are told from the steps.
-/

namespace Realm

open Pool (SubmitError)
open Relation (ReflTransGen)

inductive Station where
  /-- It waits for its turn to listen. -/
  | resting
  /-- It listens to the queue. -/
  | listening
  | looking (ticket : Ticket)
  /-- It has gone down. -/
  | gone
  deriving DecidableEq, Repr

namespace Station

def isThere : Station → Bool
  | .gone => false
  | _ => true

def isLooking : Station → Bool
  | .looking _ => true
  | _ => false

/-- Whether the worker has none and could take one. -/
def isFree : Station → Bool
  | .resting | .listening => true
  | _ => false

def after : Finding → Station
  | .answer _ => .resting
  | .crash => .gone

end Station

/-- What becomes of a job that is not accepted. -/
def Pool.SubmitError.state : SubmitError → JobState
  | .timeout => .withdrawn
  | .closed => .refused

def Pool.SubmitError.outcome : SubmitError → AuthOutcome
  | .timeout => .timedOut
  | .closed => .fetchError SubmitError.closed.message

/-- Why a job is not accepted, if its requester learns that now. -/
def AuthRequest.refusal? (now : Instant) (state : Option JobState) (r : AuthRequest) :
    Option SubmitError :=
  match r.phase, state with
  | .queueing limit, some .waiting => if limit ≤ now then some .timeout else none
  | .queueing _, some .refused => some .closed
  | _, _ => none

/-- An authenticator whose workers are told apart. -/
structure Crew where
  authenticator : Authenticator
  stations : List Station

inductive CrewStep where
  /-- A requester joins the line. -/
  | request (username password : String)
  /-- A requester sees what has become of its job, and gives up if it waited too long. -/
  | poll (request : Nat)
  /-- The first in the line gets a free place of the queue. -/
  | enter
  /-- A worker begins to listen, if nobody does. -/
  | listen (worker : Nat)
  /-- A worker that listens takes the first job of the queue. -/
  | take (worker : Nat)
  /-- The lookup of a worker ends, if it is due. -/
  | finish (worker : Nat)

namespace Crew

/-- A crew that has just begun. There is at least one worker and one place. -/
def start (limits : AuthLimits) (storage : Storage) (workers capacity : Nat) : Crew :=
  ⟨.start limits (.start storage workers capacity), .replicate (max 1 workers) .resting⟩

abbrev pool (c : Crew) : Pool := c.authenticator.pool

def next? (c : Crew) (worker : Nat) : Option Ticket :=
  if c.stations[worker]? = some .listening then (c.pool.first? JobState.isQueued).map (·.1)
  else none

/-- The job whose lookup a worker ends if it goes on, and what the worker does then. -/
def ending? (now : Instant) (c : Crew) (worker : Nat) : Option (Ticket × Station) :=
  match c.stations[worker]? with
  | some (.looking ticket) =>
    match c.pool.state? ticket with
    | some (.running due finding) =>
      if due.any (· ≤ now) then some (ticket, .after finding) else none
    | _ => none
  | _ => none

def step (now : Instant) (c : Crew) : CrewStep → Crew
  | .request username password =>
    { c with authenticator := c.authenticator.enlist now username password }
  | .poll request =>
    { c with authenticator := c.authenticator.steps now [.observe request, .expire request] }
  | .enter =>
    match c.pool.first? JobState.isWaiting with
    | none => c
    | some (ticket, _) => { c with authenticator := c.authenticator.step now (.enter ticket) }
  | .listen worker =>
    if c.stations[worker]? = some .resting ∧ .listening ∉ c.stations then
      { c with stations := c.stations.set worker .listening }
    else c
  | .take worker =>
    match c.next? worker with
    | none => c
    | some ticket =>
      ⟨c.authenticator.step now (.look ticket), c.stations.set worker (.looking ticket)⟩
  | .finish worker =>
    match c.ending? now worker with
    | none => c
    | some (ticket, station) =>
      ⟨c.authenticator.step now (.finish ticket), c.stations.set worker station⟩

def looks (c : Crew) : CrewStep → List (Nat × Ticket)
  | .take worker => (c.next? worker).toList.map fun ticket => (worker, ticket)
  | _ => []

/-- The request whose job turns out not to be accepted. -/
def refuses (now : Instant) (c : Crew) : CrewStep → List (Nat × SubmitError)
  | .poll request =>
    let refusal := c.authenticator.requests[request]?.bind fun r =>
      r.refusal? now (c.pool.state? r.ticket)
    refusal.toList.map fun e => (request, e)
  | _ => []

def run (c : Crew) (steps : List (Instant × CrewStep)) : Crew :=
  steps.foldl (fun c (now, s) => c.step now s) c

def lookups (c : Crew) : List (Instant × CrewStep) → List (Nat × Ticket)
  | [] => []
  | (now, s) :: steps => c.looks s ++ (c.step now s).lookups steps

/-- The requests whose jobs are not accepted in many steps. -/
def refusals (c : Crew) : List (Instant × CrewStep) → List (Nat × SubmitError)
  | [] => []
  | (now, s) :: steps => c.refuses now s ++ (c.step now s).refusals steps

end Crew

/-! ## The requests -/

/-- What a request may come to when its job is in a state. -/
inductive AuthOutcome.Follows (password : String) : JobState → AuthOutcome → Prop
  | late (state : JobState) : Follows password state .timedOut
  | refused : Follows password .refused SubmitError.closed.outcome
  | dropped : Follows password .dropped (.fetchError "account worker dropped the request")
  | answered (result : LookupResult) :
      Follows password (.answered result) (.ofResult password result)

namespace AuthRequest

variable {now : Instant} {p p' : Pool} {r : AuthRequest} {limits : AuthLimits} {state : JobState}
  {e : SubmitError}

/-- The request has a job, and its outcome follows from what became of it. -/
def Told (p : Pool) (r : AuthRequest) : Prop := ∃ state, p.state? r.ticket = some state ∧
  ∀ outcome, r.outcome? = some outcome → AuthOutcome.Follows r.password state outcome

theorem Told.moves (h : r.Told p) (hmoves : p.Moves p') : r.Told p' := by
  obtain ⟨state, hstate, hfollows⟩ := h
  obtain ⟨state', hstate', hmoved⟩ := hmoves.state _ state hstate
  refine ⟨state', hstate', fun outcome houtcome => ?_⟩
  cases hfollows outcome houtcome with
  | late => exact .late state'
  | refused =>
      rw [JobState.eq_of_isOver hmoved rfl]
      exact .refused
  | dropped =>
      rw [JobState.eq_of_isOver hmoved rfl]
      exact .dropped
  | answered result =>
      rw [JobState.eq_of_isOver hmoved rfl]
      exact .answered result

theorem Told.observe (h : r.Told p) (limits : AuthLimits) (now : Instant) :
    (r.observe limits now (p.state? r.ticket)).Told p := by
  obtain ⟨hticket, hpassword⟩ := r.same_observe limits now (p.state? r.ticket)
  obtain ⟨state, hstate, hfollows⟩ := h
  refine ⟨state, (congrArg p.state? hticket).trans hstate, fun outcome houtcome => ?_⟩
  rw [hpassword]
  rw [hstate] at houtcome
  unfold AuthRequest.observe at houtcome
  split at houtcome
  · exact hfollows outcome houtcome
  · exact hfollows outcome houtcome
  · cases houtcome
  · cases houtcome
  · next heq _ =>
      cases heq
      cases houtcome
      exact .answered _
  · next heq _ =>
      cases heq
      cases houtcome
      exact .dropped
  · next heq _ =>
      cases heq
      cases houtcome
      exact .refused
  · exact hfollows outcome houtcome

theorem Told.expire (h : r.Told p) (now : Instant) : (r.expire now).Told p := by
  obtain ⟨state, hstate, hfollows⟩ := h
  unfold AuthRequest.expire
  split
  · refine ⟨state, hstate, fun outcome houtcome => ?_⟩
    cases houtcome
    exact .late state
  · exact ⟨state, hstate, hfollows⟩

/-- What is known stays known. -/
theorem expire_observe_of_outcome? {outcome : AuthOutcome} (h : r.outcome? = some outcome)
    (limits : AuthLimits) (now : Instant) (state : Option JobState) :
    (r.observe limits now state).expire now = r := by
  obtain ⟨ticket, password, phase⟩ := r
  cases phase with
  | concluded => simp [observe, expire, AuthPhase.due?]
  | _ => cases h

/-- A requester that learns that its job is not accepted ends. -/
theorem outcome?_of_refusal? (h : r.refusal? now (some state) = some e) (limits : AuthLimits) :
    ((r.observe limits now (some state)).expire now).outcome? = some e.outcome ∧
      (e = .timeout ∧ state = .waiting ∨ e = .closed ∧ state = .refused) := by
  obtain ⟨ticket, password, phase⟩ := r
  unfold refusal? at h
  split at h
  · next limit _ hphase hstate =>
      split at h
      · next hle =>
          cases h
          cases hphase
          cases hstate
          simp [observe, expire, AuthPhase.due?, hle, conclude, outcome?, Pool.SubmitError.outcome]
      · cases h
  · next _ hphase hstate =>
      cases h
      cases hphase
      cases hstate
      simp [observe, expire, AuthPhase.due?, conclude, outcome?, Pool.SubmitError.outcome]
  · cases h

end AuthRequest

namespace Crew

variable {now : Instant} {c : Crew} {worker : Nat} {ticket : Ticket} {station : Station}
  {looked : List (Nat × Ticket)} {refused : List (Nat × SubmitError)}

/-! ## The workers -/

/-- The workers that have a job are those of the jobs that are looked up, and one of them at most
listens. -/
structure Manned (p : Pool) (stations : List Station) : Prop where
  workers_eq : p.workers = stations.countP Station.isThere
  running_eq : p.count JobState.isRunning = stations.countP Station.isLooking
  looking_eq : ∀ ticket, stations.count (.looking ticket) =
    ((p.state? ticket).any JobState.isRunning).toNat
  listening_le : stations.count .listening ≤ 1

theorem countP_isThere (stations : List Station) : stations.countP Station.isThere =
    stations.countP Station.isLooking + stations.countP Station.isFree := by
  induction stations with
  | nil => rfl
  | cons station stations ih =>
      cases station <;>
        simp [Station.isThere, Station.isLooking, Station.isFree, List.countP_cons] at ih ⊢ <;>
        omega

variable {p p' : Pool} {stations : List Station}

theorem Manned.idle_iff (h : Manned p stations) : p.count JobState.isRunning < p.workers ↔
    ∃ (worker : Nat) (station : Station), stations[worker]? = some station ∧
      station.isFree = true := by
  rw [h.running_eq, h.workers_eq, countP_isThere]
  constructor
  · intro hlt
    obtain ⟨station, hmem, hfree⟩ : ∃ station ∈ stations, station.isFree = true :=
      List.countP_pos_iff.mp (by omega)
    obtain ⟨worker, hworker⟩ := List.mem_iff_getElem?.mp hmem
    exact ⟨worker, station, hworker, hfree⟩
  · rintro ⟨worker, station, hworker, hfree⟩
    have hpos : 0 < stations.countP Station.isFree :=
      List.countP_pos_iff.mpr ⟨station, List.mem_of_getElem? hworker, hfree⟩
    omega

theorem Manned.exists_looking (h : Manned p stations) {due : Option Instant} {finding : Finding}
    (hstate : p.state? ticket = some (.running due finding)) :
    ∃ worker : Nat, stations[worker]? = some (.looking ticket) := by
  have hpos : 0 < stations.count (.looking ticket) := by
    rw [h.looking_eq, hstate]
    exact Nat.one_pos
  exact List.mem_iff_getElem?.mp (List.count_pos_iff.mp hpos)

/-- Nothing changes for the workers where no lookup begins or ends. -/
theorem Manned.of_running (h : Manned p stations) (hworkers : p'.workers = p.workers)
    (hcount : p'.count JobState.isRunning = p.count JobState.isRunning)
    (hrunning : ∀ ticket, (p'.state? ticket).any JobState.isRunning =
      (p.state? ticket).any JobState.isRunning) : Manned p' stations :=
  ⟨hworkers.trans h.workers_eq, hcount.trans h.running_eq,
    fun ticket => (h.looking_eq ticket).trans (congrArg Bool.toNat (hrunning ticket).symm),
    h.listening_le⟩

theorem Manned.setState {old state : JobState} (h : Manned p stations)
    (hold : p.state? ticket = some old) (hnot : old.isRunning = false)
    (hnot' : state.isRunning = false) : Manned (p.setState ticket state) stations := by
  have hcount := Pool.count_setState hold state JobState.isRunning
  rw [hnot, hnot'] at hcount
  refine h.of_running rfl hcount fun i => ?_
  by_cases hi : ticket = i
  · subst hi
    rw [Pool.state?_setState_self hold, hold, Option.any_some, Option.any_some, hnot, hnot']
  · rw [Pool.state?_setState_of_ne hi]

theorem Manned.submit (h : Manned p stations) (username : String) :
    Manned (p.submit username).2 stations := by
  have hnot : p.admission.isRunning = false := by
    unfold Pool.admission
    split
    · rfl
    · split <;> rfl
  have hcount := Pool.count_submit p username JobState.isRunning
  rw [hnot] at hcount
  refine h.of_running rfl hcount fun ticket => ?_
  cases hstate : (p.submit username).2.state? ticket with
  | none =>
      cases hold : p.state? ticket with
      | none => rfl
      | some state =>
          obtain ⟨state', hstate', -⟩ := (Pool.moves_submit p username).state ticket state hold
          rw [hstate] at hstate'
          cases hstate'
  | some state =>
      rcases Pool.state?_submit_cases hstate with hold | ⟨rfl, rfl⟩
      · rw [hold]
      · have hnone : p.state? p.jobs.length = none := by simp [Pool.state?]
        simp [hnone, hnot]

theorem Manned.enter (h : Manned p stations) (ticket : Ticket) :
    Manned (p.enter ticket) stations := by
  unfold Pool.enter
  split
  · next hwaiting =>
      split
      · exact h.setState hwaiting rfl rfl
      · exact h
  · exact h

theorem Manned.withdraw (h : Manned p stations) (ticket : Ticket) :
    Manned (p.withdraw ticket) stations := by
  unfold Pool.withdraw
  split
  · next hwaiting => exact h.setState hwaiting rfl rfl
  · exact h

/-- One worker goes on to another station, and no more than one job begins or ends with that. -/
theorem Manned.turn {old new : Station} (h : Manned p stations)
    (hworker : stations[worker]? = some old)
    (hworkers : p'.workers + old.isThere.toNat = p.workers + new.isThere.toNat)
    (hcount : p'.count JobState.isRunning + old.isLooking.toNat =
      p.count JobState.isRunning + new.isLooking.toNat)
    (hrunning : ∀ ticket,
      ((p'.state? ticket).any JobState.isRunning).toNat + (old == .looking ticket).toNat =
        ((p.state? ticket).any JobState.isRunning).toNat + (new == .looking ticket).toNat)
    (hlistening : new = .listening → .listening ∉ stations) :
    Manned p' (stations.set worker new) := by
  have hset := countP_set_add hworker new
  have hthere := hset Station.isThere
  have hlooking := hset Station.isLooking
  refine ⟨?_, ?_, fun ticket => ?_, ?_⟩
  · have := h.workers_eq
    omega
  · have := h.running_eq
    omega
  · have hat : (stations.set worker new).count (.looking ticket) + (old == .looking ticket).toNat =
        stations.count (.looking ticket) + (new == .looking ticket).toNat := hset _
    have := h.looking_eq ticket
    have := hrunning ticket
    omega
  · have hat : (stations.set worker new).count .listening + (old == .listening).toNat =
        stations.count .listening + (new == .listening).toNat := hset _
    by_cases hnew : new = .listening
    · have hnone : stations.count .listening = 0 := List.count_eq_zero.mpr (hlistening hnew)
      subst hnew
      rw [hnone, beq_self_eq_true, Bool.toNat_true] at hat
      omega
    · have := h.listening_le
      rw [beq_false_of_ne hnew, Bool.toNat_false] at hat
      omega

theorem Manned.listen (h : Manned p stations) (hworker : stations[worker]? = some .resting)
    (hnobody : .listening ∉ stations) : Manned p (stations.set worker .listening) :=
  h.turn hworker rfl rfl (fun _ => rfl) fun _ => hnobody

theorem Manned.take {username : String} (h : Manned p stations)
    (hworker : stations[worker]? = some .listening)
    (hjob : p.jobs[ticket]? = some ⟨username, .queued⟩) (now : Instant) :
    Manned (p.look now ticket) (stations.set worker (.looking ticket)) := by
  have hidle : p.count JobState.isRunning < p.workers :=
    h.idle_iff.mpr ⟨worker, _, hworker, rfl⟩
  obtain ⟨due, finding, hcount⟩ := Pool.count_look hjob hidle now
  have hworkers : (p.look now ticket).workers = p.workers := by
    rw [Pool.look_of_idle hjob hidle]
    rfl
  refine h.turn hworker ?_ (hcount JobState.isRunning) (fun i => ?_) nofun
  · rw [hworkers]
    rfl
  · by_cases hi : ticket = i
    · subst hi
      obtain ⟨due', finding', hlook⟩ := Pool.state?_look hjob hidle now
      rw [hlook, Pool.state?_of_job hjob, beq_self_eq_true]
      rfl
    · have hne : (Station.looking ticket == .looking i) = false := by simp [hi]
      rw [Pool.state?_look_of_ne hjob hidle now hi, hne]
      rfl

/-- The lookup of a worker ends, and the worker is free or gone. -/
theorem Manned.finish (h : Manned p stations) (hworker : stations[worker]? = some (.looking ticket))
    {due : Option Instant} {finding : Finding} {state : JobState}
    (hstate : p.state? ticket = some (.running due finding)) (hnot : state.isRunning = false) :
    Manned (p.setState ticket state) (stations.set worker .resting) ∧
      Manned (p.setState ticket state).loseWorker (stations.set worker .gone) := by
  have hcount := Pool.count_setState hstate state JobState.isRunning
  have hat : ∀ i, (((p.setState ticket state).state? i).any JobState.isRunning).toNat +
      (Station.looking ticket == .looking i).toNat =
      ((p.state? i).any JobState.isRunning).toNat := fun i => by
    by_cases hi : ticket = i
    · subst hi
      rw [Pool.state?_setState_self hstate, hstate, Option.any_some, hnot, beq_self_eq_true]
      rfl
    · have hne : (Station.looking ticket == .looking i) = false := by simp [hi]
      rw [Pool.state?_setState_of_ne hi, hne]
      rfl
  have hlost : ∀ i, ((p.setState ticket state).loseWorker.state? i).any JobState.isRunning =
      ((p.setState ticket state).state? i).any JobState.isRunning := fun i => by
    rw [Pool.state?_loseWorker]
    split
    · cases (p.setState ticket state).state? i with
      | none => rfl
      | some state => cases state <;> rfl
    · rfl
  have hpos : 0 < p.workers := by
    rw [h.workers_eq]
    exact List.countP_pos_iff.mpr ⟨_, List.mem_of_getElem? hworker, rfl⟩
  rw [hnot] at hcount
  refine ⟨h.turn hworker rfl hcount (fun i => ?_) nofun,
    h.turn hworker ?_ ?_ (fun i => ?_) nofun⟩
  · exact hat i
  · show p.workers - 1 + 1 = p.workers + 0
    omega
  · rw [Pool.count_isRunning_loseWorker]
    exact hcount
  · rw [hlost]
    exact hat i

end Crew

/-! ## The lookups -/

namespace Authenticator

variable {now : Instant} {a : Authenticator} {tickets : List Ticket} {ticket : Ticket}
  {q : AuthStep}

/-- The storage was called for these jobs, in order, with their usernames. -/
def Called (a : Authenticator) (tickets : List Ticket) : Prop := ∃ log : LookupLog,
  log.map (·.1) = tickets ∧ a.Logged log ∧
    ∀ entry ∈ log, ∃ job, a.pool.jobs[entry.1]? = some job ∧ job.username = entry.2

theorem Called.step (h : a.Called tickets) (now : Instant) (hq : ∀ ticket, q ≠ .look ticket) :
    (a.step now q).Called tickets := by
  obtain ⟨log, htickets, hlogged, hnamed⟩ := h
  have hnil : a.logged now q = [] := by
    cases q with
    | look ticket => exact absurd rfl (hq ticket)
    | _ => rfl
  refine ⟨log, htickets, ?_, fun entry hentry => ?_⟩
  · have hstep := hlogged.step now q
    rwa [hnil, List.append_nil] at hstep
  · obtain ⟨job, hjob, hname⟩ := hnamed entry hentry
    obtain ⟨job', hjob', hname'⟩ := (extends_step now a q).pool.job _ job hjob
    exact ⟨job', hjob', hname'.trans hname⟩

theorem Called.look {username : String} (h : a.Called tickets)
    (hjob : a.pool.jobs[ticket]? = some ⟨username, .queued⟩)
    (hidle : a.pool.count JobState.isRunning < a.pool.workers) (now : Instant) :
    (a.step now (.look ticket)).Called (tickets ++ [ticket]) := by
  obtain ⟨log, htickets, hlogged, hnamed⟩ := h
  have hone : a.logged now (.look ticket) = [(ticket, username)] := by
    simp [logged, Pool.logged, Pool.look_of_idle hjob hidle]
  have hstep := hlogged.step now (.look ticket)
  rw [hone] at hstep
  refine ⟨log ++ [(ticket, username)], by simp [htickets], hstep, fun entry hentry => ?_⟩
  have hkeeps := (extends_step now a (.look ticket)).pool.job
  rcases List.mem_append.mp hentry with hold | hnew
  · obtain ⟨job, hjob, hname⟩ := hnamed entry hold
    obtain ⟨job', hjob', hname'⟩ := hkeeps _ job hjob
    exact ⟨job', hjob', hname'.trans hname⟩
  · rw [List.mem_singleton.mp hnew]
    exact hkeeps ticket _ hjob

theorem Called.enlist (h : a.Called tickets) (now : Instant) (username password : String) :
    (a.enlist now username password).Called tickets := by
  obtain ⟨log, htickets, hlogged, hnamed⟩ := h
  refine ⟨log, htickets, hlogged.enlist now username password, fun entry hentry => ?_⟩
  obtain ⟨job, hjob, hname⟩ := hnamed entry hentry
  obtain ⟨job', hjob', hname'⟩ := (Pool.extends_submit username).job _ job hjob
  exact ⟨job', hjob', hname'.trans hname⟩

/-- What a poll does. -/
theorem steps_poll (now : Instant) {i : Nat} {r : AuthRequest} (hr : a.requests[i]? = some r) :
    a.steps now [.observe i, .expire i] =
      { a with
        pool := (r.advance a.limits now a.pool).2
        requests := a.requests.set i (r.advance a.limits now a.pool).1 } := by
  obtain ⟨hlt, rfl⟩ := List.getElem?_eq_some_iff.mp hr
  have hsplit : a.requests = a.requests.take i ++ a.requests[i] :: a.requests.drop (i + 1) := by
    simp
  have hlength : (a.requests.take i).length = i := List.length_take_of_le (Nat.le_of_lt hlt)
  have hadvance := steps_advance now a _ _ _ hsplit
  rw [hlength] at hadvance
  rw [hadvance, List.set_eq_take_append_cons_drop, if_pos hlt]

theorem steps_poll_of_none (now : Instant) {i : Nat} (hr : a.requests[i]? = none) :
    a.steps now [.observe i, .expire i] = a := by
  show (a.step now (.observe i)).step now (.expire i) = a
  rw [step_observe_of_none hr, step_expire_of_none hr]

end Authenticator

end Realm
