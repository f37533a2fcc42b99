import Realm.Proofs.Account.Duty

/-!
# What a crew does for its requesters

Main statement: whatever the order in which workers and requesters make their steps, jobs are looked
up in the order of the line, each at most once and by one worker, a job that was not accepted never;
a request ends by the answer to its own job; and a job waits only as long as no worker could take
it. What an authenticator does at an instant is a list of such steps, and leaves no job waiting that
a worker could take.
-/

namespace Realm

open Pool (SubmitError)

namespace Crew

variable {now : Instant} {c : Crew} {worker : Nat} {ticket : Ticket} {station : Station}
  {looked : List (Nat × Ticket)} {refused : List (Nat × SubmitError)} {p : Pool}

/-! ## An instant is a list of steps -/

/-- If a worker has no job, one can be made to listen. -/
theorem exists_run_listening (now : Instant) (h : c.Sound looked refused)
    (hidle : c.pool.count JobState.isRunning < c.pool.workers) :
    ∃ (todo : List CrewStep) (worker : Nat),
      (c.run (todo.map (Prod.mk now))).authenticator = c.authenticator ∧
      (c.run (todo.map (Prod.mk now))).stations[worker]? = some .listening := by
  by_cases hlistening : .listening ∈ c.stations
  · obtain ⟨worker, hworker⟩ := List.mem_iff_getElem?.mp hlistening
    exact ⟨[], worker, rfl, hworker⟩
  · obtain ⟨worker, station, hworker, hfree⟩ := h.manned.idle_iff.mp hidle
    have hresting : c.stations[worker]? = some .resting := by
      cases station with
      | resting => exact hworker
      | listening => exact absurd (List.mem_of_getElem? hworker) hlistening
      | _ => cases hfree
    have hlisten : c.step now (.listen worker) =
        { c with stations := c.stations.set worker .listening } := if_pos ⟨hresting, hlistening⟩
    obtain ⟨hlt, -⟩ := List.getElem?_eq_some_iff.mp hresting
    refine ⟨[.listen worker], worker, ?_, ?_⟩
    · simp [run, hlisten]
    · simp [run, hlisten, hlt]

theorem exists_run_step? (h : c.Sound looked refused) (hp : c.pool.step? now = some p) :
    ∃ todo : List CrewStep,
      (c.run (todo.map (Prod.mk now))).authenticator = { c.authenticator with pool := p } := by
  unfold Pool.step? at hp
  simp only [Option.orElse_eq_orElse, Option.orElse_eq_or, Option.or_eq_some_iff] at hp
  rcases hp with hfinish | ⟨-, hlook | ⟨-, henter⟩⟩
  · obtain ⟨ticket, due, finding, hstate, hdue, rfl⟩ := Pool.exists_finish hfinish
    obtain ⟨worker, hworker⟩ := h.manned.exists_looking hstate
    have hending : c.ending? now worker = some (ticket, .after finding) := by
      simp [ending?, hworker, hstate, hdue]
    refine ⟨[.finish worker], ?_⟩
    simp only [run, List.map_cons, List.map_nil, List.foldl_cons, List.foldl_nil, step, hending]
    rfl
  · obtain ⟨ticket, job, hfirst, hidle, rfl⟩ := Pool.exists_look hlook
    obtain ⟨todo, worker, hsame, hworker⟩ := exists_run_listening now h hidle
    have hnext : (c.run (todo.map (Prod.mk now))).next? worker = some ticket := by
      rw [next?, if_pos hworker, pool, hsame]
      exact congrArg (Option.map Prod.fst) hfirst
    refine ⟨todo ++ [.take worker], ?_⟩
    rw [List.map_append, run_append]
    generalize c.run (todo.map (Prod.mk now)) = c' at hsame hnext
    simp only [run, List.map_cons, List.map_nil, List.foldl_cons, List.foldl_nil, step, hnext,
      hsame]
    rfl
  · obtain ⟨ticket, job, hfirst, -, rfl⟩ := Pool.exists_enter henter
    refine ⟨[.enter], ?_⟩
    simp only [run, List.map_cons, List.map_nil, List.foldl_cons, List.foldl_nil, step, hfirst]
    rfl

theorem exists_run_steps (h : c.Sound looked refused) (now : Instant) (rounds : Nat) :
    ∃ todo : List CrewStep, (c.run (todo.map (Prod.mk now))).authenticator =
      { c.authenticator with pool := c.pool.steps now rounds } := by
  induction rounds generalizing c looked refused with
  | zero => exact ⟨[], rfl⟩
  | succ rounds ih =>
      unfold Pool.steps
      cases hstep : c.pool.step? now with
      | none => exact ⟨[], rfl⟩
      | some p =>
          obtain ⟨first, hfirst⟩ := exists_run_step? h hstep
          obtain ⟨rest, hrest⟩ := ih (h.run (first.map (Prod.mk now)))
          refine ⟨first ++ rest, ?_⟩
          rw [List.map_append, run_append, hrest, pool, hfirst]

theorem exists_run_advanceAll (c : Crew) (now : Instant) (done rest : List AuthRequest)
    (hrequests : c.authenticator.requests = done ++ rest) :
    ∃ todo : List CrewStep, (c.run (todo.map (Prod.mk now))).authenticator =
      { c.authenticator with
        pool := (Authenticator.advanceAll c.authenticator.limits now c.pool rest).1
        requests :=
          done ++ (Authenticator.advanceAll c.authenticator.limits now c.pool rest).2 } := by
  induction rest generalizing c done with
  | nil =>
      refine ⟨[], ?_⟩
      rw [List.append_nil] at hrequests
      simp [run, Authenticator.advanceAll, pool, ← hrequests]
  | cons r rest ih =>
      have hfirst := Authenticator.steps_advance now c.authenticator done rest r hrequests
      obtain ⟨todo, htodo⟩ := ih (c.step now (.poll done.length))
        (done ++ [(r.advance c.authenticator.limits now c.pool).1])
        (by rw [step, hfirst, pool]; simp)
      refine ⟨.poll done.length :: todo, ?_⟩
      rw [List.map_cons, run, List.foldl_cons]
      refine htodo.trans ?_
      rw [step, pool, hfirst]
      simp [Authenticator.advanceAll, pool]

/-- All that an authenticator does at an instant is a list of steps of its crew. -/
theorem exists_run_settle (h : c.Sound looked refused) (now : Instant) :
    ∃ todo : List CrewStep, (c.run (todo.map (Prod.mk now))).authenticator =
      c.authenticator.settle now := by
  obtain ⟨first, hfirst⟩ := exists_run_steps h now (3 * c.pool.jobs.length)
  obtain ⟨last, hlast⟩ := exists_run_advanceAll (c.run (first.map (Prod.mk now))) now []
    c.authenticator.requests (by rw [hfirst]; rfl)
  refine ⟨first ++ last, ?_⟩
  rw [List.map_append, run_append, hlast, pool, hfirst]
  rfl

theorem run_submit (c : Crew) (now : Instant) (username password : String) :
    (c.run [(now, .request username password),
      (now, .poll c.authenticator.requests.length)]).authenticator =
      (c.authenticator.submit now username password).2 :=
  (Authenticator.submit_eq now c.authenticator username password).symm

/-! ## The main statement -/

/-- Where nobody gets a place although somebody waits, there is none. -/
theorem capacity_le_of_enter (hwaiting : c.pool.state? ticket = some .waiting)
    (henter : c.step now .enter = c) : c.pool.capacity ≤ c.pool.queued := by
  by_contra hroom
  cases hfirst : c.pool.first? JobState.isWaiting with
  | none => exact nomatch Pool.not_test_of_first?_eq_none hfirst hwaiting
  | some found =>
      have hfound := Pool.state_of_first?_isWaiting hfirst
      rw [step, hfirst] at henter
      have hsame : c.pool.enter found.1 = c.pool := congrArg Crew.pool henter
      have hqueued : (c.pool.enter found.1).state? found.1 = some .queued := by
        rw [Pool.enter, hfound]
        dsimp only
        rw [if_pos (Nat.lt_of_not_le hroom)]
        exact Pool.state?_setState_self hfound .queued
      rw [hsame, hfound] at hqueued
      cases hqueued

/-- How a crew of so many workers, with so many places, has served its requesters when these
lookups have begun and these jobs were not accepted. -/
structure Serves (storage : Storage) (workers capacity : Nat) (c : Crew)
    (looked : List (Nat × Ticket)) (refused : List (Nat × SubmitError)) : Prop where
  /-- Jobs are looked up in the order of submission, so none of them twice. -/
  increasing : (looked.map (·.2)).Pairwise (· < ·)
  /-- No job is passed over. -/
  behind : ∀ ticket state, c.pool.state? ticket = some state → state.isPending = true →
    ∀ l ∈ looked, l.2 < ticket
  /-- Each lookup is made by one of the workers, and is one call of the storage. -/
  called : looked.length = c.pool.calls.length ∧ ∀ (n worker : Nat) (ticket : Ticket),
    looked[n]? = some (worker, ticket) → worker < workers ∧ ∃ job : Job,
      c.pool.jobs[ticket]? = some job ∧ c.pool.calls[n]? = some job.username ∧
      job.state.isTaken = true
  /-- A job that is with a worker or was answered was looked up. -/
  looked_of_finding : ∀ ticket state finding, c.pool.state? ticket = some state →
    state.finding? = some finding → ∃ (n worker : Nat) (username : String),
      looked[n]? = some (worker, ticket) ∧ c.pool.calls[n]? = some username ∧
        (storage n username).finding = finding
  /-- A job that is not accepted was not looked up, and its requester has been told so. -/
  refused : ∀ x ∈ refused, c.pool.state? x.1 = some x.2.state ∧
    c.authenticator.outcome? x.1 = some x.2.outcome ∧ x.1 ∉ looked.map (·.2)
  running_le : c.pool.count JobState.isRunning ≤ workers
  queued_le : c.pool.queued ≤ capacity
  /-- What a request comes to follows from what became of its own job. -/
  told : ∀ (i : Nat) (r : AuthRequest), c.authenticator.requests[i]? = some r → r.ticket = i ∧
    ∃ state, c.pool.state? i = some state ∧
      ∀ outcome, r.outcome? = some outcome → AuthOutcome.Follows r.password state outcome
  /-- A worker that looks up a job is done when the storage answers, whatever the requesters do. -/
  goes_on : ∀ (worker : Nat) (ticket : Ticket), c.stations[worker]? = some (.looking ticket) →
    ∃ due finding, c.pool.state? ticket = some (.running due finding) ∧
    ∀ now requests result, due.any (· ≤ now) = true → finding = .answer result →
      let c' : Crew := { c with authenticator := { c.authenticator with requests } }
      (c'.step now (.finish worker)).stations = c.stations.set worker .resting ∧
        (c'.step now (.finish worker)).pool.state? ticket = some (.answered result)
  /-- A job waits only as long as somebody can make a step, or every worker has a job. -/
  never_stalls : ∀ now, c.step now .enter = c → (∀ worker, c.step now (.listen worker) = c) →
    (∀ worker, c.step now (.take worker) = c) → ∀ (worker : Nat) (station : Station),
      c.stations[worker]? = some station → station.isFree = true →
      ∀ ticket state, c.pool.state? ticket = some state → state.isPending = false
  /-- After an instant at which all has happened this is so. -/
  settled : ∀ now, let p := c.pool.settle now
    p.count JobState.isRunning < p.workers →
      ∀ ticket state, p.state? ticket = some state → state.isPending = false
  /-- The authenticator that is run makes such steps: at an instant, -/
  settle_eq : ∀ now, ∃ todo : List CrewStep,
    (c.run (todo.map (Prod.mk now))).authenticator = c.authenticator.settle now
  /-- and for a request. -/
  submit_eq : ∀ now username password, ∃ todo : List CrewStep,
    (c.run (todo.map (Prod.mk now))).authenticator =
      (c.authenticator.submit now username password).2

theorem getElem?_log {log : LookupLog} (htickets : log.map (·.1) = looked.map (·.2))
    (hcalls : log.map (·.2) = c.pool.calls) (n : Nat) :
    (log[n]?).map (·.1) = (looked[n]?).map (·.2) ∧ (log[n]?).map (·.2) = c.pool.calls[n]? := by
  rw [← List.getElem?_map, htickets, List.getElem?_map, ← hcalls, List.getElem?_map]
  exact ⟨rfl, rfl⟩

/-- A lookup is that of a job, under the username of the job. -/
theorem Sound.exists_job (h : c.Sound looked refused) {n : Nat}
    (hl : looked[n]? = some (worker, ticket)) : ∃ job : Job, c.pool.jobs[ticket]? = some job ∧
      c.pool.calls[n]? = some job.username ∧ job.state.isTaken = true := by
  obtain ⟨log, htickets, hlogged, hnamed⟩ := h.called
  obtain ⟨hticket, hcall⟩ := getElem?_log htickets hlogged.pool.calls_eq n
  rw [hl] at hticket
  obtain ⟨entry, hlog, rfl⟩ := Option.map_eq_some_iff.mp hticket
  obtain ⟨job, hjob, hname⟩ := hnamed entry (List.mem_of_getElem? hlog)
  obtain ⟨state, hstate, htaken⟩ :=
    h.ordered.taken _ (List.mem_map_of_mem (List.mem_of_getElem? hl))
  rw [hlog, Option.map_some] at hcall
  cases (Pool.state?_of_job hjob).symm.trans hstate
  exact ⟨job, hjob, hname ▸ hcall.symm, htaken⟩

/-- What is found for a job is what the storage says when the job is looked up. -/
theorem Sound.exists_lookup (h : c.Sound looked refused) {state : JobState} {finding : Finding}
    (hstate : c.pool.state? ticket = some state) (hfinding : state.finding? = some finding) :
    ∃ (n worker : Nat) (username : String), looked[n]? = some (worker, ticket) ∧
      c.pool.calls[n]? = some username ∧ (c.pool.storage n username).finding = finding := by
  obtain ⟨log, htickets, hlogged, -⟩ := h.called
  obtain ⟨job, hjob, rfl⟩ := Option.map_eq_some_iff.mp hstate
  obtain ⟨n, hlog, hend⟩ := hlogged.pool.answers ticket job finding hjob hfinding
  obtain ⟨hticket, hcall⟩ := getElem?_log htickets hlogged.pool.calls_eq n
  rw [hlog, Option.map_some] at hticket hcall
  obtain ⟨⟨worker, i⟩, hl, rfl⟩ := Option.map_eq_some_iff.mp hticket.symm
  exact ⟨n, worker, job.username, hl, hcall.symm, hend⟩

/-- One worker and one place: the first job is taken, the second waits for the worker, and the third
is given up before there is a place for it. -/
example :
    let storage : Storage := fun _ _ => ⟨none, .answer (.ok none)⟩
    let c := start ⟨.ofMillis 10, .ofMillis 10⟩ storage 1 1
    let steps : List (Instant × CrewStep) := [(0, .request "a" ""), (0, .listen 0), (0, .take 0),
      (1, .request "b" ""), (1, .request "c" ""), (1, .take 0), (11, .poll 1), (11, .poll 2),
      (11, .enter)]
    c.lookups steps = [(0, 0)] ∧ c.refusals steps = [(2, .timeout)] ∧
      (c.run steps).pool.queued = 1 := by
  decide

end Crew

end Realm
