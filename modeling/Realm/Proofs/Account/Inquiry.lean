import Realm.Account.Authenticator

/-!
# Inquiries, one step at a time

What lies between a request and its outcome, as single steps: a job gets a place, a worker looks it
up, a lookup ends, a request takes note, a request gives up. Here each may happen to any job and to
any request, in any order. All that an authenticator does at an instant is a list of such steps.
-/

namespace Realm

inductive AuthStep where
  | enter (ticket : Ticket)
  | look (ticket : Ticket)
  | finish (ticket : Ticket)
  | observe (request : Nat)
  | expire (request : Nat)

namespace Pool

/-- A job that waits gets a free place of the queue. -/
def enter (ticket : Ticket) (p : Pool) : Pool :=
  match p.state? ticket with
  | some .waiting => if p.queued < p.capacity then p.setState ticket .queued else p
  | _ => p

/-- A worker without a job looks a queued one up. -/
def look (now : Instant) (ticket : Ticket) (p : Pool) : Pool :=
  match p.jobs[ticket]? with
  | some ⟨username, .queued⟩ =>
    if p.count JobState.isRunning < p.workers then
      let lookup := p.storage p.calls.length username
      { p.setState ticket (.running (lookup.duration.map (now + ·)) lookup.finding) with
        calls := p.calls ++ [username] }
    else p
  | _ => p

def finish (now : Instant) (ticket : Ticket) (p : Pool) : Pool :=
  match p.state? ticket with
  | some (.running due finding) =>
    if due.any (· ≤ now) then
      match finding with
      | .answer result => p.setState ticket (.answered result)
      | .crash => (p.setState ticket .dropped).loseWorker
    else p
  | _ => p

end Pool

namespace Authenticator

def step (now : Instant) (a : Authenticator) : AuthStep → Authenticator
  | .enter ticket => { a with pool := a.pool.enter ticket }
  | .look ticket => { a with pool := a.pool.look now ticket }
  | .finish ticket => { a with pool := a.pool.finish now ticket }
  | .observe request =>
    { a with
      requests := a.requests.modify request fun r =>
        r.observe a.limits now (a.pool.state? r.ticket) }
  | .expire request =>
    match a.requests[request]? with
    | none => a
    | some r =>
      let r := r.expire now
      { a with
        pool := if r.outcome? = some .timedOut then a.pool.withdraw r.ticket else a.pool
        requests := a.requests.set request r }

def steps (now : Instant) (a : Authenticator) (todo : List AuthStep) : Authenticator :=
  todo.foldl (step now) a

theorem steps_append (now : Instant) (a : Authenticator) (todo todo' : List AuthStep) :
    a.steps now (todo ++ todo') = (a.steps now todo).steps now todo' := List.foldl_append

end Authenticator

/-! ## An instant is a list of steps -/

namespace Pool

variable {now : Instant} {p p' : Pool}

/-- What is found first is a job in a state that passes the test. -/
theorem of_first? {test : JobState → Bool} {ticket : Ticket} {job : Job}
    (h : p.first? test = some (ticket, job)) :
    p.jobs[ticket]? = some job ∧ test job.state = true := by
  unfold first? at h
  obtain ⟨i, hi, hjob⟩ := Option.bind_eq_some_iff.mp h
  obtain ⟨found, hfound, heq⟩ := Option.map_eq_some_iff.mp hjob
  cases heq
  refine ⟨hfound, ?_⟩
  obtain ⟨hlt, htest, -⟩ := List.findIdx?_eq_some_iff_getElem.mp hi
  rw [List.getElem?_eq_getElem hlt] at hfound
  cases hfound
  exact htest

theorem state?_of_job {ticket : Ticket} {job : Job} (h : p.jobs[ticket]? = some job) :
    p.state? ticket = some job.state := by rw [state?, h, Option.map_some]

theorem exists_finish (h : p.finish? now = some p') : ∃ ticket due finding,
    p.state? ticket = some (.running due finding) ∧ due.any (· ≤ now) = true ∧
      p' = p.finish now ticket := by
  unfold finish? at h
  split at h
  · next ticket username due result hfirst =>
      obtain ⟨hjob, hdue⟩ := of_first? hfirst
      refine ⟨ticket, due, _, state?_of_job hjob, hdue, ?_⟩
      unfold finish
      rw [state?_of_job hjob]
      simpa [show due.any (· ≤ now) = true from hdue] using h.symm
  · next ticket username due hfirst =>
      obtain ⟨hjob, hdue⟩ := of_first? hfirst
      refine ⟨ticket, due, _, state?_of_job hjob, hdue, ?_⟩
      unfold finish
      rw [state?_of_job hjob]
      simpa [show due.any (· ≤ now) = true from hdue] using h.symm
  · cases h

theorem exists_look (h : p.take? now = some p') : ∃ ticket job,
    p.first? JobState.isQueued = some (ticket, job) ∧ p.count JobState.isRunning < p.workers ∧
      p' = p.look now ticket := by
  unfold take? at h
  split at h
  · next hidle =>
      cases hfirst : p.first? JobState.isQueued with
      | none =>
          rw [hfirst] at h
          cases h
      | some found =>
          obtain ⟨ticket, username, state⟩ := found
          obtain ⟨hjob, hqueued⟩ := of_first? hfirst
          rw [hfirst] at h
          refine ⟨ticket, _, rfl, hidle, ?_⟩
          cases state with
          | queued =>
              unfold look
              rw [hjob]
              simpa [hidle] using h.symm
          | _ => cases hqueued
  · cases h

theorem exists_enter (h : p.enter? = some p') : ∃ ticket job,
    p.first? JobState.isWaiting = some (ticket, job) ∧ p.queued < p.capacity ∧
      p' = p.enter ticket := by
  unfold enter? at h
  split at h
  · next hroom =>
      obtain ⟨⟨ticket, username, state⟩, hfirst, heq⟩ := Option.map_eq_some_iff.mp h
      obtain ⟨hjob, hwaiting⟩ := of_first? hfirst
      refine ⟨ticket, _, hfirst, hroom, ?_⟩
      cases state with
      | waiting =>
          unfold enter
          rw [state?_of_job hjob]
          simpa [hroom] using heq.symm
      | _ => cases hwaiting
  · cases h

end Pool

namespace Authenticator

theorem exists_steps_pool (now : Instant) (a : Authenticator) (rounds : Nat) :
    ∃ todo, { a with pool := a.pool.steps now rounds } = a.steps now todo := by
  induction rounds generalizing a with
  | zero => exact ⟨[], rfl⟩
  | succ rounds ih =>
      unfold Pool.steps
      cases hstep : a.pool.step? now with
      | none => exact ⟨[], rfl⟩
      | some p =>
          obtain ⟨todo, htodo⟩ := ih { a with pool := p }
          have hfirst : ∃ q, { a with pool := p } = a.step now q := by
            unfold Pool.step? at hstep
            simp only [Option.orElse_eq_orElse, Option.orElse_eq_or, Option.or_eq_some_iff] at hstep
            rcases hstep with hfinish | ⟨-, hlook | ⟨-, henter⟩⟩
            · obtain ⟨ticket, -, -, -, -, rfl⟩ := Pool.exists_finish hfinish
              exact ⟨.finish ticket, rfl⟩
            · obtain ⟨ticket, -, -, -, rfl⟩ := Pool.exists_look hlook
              exact ⟨.look ticket, rfl⟩
            · obtain ⟨ticket, -, -, -, rfl⟩ := Pool.exists_enter henter
              exact ⟨.enter ticket, rfl⟩
          obtain ⟨q, hq⟩ := hfirst
          refine ⟨q :: todo, htodo.trans ?_⟩
          rw [hq]
          rfl

/-- A request takes note and then gives up, if it has to. -/
theorem steps_advance (now : Instant) (a : Authenticator) (done rest : List AuthRequest)
    (r : AuthRequest) (hrequests : a.requests = done ++ r :: rest) :
    a.steps now [.observe done.length, .expire done.length] =
      { a with
        pool := (r.advance a.limits now a.pool).2
        requests := done ++ (r.advance a.limits now a.pool).1 :: rest } := by
  have hticket : ∀ state, (r.observe a.limits now state).ticket = r.ticket := by
    intro state
    unfold AuthRequest.observe
    split <;> rfl
  have hexpired : ∀ q : AuthRequest, (q.expire now).ticket = q.ticket := by
    intro q
    unfold AuthRequest.expire
    split <;> rfl
  have hmodify : ∀ f, (done ++ r :: rest).modify done.length f = done ++ f r :: rest := by
    intro f
    simp [List.modify_eq_take_cons_drop]
  simp [steps, step, hrequests, hmodify, AuthRequest.advance, hticket, hexpired]

theorem exists_steps_advanceAll (now : Instant) (a : Authenticator) (done rest : List AuthRequest)
    (hrequests : a.requests = done ++ rest) :
    ∃ todo, { a with
        pool := (advanceAll a.limits now a.pool rest).1
        requests := done ++ (advanceAll a.limits now a.pool rest).2 } = a.steps now todo := by
  induction rest generalizing a done with
  | nil =>
      refine ⟨[], ?_⟩
      obtain ⟨limits, pool, requests⟩ := a
      cases hrequests
      rfl
  | cons r rest ih =>
      have hfirst := steps_advance now a done rest r hrequests
      obtain ⟨todo, htodo⟩ := ih (a.steps now [.observe done.length, .expire done.length])
        (done ++ [(r.advance a.limits now a.pool).1]) (by rw [hfirst]; simp)
      refine ⟨[.observe done.length, .expire done.length] ++ todo, ?_⟩
      rw [steps_append, ← htodo, hfirst]
      simp [advanceAll]

/-- All that an authenticator does at an instant is a list of steps. -/
theorem exists_steps_settle (now : Instant) (a : Authenticator) :
    ∃ todo, a.settle now = a.steps now todo := by
  obtain ⟨first, hfirst⟩ := exists_steps_pool now a (3 * a.pool.jobs.length)
  obtain ⟨last, hlast⟩ :=
    exists_steps_advanceAll now { a with pool := a.pool.settle now } [] a.requests rfl
  refine ⟨first ++ last, ?_⟩
  rw [steps_append, ← hfirst]
  exact hlast

end Authenticator

end Realm
