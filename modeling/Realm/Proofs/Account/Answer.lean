import Mathlib.Data.List.Nodup
import Realm.Proofs.Account.Inquiry

/-!
# Every outcome goes back to a lookup

A log is kept of the lookups: for each call of the storage, the job it was made for and the username
that was asked for. A job is looked up once at most, and is answered with what the storage gave to
that call. A request succeeds with an account only if the storage gave that account to the lookup
for the request's own job, and the password is that of the account.
-/

namespace Realm

/-- For each call of the storage, the job and the username. -/
abbrev LookupLog := List (Ticket × String)

/-- The storage was called for a job, and the call ends with a finding. -/
def LookedUp (storage : Storage) (log : LookupLog) (ticket : Ticket) (username : String)
    (finding : Finding) : Prop :=
  ∃ n, log[n]? = some (ticket, username) ∧ (storage n username).finding = finding

theorem LookedUp.append {storage : Storage} {log : LookupLog} {ticket : Ticket} {username : String}
    {finding : Finding} (h : LookedUp storage log ticket username finding) (more : LookupLog) :
    LookedUp storage (log ++ more) ticket username finding := by
  obtain ⟨n, hn, hfinding⟩ := h
  obtain ⟨hlt, -⟩ := List.getElem?_eq_some_iff.mp hn
  exact ⟨n, (List.getElem?_append_left hlt).trans hn, hfinding⟩

namespace JobState

def finding? : JobState → Option Finding
  | .running _ finding => some finding
  | .answered result => some (.answer result)
  | _ => none

def isPending : JobState → Bool
  | .waiting | .queued => true
  | _ => false

end JobState

/-! ## The workers -/

namespace Pool

variable {now : Instant} {p p' : Pool} {log : LookupLog} {ticket : Ticket} {state : JobState}

/-- The log is about the jobs of a pool. -/
structure Logged (p : Pool) (log : LookupLog) : Prop where
  calls_eq : log.map (·.2) = p.calls
  nodup : (log.map (·.1)).Nodup
  lt : ∀ entry ∈ log, entry.1 < p.jobs.length
  fresh : ∀ (ticket : Ticket) (job : Job), p.jobs[ticket]? = some job →
    job.state.isPending = true → ticket ∉ log.map (·.1)
  answers : ∀ (ticket : Ticket) (job : Job) finding, p.jobs[ticket]? = some job →
    job.state.finding? = some finding → LookedUp p.storage log ticket job.username finding

/-- Jobs come, and those that are there keep their usernames. -/
structure Extends (p p' : Pool) : Prop where
  storage_eq : p'.storage = p.storage
  job : ∀ (ticket : Ticket) (job : Job), p.jobs[ticket]? = some job →
    ∃ job', p'.jobs[ticket]? = some job' ∧ job'.username = job.username

/-- Jobs go on without being looked up. -/
structure Proceeds (p p' : Pool) : Prop where
  storage_eq : p'.storage = p.storage
  calls_eq : p'.calls = p.calls
  length_eq : p'.jobs.length = p.jobs.length
  job : ∀ (ticket : Ticket) (job' : Job), p'.jobs[ticket]? = some job' →
    ∃ job, p.jobs[ticket]? = some job ∧
    job'.username = job.username ∧
    (∀ finding, job'.state.finding? = some finding → job.state.finding? = some finding) ∧
    (job'.state.isPending = true → job.state.isPending = true)

theorem Proceeds.refl (p : Pool) : p.Proceeds p :=
  ⟨rfl, rfl, rfl, fun _ job h => ⟨job, h, rfl, fun _ hf => hf, fun hp => hp⟩⟩

theorem Proceeds.trans {p'' : Pool} (h : p.Proceeds p') (h' : p'.Proceeds p'') :
    p.Proceeds p'' := by
  refine ⟨h'.storage_eq.trans h.storage_eq, h'.calls_eq.trans h.calls_eq,
    h'.length_eq.trans h.length_eq, ?_⟩
  intro ticket job'' hjob''
  obtain ⟨job', hjob', husername', hfinding', hpending'⟩ := h'.job ticket job'' hjob''
  obtain ⟨job, hjob, husername, hfinding, hpending⟩ := h.job ticket job' hjob'
  exact ⟨job, hjob, husername'.trans husername, fun f hf => hfinding f (hfinding' f hf),
    fun hp => hpending (hpending' hp)⟩

theorem Proceeds.extends (h : p.Proceeds p') : p.Extends p' := by
  refine ⟨h.storage_eq, ?_⟩
  intro ticket job hjob
  obtain ⟨hlt, -⟩ := List.getElem?_eq_some_iff.mp hjob
  rw [← h.length_eq] at hlt
  obtain ⟨old, hold, husername, -⟩ := h.job ticket _ (List.getElem?_eq_getElem hlt)
  rw [hjob] at hold
  cases hold
  exact ⟨_, List.getElem?_eq_getElem hlt, husername⟩

theorem jobs_setState (p : Pool) (ticket i : Ticket) (state : JobState) :
    (p.setState ticket state).jobs[i]? =
      if ticket = i then p.jobs[i]?.map fun job => { job with state } else p.jobs[i]? := by
  rw [setState, List.getElem?_modify]
  split
  · rfl
  · cases p.jobs[i]? <;> rfl

theorem proceeds_setState
    (h : ∀ old, p.state? ticket = some old →
      (∀ finding, state.finding? = some finding → old.finding? = some finding) ∧
      (state.isPending = true → old.isPending = true)) :
    p.Proceeds (p.setState ticket state) := by
  refine ⟨rfl, rfl, List.length_modify .., ?_⟩
  intro i job' hjob'
  rw [jobs_setState] at hjob'
  split at hjob'
  · next heq =>
      subst heq
      obtain ⟨job, hjob, rfl⟩ := Option.map_eq_some_iff.mp hjob'
      obtain ⟨hfinding, hpending⟩ := h job.state (state?_of_job hjob)
      exact ⟨job, hjob, rfl, hfinding, hpending⟩
  · exact ⟨job', hjob', rfl, fun _ hf => hf, fun hp => hp⟩

theorem proceeds_loseWorker (p : Pool) : p.Proceeds p.loseWorker := by
  unfold loseWorker
  by_cases h : p.workers - 1 = 0
  · refine ⟨rfl, rfl, by simp [h], ?_⟩
    intro i job' hjob'
    simp only [h, if_true, List.getElem?_map] at hjob'
    obtain ⟨job, hjob, rfl⟩ := Option.map_eq_some_iff.mp hjob'
    refine ⟨job, hjob, rfl, ?_, ?_⟩
    · intro finding
      cases job.state <;> simp [JobState.abandon, JobState.finding?]
    · cases job.state <;> simp [JobState.abandon, JobState.isPending]
  · refine ⟨rfl, rfl, by simp [h], ?_⟩
    intro i job' hjob'
    simp only [h, if_false] at hjob'
    exact ⟨job', hjob', rfl, fun _ hf => hf, fun hp => hp⟩

theorem proceeds_enter (ticket : Ticket) : p.Proceeds (p.enter ticket) := by
  unfold enter
  split
  · next hstate =>
      split
      · refine proceeds_setState fun old hold => ?_
        rw [hstate] at hold
        cases hold
        exact ⟨nofun, fun _ => rfl⟩
      · exact .refl p
  · exact .refl p

theorem proceeds_finish (now : Instant) (ticket : Ticket) : p.Proceeds (p.finish now ticket) := by
  unfold finish
  split
  · next due finding hstate =>
      split
      · cases finding with
        | answer result =>
            refine proceeds_setState fun old hold => ?_
            rw [hstate] at hold
            cases hold
            exact ⟨fun _ hf => hf, nofun⟩
        | crash =>
            have hdropped : p.Proceeds (p.setState ticket .dropped) :=
              proceeds_setState fun _ _ => ⟨nofun, nofun⟩
            exact hdropped.trans (proceeds_loseWorker _)
      · exact .refl p
  · exact .refl p

theorem proceeds_withdraw (ticket : Ticket) : p.Proceeds (p.withdraw ticket) := by
  unfold withdraw
  split
  · exact proceeds_setState fun _ _ => ⟨nofun, nofun⟩
  · exact .refl p

theorem Logged.proceeds (hp : p.Logged log) (h : p.Proceeds p') : p'.Logged log := by
  refine ⟨hp.calls_eq.trans h.calls_eq.symm, hp.nodup, ?_, ?_, ?_⟩
  · rw [h.length_eq]
    exact hp.lt
  · intro ticket job' hjob' hpending'
    obtain ⟨job, hjob, -, -, hpending⟩ := h.job ticket job' hjob'
    exact hp.fresh ticket job hjob (hpending hpending')
  · intro ticket job' finding hjob' hfinding'
    obtain ⟨job, hjob, husername, hfinding, -⟩ := h.job ticket job' hjob'
    rw [husername, h.storage_eq]
    exact hp.answers ticket job finding hjob (hfinding finding hfinding')

theorem look_cases (now : Instant) (p : Pool) (ticket : Ticket) :
    p.look now ticket = p ∨ ∃ username due, p.jobs[ticket]? = some ⟨username, .queued⟩ ∧
      p.look now ticket =
        { p.setState ticket (.running due (p.storage p.calls.length username).finding) with
          calls := p.calls ++ [username] } := by
  unfold look
  split
  · next username hjob =>
      split
      · exact .inr ⟨username, _, hjob, rfl⟩
      · exact .inl rfl
  · exact .inl rfl

theorem extends_look (ticket : Ticket) : p.Extends (p.look now ticket) := by
  rcases look_cases now p ticket with heq | ⟨username, due, -, heq⟩
  · rw [heq]
    exact (Proceeds.refl p).extends
  · rw [heq]
    refine ⟨rfl, ?_⟩
    intro i job hjob
    simp only [jobs_setState, hjob]
    split
    · exact ⟨_, rfl, rfl⟩
    · exact ⟨job, rfl, rfl⟩

theorem length_look (now : Instant) (p : Pool) (ticket : Ticket) :
    (p.look now ticket).jobs.length = p.jobs.length := by
  rcases look_cases now p ticket with heq | ⟨username, due, -, heq⟩
  · rw [heq]
  · rw [heq]
    exact List.length_modify ..

def logged (now : Instant) (p : Pool) (ticket : Ticket) : LookupLog :=
  ((p.look now ticket).calls.drop p.calls.length).map fun username => (ticket, username)

/-- The lookup of a job is the next call of the storage, and no job is looked up twice. -/
theorem Logged.look (hp : p.Logged log) (ticket : Ticket) :
    (p.look now ticket).Logged (log ++ p.logged now ticket) := by
  unfold logged
  rcases look_cases now p ticket with heq | ⟨username, due, hjob, heq⟩
  · rw [heq, List.drop_length, List.map_nil, List.append_nil]
    exact hp
  · have hnew : ticket ∉ log.map (·.1) := hp.fresh ticket _ hjob rfl
    have hlength : log.length = p.calls.length := by rw [← hp.calls_eq, List.length_map]
    rw [heq]
    simp only [List.drop_left, List.map_cons, List.map_nil]
    refine ⟨by simp [hp.calls_eq], ?_, ?_, ?_, ?_⟩
    · rw [List.map_append, List.map_singleton, List.nodup_append_comm]
      exact List.nodup_cons.mpr ⟨hnew, hp.nodup⟩
    · intro entry hm
      simp only [setState, List.length_modify]
      rcases List.mem_append.mp hm with hm | hm
      · exact hp.lt entry hm
      · rw [List.mem_singleton.mp hm]
        exact (List.getElem?_eq_some_iff.mp hjob).1
    · intro i job hi hpending
      simp only [jobs_setState] at hi
      split at hi
      · obtain ⟨_, -, rfl⟩ := Option.map_eq_some_iff.mp hi
        cases hpending
      · next hne =>
          rw [List.map_append, List.mem_append, not_or]
          exact ⟨hp.fresh i job hi hpending, fun hm => hne (List.mem_singleton.mp hm).symm⟩
    · intro i job finding hi hfinding
      simp only [jobs_setState] at hi
      split at hi
      · next hi' =>
          subst hi'
          rw [hjob] at hi
          cases hi
          cases hfinding
          exact ⟨p.calls.length, by rw [← hlength]; exact List.getElem?_concat_length, rfl⟩
      · exact (hp.answers i job finding hi hfinding).append _

theorem jobs_submit_cases {username : String} {i : Ticket} {job : Job}
    (h : (p.submit username).2.jobs[i]? = some job) :
    p.jobs[i]? = some job ∨ i = p.jobs.length ∧ job = ⟨username, p.admission⟩ := by
  simp only [Pool.submit, List.getElem?_append] at h
  split at h
  · exact .inl h
  · next hle =>
      obtain ⟨hlt, rfl⟩ := List.getElem?_eq_some_iff.mp h
      refine .inr ⟨?_, List.getElem_singleton _⟩
      exact Nat.le_antisymm (Nat.sub_eq_zero_iff_le.mp (Nat.lt_one_iff.mp hlt)) (Nat.not_lt.mp hle)

theorem Logged.submit (hp : p.Logged log) (username : String) :
    (p.submit username).2.Logged log := by
  refine ⟨hp.calls_eq, hp.nodup, ?_, ?_, ?_⟩
  · intro entry hm
    exact Nat.lt_of_lt_of_le (hp.lt entry hm) (by simp [Pool.submit])
  · intro i job hi hpending
    rcases jobs_submit_cases hi with hi | ⟨rfl, -⟩
    · exact hp.fresh i job hi hpending
    · intro hm
      obtain ⟨entry, hm, heq⟩ := List.mem_map.mp hm
      exact Nat.ne_of_lt (hp.lt entry hm) heq
  · intro i job finding hi hfinding
    rcases jobs_submit_cases hi with hi | ⟨-, rfl⟩
    · exact hp.answers i job finding hi hfinding
    · have hnone : p.admission.finding? = none := by
        unfold admission
        split
        · rfl
        · split <;> rfl
      rw [hnone] at hfinding
      cases hfinding

theorem extends_submit (username : String) : p.Extends (p.submit username).2 := by
  refine ⟨rfl, ?_⟩
  intro i job hi
  obtain ⟨hlt, -⟩ := List.getElem?_eq_some_iff.mp hi
  exact ⟨job, (List.getElem?_append_left hlt).trans hi, rfl⟩

end Pool

/-! ## The requests -/

namespace AuthRequest

variable {now : Instant} {p p' : Pool} {log : LookupLog} {r : AuthRequest}

/-- If the request succeeded, its own job was answered with the account, and the password is
right. -/
def Backed (p : Pool) (log : LookupLog) (r : AuthRequest) : Prop :=
  ∀ account, r.outcome? = some (.success account) → ∃ job, p.jobs[r.ticket]? = some job ∧
    LookedUp p.storage log r.ticket job.username (.answer (.ok (some account))) ∧
    account.password = r.password

theorem Backed.extends (hr : r.Backed p log) (h : p.Extends p') (more : LookupLog) :
    r.Backed p' (log ++ more) := by
  intro account hsuccess
  obtain ⟨job, hjob, hlooked, hpassword⟩ := hr account hsuccess
  obtain ⟨job', hjob', husername⟩ := h.job r.ticket job hjob
  rw [← husername, ← h.storage_eq] at hlooked
  exact ⟨job', hjob', hlooked.append more, hpassword⟩

/-- Two requests that differ in how far they are. -/
def Same (r r' : AuthRequest) : Prop := r'.ticket = r.ticket ∧ r'.password = r.password

theorem same_observe (limits : AuthLimits) (now : Instant) (state : Option JobState)
    (r : AuthRequest) : r.Same (r.observe limits now state) := by
  unfold observe
  split <;> exact ⟨rfl, rfl⟩

theorem same_expire (now : Instant) (r : AuthRequest) : r.Same (r.expire now) := by
  unfold expire
  split <;> exact ⟨rfl, rfl⟩

theorem ofResult_eq_success {password : String} {result : LookupResult} {account : Account}
    (h : AuthOutcome.ofResult password result = .success account) :
    result = .ok (some account) ∧ account.password = password := by
  unfold AuthOutcome.ofResult at h
  split at h
  · cases h
  · cases h
  · split at h
    · next haccepts =>
        cases h
        exact ⟨rfl, of_decide_eq_true haccepts⟩
    · cases h

/-- A request takes note of the answer to its own job. -/
theorem Backed.observe (hr : r.Backed p log) (hp : p.Logged log) (limits : AuthLimits) :
    (r.observe limits now (p.state? r.ticket)).Backed p log := by
  obtain ⟨hticket, hpassword⟩ := r.same_observe limits now (p.state? r.ticket)
  intro account hsuccess
  rw [hticket, hpassword]
  unfold AuthRequest.observe at hsuccess
  split at hsuccess
  · exact hr account hsuccess
  · exact hr account hsuccess
  · cases hsuccess
  · cases hsuccess
  · next result hstate _ =>
      obtain ⟨rfl, hright⟩ := ofResult_eq_success (Option.some.inj hsuccess)
      obtain ⟨job, hjob, hanswered⟩ := Option.map_eq_some_iff.mp hstate
      exact ⟨job, hjob, hp.answers r.ticket job _ hjob (by rw [hanswered]; rfl), hright⟩
  · cases hsuccess
  · cases hsuccess
  · exact hr account hsuccess

theorem Backed.expire (hr : r.Backed p log) : (r.expire now).Backed p log := by
  unfold AuthRequest.expire
  split
  · intro account hsuccess
    cases hsuccess
  · exact hr

end AuthRequest

namespace Authenticator

variable {now : Instant} {a a' : Authenticator} {log : LookupLog}

/-- The log is about the jobs of an authenticator, and its requests are backed by it. Each request
has the job of its own number. -/
structure Logged (a : Authenticator) (log : LookupLog) : Prop where
  pool : a.pool.Logged log
  tickets_eq : a.requests.map (·.ticket) = List.range a.pool.jobs.length
  backed : ∀ (i : Nat) (r : AuthRequest), a.requests[i]? = some r → r.Backed a.pool log

/-- Requests come, and those that are there stay the same but for how far they are. -/
structure Extends (a a' : Authenticator) : Prop where
  pool : a.pool.Extends a'.pool
  request : ∀ (i : Nat) (r : AuthRequest), a.requests[i]? = some r →
    ∃ r', a'.requests[i]? = some r' ∧ r.Same r'

theorem Extends.refl (a : Authenticator) : a.Extends a :=
  ⟨(Pool.Proceeds.refl a.pool).extends, fun _ r h => ⟨r, h, rfl, rfl⟩⟩

theorem Extends.trans {a'' : Authenticator} (h : a.Extends a') (h' : a'.Extends a'') :
    a.Extends a'' := by
  refine ⟨⟨h'.pool.storage_eq.trans h.pool.storage_eq, ?_⟩, ?_⟩
  · intro ticket job hjob
    obtain ⟨job', hjob', heq⟩ := h.pool.job ticket job hjob
    obtain ⟨job'', hjob'', heq'⟩ := h'.pool.job ticket job' hjob'
    exact ⟨job'', hjob'', heq'.trans heq⟩
  · intro i r hr
    obtain ⟨r', hr', hticket, hpassword⟩ := h.request i r hr
    obtain ⟨r'', hr'', hticket', hpassword'⟩ := h'.request i r' hr'
    exact ⟨r'', hr'', hticket'.trans hticket, hpassword'.trans hpassword⟩

/-- A step of the workers. -/
theorem Logged.withPool {p : Pool} (ha : a.Logged log) {more : LookupLog}
    (hp : p.Logged (log ++ more)) (h : a.pool.Extends p)
    (hlength : p.jobs.length = a.pool.jobs.length) :
    ({ a with pool := p } : Authenticator).Logged (log ++ more) :=
  ⟨hp, by rw [hlength]; exact ha.tickets_eq, fun i r hr => (ha.backed i r hr).extends h more⟩

/-- A step of a request. -/
theorem Logged.revise {i : Nat} {r r' : AuthRequest} {p : Pool} (ha : a.Logged log)
    (hr : a.requests[i]? = some r) (hsame : r.Same r') (hbacked : r'.Backed a.pool log)
    (hp : a.pool.Proceeds p) :
    ({ a with pool := p, requests := a.requests.set i r' } : Authenticator).Logged log := by
  have hextends := fun {q : AuthRequest} (hq : q.Backed a.pool log) =>
    List.append_nil log ▸ hq.extends hp.extends []
  refine ⟨ha.pool.proceeds hp, ?_, ?_⟩
  · have hticket : (a.requests.map (·.ticket))[i]? = some r'.ticket := by
      rw [List.getElem?_map, hr, Option.map_some, hsame.1]
    rw [List.map_set, hp.length_eq, ← ha.tickets_eq]
    obtain ⟨hlt, heq⟩ := List.getElem?_eq_some_iff.mp hticket
    rw [← heq, List.set_getElem_self]
  · intro j q hq
    rw [List.getElem?_set] at hq
    split at hq
    · split at hq
      · cases hq
        exact hextends hbacked
      · cases hq
    · exact hextends (ha.backed j q hq)

theorem extends_revise {i : Nat} {r r' : AuthRequest} {p : Pool} (hr : a.requests[i]? = some r)
    (hsame : r.Same r') (hp : a.pool.Proceeds p) :
    a.Extends { a with pool := p, requests := a.requests.set i r' } := by
  refine ⟨hp.extends, ?_⟩
  intro j q hq
  rw [List.getElem?_set]
  by_cases hj : i = j
  · subst hj
    rw [hr] at hq
    cases hq
    obtain ⟨hlt, -⟩ := List.getElem?_eq_some_iff.mp hr
    rw [if_pos rfl, if_pos hlt]
    exact ⟨r', rfl, hsame⟩
  · rw [if_neg hj]
    exact ⟨q, hq, rfl, rfl⟩

def logged (now : Instant) (a : Authenticator) : AuthStep → LookupLog
  | .look ticket => a.pool.logged now ticket
  | _ => []

theorem step_observe_of_some {i : Nat} {r : AuthRequest} (hr : a.requests[i]? = some r) :
    a.step now (.observe i) =
      { a with
        requests := a.requests.set i (r.observe a.limits now (a.pool.state? r.ticket)) } := by
  simp [step, List.modify_eq_set_getElem?, hr]

theorem step_observe_of_none {i : Nat} (hr : a.requests[i]? = none) :
    a.step now (.observe i) = a := by
  simp [step, List.modify_eq_set_getElem?, hr]

theorem step_expire_of_some (now : Instant) {i : Nat} {r : AuthRequest}
    (hr : a.requests[i]? = some r) : ∃ p, a.pool.Proceeds p ∧
      a.step now (.expire i) =
        { a with pool := p, requests := a.requests.set i (r.expire now) } := by
  simp only [step, hr]
  refine ⟨_, ?_, rfl⟩
  split
  · exact Pool.proceeds_withdraw _
  · exact .refl _

theorem step_expire_of_none {i : Nat} (hr : a.requests[i]? = none) :
    a.step now (.expire i) = a := by
  simp only [step, hr]

/-- One step adds to the log what it looked up, and nothing succeeds without the log. -/
theorem Logged.step (ha : a.Logged log) (now : Instant) (q : AuthStep) :
    (a.step now q).Logged (log ++ a.logged now q) := by
  have hnil : log ++ [] = log := List.append_nil log
  cases q with
  | enter ticket =>
      have hproceeds := Pool.proceeds_enter (p := a.pool) ticket
      exact ha.withPool (hnil.symm ▸ ha.pool.proceeds hproceeds) hproceeds.extends
        hproceeds.length_eq
  | look ticket =>
      exact ha.withPool (ha.pool.look ticket) (Pool.extends_look ticket) (Pool.length_look _ _ _)
  | finish ticket =>
      have hproceeds := Pool.proceeds_finish (p := a.pool) now ticket
      exact ha.withPool (hnil.symm ▸ ha.pool.proceeds hproceeds) hproceeds.extends
        hproceeds.length_eq
  | observe i =>
      show (a.step now (.observe i)).Logged (log ++ [])
      rw [hnil]
      cases hr : a.requests[i]? with
      | none =>
          rw [step_observe_of_none hr]
          exact ha
      | some r =>
          rw [step_observe_of_some hr]
          exact ha.revise hr (r.same_observe _ _ _)
            ((ha.backed i r hr).observe ha.pool a.limits) (.refl _)
  | expire i =>
      show (a.step now (.expire i)).Logged (log ++ [])
      rw [hnil]
      cases hr : a.requests[i]? with
      | none =>
          rw [step_expire_of_none hr]
          exact ha
      | some r =>
          obtain ⟨p, hp, heq⟩ := step_expire_of_some now hr
          rw [heq]
          exact ha.revise hr (r.same_expire now) (ha.backed i r hr).expire hp

theorem extends_step (now : Instant) (a : Authenticator) (q : AuthStep) :
    a.Extends (a.step now q) := by
  have hpool : ∀ {p : Pool}, a.pool.Extends p → a.Extends { a with pool := p } :=
    fun hp => ⟨hp, fun _ r hr => ⟨r, hr, rfl, rfl⟩⟩
  cases q with
  | enter ticket => exact hpool (Pool.proceeds_enter ticket).extends
  | look ticket => exact hpool (Pool.extends_look ticket)
  | finish ticket => exact hpool (Pool.proceeds_finish now ticket).extends
  | observe i =>
      cases hr : a.requests[i]? with
      | none =>
          rw [step_observe_of_none hr]
          exact .refl a
      | some r =>
          rw [step_observe_of_some hr]
          exact extends_revise hr (r.same_observe _ _ _) (.refl _)
  | expire i =>
      cases hr : a.requests[i]? with
      | none =>
          rw [step_expire_of_none hr]
          exact .refl a
      | some r =>
          obtain ⟨p, hp, heq⟩ := step_expire_of_some now hr
          rw [heq]
          exact extends_revise hr (r.same_expire now) hp

theorem length_step (now : Instant) (a : Authenticator) (q : AuthStep) :
    (a.step now q).requests.length = a.requests.length := by
  cases q with
  | enter ticket => rfl
  | look ticket => rfl
  | finish ticket => rfl
  | observe i => exact List.length_modify ..
  | expire i =>
      unfold Authenticator.step
      dsimp only
      split
      · rfl
      · exact List.length_set ..

theorem Logged.tickets_eq_range (ha : a.Logged log) :
    a.requests.map (·.ticket) = List.range a.requests.length := by
  have hlength := congrArg List.length ha.tickets_eq
  rw [List.length_map, List.length_range] at hlength
  rw [ha.tickets_eq, hlength]

def enlist (now : Instant) (a : Authenticator) (username password : String) : Authenticator :=
  { a with
    pool := (a.pool.submit username).2
    requests := a.requests ++
      [⟨a.pool.jobs.length, password, .queueing (now + a.limits.consume.millis)⟩] }

theorem submit_eq (now : Instant) (a : Authenticator) (username password : String) :
    (a.submit now username password).2 = (a.enlist now username password).steps now
      [.observe a.requests.length, .expire a.requests.length] := by
  rw [steps_advance now (a.enlist now username password) a.requests [] _ rfl]
  rfl

theorem Logged.enlist (ha : a.Logged log) (now : Instant) (username password : String) :
    (a.enlist now username password).Logged log := by
  refine ⟨ha.pool.submit username, ?_, ?_⟩
  · simp [Authenticator.enlist, Pool.submit, ha.tickets_eq, List.range_succ]
  · intro i r hr
    simp only [Authenticator.enlist, List.getElem?_append] at hr
    split at hr
    · exact List.append_nil log ▸ (ha.backed i r hr).extends (Pool.extends_submit username) []
    · obtain ⟨-, rfl⟩ := List.getElem?_eq_some_iff.mp hr
      intro account hsuccess
      rw [List.getElem_singleton] at hsuccess
      cases hsuccess

/-- A new request is backed like the others. -/
theorem Logged.submit (ha : a.Logged log) (now : Instant) (username password : String) :
    (a.submit now username password).2.Logged log := by
  rw [submit_eq]
  have hobserved := (ha.enlist now username password).step now (.observe a.requests.length)
  have hexpired := hobserved.step now (.expire a.requests.length)
  simp only [logged, List.append_nil] at hexpired
  exact hexpired

theorem extends_submit (now : Instant) (a : Authenticator) (username password : String) :
    a.Extends (a.submit now username password).2 := by
  have henlist : a.Extends (a.enlist now username password) := by
    refine ⟨Pool.extends_submit username, ?_⟩
    intro i r hr
    obtain ⟨hlt, -⟩ := List.getElem?_eq_some_iff.mp hr
    exact ⟨r, (List.getElem?_append_left hlt).trans hr, rfl, rfl⟩
  have hobserved := henlist.trans (extends_step now _ (.observe a.requests.length))
  have hexpired := hobserved.trans (extends_step now _ (.expire a.requests.length))
  rw [submit_eq]
  exact hexpired

/-- The new request has the next number and a job for the username. -/
theorem requests_submit (now : Instant) (a : Authenticator) (username password : String) :
    ∃ r job, (a.submit now username password).2.requests = a.requests ++ [r] ∧
      r.ticket = a.pool.jobs.length ∧ r.password = password ∧
      (a.submit now username password).2.pool.jobs[r.ticket]? = some job ∧
      job.username = username := by
  let new : AuthRequest :=
    ⟨a.pool.jobs.length, password, .queueing (now + a.limits.consume.millis)⟩
  let noted := new.observe a.limits now ((a.pool.submit username).2.state? new.ticket)
  obtain ⟨hticket, hpassword⟩ := new.same_observe a.limits now
    ((a.pool.submit username).2.state? new.ticket)
  obtain ⟨hticket', hpassword'⟩ := noted.same_expire now
  have hnew : (a.pool.submit username).2.jobs[a.pool.jobs.length]? =
      some ⟨username, a.pool.admission⟩ := List.getElem?_concat_length
  have hproceeds : (a.pool.submit username).2.Proceeds
      (a.submit now username password).2.pool := by
    show Pool.Proceeds _ (if _ then _ else _)
    split
    · exact Pool.proceeds_withdraw _
    · exact .refl _
  obtain ⟨job, hjob, husername⟩ := hproceeds.extends.job _ _ hnew
  refine ⟨noted.expire now, job, rfl, hticket'.trans hticket, hpassword'.trans hpassword, ?_,
    husername⟩
  rw [hticket'.trans hticket]
  exact hjob

end Authenticator

end Realm
