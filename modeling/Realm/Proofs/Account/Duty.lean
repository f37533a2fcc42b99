import Realm.Proofs.Account.Crew

/-!
# What a crew keeps

What holds of the workers, the jobs and the requests at all times, together with the lookups that
have begun and the jobs that were not accepted: each step keeps it, so every run does.
-/

namespace Realm

open Pool (SubmitError)

namespace Crew

variable {now : Instant} {c : Crew} {worker : Nat} {ticket : Ticket} {station : Station}
  {looked : List (Nat × Ticket)} {refused : List (Nat × SubmitError)} {p : Pool}

/-- What is kept at all times, with the lookups that have begun and the requests whose jobs were not
accepted. -/
structure Sound (c : Crew) (looked : List (Nat × Ticket)) (refused : List (Nat × SubmitError)) :
    Prop where
  called : c.authenticator.Called (looked.map (·.2))
  ordered : c.pool.Ordered (looked.map (·.2))
  told : ∀ r ∈ c.authenticator.requests, r.Told c.pool
  refused : ∀ x ∈ refused, c.pool.state? x.1 = some x.2.state ∧
    ∃ r, c.authenticator.requests[x.1]? = some r ∧ r.outcome? = some x.2.outcome
  manned : Manned c.pool c.stations

theorem sound_start (limits : AuthLimits) (storage : Storage) (workers capacity : Nat) :
    (start limits storage workers capacity).Sound [] [] := by
  refine ⟨⟨[], rfl, ⟨⟨rfl, .nil, nofun, fun ticket job hjob => ?_, fun ticket job f hjob => ?_⟩,
    rfl, fun i r hr => ?_⟩, nofun⟩, Pool.ordered_start _ _ _, nofun, nofun, ?_⟩
  · cases hjob
  · cases hjob
  · cases hr
  · refine ⟨?_, ?_, fun ticket => ?_, ?_⟩ <;>
      simp [start, pool, Authenticator.start, Pool.start, Pool.count, Pool.state?,
        List.count_replicate, List.countP_replicate, Station.isThere, Station.isLooking]

/-- The tickets of the requests are their numbers. -/
theorem Sound.ticket_eq (h : c.Sound looked refused) {i : Nat} {r : AuthRequest}
    (hr : c.authenticator.requests[i]? = some r) : r.ticket = i := by
  obtain ⟨log, -, hlogged, -⟩ := h.called
  have hticket := congrArg (·[i]?) hlogged.tickets_eq
  rw [List.getElem?_map, hr, Option.map_some] at hticket
  obtain ⟨hlt, heq⟩ := List.getElem?_eq_some_iff.mp hticket.symm
  rw [← heq, List.getElem_range]

/-- A step of the workers. -/
theorem Sound.withPool (h : c.Sound looked refused) (now : Instant) (q : AuthStep)
    (more : List (Nat × Ticket)) {stations : List Station}
    (hq : c.authenticator.step now q = { c.authenticator with pool := p })
    (hmoves : c.pool.Moves p)
    (hcalled : (c.authenticator.step now q).Called ((looked ++ more).map (·.2)))
    (hordered : p.Ordered ((looked ++ more).map (·.2))) (hmanned : Manned p stations) :
    (⟨c.authenticator.step now q, stations⟩ : Crew).Sound (looked ++ more) refused := by
  have hpool : (c.authenticator.step now q).pool = p := by rw [hq]
  have hrequests : (c.authenticator.step now q).requests = c.authenticator.requests := by rw [hq]
  refine ⟨hcalled, by rwa [pool, hpool], fun r hr => ?_, fun x hx => ?_, by rwa [pool, hpool]⟩
  · rw [hrequests] at hr
    rw [pool, hpool]
    exact (h.told r hr).moves hmoves
  · obtain ⟨hstate, r, hr, houtcome⟩ := h.refused x hx
    rw [pool, hpool, hrequests]
    exact ⟨hmoves.over hstate (by cases x.2 <;> rfl), r, hr, houtcome⟩

theorem Sound.enter (h : c.Sound looked refused) (now : Instant) :
    (c.step now .enter).Sound looked refused := by
  unfold Crew.step
  dsimp only
  split
  · exact h
  · next ticket job hfirst =>
      have hnil := List.append_nil looked
      have hentered := h.withPool now (.enter ticket) [] rfl
        (Pool.moves_enter c.pool ticket) (hnil.symm ▸ h.called.step now nofun)
        (hnil.symm ▸ h.ordered.enter hfirst) (h.manned.enter ticket)
      rwa [hnil] at hentered

theorem Sound.listen (h : c.Sound looked refused) (now : Instant) (worker : Nat) :
    (c.step now (.listen worker)).Sound looked refused := by
  unfold Crew.step
  dsimp only
  split
  · next hcond => exact ⟨h.called, h.ordered, h.told, h.refused, h.manned.listen hcond.1 hcond.2⟩
  · exact h

theorem of_next? (h : c.next? worker = some ticket) : c.stations[worker]? = some .listening ∧
    ∃ job, c.pool.first? JobState.isQueued = some (ticket, job) := by
  unfold next? at h
  split at h
  · next hworker =>
      obtain ⟨⟨ticket, job⟩, hfirst, rfl⟩ := Option.map_eq_some_iff.mp h
      exact ⟨hworker, job, hfirst⟩
  · cases h

theorem Sound.take (h : c.Sound looked refused) (now : Instant) (worker : Nat) :
    (c.step now (.take worker)).Sound (looked ++ c.looks (.take worker)) refused := by
  unfold Crew.step looks
  dsimp only
  cases hnext : c.next? worker with
  | none => simpa using h
  | some ticket =>
      obtain ⟨hworker, job, hfirst⟩ := of_next? hnext
      have hjob := Pool.state_of_first?_isQueued hfirst
      have hidle := h.manned.idle_iff.mpr ⟨worker, _, hworker, rfl⟩
      have htickets : (looked ++ [(worker, ticket)]).map (·.2) = looked.map (·.2) ++ [ticket] := by
        simp
      exact h.withPool now (.look ticket) _ rfl (Pool.moves_look now c.pool ticket)
        (htickets ▸ h.called.look hjob hidle now) (htickets ▸ h.ordered.look hfirst hidle now)
        (h.manned.take hworker hjob now)

theorem of_ending? (h : c.ending? now worker = some (ticket, station)) :
    c.stations[worker]? = some (.looking ticket) ∧ ∃ due finding,
      c.pool.state? ticket = some (.running due finding) ∧ due.any (· ≤ now) = true ∧
      station = .after finding := by
  unfold ending? at h
  split at h
  · next i hworker =>
      split at h
      · next due finding hstate =>
          split at h
          · next hdue =>
              cases h
              exact ⟨hworker, due, _, hstate, hdue, rfl⟩
          · cases h
      · cases h
  · cases h

theorem Sound.finish (h : c.Sound looked refused) (now : Instant) (worker : Nat) :
    (c.step now (.finish worker)).Sound looked refused := by
  unfold Crew.step
  dsimp only
  cases hending : c.ending? now worker with
  | none => exact h
  | some found =>
      obtain ⟨ticket, station⟩ := found
      obtain ⟨hworker, due, finding, hstate, hdue, rfl⟩ := of_ending? hending
      have hnil := List.append_nil looked
      have hmanned : Manned (c.pool.finish now ticket)
          (c.stations.set worker (.after finding)) := by
        unfold Pool.finish
        rw [hstate]
        dsimp only
        rw [if_pos hdue]
        cases finding with
        | answer result => exact (h.manned.finish hworker hstate rfl).1
        | crash => exact (h.manned.finish hworker hstate rfl).2
      have hfinished := h.withPool now (.finish ticket) [] rfl
        (Pool.moves_finish now c.pool ticket) (hnil.symm ▸ h.called.step now nofun)
        (hnil.symm ▸ h.ordered.finish now ticket) hmanned
      rwa [hnil] at hfinished

theorem Sound.request (h : c.Sound looked refused) (now : Instant) (username password : String) :
    (c.step now (.request username password)).Sound looked refused := by
  have hmoves := Pool.moves_submit c.pool username
  refine ⟨h.called.enlist now username password, h.ordered.submit username, fun r hr => ?_,
    fun x hx => ?_, h.manned.submit username⟩
  · rcases List.mem_append.mp hr with hold | hnew
    · exact (h.told r hold).moves hmoves
    · rw [List.mem_singleton.mp hnew]
      have hlast : (c.pool.submit username).2.jobs[c.pool.jobs.length]? =
          some ⟨username, c.pool.admission⟩ := List.getElem?_concat_length
      exact ⟨_, Pool.state?_of_job hlast, nofun⟩
  · obtain ⟨hstate, r, hr, houtcome⟩ := h.refused x hx
    obtain ⟨hlt, -⟩ := List.getElem?_eq_some_iff.mp hr
    refine ⟨hmoves.over hstate (by cases x.2 <;> rfl), r, ?_, houtcome⟩
    exact (List.getElem?_append_left hlt).trans hr

/-- A requester that looks leaves the pool as it is, or it gives up a job. -/
theorem advance_snd_cases (limits : AuthLimits) (now : Instant) (p : Pool) (r : AuthRequest) :
    (r.advance limits now p).2 = p ∨ ∃ ticket, (r.advance limits now p).2 = p.withdraw ticket := by
  unfold AuthRequest.advance
  dsimp only
  split
  · exact .inr ⟨_, rfl⟩
  · exact .inl rfl

theorem moves_advance (limits : AuthLimits) (now : Instant) (p : Pool) (r : AuthRequest) :
    p.Moves (r.advance limits now p).2 := by
  rcases advance_snd_cases limits now p r with hsame | ⟨ticket, hgave⟩
  · rw [hsame]
    exact .refl p
  · rw [hgave]
    exact Pool.moves_withdraw p ticket

/-- The request whose job is not accepted takes its job out of the line. -/
theorem advance_of_refusal? {r : AuthRequest} {state : JobState} {e : SubmitError}
    (hstate : p.state? r.ticket = some state) (h : r.refusal? now (some state) = some e)
    (limits : AuthLimits) : (r.advance limits now p).1.outcome? = some e.outcome ∧
      (r.advance limits now p).2.state? r.ticket = some e.state := by
  obtain ⟨houtcome, hcause⟩ := AuthRequest.outcome?_of_refusal? h limits
  have hticket : ((r.observe limits now (some state)).expire now).ticket = r.ticket :=
    (AuthRequest.same_expire now _).1.trans (AuthRequest.same_observe limits now _ r).1
  unfold AuthRequest.advance
  rw [hstate]
  dsimp only
  refine ⟨houtcome, ?_⟩
  rw [houtcome, hticket]
  rcases hcause with ⟨rfl, rfl⟩ | ⟨rfl, rfl⟩
  · have htimeout : some SubmitError.timeout.outcome = some AuthOutcome.timedOut := rfl
    rw [if_pos htimeout, Pool.withdraw, hstate]
    exact Pool.state?_setState_self hstate .withdrawn
  · rw [if_neg (by simp [Pool.SubmitError.outcome]), hstate]
    rfl

theorem Sound.poll (h : c.Sound looked refused) (now : Instant) (i : Nat) :
    (c.step now (.poll i)).Sound looked (refused ++ c.refuses now (.poll i)) := by
  have hobserved := h.called.step (q := .observe i) now nofun
  have hcalled : (c.step now (.poll i)).authenticator.Called (looked.map (·.2)) :=
    hobserved.step (q := .expire i) now nofun
  cases hr : c.authenticator.requests[i]? with
  | none =>
      have hsame : c.step now (.poll i) = c := by
        simp [Crew.step, Authenticator.steps_poll_of_none now hr]
      simpa [hsame, refuses, hr] using h
  | some r =>
      have hticket := h.ticket_eq hr
      have hmoves := moves_advance c.authenticator.limits now c.pool r
      have hstep := Authenticator.steps_poll now hr
      have hpool : (c.step now (.poll i)).pool = (r.advance c.authenticator.limits now c.pool).2 :=
        congrArg Authenticator.pool hstep
      have hrequests : (c.step now (.poll i)).authenticator.requests =
          c.authenticator.requests.set i (r.advance c.authenticator.limits now c.pool).1 :=
        congrArg Authenticator.requests hstep
      have hordered : (r.advance c.authenticator.limits now c.pool).2.Ordered (looked.map (·.2)) ∧
          Manned (r.advance c.authenticator.limits now c.pool).2 c.stations := by
        rcases advance_snd_cases c.authenticator.limits now c.pool r with hsame | ⟨ticket, hgave⟩
        · rw [hsame]
          exact ⟨h.ordered, h.manned⟩
        · rw [hgave]
          exact ⟨h.ordered.withdraw ticket, h.manned.withdraw ticket⟩
      have htold := h.told r (List.mem_of_getElem? hr)
      obtain ⟨hlt, -⟩ := List.getElem?_eq_some_iff.mp hr
      refine ⟨hcalled, hpool ▸ hordered.1, fun q hq => ?_, fun x hx => ?_, hpool ▸ hordered.2⟩
      · rw [hrequests] at hq
        rw [hpool]
        rcases List.mem_or_eq_of_mem_set hq with hold | rfl
        · exact (h.told q hold).moves hmoves
        · exact ((htold.observe c.authenticator.limits now).expire now).moves hmoves
      · rw [hpool, hrequests]
        rcases List.mem_append.mp hx with hold | hnew
        · obtain ⟨hstate, q, hq, houtcome⟩ := h.refused x hold
          refine ⟨hmoves.over hstate (by cases x.2 <;> rfl), q, ?_, houtcome⟩
          by_cases hi : i = x.1
          · subst hi
            rw [hr] at hq
            cases hq
            rw [List.getElem?_set_self hlt]
            exact congrArg some (AuthRequest.expire_observe_of_outcome? houtcome _ now _)
          · rwa [List.getElem?_set_ne hi]
        · obtain ⟨state, hstate, -⟩ := htold
          simp only [refuses, hr, Option.bind_some, List.mem_map, Option.mem_toList] at hnew
          obtain ⟨e, he, rfl⟩ := hnew
          rw [hstate] at he
          obtain ⟨houtcome, hstate'⟩ :=
            advance_of_refusal? hstate he c.authenticator.limits
          rw [List.getElem?_set_self hlt]
          exact ⟨hticket ▸ hstate', _, rfl, houtcome⟩

theorem Sound.step (h : c.Sound looked refused) (now : Instant) (s : CrewStep) :
    (c.step now s).Sound (looked ++ c.looks s) (refused ++ c.refuses now s) := by
  cases s with
  | request username password => simpa [looks, refuses] using h.request now username password
  | poll i => simpa [looks] using h.poll now i
  | enter => simpa [looks, refuses] using h.enter now
  | listen worker => simpa [looks, refuses] using h.listen now worker
  | take worker => simpa [refuses] using h.take now worker
  | finish worker => simpa [looks, refuses] using h.finish now worker

theorem Sound.run (h : c.Sound looked refused) (steps : List (Instant × CrewStep)) :
    (c.run steps).Sound (looked ++ c.lookups steps) (refused ++ c.refusals steps) := by
  induction steps generalizing c looked refused with
  | nil => simpa [Crew.run, lookups, refusals] using h
  | cons first steps ih =>
      obtain ⟨now, s⟩ := first
      rw [lookups, refusals, ← List.append_assoc, ← List.append_assoc]
      exact ih (h.step now s)

theorem run_append (c : Crew) (steps more : List (Instant × CrewStep)) :
    c.run (steps ++ more) = (c.run steps).run more := List.foldl_append

/-! ## What never changes -/

theorem moves_step (now : Instant) (c : Crew) (s : CrewStep) : c.pool.Moves (c.step now s).pool := by
  cases s with
  | request username password => exact Pool.moves_submit c.pool username
  | poll i =>
      cases hr : c.authenticator.requests[i]? with
      | none => simpa [step, pool, Authenticator.steps_poll_of_none now hr] using .refl c.pool
      | some r =>
          rw [step, pool, Authenticator.steps_poll now hr]
          exact moves_advance _ now c.pool r
  | enter =>
      unfold step
      dsimp only
      split
      · exact .refl c.pool
      · exact Pool.moves_enter c.pool _
  | listen worker =>
      unfold step
      dsimp only
      split <;> exact .refl c.pool
  | take worker =>
      unfold step
      dsimp only
      split
      · exact .refl c.pool
      · exact Pool.moves_look now c.pool _
  | finish worker =>
      unfold step
      dsimp only
      split
      · exact .refl c.pool
      · exact Pool.moves_finish now c.pool _

theorem length_stations_step (now : Instant) (c : Crew) (s : CrewStep) :
    (c.step now s).stations.length = c.stations.length := by
  unfold step
  cases s <;> dsimp only <;> split <;> simp

theorem moves_run (c : Crew) (steps : List (Instant × CrewStep)) :
    c.pool.Moves (c.run steps).pool ∧ (c.run steps).stations.length = c.stations.length := by
  induction steps generalizing c with
  | nil => exact ⟨.refl c.pool, rfl⟩
  | cons first steps ih =>
      obtain ⟨now, s⟩ := first
      obtain ⟨hmoves, hlength⟩ := ih (c.step now s)
      exact ⟨(moves_step now c s).trans hmoves, hlength.trans (length_stations_step now c s)⟩

end Crew

end Realm
