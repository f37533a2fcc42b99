import Realm.Proofs.Account.Duty

/-!
# Answers that come too late

A request that has come to its outcome keeps it. If its lookup is still under way, the answer that
may come concerns nobody: were it another one, every request would come to the same, at the same
instant.
-/

namespace Realm

/-- Where a function says the same of an element and of what it is changed into, the change does not
show. -/
theorem map_modify_of_eq {α β : Type} {f : α → α} {g : α → β} (h : ∀ a, g (f a) = g a) (l : List α)
    (i : Nat) : (l.modify i f).map g = l.map g := by
  induction l generalizing i with
  | nil => cases i <;> rfl
  | cons a l ih => cases i <;> simp [h, ih]

namespace JobState

/-- The state of a job, but not what the answer is. -/
def muted : JobState → JobState
  | .running due (.answer _) => .running due (.answer (.ok none))
  | .answered _ => .answered (.ok none)
  | state => state

@[simp] theorem isWaiting_muted (state : JobState) : state.muted.isWaiting = state.isWaiting := by
  cases state with
  | running due finding => cases finding <;> rfl
  | _ => rfl

@[simp] theorem isQueued_muted (state : JobState) : state.muted.isQueued = state.isQueued := by
  cases state with
  | running due finding => cases finding <;> rfl
  | _ => rfl

@[simp] theorem isRunning_muted (state : JobState) : state.muted.isRunning = state.isRunning := by
  cases state with
  | running due finding => cases finding <;> rfl
  | _ => rfl

theorem abandon_muted (state : JobState) : state.muted.abandon = state.abandon.muted := by
  cases state with
  | running due finding => cases finding <;> rfl
  | _ => rfl

end JobState

def Job.muted (job : Job) : Job := { job with state := job.state.muted }

namespace Pool

variable {p : Pool} {ticket i : Ticket} {state : JobState} {now : Instant}

/-- The pool, but not what the answer for one job is. -/
def mute (ticket : Ticket) (p : Pool) : Pool :=
  { p with jobs := p.jobs.modify ticket Job.muted }

theorem jobs_mute (p : Pool) (ticket i : Ticket) :
    (p.mute ticket).jobs[i]? = if ticket = i then p.jobs[i]?.map Job.muted else p.jobs[i]? := by
  rw [mute, List.getElem?_modify]
  split
  · rfl
  · simp

theorem state?_mute (p : Pool) (ticket i : Ticket) : (p.mute ticket).state? i =
    if ticket = i then (p.state? i).map JobState.muted else p.state? i := by
  rw [state?, jobs_mute]
  split
  · rw [state?, Option.map_map, Option.map_map]
    rfl
  · rfl

theorem count_mute {test : JobState → Bool} (h : ∀ state : JobState, test state.muted = test state)
    (ticket : Ticket) (p : Pool) : (p.mute ticket).count test = p.count test := by
  have hmap : (p.mute ticket).jobs.map (fun job => test job.state) =
      p.jobs.map fun job => test job.state := map_modify_of_eq (fun job => h job.state) _ _
  have hcount := congrArg (List.countP id) hmap
  rwa [List.countP_map, List.countP_map] at hcount

theorem first?_map_fst (p : Pool) (test : JobState → Bool) :
    (p.first? test).map (·.1) = p.jobs.findIdx? fun job => test job.state := by
  unfold first?
  cases hfound : p.jobs.findIdx? fun job => test job.state with
  | none => rfl
  | some n =>
      obtain ⟨hlt, -⟩ := List.findIdx?_eq_some_iff_getElem.mp hfound
      simp [List.getElem?_eq_getElem hlt]

theorem first?_mute {test : JobState → Bool} (h : ∀ state : JobState, test state.muted = test state)
    (ticket : Ticket) (p : Pool) :
    ((p.mute ticket).first? test).map (·.1) = (p.first? test).map (·.1) := by
  have hmap : (p.mute ticket).jobs.map (fun job => test job.state) =
      p.jobs.map fun job => test job.state := map_modify_of_eq (fun job => h job.state) _ _
  have hfound := congrArg (List.findIdx? id) hmap
  rw [List.findIdx?_map, List.findIdx?_map] at hfound
  rw [first?_map_fst, first?_map_fst]
  exact hfound

theorem mute_setState (p : Pool) (ticket i : Ticket) (state : JobState) :
    (p.setState i state).mute ticket =
      (p.mute ticket).setState i (if ticket = i then state.muted else state) := by
  have hjobs : ((p.setState i state).mute ticket).jobs =
      ((p.mute ticket).setState i (if ticket = i then state.muted else state)).jobs := by
    refine List.ext_getElem? fun n => ?_
    rw [jobs_mute, jobs_setState, jobs_setState, jobs_mute]
    by_cases hi : ticket = i
    · subst hi
      by_cases hn : ticket = n <;> simp [hn, Job.muted, Function.comp_def]
    · by_cases hn : ticket = n
      · subst hn
        simp [Ne.symm hi]
      · simp [hn, hi]
  exact congrArg (fun jobs => { p with jobs }) hjobs

theorem setState_of_state? (h : p.state? ticket = some state) : p.setState ticket state = p := by
  obtain ⟨job, hjob, rfl⟩ := Option.map_eq_some_iff.mp h
  have hjobs : (p.setState ticket job.state).jobs = p.jobs := by
    refine List.ext_getElem? fun n => ?_
    rw [jobs_setState]
    split
    · next hn =>
        subst hn
        rw [hjob]
        rfl
    · rfl
  exact congrArg (fun jobs => { p with jobs }) hjobs

theorem mute_submit (p : Pool) (ticket : Ticket) (username : String) :
    (p.submit username).2.mute ticket = ((p.mute ticket).submit username).2 := by
  have hadmission : (p.mute ticket).admission = p.admission := by
    unfold admission queued
    rw [count_mute JobState.isQueued_muted, count_mute JobState.isWaiting_muted]
    rfl
  have hmuted : Job.muted ⟨username, p.admission⟩ = ⟨username, p.admission⟩ := by
    unfold Job.muted admission
    split
    · rfl
    · split <;> rfl
  have hlength : (p.mute ticket).jobs.length = p.jobs.length := List.length_modify ..
  have hjobs : ((p.submit username).2.mute ticket).jobs =
      ((p.mute ticket).submit username).2.jobs := by
    refine List.ext_getElem? fun n => ?_
    rw [jobs_mute, submit, submit, hadmission]
    dsimp only
    rw [List.getElem?_append, List.getElem?_append, hlength, jobs_mute]
    by_cases hn : ticket = n
    · subst hn
      by_cases hlt : ticket < p.jobs.length
      · simp [hlt]
      · by_cases hlast : ticket - p.jobs.length = 0 <;> simp [hlt, hlast, hmuted]
    · simp [hn]
  exact congrArg (fun jobs => { p with jobs }) hjobs

theorem waiting_mute_iff (p : Pool) (ticket i : Ticket) :
    (p.mute ticket).state? i = some .waiting ↔ p.state? i = some .waiting := by
  rw [state?_mute]
  split
  · cases p.state? i with
    | none => simp
    | some state =>
        cases state with
        | running due finding => cases finding <;> simp [JobState.muted]
        | _ => simp [JobState.muted]
  · rfl

theorem mute_withdraw (p : Pool) (ticket i : Ticket) :
    (p.withdraw i).mute ticket = (p.mute ticket).withdraw i := by
  have hiff := p.waiting_mute_iff ticket i
  unfold withdraw
  split
  · next hwaiting =>
      rw [hiff.mpr hwaiting, mute_setState]
      split <;> rfl
  · next hnot =>
      split
      · next hwaiting => exact absurd (hiff.mp hwaiting) hnot
      · rfl

theorem mute_enter (p : Pool) (ticket i : Ticket) :
    (p.enter i).mute ticket = (p.mute ticket).enter i := by
  have hiff := p.waiting_mute_iff ticket i
  have hqueued : (p.mute ticket).queued = p.queued := count_mute JobState.isQueued_muted ticket p
  have hcapacity : (p.mute ticket).capacity = p.capacity := rfl
  unfold enter
  split
  · next hwaiting =>
      rw [hiff.mpr hwaiting, hqueued, hcapacity]
      dsimp only
      split
      · rw [mute_setState]
        split <;> rfl
      · rfl
  · next hnot =>
      split
      · next hwaiting => exact absurd (hiff.mp hwaiting) hnot
      · rfl

theorem mute_loseWorker (p : Pool) (ticket : Ticket) :
    p.loseWorker.mute ticket = (p.mute ticket).loseWorker := by
  have hjobs : (p.loseWorker.mute ticket).jobs = (p.mute ticket).loseWorker.jobs := by
    refine List.ext_getElem? fun n => ?_
    have hworkers : (p.mute ticket).workers = p.workers := rfl
    rw [jobs_mute, loseWorker, loseWorker, hworkers]
    dsimp only
    split
    · split
      · rw [List.getElem?_map, List.getElem?_map, jobs_mute, if_pos ‹ticket = n›, Option.map_map,
          Option.map_map]
        refine congrArg (Option.map · p.jobs[n]?) (funext fun job => ?_)
        simp [Job.muted, JobState.abandon_muted]
      · rw [jobs_mute, if_pos ‹ticket = n›]
    · split
      · rw [List.getElem?_map, List.getElem?_map, jobs_mute, if_neg ‹¬ticket = n›]
      · rw [jobs_mute, if_neg ‹¬ticket = n›]
  exact congrArg (fun jobs => { p with workers := p.workers - 1, jobs }) hjobs

theorem mute_finish (p : Pool) (ticket i : Ticket) (now : Instant) :
    (p.finish now i).mute ticket = (p.mute ticket).finish now i := by
  have hmuted := p.state?_mute ticket i
  unfold finish
  cases hstate : p.state? i with
  | none =>
      rw [hstate, Option.map_none, ite_self] at hmuted
      rw [hmuted]
  | some state =>
      rw [hstate, Option.map_some] at hmuted
      cases state with
      | running due finding =>
          cases finding with
          | answer result =>
              have hmuted : ∃ result',
                  (p.mute ticket).state? i = some (.running due (.answer result')) ∧
                  (if ticket = i then JobState.muted (.answered result) else .answered result) =
                    .answered result' := by
                by_cases hi : ticket = i
                · rw [if_pos hi] at hmuted ⊢
                  exact ⟨_, hmuted, rfl⟩
                · rw [if_neg hi] at hmuted ⊢
                  exact ⟨_, hmuted, rfl⟩
              obtain ⟨result', hstate', hresult⟩ := hmuted
              rw [hstate']
              dsimp only
              split
              · rw [mute_setState, hresult]
              · rfl
          | crash =>
              have hsame : (p.mute ticket).state? i = some (.running due .crash) := by
                rw [hmuted]
                split <;> rfl
              rw [hsame]
              dsimp only
              split
              · rw [mute_loseWorker, mute_setState]
                split <;> rfl
              · rfl
      | _ =>
          split at hmuted
          · rw [hmuted]
            rfl
          · rw [hmuted]

/-- A job that was taken is not looked up again, and another one as before. -/
theorem mute_look (hstate : p.state? ticket = some state) (htaken : state.isTaken = true)
    (now : Instant) (i : Ticket) : (p.look now i).mute ticket = (p.mute ticket).look now i := by
  by_cases hi : ticket = i
  · subst hi
    have hlook : ∀ q : Pool, q.state? ticket ≠ some .queued → q.look now ticket = q := by
      intro q hq
      unfold look
      split
      · next username hjob => exact absurd (state?_of_job hjob) hq
      · rfl
    rw [hlook p, hlook (p.mute ticket)]
    · rw [state?_mute, if_pos rfl, hstate, Option.map_some]
      cases state with
      | running due finding => cases finding <;> nofun
      | queued => cases htaken
      | _ => nofun
    · rw [hstate]
      rintro ⟨⟩
      cases htaken
  · have hrunning := count_mute JobState.isRunning_muted ticket p
    unfold look
    rw [jobs_mute, if_neg hi, hrunning]
    split
    · have hworkers : (p.mute ticket).workers = p.workers := rfl
      rw [hworkers]
      split
      · next username hjob hidle =>
          have hset := p.mute_setState ticket i (.running
            ((p.storage p.calls.length username).duration.map (now + ·))
            (p.storage p.calls.length username).finding)
          rw [if_neg hi] at hset
          exact congrArg (fun p' : Pool => { p' with calls := p.calls ++ [username] }) hset
      · rfl
    · rfl

end Pool

namespace AuthRequest

variable {limits : AuthLimits} {now : Instant} {p : Pool} {r : AuthRequest} {ticket : Ticket}

theorem same_advance (limits : AuthLimits) (now : Instant) (p : Pool) (r : AuthRequest) :
    r.Same (r.advance limits now p).1 := by
  obtain ⟨hticket, hpassword⟩ := r.same_observe limits now (p.state? r.ticket)
  obtain ⟨hticket', hpassword'⟩ := (r.observe limits now (p.state? r.ticket)).same_expire now
  exact ⟨hticket'.trans hticket, hpassword'.trans hpassword⟩

/-- A request whose outcome is known, or that has another job, does the same. -/
theorem advance_mute (h : r.ticket ≠ ticket ∨ r.outcome?.isSome = true) (limits : AuthLimits)
    (now : Instant) (p : Pool) : r.advance limits now (p.mute ticket) =
      ((r.advance limits now p).1, (r.advance limits now p).2.mute ticket) := by
  have hnoted : (r.observe limits now ((p.mute ticket).state? r.ticket)).expire now =
      (r.observe limits now (p.state? r.ticket)).expire now := by
    rcases h with hother | hknown
    · rw [Pool.state?_mute, if_neg (Ne.symm hother)]
    · obtain ⟨outcome, houtcome⟩ := Option.isSome_iff_exists.mp hknown
      rw [expire_observe_of_outcome? houtcome, expire_observe_of_outcome? houtcome]
  unfold advance
  dsimp only
  rw [hnoted]
  split
  · rw [Pool.mute_withdraw]
  · rfl

end AuthRequest

namespace Crew

variable {c : Crew} {ticket : Ticket} {now : Instant} {steps : List (Instant × CrewStep)}

/-! ## The requests at a step -/

section Requests

variable {i : Nat} {r : AuthRequest} {s : CrewStep}

/-- Only its requester changes a request. -/
theorem requests_step_of_ne (hr : c.authenticator.requests[i]? = some r) (hs : s ≠ .poll i)
    (now : Instant) : (c.step now s).authenticator.requests[i]? = some r := by
  cases s with
  | request username password =>
      obtain ⟨hlt, -⟩ := List.getElem?_eq_some_iff.mp hr
      exact (List.getElem?_append_left hlt).trans hr
  | poll j =>
      have hne : j ≠ i := fun h => hs (h ▸ rfl)
      cases hother : c.authenticator.requests[j]? with
      | none => rwa [step, Authenticator.steps_poll_of_none now hother]
      | some other =>
          rw [step, Authenticator.steps_poll now hother]
          exact (List.getElem?_set_ne hne).trans hr
  | _ =>
      unfold step
      dsimp only
      split <;> exact hr

theorem requests_step_poll (hr : c.authenticator.requests[i]? = some r) (now : Instant) :
    (c.step now (.poll i)).authenticator.requests[i]? =
      some (r.advance c.authenticator.limits now c.pool).1 := by
  obtain ⟨hlt, -⟩ := List.getElem?_eq_some_iff.mp hr
  rw [step, Authenticator.steps_poll now hr]
  exact List.getElem?_set_self hlt

/-- What a request has come to is final. -/
theorem requests_step_of_outcome? {outcome : AuthOutcome}
    (hr : c.authenticator.requests[i]? = some r) (houtcome : r.outcome? = some outcome)
    (now : Instant) (s : CrewStep) :
    (c.step now s).authenticator.requests[i]? = some r := by
  by_cases hs : s = .poll i
  · subst hs
    rw [requests_step_poll hr]
    exact congrArg some (AuthRequest.expire_observe_of_outcome? houtcome _ now _)
  · exact requests_step_of_ne hr hs now

theorem requests_run_of_outcome? {outcome : AuthOutcome}
    (hr : c.authenticator.requests[i]? = some r) (houtcome : r.outcome? = some outcome)
    (steps : List (Instant × CrewStep)) :
    (c.run steps).authenticator.requests[i]? = some r := by
  induction steps generalizing c with
  | nil => exact hr
  | cons first steps ih => exact ih (requests_step_of_outcome? hr houtcome first.1 first.2)

/-- The end of a lookup by itself changes no request. -/
theorem requests_step_finish (c : Crew) (now : Instant) (worker : Nat) :
    (c.step now (.finish worker)).authenticator.requests = c.authenticator.requests := by
  unfold step
  dsimp only
  split <;> rfl

end Requests

/-! ## The answer is not looked at -/

def mute (ticket : Ticket) (c : Crew) : Crew :=
  { c with authenticator := { c.authenticator with pool := c.pool.mute ticket } }

/-- A job that is behind its requester, who has come to an outcome, and of nobody else. -/
structure Past (ticket : Ticket) (c : Crew) : Prop where
  alone : ∀ r ∈ c.authenticator.requests, r.ticket ≠ ticket ∨ r.outcome?.isSome = true
  taken : ∃ state, c.pool.state? ticket = some state ∧ state.isTaken = true

theorem step_enter (now : Instant) (c : Crew) : c.step now .enter =
    match (c.pool.first? JobState.isWaiting).map (·.1) with
    | none => c
    | some i => { c with authenticator := c.authenticator.step now (.enter i) } := by
  unfold step
  dsimp only
  cases c.pool.first? JobState.isWaiting <;> rfl

theorem next?_mute (ticket : Ticket) (c : Crew) (worker : Nat) :
    (c.mute ticket).next? worker = c.next? worker := by
  unfold next?
  rw [show (c.mute ticket).pool = c.pool.mute ticket from rfl,
    Pool.first?_mute JobState.isQueued_muted]
  rfl

theorem ending?_mute (ticket : Ticket) (c : Crew) (now : Instant) (worker : Nat) :
    (c.mute ticket).ending? now worker = c.ending? now worker := by
  unfold ending?
  rw [show (c.mute ticket).stations = c.stations from rfl,
    show (c.mute ticket).pool = c.pool.mute ticket from rfl]
  split
  · next i hworker =>
      rw [Pool.state?_mute]
      by_cases hi : ticket = i
      · rw [if_pos hi]
        cases c.pool.state? i with
        | none => rfl
        | some state =>
            cases state with
            | running due finding => cases finding <;> rfl
            | _ => rfl
      · rw [if_neg hi]
  · rfl

/-- What a step does has nothing to do with what the answer is. -/
theorem Past.mute_step (h : c.Past ticket) (now : Instant) (s : CrewStep) :
    (c.step now s).mute ticket = (c.mute ticket).step now s := by
  have hmuted : (c.mute ticket).authenticator =
      { c.authenticator with pool := c.pool.mute ticket } := rfl
  cases s with
  | request username password =>
      have hlength : (c.pool.mute ticket).jobs.length = c.pool.jobs.length :=
        List.length_modify ..
      simp only [Crew.step, mute, Authenticator.enlist, c.pool.mute_submit ticket username, hlength]
  | poll i =>
      cases hr : c.authenticator.requests[i]? with
      | none =>
          have hr' : (c.mute ticket).authenticator.requests[i]? = none := hr
          rw [Crew.step, Crew.step, Authenticator.steps_poll_of_none now hr,
            Authenticator.steps_poll_of_none now hr']
      | some r =>
          have hr' : (c.mute ticket).authenticator.requests[i]? = some r := hr
          have hadvance := r.advance_mute (h.alone r (List.mem_of_getElem? hr))
            c.authenticator.limits now c.pool
          rw [Crew.step, Crew.step, Authenticator.steps_poll now hr,
            Authenticator.steps_poll now hr', hmuted, hadvance]
          rfl
  | enter =>
      rw [step_enter, step_enter, show (c.mute ticket).pool = c.pool.mute ticket from rfl,
        Pool.first?_mute JobState.isWaiting_muted]
      cases (c.pool.first? JobState.isWaiting).map (·.1) with
      | none => rfl
      | some i => simp only [mute, Authenticator.step, c.pool.mute_enter ticket i]
  | listen worker =>
      unfold Crew.step
      dsimp only
      split
      · next hcond => exact (if_pos hcond).symm
      · next hcond => exact (if_neg hcond).symm
  | take worker =>
      obtain ⟨state, hstate, htaken⟩ := h.taken
      unfold Crew.step
      dsimp only
      rw [next?_mute]
      split
      · rfl
      · next i _ =>
          simp only [mute, Authenticator.step, Pool.mute_look hstate htaken now i]
  | finish worker =>
      unfold Crew.step
      dsimp only
      rw [ending?_mute]
      split
      · rfl
      · next i _ _ =>
          simp only [mute, Authenticator.step, c.pool.mute_finish ticket i now]

theorem Past.step (h : c.Past ticket) (now : Instant) (s : CrewStep) :
    (c.step now s).Past ticket := by
  obtain ⟨state, hstate, htaken⟩ := h.taken
  refine ⟨fun r hr => ?_, ?_⟩
  · cases s with
    | request username password =>
        rcases List.mem_append.mp hr with hold | hnew
        · exact h.alone r hold
        · rw [List.mem_singleton.mp hnew]
          exact .inl (Nat.ne_of_gt (Pool.state?_lt hstate))
    | poll i =>
        cases hpolled : c.authenticator.requests[i]? with
        | none =>
            rw [Crew.step, Authenticator.steps_poll_of_none now hpolled] at hr
            exact h.alone r hr
        | some polled =>
            rw [Crew.step, Authenticator.steps_poll now hpolled] at hr
            rcases List.mem_or_eq_of_mem_set hr with hold | rfl
            · exact h.alone r hold
            · rcases h.alone polled (List.mem_of_getElem? hpolled) with hother | hknown
              · exact .inl ((polled.same_advance _ now c.pool).1 ▸ hother)
              · right
                obtain ⟨outcome, houtcome⟩ := Option.isSome_iff_exists.mp hknown
                rw [AuthRequest.advance, AuthRequest.expire_observe_of_outcome? houtcome]
                exact hknown
    | _ =>
        refine h.alone r ?_
        unfold Crew.step at hr
        dsimp only at hr
        split at hr <;> exact hr
  · obtain ⟨state', hstate', hmoves⟩ := (moves_step now c s).state ticket state hstate
    exact ⟨state', hstate', JobState.isTaken_of_moves hmoves htaken⟩

theorem Past.mute_run (h : c.Past ticket) (steps : List (Instant × CrewStep)) :
    (c.run steps).mute ticket = (c.mute ticket).run steps := by
  induction steps generalizing c with
  | nil => rfl
  | cons first steps ih =>
      obtain ⟨now, s⟩ := first
      have hrest := ih (h.step now s)
      rw [h.mute_step] at hrest
      exact hrest

/-- The job of a request that has come to its outcome is past as soon as it was taken. -/
theorem Sound.past {looked : List (Nat × Ticket)} {refused : List (Nat × Pool.SubmitError)}
    {i : Nat} {r : AuthRequest} {outcome : AuthOutcome} {state : JobState}
    (h : c.Sound looked refused) (hr : c.authenticator.requests[i]? = some r)
    (houtcome : r.outcome? = some outcome) (hstate : c.pool.state? i = some state)
    (htaken : state.isTaken = true) : c.Past i := by
  refine ⟨fun other hother => ?_, state, hstate, htaken⟩
  obtain ⟨j, hj⟩ := List.mem_iff_getElem?.mp hother
  by_cases hji : j = i
  · subst hji
    cases hr.symm.trans hj
    exact .inr (houtcome ▸ rfl)
  · exact .inl (h.ticket_eq hj ▸ hji)

/-- The crew as it is if the lookup of a job has another answer. -/
def reword (ticket : Ticket) (due : Option Instant) (result : LookupResult) (c : Crew) : Crew :=
  { c with authenticator := { c.authenticator with
      pool := c.pool.setState ticket (.running due (.answer result)) } }

theorem mute_reword {due : Option Instant} {result : LookupResult}
    (hstate : c.pool.state? ticket = some (.running due (.answer result)))
    (result' : LookupResult) :
    (c.reword ticket due result').mute ticket = c.mute ticket := by
  have hmuted : (c.pool.mute ticket).state? ticket =
      some (.running due (.answer (.ok none))) := by
    rw [Pool.state?_mute, if_pos rfl, hstate]
    rfl
  have hpool : (c.pool.setState ticket (.running due (.answer result'))).mute ticket =
      c.pool.mute ticket := by
    rw [Pool.mute_setState, if_pos rfl]
    exact Pool.setState_of_state? hmuted
  simp only [mute, reword, hpool]

/-- Nobody is told what the answer is that comes too late: with another one, all requests stand as
they do, whatever happens. -/
theorem Past.requests_reword (h : c.Past ticket) {due : Option Instant} {result : LookupResult}
    (hstate : c.pool.state? ticket = some (.running due (.answer result))) (result' : LookupResult)
    (steps : List (Instant × CrewStep)) :
    ((c.reword ticket due result').run steps).authenticator.requests =
      (c.run steps).authenticator.requests := by
  have hpast : (c.reword ticket due result').Past ticket :=
    ⟨h.alone, _, Pool.state?_setState_self hstate _, rfl⟩
  calc ((c.reword ticket due result').run steps).authenticator.requests
      = (((c.reword ticket due result').run steps).mute ticket).authenticator.requests := rfl
    _ = ((c.run steps).mute ticket).authenticator.requests := by
        rw [hpast.mute_run, h.mute_run, mute_reword hstate]
    _ = (c.run steps).authenticator.requests := rfl

end Crew

end Realm
