import Realm.Proofs.Account.Lateness
import Realm.Proofs.Account.Promptness
import Realm.Proofs.Account.Standing

/-!
# A request from beginning to end

A request is made of a crew in any state. From then on the requester is on time, while the workers
and the other requesters do what they like, when they like. Main statement: at every instant the
request stands as what was seen of its job says.
-/

namespace Realm

open Relation (ReflTransGen)

/-! ## Only its requester withdraws a job -/

namespace Pool

variable {p : Pool} {ticket i : Ticket} {state : JobState}

theorem withdrawn_of_setState (h : (p.setState ticket state).state? i = some .withdrawn)
    (hstate : state ≠ .withdrawn) : p.state? i = some .withdrawn := by
  rw [state?_setState] at h
  split at h
  · obtain ⟨-, -, heq⟩ := Option.map_eq_some_iff.mp h
    exact absurd heq hstate
  · exact h

theorem withdrawn_of_loseWorker (h : p.loseWorker.state? i = some .withdrawn) :
    p.state? i = some .withdrawn := by
  rw [state?_loseWorker] at h
  split at h
  · obtain ⟨old, hold, heq⟩ := Option.map_eq_some_iff.mp h
    cases old with
    | withdrawn => exact hold
    | _ => cases heq
  · exact h

theorem withdrawn_of_enter (h : (p.enter ticket).state? i = some .withdrawn) :
    p.state? i = some .withdrawn := by
  unfold enter at h
  split at h
  · split at h
    · exact withdrawn_of_setState h nofun
    · exact h
  · exact h

theorem withdrawn_of_look {now : Instant} (h : (p.look now ticket).state? i = some .withdrawn) :
    p.state? i = some .withdrawn := by
  rcases look_cases now p ticket with hsame | ⟨username, due, -, hlook⟩
  · rwa [hsame] at h
  · rw [hlook] at h
    exact withdrawn_of_setState h nofun

theorem withdrawn_of_finish {now : Instant} (h : (p.finish now ticket).state? i = some .withdrawn) :
    p.state? i = some .withdrawn := by
  unfold finish at h
  split at h
  · split at h
    · split at h
      · exact withdrawn_of_setState h nofun
      · exact withdrawn_of_setState (withdrawn_of_loseWorker h) nofun
    · exact h
  · exact h

/-- A job that is given up leaves the line, and nothing else changes. -/
theorem state?_withdraw (p : Pool) (ticket i : Ticket) : (p.withdraw ticket).state? i =
    if ticket = i then (p.state? i).map JobState.forsake else p.state? i := by
  unfold withdraw
  split
  · next hwaiting =>
      rw [state?_setState]
      split
      · next hi =>
          subst hi
          rw [hwaiting]
          rfl
      · rfl
  · next hnot =>
      split
      · next hi =>
          subst hi
          cases hstate : p.state? ticket with
          | none => rfl
          | some state =>
              cases state with
              | waiting => exact absurd hstate hnot
              | _ => rfl
      · rfl

end Pool

/-- A requester that looks leaves all other jobs alone. -/
theorem AuthRequest.state?_advance (limits : AuthLimits) (now : Instant) (p : Pool)
    (r : AuthRequest) (i : Ticket) : (r.advance limits now p).2.state? i =
      if r.ticket = i then (p.state? i).map (Petition.left (r.advance limits now p).1)
      else p.state? i := by
  have hticket := (r.same_advance limits now p).1
  unfold advance at hticket ⊢
  dsimp only at hticket ⊢
  generalize (r.observe limits now (p.state? r.ticket)).expire now = noted at hticket ⊢
  by_cases hgave : noted.outcome? = some .timedOut
  · have hleft : Petition.left noted = JobState.forsake := funext fun state => if_pos hgave
    rw [if_pos hgave, Pool.state?_withdraw, hticket, hleft]
  · have hleft : Petition.left noted = id := funext fun state => if_neg hgave
    rw [if_neg hgave, hleft, Option.map_id, id, ite_self]

namespace Crew

variable {c : Crew} {i : Nat} {now time upto : Instant} {s : CrewStep} {r : AuthRequest}
  {looked : List (Nat × Ticket)} {refused : List (Nat × Pool.SubmitError)} {state state' : JobState}
  {steps : List (Instant × CrewStep)}

theorem Sound.withdrawn_of_step (h : c.Sound looked refused) (hstate : c.pool.state? i = some state)
    (hs : s ≠ .poll i) (hafter : (c.step now s).pool.state? i = some .withdrawn) :
    state = .withdrawn := by
  suffices hbefore : c.pool.state? i = some .withdrawn from
    Option.some.inj (hstate.symm.trans hbefore)
  cases s with
  | request username password =>
      rcases Pool.state?_submit_cases hafter with hold | ⟨rfl, -⟩
      · exact hold
      · exact absurd (Pool.state?_lt hstate) (Nat.lt_irrefl _)
  | poll j =>
      have hne : j ≠ i := fun hj => hs (hj ▸ rfl)
      cases hr : c.authenticator.requests[j]? with
      | none => rwa [Crew.step, Authenticator.steps_poll_of_none now hr] at hafter
      | some r =>
          have hother : r.ticket ≠ i := h.ticket_eq hr ▸ hne
          rw [Crew.step, pool, Authenticator.steps_poll now hr] at hafter
          have hsame := r.state?_advance c.authenticator.limits now c.pool i
          rw [if_neg hother] at hsame
          exact hsame.symm.trans hafter
  | enter =>
      rw [step_enter] at hafter
      split at hafter
      · exact hafter
      · exact Pool.withdrawn_of_enter hafter
  | listen worker =>
      unfold Crew.step at hafter
      dsimp only at hafter
      split at hafter <;> exact hafter
  | take worker =>
      unfold Crew.step at hafter
      dsimp only at hafter
      split at hafter
      · exact hafter
      · exact Pool.withdrawn_of_look hafter
  | finish worker =>
      unfold Crew.step at hafter
      dsimp only at hafter
      split at hafter
      · exact hafter
      · exact Pool.withdrawn_of_finish hafter

/-- A job keeps its username. -/
theorem exists_job_step (c : Crew) (now : Instant) (s : CrewStep) {job : Job}
    (hjob : c.pool.jobs[i]? = some job) :
    ∃ job', (c.step now s).pool.jobs[i]? = some job' ∧ job'.username = job.username := by
  cases s with
  | request username password => exact (Pool.extends_submit username).job i job hjob
  | poll j =>
      have hobserved := Authenticator.extends_step now c.authenticator (.observe j)
      have hexpired := Authenticator.extends_step now
        (c.authenticator.step now (.observe j)) (.expire j)
      exact (hobserved.trans hexpired).pool.job i job hjob
  | _ =>
      unfold step
      dsimp only
      split
      all_goals first
        | exact ⟨job, hjob, rfl⟩
        | exact (Authenticator.extends_step now c.authenticator _).pool.job i job hjob

theorem exists_job_run (c : Crew) (steps : List (Instant × CrewStep)) {job : Job}
    (hjob : c.pool.jobs[i]? = some job) :
    ∃ job', (c.run steps).pool.jobs[i]? = some job' ∧ job'.username = job.username := by
  induction steps generalizing c job with
  | nil => exact ⟨job, hjob, rfl⟩
  | cons first steps ih =>
      obtain ⟨job', hjob', hname⟩ := c.exists_job_step first.1 first.2 hjob
      obtain ⟨job'', hjob'', hname'⟩ := ih _ hjob'
      exact ⟨job'', hjob'', hname'.trans hname⟩

theorem limits_step (now : Instant) (c : Crew) (s : CrewStep) :
    (c.step now s).authenticator.limits = c.authenticator.limits := by
  cases s with
  | request username password => rfl
  | poll j =>
      cases hr : c.authenticator.requests[j]? with
      | none => rw [step, Authenticator.steps_poll_of_none now hr]
      | some r => rw [step, Authenticator.steps_poll now hr]
  | _ =>
      unfold step
      dsimp only
      split <;> rfl

theorem limits_run (c : Crew) (steps : List (Instant × CrewStep)) :
    (c.run steps).authenticator.limits = c.authenticator.limits := by
  induction steps generalizing c with
  | nil => rfl
  | cons first steps ih => exact (ih _).trans (limits_step first.1 c first.2)

/-! ## What is seen of a job -/

def seen (i : Ticket) (now : Instant) (c : Crew) : JobLog :=
  (c.pool.state? i).toList.map (Prod.mk now)

def course (i : Ticket) (c : Crew) : List (Instant × CrewStep) → JobLog
  | [] => []
  | (now, s) :: steps => (c.step now s).seen i now ++ (c.step now s).course i steps

theorem seen_of_state? (h : c.pool.state? i = some state) (now : Instant) :
    c.seen i now = [(now, state)] := by
  rw [seen, h]
  rfl

end Crew

def AuthPhase.conclusion? : AuthPhase → Option (AuthOutcome × Instant)
  | .concluded outcome t => some (outcome, t)
  | _ => none

namespace Petition

variable {q : Petition} {c : Crew} {log : JobLog} {now time upto : Instant}
  {steps later : List (Instant × CrewStep)}

def start (q : Petition) : Crew := Crew.start q.limits q.storage q.workers q.capacity

/-- The number of the request, and of its job. -/
def number (q : Petition) : Nat := (q.start.run q.before).authenticator.requests.length

def made (q : Petition) : Crew :=
  (q.start.run q.before).step q.time (.request q.username q.password)

/-- All steps from the beginning, with these after the request. -/
def history (q : Petition) (steps : List (Instant × CrewStep)) : List (Instant × CrewStep) :=
  q.before ++ (q.time, .request q.username q.password) :: steps

def after (q : Petition) (steps : List (Instant × CrewStep)) : Crew := q.made.run steps

/-- The requester is on time in these steps and after them up to an instant. -/
def Prompt (q : Petition) (steps : List (Instant × CrewStep)) (upto : Instant) : Prop :=
  q.made.Prompt q.number q.time steps upto

def course (q : Petition) (steps : List (Instant × CrewStep)) : JobLog :=
  q.made.seen q.number q.time ++ q.made.course q.number steps

def lookups (q : Petition) (steps : List (Instant × CrewStep)) : List (Nat × Ticket) :=
  q.start.lookups (q.history steps)

def conclusion? (q : Petition) (steps : List (Instant × CrewStep)) :
    Option (AuthOutcome × Instant) :=
  (q.after steps).authenticator.requests[q.number]?.bind fun r => r.phase.conclusion?

theorem after_eq_run (q : Petition) (steps : List (Instant × CrewStep)) :
    q.after steps = q.start.run (q.history steps) := by
  rw [history, Crew.run_append]
  rfl

theorem sound_after (q : Petition) (steps : List (Instant × CrewStep)) :
    (q.after steps).Sound (q.lookups steps) (q.start.refusals (q.history steps)) := by
  rw [after_eq_run]
  exact (Crew.sound_start q.limits q.storage q.workers q.capacity).run (q.history steps)

/-! ## The request keeps standing -/

/-- How the request stands in a crew, given what was seen of its job. -/
structure Stands (q : Petition) (log : JobLog) (now : Instant) (c : Crew) : Prop where
  sound : ∃ looked refused, c.Sound looked refused
  limits_eq : c.authenticator.limits = q.limits
  standing : ∃ r state, c.authenticator.requests[q.number]? = some r ∧
    r.password = q.password ∧ c.pool.state? q.number = some state ∧
    q.Standing log now state r.phase

/-- Every request so far has one job, so the next of each have one number. -/
theorem number_eq (q : Petition) : q.number = (q.start.run q.before).pool.jobs.length := by
  obtain ⟨log, -, hlogged, -⟩ :=
    ((Crew.sound_start q.limits q.storage q.workers q.capacity).run q.before).called
  have hlength := congrArg List.length hlogged.tickets_eq
  rwa [List.length_map, List.length_range] at hlength

theorem job_made (q : Petition) : q.made.pool.jobs[q.number]? =
    some ⟨q.username, (q.start.run q.before).pool.admission⟩ := by
  rw [number_eq]
  exact List.getElem?_concat_length

/-- The job of the request is about its username. -/
theorem exists_job_after (q : Petition) (steps : List (Instant × CrewStep)) :
    ∃ job, (q.after steps).pool.jobs[q.number]? = some job ∧ job.username = q.username :=
  q.made.exists_job_run steps q.job_made

theorem stands_made (q : Petition) : q.Stands (q.made.seen q.number q.time) q.time q.made := by
  have hlimits : (q.start.run q.before).authenticator.limits = q.limits :=
    Crew.limits_run q.start q.before
  have hr : q.made.authenticator.requests[q.number]? =
      some ⟨q.number, q.password, .queueing q.patience⟩ := by
    have hlast : q.made.authenticator.requests[q.number]? = some
        ⟨(q.start.run q.before).pool.jobs.length, q.password, .queueing
          (q.time + (q.start.run q.before).authenticator.limits.consume.millis)⟩ :=
      List.getElem?_concat_length
    rw [hlast, hlimits, ← number_eq]
    rfl
  have hstate := Pool.state?_of_job q.job_made
  refine ⟨⟨_, _, q.sound_after []⟩, (Crew.limits_step _ _ _).trans hlimits, _, _, hr, rfl, hstate,
    ?_⟩
  rw [Crew.seen_of_state? hstate]
  have hin : q.time ≤ q.patience := Nat.le_add_right _ _
  unfold Pool.admission
  dsimp only
  split
  · exact .refused rfl rfl hin
  · split
    · exact .placed .queued rfl rfl rfl hin
    · exact .waits rfl rfl hin

theorem Stands.step (h : q.Stands log now c) (s : CrewStep) :
    q.Stands (log ++ (c.step now s).seen q.number now) now (c.step now s) := by
  obtain ⟨looked, refused, hsound⟩ := h.sound
  obtain ⟨r, state, hr, hpassword, hstate, hstanding⟩ := h.standing
  have hticket := hsound.ticket_eq hr
  obtain ⟨state', hstate', hmoves⟩ := (Crew.moves_step now c s).state _ state hstate
  refine ⟨⟨_, _, hsound.step now s⟩, (Crew.limits_step now c s).trans h.limits_eq, ?_⟩
  rw [Crew.seen_of_state? hstate']
  by_cases hs : s = .poll q.number
  · subst hs
    have hnoted := hstanding.poll hpassword
    have hr' := Crew.requests_step_poll hr now
    have hpool : (c.step now (.poll q.number)).pool =
        (r.advance c.authenticator.limits now c.pool).2 :=
      congrArg Authenticator.pool (Authenticator.steps_poll now hr)
    have hleft := r.state?_advance c.authenticator.limits now c.pool q.number
    rw [if_pos hticket, hstate, Option.map_some, ← hpool, hstate'] at hleft
    have hadvance : (r.advance c.authenticator.limits now c.pool).1 =
        (r.observe q.limits now (some state)).expire now := by
      rw [AuthRequest.advance, h.limits_eq, hticket, hstate]
    have hpassword' := (r.same_advance c.authenticator.limits now c.pool).2.trans hpassword
    rw [hadvance] at hleft hr' hpassword'
    rw [Option.some.inj hleft] at hstate' ⊢
    exact ⟨_, _, hr', hpassword', hstate', hnoted⟩
  · exact ⟨r, state', Crew.requests_step_of_ne hr hs now, hpassword, hstate',
      hstanding.moves hmoves fun hwithdrawn =>
        hsound.withdrawn_of_step hstate hs (hwithdrawn ▸ hstate')⟩

theorem Stands.passes (h : q.Stands log now c) (hlets : c.Lets q.number now time) :
    q.Stands log time c := by
  obtain ⟨looked, refused, hsound⟩ := h.sound
  obtain ⟨r, state, hr, hpassword, hstate, hstanding⟩ := h.standing
  refine ⟨h.sound, h.limits_eq, r, state, hr, hpassword, hstate, ?_⟩
  obtain ⟨hle, hpass⟩ := hlets
  rcases Nat.lt_or_eq_of_le hle with hlt | rfl
  · obtain ⟨hrests, hdue⟩ := hpass hlt r hr
    rw [AuthRequest.Rests, h.limits_eq, hsound.ticket_eq hr, hstate] at hrests
    exact hstanding.passes hlt hrests hdue
  · exact hstanding

theorem Stands.run (h : q.Stands log now c) (hprompt : c.Prompt q.number now steps upto) :
    q.Stands (log ++ c.course q.number steps) upto (c.run steps) := by
  induction steps generalizing c log now with
  | nil =>
      rw [Crew.course, List.append_nil]
      exact h.passes hprompt
  | cons first steps ih =>
      obtain ⟨time, s⟩ := first
      obtain ⟨hlets, hrest⟩ := hprompt
      have hstep := (h.passes hlets).step s
      rw [Crew.course, ← List.append_assoc]
      exact ih hstep hrest

end Petition

end Realm
