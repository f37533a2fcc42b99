import Realm.Proofs.Account.Petition

/-!
# What a request comes to

A request is made of a crew in any state, and its requester is on time. Main statement: the request
comes to its outcome within the time for a place and the time for the answer; the outcome is the one
that the end of its job means, or that there was no place or no end in time; and whatever comes
later changes no outcome.
-/

namespace Realm

namespace Petition

variable {q : Petition} {log : JobLog} {now upto t accepted : Instant} {state : JobState}
  {phase : AuthPhase} {outcome : AuthOutcome} {steps later : List (Instant × CrewStep)}

/-- The end of both its times. -/
def deadline (q : Petition) : Instant :=
  q.time + q.limits.consume.millis + q.limits.fetch.millis

/-! ## From how it stands to what it has come to -/

theorem patience_le_deadline (q : Petition) : q.patience ≤ q.deadline := Nat.le_add_right _ _

theorem closing_le_deadline (h : accepted ≤ q.patience) : q.closing accepted ≤ q.deadline :=
  Nat.add_le_add_right h _

theorem Verdict.le_deadline (h : q.Verdict log state outcome t) : t ≤ q.deadline := by
  cases h with
  | unplaced => exact q.patience_le_deadline
  | closed _ _ _ _ hle => exact Nat.le_trans hle q.patience_le_deadline
  | ended _ _ accepted _ _ hle _ _ hin => exact Nat.le_trans hin (closing_le_deadline hle)
  | late _ accepted _ hle => exact closing_le_deadline hle

theorem Verdict.time_le (h : q.Verdict log state outcome t) (hlog : ∀ x ∈ log, q.time ≤ x.1) :
    q.time ≤ t := by
  have hending : ∀ x, log.ending? = some x → q.time ≤ x.1 :=
    fun x hx => hlog x (List.mem_of_find?_eq_some hx)
  cases h with
  | unplaced => exact Nat.le_add_right _ _
  | closed _ _ _ hend => exact hending _ hend
  | ended _ _ _ _ _ _ _ hend => exact hending _ hend
  | late _ accepted hsome =>
      obtain ⟨x, hx, rfl⟩ := Option.map_eq_some_iff.mp hsome
      exact Nat.le_trans (hlog x (List.mem_of_find?_eq_some hx)) (Nat.le_add_right _ _)

/-- A place was given in time, and the job has it still. -/
theorem Standing.of_accepted (h : q.Standing log now state phase)
    (haccepted : log.acceptance? = some accepted) :
    accepted ≤ q.patience ∧ state.isAccepted = true := by
  have hsame : ∀ {t}, log.acceptance? = some t → t ≤ q.patience → accepted ≤ q.patience :=
    fun hsome hle => Option.some.inj (hsome.symm.trans haccepted) ▸ hle
  cases h with
  | waits hnone => cases hnone.symm.trans haccepted
  | refused hnone => cases hnone.symm.trans haccepted
  | placed _ hsome hplace _ hle => exact ⟨hsame hsome hle, hplace⟩
  | fetches _ _ hsome hle _ hplace => exact ⟨hsame hsome hle, hplace⟩
  | concluded _ _ _ hverdict =>
      cases hverdict with
      | unplaced hnone => cases hnone.symm.trans haccepted
      | closed _ _ hnone => cases hnone.symm.trans haccepted
      | ended _ _ _ _ hsome hle hplace => exact ⟨hsame hsome hle, hplace⟩
      | late _ _ hsome hle hplace => exact ⟨hsame hsome hle, hplace⟩

/-- What was over is what the job is at. -/
theorem Standing.state_eq (h : q.Standing log now state phase) {x : Instant × JobState}
    (hending : log.ending? = some x) : x.2 = state := by
  have hnow : (log.ending? = if state.isOver then some (now, state) else none) → x.2 = state := by
    intro h
    rw [h] at hending
    split at hending
    · exact congrArg Prod.snd (Option.some.inj hending).symm
    · cases hending
  have hknown : ∀ {y}, log.ending? = some y → x.2 = y.2 :=
    fun hy => congrArg Prod.snd (Option.some.inj (hending.symm.trans hy))
  cases h with
  | waits _ hnone => cases hnone.symm.trans hending
  | refused _ hend => exact hknown hend
  | placed _ _ _ hend => exact hnow hend
  | fetches _ _ _ _ _ _ hend => exact hnow hend
  | concluded _ _ _ hverdict =>
      cases hverdict with
      | unplaced _ hend => exact hknown hend
      | closed _ _ _ hend => exact hknown hend
      | ended _ _ _ _ _ _ _ hend => exact hknown hend
      | late _ _ _ _ _ hend => exact (hend x hending).2

/-- A request with a place has come to its outcome when its time is over or its job has ended. -/
theorem Standing.concluded_of_accepted (h : q.Standing log upto state phase)
    (haccepted : log.acceptance? = some accepted)
    (hdone : q.closing accepted < upto ∨ ∃ x, log.ending? = some x ∧ x.1 < upto) :
    ∃ outcome t, phase.conclusion? = some (outcome, t) ∧ q.Verdict log state outcome t := by
  have hearlier : (log.ending? = if state.isOver then some (upto, state) else none) →
      q.closing accepted < upto := by
    intro hending
    refine hdone.resolve_right ?_
    rintro ⟨x, hx, hlt⟩
    rw [hending] at hx
    split at hx
    · cases hx
      exact Nat.lt_irrefl _ hlt
    · cases hx
  cases h with
  | waits hnone => cases hnone.symm.trans haccepted
  | refused hnone => cases hnone.symm.trans haccepted
  | placed _ hsome _ hending =>
      cases Option.some.inj (hsome.symm.trans haccepted)
      exact absurd (hearlier hending) (Nat.not_lt_of_le (Nat.le_add_right _ _))
  | fetches _ _ hsome _ _ _ hending hin =>
      cases Option.some.inj (hsome.symm.trans haccepted)
      exact absurd (hearlier hending) (Nat.not_lt_of_le hin)
  | concluded _ outcome t hverdict => exact ⟨outcome, t, rfl, hverdict⟩

/-- A request without a place has come to its outcome when its time is over or its job has ended. -/
theorem Standing.concluded_of_unaccepted (h : q.Standing log upto state phase)
    (hunaccepted : log.acceptance? = none)
    (hdone : q.patience < upto ∨ ∃ x, log.ending? = some x ∧ x.1 < upto) :
    ∃ outcome t, phase.conclusion? = some (outcome, t) ∧ q.Verdict log state outcome t := by
  cases h with
  | waits _ hnone hle =>
      rcases hdone with hlt | ⟨x, hx, -⟩
      · exact absurd hlt (Nat.not_lt_of_le hle)
      · cases hnone.symm.trans hx
  | refused _ hending hle =>
      rcases hdone with hlt | ⟨x, hx, hlt⟩
      · exact absurd hlt (Nat.not_lt_of_le hle)
      · cases Option.some.inj (hending.symm.trans hx)
        exact absurd hlt (Nat.lt_irrefl _)
  | placed _ hsome => cases hsome.symm.trans hunaccepted
  | fetches _ _ hsome => cases hsome.symm.trans hunaccepted
  | concluded _ outcome t hverdict => exact ⟨outcome, t, rfl, hverdict⟩

/-- With a place, the outcome is told by the end of the job, or that was not in time. -/
theorem Verdict.of_accepted (h : q.Verdict log state outcome t)
    (haccepted : log.acceptance? = some accepted) :
    (AuthOutcome.Reports q.password state outcome ∧ log.ending? = some (t, state) ∧
        t ≤ q.closing accepted) ∨
      outcome = .timedOut ∧ t = q.closing accepted ∧
        ∀ x, log.ending? = some x → q.closing accepted ≤ x.1 := by
  cases h with
  | unplaced hnone => cases hnone.symm.trans haccepted
  | closed _ _ hnone => cases hnone.symm.trans haccepted
  | ended _ _ _ _ hsome _ _ hending hin hreports =>
      cases Option.some.inj (hsome.symm.trans haccepted)
      exact .inl ⟨hreports, hending, hin⟩
  | late _ _ hsome _ _ hending =>
      cases Option.some.inj (hsome.symm.trans haccepted)
      exact .inr ⟨rfl, rfl, fun x hx => (hending x hx).1⟩

/-- Without a place, the outcome is that there was none in time, or that the workers stopped. -/
theorem Verdict.of_unaccepted (h : q.Verdict log state outcome t)
    (hunaccepted : log.acceptance? = none) :
    (outcome = .timedOut ∧ t = q.patience ∧ log.ending? = some (t, .withdrawn) ∧
        state = .withdrawn) ∨
      AuthOutcome.Reports q.password .refused outcome ∧ log.ending? = some (t, .refused) ∧
        state = .refused := by
  cases h with
  | unplaced _ hending => exact .inl ⟨rfl, rfl, hending, rfl⟩
  | closed _ _ _ hending _ hreports => exact .inr ⟨hreports, hending, rfl⟩
  | ended _ _ _ _ hsome => cases hsome.symm.trans hunaccepted
  | late _ _ hsome => cases hsome.symm.trans hunaccepted

theorem conclusion?_eq {r : AuthRequest}
    (hr : (q.after steps).authenticator.requests[q.number]? = some r) :
    q.conclusion? steps = r.phase.conclusion? := by
  rw [conclusion?, hr, Option.bind_some]

theorem time_le_of_mem_seen {c : Crew} {i : Nat} : ∀ x ∈ c.seen i now, now ≤ x.1 := by
  intro x hx
  obtain ⟨state, -, rfl⟩ := List.mem_map.mp hx
  exact Nat.le_refl now

theorem time_le_of_mem_course {c : Crew} {i : Nat} (h : c.Prompt i now steps upto) :
    ∀ x ∈ c.course i steps, now ≤ x.1 := by
  induction steps generalizing c now with
  | nil => nofun
  | cons first steps ih =>
      obtain ⟨time, s⟩ := first
      intro x hx
      rcases List.mem_append.mp hx with hfirst | hrest
      · exact Nat.le_trans h.1.1 (time_le_of_mem_seen x hfirst)
      · exact Nat.le_trans h.1.1 (ih h.2 x hrest)

/-- What is seen is seen from the request on. -/
theorem time_le_course (h : q.Prompt steps upto) : ∀ x ∈ q.course steps, q.time ≤ x.1 := by
  intro x hx
  rcases List.mem_append.mp hx with hfirst | hrest
  · exact time_le_of_mem_seen x hfirst
  · exact time_le_of_mem_course h x hrest

theorem Standing.verdict (h : q.Standing log upto state phase)
    (hphase : phase.conclusion? = some (outcome, t)) :
    q.Verdict log state outcome t ∧ t ≤ upto := by
  cases h with
  | concluded _ _ _ hverdict hle =>
      cases hphase
      exact ⟨hverdict, hle⟩
  | _ => cases hphase

/-- A job that was seen to end without a place is never looked up. -/
theorem not_mem_lookups (hstate : (q.after steps).pool.state? q.number = some state)
    (hover : state.isOver = true) (htaken : state.isTaken = false)
    (later : List (Instant × CrewStep)) : q.number ∉ (q.lookups (steps ++ later)).map (·.2) := by
  intro hmem
  have hstays : (q.after (steps ++ later)).pool.state? q.number = some state := by
    rw [after, Crew.run_append]
    exact ((q.after steps).moves_run later).1.over hstate hover
  obtain ⟨state', hstate', htaken'⟩ := (q.sound_after (steps ++ later)).ordered.taken _ hmem
  rw [hstays] at hstate'
  cases hstate'
  rw [htaken] at htaken'
  cases htaken'

/-! ## The main statement -/

/-- How a request has fared whose requester was on time in these steps and up to an instant. -/
structure Judged (q : Petition) (steps : List (Instant × CrewStep)) (upto : Instant) : Prop where
  /-- When both its times are over it has come to an outcome, -/
  returns : q.deadline < upto → (q.conclusion? steps).isSome = true
  /-- and it did so before. -/
  in_time : ∀ outcome t, q.conclusion? steps = some (outcome, t) →
    q.time ≤ t ∧ t ≤ q.deadline ∧ t ≤ upto
  accepted_le : ∀ t, (q.course steps).acceptance? = some t → t ≤ q.patience
  /-- There was no place in time. -/
  unplaced : (q.course steps).acceptance? = none →
    (∀ t, (q.course steps).ending? ≠ some (t, .refused)) → q.patience < upto →
    q.conclusion? steps = some (.timedOut, q.patience)
  /-- The workers stopped before there was a place. -/
  closed : ∀ t, (q.course steps).ending? = some (t, .refused) → t < upto →
    q.conclusion? steps = some (.fetchError "account workers have stopped", t)
  /-- Without a place, the storage is never called for the request. -/
  never_called : (q.course steps).acceptance? = none → (q.conclusion? steps).isSome = true →
    ∀ later, q.number ∉ (q.lookups (steps ++ later)).map (·.2)
  /-- As long as places are given out and it has none, there is none. -/
  full : (q.after steps).pool.state? q.number = some .waiting →
    (q.after steps).step upto .enter = q.after steps →
    (q.after steps).pool.capacity ≤ (q.after steps).pool.queued
  /-- The job ended in time, and the outcome is what its end means. -/
  ended : ∀ accepted t state, (q.course steps).acceptance? = some accepted →
    (q.course steps).ending? = some (t, state) → t < q.closing accepted → t < upto →
    ∃ outcome, AuthOutcome.Reports q.password state outcome ∧
      q.conclusion? steps = some (outcome, t)
  /-- The job did not end in time. -/
  late : ∀ accepted, (q.course steps).acceptance? = some accepted →
    (∀ x, (q.course steps).ending? = some x → q.closing accepted < x.1) →
    q.closing accepted < upto → q.conclusion? steps = some (.timedOut, q.closing accepted)
  /-- The job ended at the instant at which the time was over: either may come first. -/
  at_once : ∀ accepted state, (q.course steps).acceptance? = some accepted →
    (q.course steps).ending? = some (q.closing accepted, state) → q.closing accepted < upto →
    ∃ outcome, (AuthOutcome.Reports q.password state outcome ∨ outcome = .timedOut) ∧
      q.conclusion? steps = some (outcome, q.closing accepted)
  /-- An answer is what the storage said when it was called for the username of the request. -/
  looked_up : ∀ t result, (q.course steps).ending? = some (t, .answered result) →
    ∃ n worker : Nat, (q.lookups steps)[n]? = some (worker, q.number) ∧
      (q.after steps).pool.calls[n]? = some q.username ∧
      (q.storage n q.username).finding = .answer result
  /-- An outcome is final, whatever comes. -/
  stays : ∀ x, q.conclusion? steps = some x → ∀ later, q.conclusion? (steps ++ later) = some x
  /-- The end of a lookup by itself changes no request. -/
  requests_finish : ∀ now worker,
    ((q.after steps).step now (.finish worker)).authenticator.requests =
      (q.after steps).authenticator.requests
  /-- What the answer is that comes after the outcome makes no difference to any request. -/
  requests_reword : (q.conclusion? steps).isSome = true → ∀ due result,
    (q.after steps).pool.state? q.number = some (.running due (.answer result)) →
    ∀ result' later,
      (((q.after steps).reword q.number due result').run later).authenticator.requests =
        ((q.after steps).run later).authenticator.requests
  /-- The authenticator that is run takes the request so, -/
  submit_eq : (q.after [(q.time, .poll q.number)]).authenticator =
    ((q.start.run q.before).authenticator.submit q.time q.username q.password).2
  /-- and from any instant on it lets time go on so. -/
  goes_on : ∀ target, upto ≤ target → ∃ more, q.Prompt (steps ++ more) target ∧
    (q.after (steps ++ more)).authenticator =
      Clocked.elapse upto target ((q.after steps).authenticator.settle upto)

/-- A request has come to its outcome when it can wait no longer. -/
theorem Standing.concluded_of_deadline (h : q.Standing log upto state phase)
    (hlate : q.deadline < upto) : phase.conclusion?.isSome = true := by
  have hconcluded : ∃ outcome t, phase.conclusion? = some (outcome, t) ∧
      q.Verdict log state outcome t := by
    cases haccepted : log.acceptance? with
    | none =>
        exact h.concluded_of_unaccepted haccepted
          (.inl (Nat.lt_of_le_of_lt q.patience_le_deadline hlate))
    | some accepted =>
        exact h.concluded_of_accepted haccepted
          (.inl (Nat.lt_of_le_of_lt (closing_le_deadline (h.of_accepted haccepted).1) hlate))
  obtain ⟨outcome, t, hphase, -⟩ := hconcluded
  rw [hphase]
  rfl

theorem Standing.unplaced (h : q.Standing log upto state phase) (hnone : log.acceptance? = none)
    (hopen : ∀ t, log.ending? ≠ some (t, .refused)) (hlate : q.patience < upto) :
    phase.conclusion? = some (.timedOut, q.patience) := by
  obtain ⟨outcome, t, hphase, hverdict⟩ := h.concluded_of_unaccepted hnone (.inl hlate)
  rcases hverdict.of_unaccepted hnone with ⟨rfl, rfl, -⟩ | ⟨-, hending, -⟩
  · exact hphase
  · exact absurd hending (hopen t)

theorem Standing.closed (h : q.Standing log upto state phase)
    (hending : log.ending? = some (t, .refused)) (hlt : t < upto) :
    phase.conclusion? = some (.fetchError "account workers have stopped", t) := by
  obtain rfl : .refused = state := h.state_eq hending
  cases haccepted : log.acceptance? with
  | some accepted => cases (h.of_accepted haccepted).2
  | none =>
      obtain ⟨outcome, t', hphase, hverdict⟩ :=
        h.concluded_of_unaccepted haccepted (.inr ⟨_, hending, hlt⟩)
      rcases hverdict.of_unaccepted haccepted with ⟨-, -, -, hwithdrawn⟩ | ⟨hreports, hending', -⟩
      · cases hwithdrawn
      · cases Option.some.inj (hending'.symm.trans hending)
        cases hreports
        exact hphase

theorem Standing.ended (h : q.Standing log upto state phase)
    (haccepted : log.acceptance? = some accepted) {final : JobState}
    (hending : log.ending? = some (t, final)) (hin : t < q.closing accepted) (hlt : t < upto) :
    ∃ outcome, AuthOutcome.Reports q.password final outcome ∧
      phase.conclusion? = some (outcome, t) := by
  obtain rfl : final = state := h.state_eq hending
  obtain ⟨outcome, t', hphase, hverdict⟩ :=
    h.concluded_of_accepted haccepted (.inr ⟨_, hending, hlt⟩)
  rcases hverdict.of_accepted haccepted with ⟨hreports, hending', -⟩ | ⟨-, -, hlate⟩
  · cases Option.some.inj (hending'.symm.trans hending)
    exact ⟨outcome, hreports, hphase⟩
  · exact absurd hin (Nat.not_lt_of_le (hlate _ hending))

theorem Standing.late (h : q.Standing log upto state phase)
    (haccepted : log.acceptance? = some accepted)
    (hlate : ∀ x, log.ending? = some x → q.closing accepted < x.1)
    (hlt : q.closing accepted < upto) :
    phase.conclusion? = some (.timedOut, q.closing accepted) := by
  obtain ⟨outcome, t', hphase, hverdict⟩ := h.concluded_of_accepted haccepted (.inl hlt)
  rcases hverdict.of_accepted haccepted with ⟨-, hending, hin⟩ | ⟨rfl, rfl, -⟩
  · exact absurd (hlate _ hending) (Nat.not_lt_of_le hin)
  · exact hphase

theorem Standing.at_once (h : q.Standing log upto state phase)
    (haccepted : log.acceptance? = some accepted) {final : JobState}
    (hending : log.ending? = some (q.closing accepted, final)) (hlt : q.closing accepted < upto) :
    ∃ outcome, (AuthOutcome.Reports q.password final outcome ∨ outcome = .timedOut) ∧
      phase.conclusion? = some (outcome, q.closing accepted) := by
  obtain rfl : final = state := h.state_eq hending
  obtain ⟨outcome, t', hphase, hverdict⟩ := h.concluded_of_accepted haccepted (.inl hlt)
  rcases hverdict.of_accepted haccepted with ⟨hreports, hending', -⟩ | ⟨rfl, rfl, -⟩
  · cases Option.some.inj (hending'.symm.trans hending)
    exact ⟨outcome, .inl hreports, hphase⟩
  · exact ⟨_, .inr rfl, hphase⟩

/-- An answer was given by the storage when it was asked for the username of the request. -/
theorem exists_lookup_after {result : LookupResult}
    (hstate : (q.after steps).pool.state? q.number = some (.answered result)) :
    ∃ n worker : Nat, (q.lookups steps)[n]? = some (worker, q.number) ∧
      (q.after steps).pool.calls[n]? = some q.username ∧
      (q.storage n q.username).finding = .answer result := by
  have hsound := q.sound_after steps
  obtain ⟨n, worker, username, hlookup, hcall, hfinding⟩ := hsound.exists_lookup hstate rfl
  obtain ⟨job, hjob, hnamed, -⟩ := hsound.exists_job hlookup
  obtain ⟨job', hjob', hname⟩ := q.exists_job_after steps
  cases hjob.symm.trans hjob'
  rw [hname] at hnamed
  cases hcall.symm.trans hnamed
  have hstorage : (q.after steps).pool.storage = q.storage := by
    rw [after_eq_run]
    exact (q.start.moves_run (q.history steps)).1.storage_eq
  exact ⟨n, worker, hlookup, hnamed, hstorage ▸ hfinding⟩

theorem outcome?_of_conclusion? {r : AuthRequest} {x : AuthOutcome × Instant}
    (h : r.phase.conclusion? = some x) : r.outcome? = some x.1 := by
  obtain ⟨ticket, password, phase⟩ := r
  cases phase with
  | concluded outcome t =>
      cases h
      rfl
  | _ => cases h

/-- Whatever went on before and whatever others do, a requester that is on time is served so. -/
theorem judged_of_prompt (h : q.Prompt steps upto) : q.Judged steps upto := by
  obtain ⟨r, state, hr, -, hstate, hstanding⟩ := ((stands_made q).run h).standing
  have hconclusion := conclusion?_eq hr
  have hverdict : ∀ outcome t, q.conclusion? steps = some (outcome, t) →
      q.Verdict (q.course steps) state outcome t ∧ t ≤ upto :=
    fun outcome t hknown => hstanding.verdict (hconclusion.symm.trans hknown)
  exact
    { returns := fun hlate => by
        rw [hconclusion]
        exact hstanding.concluded_of_deadline hlate
      in_time := fun outcome t hknown => by
        obtain ⟨hverdict, hle⟩ := hverdict outcome t hknown
        exact ⟨hverdict.time_le (time_le_course h), hverdict.le_deadline, hle⟩
      accepted_le := fun t haccepted => (hstanding.of_accepted haccepted).1
      unplaced := fun hnone hopen hlate => hconclusion.trans (hstanding.unplaced hnone hopen hlate)
      closed := fun t hending hlt => hconclusion.trans (hstanding.closed hending hlt)
      never_called := fun hnone hknown later => by
        obtain ⟨⟨outcome, t⟩, hknown⟩ := Option.isSome_iff_exists.mp hknown
        rcases (hverdict outcome t hknown).1.of_unaccepted hnone with
          ⟨-, -, -, rfl⟩ | ⟨-, -, rfl⟩
        · exact not_mem_lookups hstate rfl rfl later
        · exact not_mem_lookups hstate rfl rfl later
      full := fun hwaiting henter => Crew.capacity_le_of_enter hwaiting henter
      ended := fun accepted t final haccepted hending hin hlt => by
        rw [hconclusion]
        exact hstanding.ended haccepted hending hin hlt
      late := fun accepted haccepted hlate hlt =>
        hconclusion.trans (hstanding.late haccepted hlate hlt)
      at_once := fun accepted final haccepted hending hlt => by
        rw [hconclusion]
        exact hstanding.at_once haccepted hending hlt
      looked_up := fun t result hending => by
        have hanswered : .answered result = state := hstanding.state_eq hending
        exact exists_lookup_after (hanswered ▸ hstate)
      stays := fun x hknown later => by
        have hsame := Crew.requests_run_of_outcome? hr
          (outcome?_of_conclusion? (hconclusion.symm.trans hknown)) later
        rw [← hknown, hconclusion]
        refine conclusion?_eq ?_
        rw [after, Crew.run_append]
        exact hsame
      requests_finish := fun now worker => Crew.requests_step_finish _ now worker
      requests_reword := fun hknown due result hrunning result' later => by
        obtain ⟨x, hx⟩ := Option.isSome_iff_exists.mp hknown
        have hpast := (q.sound_after steps).past hr
          (outcome?_of_conclusion? (hconclusion.symm.trans hx)) hrunning rfl
        exact hpast.requests_reword hrunning result' later
      submit_eq := Crew.run_submit (q.start.run q.before) q.time q.username q.password
      goes_on := fun target hle => by
        obtain ⟨more, hmore, hprompt⟩ := Crew.exists_prompt_settle_elapse (q.sound_after steps) hle
        refine ⟨more, h.append (hprompt q.number), ?_⟩
        rw [after, Crew.run_append]
        exact hmore }

/-- The queue is full with somebody else's job when the request is made. It gets its place after
four milliseconds, and its answer six milliseconds later. -/
theorem judged_of_crowded :
    let account (username : String) : Account := ⟨⟨1⟩, username, "sesame"⟩
    let storage : Storage := fun n username =>
      ⟨some (if n = 0 then 9 else 3), .answer (.ok (some (account username)))⟩
    let q : Petition := ⟨⟨.ofMillis 10, .ofMillis 10⟩, storage, 1, 1,
      [(0, .request "a" ""), (0, .poll 0), (0, .listen 0), (0, .take 0), (1, .request "b" ""),
        (1, .poll 1)], 5, "c", "sesame"⟩
    let steps : List (Instant × CrewStep) := [(5, .poll 2), (9, .finish 0), (9, .listen 0),
      (9, .take 0), (9, .enter), (9, .poll 2), (12, .finish 0), (12, .listen 0), (12, .take 0),
      (15, .finish 0), (15, .poll 2)]
    q.Prompt steps 30 ∧ q.Judged steps 30 ∧ (q.course steps).acceptance? = some 9 ∧
      q.conclusion? steps = some (.success (account "c"), 15) := by
  intro account storage q steps
  have hprompt : q.Prompt steps 30 := by
    unfold Prompt
    decide +kernel
  exact ⟨hprompt, judged_of_prompt hprompt, by decide +kernel, by decide +kernel⟩

end Petition

end Realm
