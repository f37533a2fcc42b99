import Realm.Proofs.Account.Duty

/-!
# How a request stands

A request is made of a crew in any state, and what is seen of its job is noted with the instants.
From this alone it follows how the request stands: it waits for a place and then for its answer,
each until an instant, or it has come to its outcome. This is kept by whatever the workers do, by
the requester that looks, and by time that passes while the requester has nothing to do.
-/

namespace Realm

open Relation (ReflTransGen)

namespace AuthOutcome

inductive Means (password : String) : LookupResult → AuthOutcome → Prop
  | success (account : Account) : account.password = password →
      Means password (.ok (some account)) (.success account)
  | mismatch (account : Account) : account.password ≠ password →
      Means password (.ok (some account)) .passwordMismatch
  | notFound : Means password (.ok none) .accountNotFound
  | failed (e : StorageError) : Means password (.error e) (.fetchError e.message)

inductive Reports (password : String) : JobState → AuthOutcome → Prop
  | answered (result : LookupResult) (outcome : AuthOutcome) : Means password result outcome →
      Reports password (.answered result) outcome
  | dropped : Reports password .dropped (.fetchError "account worker dropped the request")
  | refused : Reports password .refused (.fetchError "account workers have stopped")

theorem means_ofResult (password : String) (result : LookupResult) :
    Means password result (ofResult password result) := by
  cases result with
  | error e => exact .failed e
  | ok found =>
      cases found with
      | none => exact .notFound
      | some account =>
          by_cases h : account.password = password
          · simpa [ofResult, Account.accepts, h] using Means.success account h
          · simpa [ofResult, Account.accepts, h] using Means.mismatch account h

end AuthOutcome

namespace JobState

def isAccepted : JobState → Bool
  | .queued | .running _ _ | .answered _ | .dropped => true
  | _ => false

/-- What becomes of the job when its requester gives up. -/
def forsake : JobState → JobState
  | .waiting => .withdrawn
  | state => state

variable {state state' : JobState}

theorem isAccepted_of_moves (h : ReflTransGen Moves state state')
    (haccepted : state.isAccepted = true) : state'.isAccepted = true := by
  induction h with
  | refl => exact haccepted
  | tail _ hmove ih =>
      cases hmove with
      | withdraw | refuse => cases ih
      | _ => rfl

theorem forsake_of_isAccepted (h : state.isAccepted = true) : state.forsake = state := by
  cases state with
  | waiting => cases h
  | _ => rfl

end JobState

abbrev JobLog := List (Instant × JobState)

namespace JobLog

def acceptance? (log : JobLog) : Option Instant := (log.find? fun x => x.2.isAccepted).map (·.1)

/-- The instant at which all was over with the job, and how it ended. -/
def ending? (log : JobLog) : Option (Instant × JobState) := log.find? fun x => x.2.isOver

theorem acceptance?_append (log : JobLog) (now : Instant) (state : JobState) :
    acceptance? (log ++ [(now, state)]) =
      log.acceptance?.or (if state.isAccepted then some now else none) := by
  unfold acceptance?
  rw [List.find?_append, Option.map_or]
  cases h : state.isAccepted <;> simp [h]

theorem isOver_of_ending? (log : JobLog) {x : Instant × JobState} (h : log.ending? = some x) :
    x.2.isOver = true := by
  unfold ending? at h
  simpa using List.find?_some h

theorem ending?_append (log : JobLog) (now : Instant) (state : JobState) :
    ending? (log ++ [(now, state)]) =
      log.ending?.or (if state.isOver then some (now, state) else none) := by
  unfold ending?
  rw [List.find?_append]
  cases h : state.isOver <;> simp [h]

variable {log : JobLog} {t : Instant} {x : Instant × JobState} {state : JobState}

/-- The first place is the one that counts, -/
theorem acceptance?_append_of_some (h : log.acceptance? = some t) (now : Instant)
    (state : JobState) : acceptance? (log ++ [(now, state)]) = some t := by
  rw [acceptance?_append, h, Option.some_or]

theorem acceptance?_append_of_none (h : log.acceptance? = none) (hstate : state.isAccepted = false)
    (now : Instant) : acceptance? (log ++ [(now, state)]) = none := by
  simp [acceptance?_append, h, hstate]

/-- and so is the first end. -/
theorem ending?_append_of_some (h : log.ending? = some x) (now : Instant) (state : JobState) :
    ending? (log ++ [(now, state)]) = some x := by
  rw [ending?_append, h, Option.some_or]

theorem ending?_append_of_none (h : log.ending? = none) (hstate : state.isOver = false)
    (now : Instant) : ending? (log ++ [(now, state)]) = none := by
  simp [ending?_append, h, hstate]

end JobLog

/-- A request that is made of a crew, whatever went on before. -/
structure Petition where
  limits : AuthLimits
  storage : Storage
  workers : Nat
  capacity : Nat
  before : List (Instant × CrewStep)
  time : Instant
  username : String
  password : String

namespace Petition

variable {q : Petition} {log : JobLog} {now time : Instant} {state state' : JobState}
  {phase : AuthPhase} {outcome : AuthOutcome}

def patience (q : Petition) : Instant := q.time + q.limits.consume.millis

/-- Until when a request that was accepted waits for its answer. -/
def closing (q : Petition) (accepted : Instant) : Instant := accepted + q.limits.fetch.millis

/-- What the request comes to, and when, given what was seen of its job. -/
inductive Verdict (q : Petition) (log : JobLog) : JobState → AuthOutcome → Instant → Prop
  /-- There was no place in time. -/
  | unplaced : log.acceptance? = none → log.ending? = some (q.patience, .withdrawn) →
      Verdict q log .withdrawn .timedOut q.patience
  /-- The workers stopped before there was a place. -/
  | closed (outcome : AuthOutcome) (t : Instant) : log.acceptance? = none →
      log.ending? = some (t, .refused) → t ≤ q.patience →
      AuthOutcome.Reports q.password .refused outcome → Verdict q log .refused outcome t
  /-- The job ended in time. -/
  | ended (state : JobState) (outcome : AuthOutcome) (accepted t : Instant) :
      log.acceptance? = some accepted → accepted ≤ q.patience → state.isAccepted = true →
      log.ending? = some (t, state) → t ≤ q.closing accepted →
      AuthOutcome.Reports q.password state outcome → Verdict q log state outcome t
  /-- The job did not end before its time was over. -/
  | late (state : JobState) (accepted : Instant) :
      log.acceptance? = some accepted → accepted ≤ q.patience → state.isAccepted = true →
      (∀ x, log.ending? = some x → q.closing accepted ≤ x.1 ∧ x.2 = state) →
      Verdict q log state .timedOut (q.closing accepted)

/-- How the request stands at an instant: what its job and the request itself are at. -/
inductive Standing (q : Petition) (log : JobLog) (now : Instant) : JobState → AuthPhase → Prop
  | waits : log.acceptance? = none → log.ending? = none → now ≤ q.patience →
      Standing q log now .waiting (.queueing q.patience)
  /-- The workers have stopped at this instant. -/
  | refused : log.acceptance? = none → log.ending? = some (now, .refused) → now ≤ q.patience →
      Standing q log now .refused (.queueing q.patience)
  /-- There was a place at this instant. -/
  | placed (state : JobState) : log.acceptance? = some now → state.isAccepted = true →
      (log.ending? = if state.isOver then some (now, state) else none) → now ≤ q.patience →
      Standing q log now state (.queueing q.patience)
  /-- The answer is missing, or has come at this instant. -/
  | fetches (state : JobState) (accepted : Instant) : log.acceptance? = some accepted →
      accepted ≤ q.patience → accepted ≤ now → state.isAccepted = true →
      (log.ending? = if state.isOver then some (now, state) else none) → now ≤ q.closing accepted →
      Standing q log now state (.fetching (q.closing accepted))
  | concluded (state : JobState) (outcome : AuthOutcome) (t : Instant) :
      Verdict q log state outcome t → t ≤ now → Standing q log now state (.concluded outcome t)

/-! ## What was found stays -/

theorem Verdict.moves {t : Instant} (h : q.Verdict log state outcome t) (hnow : t ≤ now)
    (hmoves : ReflTransGen JobState.Moves state state') :
    q.Verdict (log ++ [(now, state')]) state' outcome t := by
  cases h with
  | unplaced hnone hending =>
      obtain rfl := JobState.eq_of_isOver hmoves rfl
      exact .unplaced (JobLog.acceptance?_append_of_none hnone rfl now)
        (JobLog.ending?_append_of_some hending now _)
  | closed _ _ hnone hending hle hreports =>
      obtain rfl := JobState.eq_of_isOver hmoves rfl
      exact .closed _ _ (JobLog.acceptance?_append_of_none hnone rfl now)
        (JobLog.ending?_append_of_some hending now _) hle hreports
  | ended _ _ accepted _ hsome hle haccepted hending hin hreports =>
      have hover : state.isOver = true := log.isOver_of_ending? hending
      obtain rfl := JobState.eq_of_isOver hmoves hover
      exact .ended _ _ accepted _ (JobLog.acceptance?_append_of_some hsome now _) hle haccepted
        (JobLog.ending?_append_of_some hending now _) hin hreports
  | late _ accepted hsome hle haccepted hending =>
      refine .late _ accepted (JobLog.acceptance?_append_of_some hsome now _) hle
        (JobState.isAccepted_of_moves hmoves haccepted) fun x hx => ?_
      rw [JobLog.ending?_append] at hx
      rcases Option.or_eq_some_iff.mp hx with hold | ⟨-, hnew⟩
      · obtain ⟨hlate, rfl⟩ := hending x hold
        exact ⟨hlate, (JobState.eq_of_isOver hmoves (log.isOver_of_ending? hold)).symm⟩
      · split at hnew
        · cases hnew
          exact ⟨hnow, rfl⟩
        · cases hnew

/-- While there was a place and nothing was over, what is seen next says whether it is over now. -/
theorem ending?_append_of_moves
    (hending : log.ending? = if state.isOver then some (now, state) else none)
    (hmoves : ReflTransGen JobState.Moves state state') :
    JobLog.ending? (log ++ [(now, state')]) =
      if state'.isOver then some (now, state') else none := by
  rw [JobLog.ending?_append, hending]
  cases hover : state.isOver with
  | true =>
      obtain rfl := JobState.eq_of_isOver hmoves hover
      simp [hover]
  | false => simp

/-- What others do to a job leaves the request standing; only its requester withdraws it. -/
theorem Standing.moves (h : q.Standing log now state phase)
    (hmoves : ReflTransGen JobState.Moves state state')
    (hkept : state' = .withdrawn → state = .withdrawn) :
    q.Standing (log ++ [(now, state')]) now state' phase := by
  cases h with
  | waits hnone hending hle =>
      have hacceptance := JobLog.acceptance?_append log now state'
      have hover := JobLog.ending?_append log now state'
      rw [hnone, Option.none_or] at hacceptance
      rw [hending, Option.none_or] at hover
      cases state' with
      | waiting => exact .waits hacceptance hover hle
      | withdrawn => cases hkept rfl
      | refused => exact .refused hacceptance hover hle
      | _ => exact .placed _ hacceptance rfl hover hle
  | refused hnone hending hle =>
      obtain rfl := JobState.eq_of_isOver hmoves rfl
      exact .refused (JobLog.acceptance?_append_of_none hnone rfl now)
        (JobLog.ending?_append_of_some hending now _) hle
  | placed _ hsome haccepted hending hle =>
      exact .placed _ (JobLog.acceptance?_append_of_some hsome now _)
        (JobState.isAccepted_of_moves hmoves haccepted) (ending?_append_of_moves hending hmoves) hle
  | fetches _ accepted hsome hle hsince haccepted hending hin =>
      exact .fetches _ accepted (JobLog.acceptance?_append_of_some hsome now _) hle hsince
        (JobState.isAccepted_of_moves hmoves haccepted) (ending?_append_of_moves hending hmoves) hin
  | concluded _ outcome t hverdict hle =>
      exact .concluded _ outcome t (hverdict.moves hle hmoves) hle

/-! ## The requester -/

/-- A requester that learns how its job ended comes to what that means. -/
theorem phase_observe_of_isOver {r : AuthRequest} (hphase : r.outcome? = none)
    (hover : state.isOver = true) (hkept : state ≠ .withdrawn) (limits : AuthLimits)
    (now : Instant) : ∃ outcome, AuthOutcome.Reports r.password state outcome ∧
      (r.observe limits now (some state)).expire now = r.conclude now outcome := by
  obtain ⟨ticket, password, phase⟩ := r
  cases phase with
  | concluded outcome t => cases hphase
  | _ =>
      cases state with
      | answered result =>
          exact ⟨_, .answered result _ (AuthOutcome.means_ofResult password result), rfl⟩
      | dropped => exact ⟨_, .dropped, rfl⟩
      | refused => exact ⟨_, .refused, rfl⟩
      | withdrawn => exact absurd rfl hkept
      | _ => cases hover

/-- A requester whose job is accepted and not over waits for the answer, or gives up. -/
theorem observe_of_running {r : AuthRequest} {limit : Instant} (hphase : r.phase = .queueing limit)
    (haccepted : state.isAccepted = true) (hover : state.isOver = false) (limits : AuthLimits)
    (now : Instant) : r.observe limits now (some state) =
      { r with phase := .fetching (now + limits.fetch.millis) } := by
  obtain ⟨ticket, password, phase⟩ := r
  cases hphase
  cases state with
  | queued | running => rfl
  | answered | dropped => cases hover
  | waiting | withdrawn | refused => cases haccepted

theorem observe_of_fetching {r : AuthRequest} {limit : Instant} (hphase : r.phase = .fetching limit)
    (hover : state.isOver = false) (limits : AuthLimits) (now : Instant) :
    r.observe limits now (some state) = r := by
  obtain ⟨ticket, password, phase⟩ := r
  cases hphase
  cases state with
  | waiting | queued | running => rfl
  | _ => cases hover

theorem expire_of_due {r : AuthRequest} {limit : Instant} (hdue : r.phase.due? = some limit)
    (hle : limit ≤ now) : r.expire now = r.conclude now .timedOut := by
  rw [AuthRequest.expire, hdue, if_pos (by simpa using hle)]

theorem expire_of_lt {r : AuthRequest} {limit : Instant} (hdue : r.phase.due? = some limit)
    (hlt : now < limit) : r.expire now = r := by
  rw [AuthRequest.expire, hdue, if_neg (by simpa using hlt)]

/-- The job as it is when its requester has looked: given up if that came too late. -/
def left (r : AuthRequest) (state : JobState) : JobState :=
  if r.outcome? = some .timedOut then state.forsake else state

/-- A requester that waits for its answer gives up when its time is over. -/
theorem Standing.expire {r : AuthRequest} {accepted : Instant}
    (hphase : r.phase = .fetching (q.closing accepted))
    (hsome : log.acceptance? = some accepted) (hle : accepted ≤ q.patience)
    (hsince : accepted ≤ now) (haccepted : state.isAccepted = true)
    (hending : log.ending? = none) (hover : state.isOver = false) (hin : now ≤ q.closing accepted) :
    q.Standing (log ++ [(now, left (r.expire now) state)]) now (left (r.expire now) state)
      (r.expire now).phase := by
  have hleft : left (r.expire now) state = state := by
    unfold left
    split
    · exact JobState.forsake_of_isAccepted haccepted
    · rfl
  have hdue : r.phase.due? = some (q.closing accepted) := by rw [hphase]; rfl
  have hacceptance := JobLog.acceptance?_append_of_some hsome now state
  have hnone := JobLog.ending?_append_of_none hending hover now
  rw [hleft]
  rcases Nat.lt_or_eq_of_le hin with hlt | rfl
  · rw [expire_of_lt hdue hlt, hphase]
    refine .fetches state accepted hacceptance hle hsince haccepted ?_ hin
    simp [hnone, hover]
  · rw [expire_of_due hdue (Nat.le_refl _)]
    refine .concluded state _ _ (.late state accepted hacceptance hle haccepted ?_) (Nat.le_refl _)
    simp [hnone]

/-- A requester that learns how its job ended, at the instant at which it ended. -/
theorem Standing.conclude {r : AuthRequest} (hphase : r.outcome? = none)
    (hpassword : r.password = q.password) (hover : state.isOver = true) (hkept : state ≠ .withdrawn)
    (hverdict : ∀ outcome, AuthOutcome.Reports q.password state outcome →
      q.Verdict log state outcome now) :
    let r' := (r.observe q.limits now (some state)).expire now
    q.Standing (log ++ [(now, left r' state)]) now (left r' state) r'.phase := by
  intro r'
  obtain ⟨outcome, hreports, hconclude⟩ :=
    phase_observe_of_isOver hphase hover hkept q.limits now
  have hr' : r' = r.conclude now outcome := hconclude
  have hleft : left r' state = state := by
    unfold left JobState.forsake
    cases hreports <;> simp
  rw [hleft, hr']
  rw [hpassword] at hreports
  exact .concluded state outcome now ((hverdict outcome hreports).moves (Nat.le_refl now) .refl)
    (Nat.le_refl now)

/-- The requester looks. -/
theorem Standing.poll {r : AuthRequest} (h : q.Standing log now state r.phase)
    (hpassword : r.password = q.password) :
    let r' := (r.observe q.limits now (some state)).expire now
    q.Standing (log ++ [(now, left r' state)]) now (left r' state) r'.phase := by
  generalize hphase : r.phase = phase at h
  cases h with
  | waits hnone hending hle =>
      have hobserve : r.observe q.limits now (some .waiting) = r := by
        obtain ⟨ticket, password, _⟩ := r
        cases hphase
        rfl
      have hdue : r.phase.due? = some q.patience := by rw [hphase]; rfl
      intro r'
      have hr' : r' = r.expire now := congrArg (AuthRequest.expire now) hobserve
      rcases Nat.lt_or_eq_of_le hle with hlt | rfl
      · have hsame : r' = r := hr'.trans (expire_of_lt hdue hlt)
        have hleft : left r .waiting = .waiting := by simp [left, AuthRequest.outcome?, hphase]
        rw [hsame, hleft, hphase]
        exact .waits (JobLog.acceptance?_append_of_none hnone rfl now)
          (JobLog.ending?_append_of_none hending rfl now) hle
      · have hgives : r' = r.conclude q.patience .timedOut :=
          hr'.trans (expire_of_due hdue (Nat.le_refl _))
        have hleft : left r' .waiting = .withdrawn := by rw [hgives]; rfl
        rw [hleft, hgives]
        refine .concluded _ _ _ (.unplaced ?_ ?_) (Nat.le_refl _)
        · exact JobLog.acceptance?_append_of_none hnone rfl q.patience
        · rw [JobLog.ending?_append, hending]
          rfl
  | refused hnone hending hle =>
      refine Standing.conclude (by simp [AuthRequest.outcome?, hphase]) hpassword rfl (by simp) ?_
      exact fun outcome hreports => .closed outcome now hnone hending hle hreports
  | placed _ hsome haccepted hending hle =>
      cases hover : state.isOver with
      | true =>
          rw [hover, if_pos rfl] at hending
          refine Standing.conclude (by simp [AuthRequest.outcome?, hphase]) hpassword hover ?_ ?_
          · rintro rfl
            cases haccepted
          · exact fun outcome hreports => .ended state outcome now now hsome hle haccepted hending
              (Nat.le_add_right _ _) hreports
      | false =>
          rw [hover] at hending
          rw [observe_of_running hphase haccepted hover]
          exact Standing.expire rfl hsome hle (Nat.le_refl now) haccepted hending hover
            (Nat.le_add_right _ _)
  | fetches _ accepted hsome hle hsince haccepted hending hin =>
      cases hover : state.isOver with
      | true =>
          rw [hover, if_pos rfl] at hending
          refine Standing.conclude (by simp [AuthRequest.outcome?, hphase]) hpassword hover ?_ ?_
          · rintro rfl
            cases haccepted
          · exact fun outcome hreports => .ended state outcome accepted now hsome hle haccepted
              hending hin hreports
      | false =>
          rw [hover] at hending
          rw [observe_of_fetching hphase hover]
          exact Standing.expire hphase hsome hle hsince haccepted hending hover hin
  | concluded _ outcome t hverdict hle =>
      intro r'
      have hknown : r.outcome? = some outcome := by simp [AuthRequest.outcome?, hphase]
      have hsame : r' = r := AuthRequest.expire_observe_of_outcome? hknown q.limits now _
      have hleft : left r' state = state := by
        unfold left
        split
        · cases hverdict with
          | unplaced => rfl
          | closed => rfl
          | ended _ _ _ _ _ _ haccepted => exact JobState.forsake_of_isAccepted haccepted
          | late _ _ _ _ haccepted => exact JobState.forsake_of_isAccepted haccepted
        · rfl
      rw [hleft, hsame, hphase]
      exact .concluded state outcome t (hverdict.moves hle .refl) hle

/-! ## Time -/

/-- A requester that has nothing to do waits for a time that has not come. -/
theorem Standing.passes {r : AuthRequest} (h : q.Standing log now state r.phase) (hlt : now < time)
    (hrests : (r.observe q.limits now (some state)).expire now = r)
    (hdue : ∀ due, r.phase.due? = some due → time ≤ due) :
    q.Standing log time state r.phase := by
  have hlearns : r.outcome? = none → state.isOver = true → state = .withdrawn := by
    intro hnone hover
    by_contra hkept
    obtain ⟨outcome, -, hconclude⟩ := phase_observe_of_isOver hnone hover hkept q.limits now
    rw [hrests] at hconclude
    rw [hconclude] at hnone
    cases hnone
  generalize hphase : r.phase = phase at h hdue
  cases h with
  | waits hnone hending hle => exact .waits hnone hending (hdue _ rfl)
  | refused => cases hlearns (by simp [AuthRequest.outcome?, hphase]) rfl
  | placed _ hsome haccepted hending hle =>
      cases hover : state.isOver with
      | true =>
          cases hlearns (by simp [AuthRequest.outcome?, hphase]) hover
          cases haccepted
      | false =>
          -- It would go on to wait for the answer.
          rw [observe_of_running hphase haccepted hover] at hrests
          have hfetches := congrArg AuthRequest.phase hrests
          rw [hphase] at hfetches
          unfold AuthRequest.expire at hfetches
          split at hfetches <;> cases hfetches
  | fetches _ accepted hsome hle hsince haccepted hending hin =>
      cases hover : state.isOver with
      | true =>
          cases hlearns (by simp [AuthRequest.outcome?, hphase]) hover
          cases haccepted
      | false =>
          rw [hover] at hending
          refine .fetches state accepted hsome hle (Nat.le_trans hsince (Nat.le_of_lt hlt))
            haccepted ?_ (hdue _ rfl)
          rw [hover]
          exact hending
  | concluded _ outcome t hverdict hle =>
      exact .concluded state outcome t hverdict (Nat.le_trans hle (Nat.le_of_lt hlt))

end Petition

end Realm
