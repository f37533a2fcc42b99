import Realm.Proofs.Account.Service

/-!
# Requesters on time

A requester that has something to do at an instant does it before time passes, and it does not sleep
beyond the instant for which it has set its timer. What others do meanwhile, and when, is left open.
Main statement: an authenticator that is left to itself is a crew all of whose requesters are on
time.
-/

namespace Realm

deriving instance DecidableEq for AuthPhase
deriving instance DecidableEq for AuthRequest

/-! ## The first of many timers -/

structure Instant.IsEarliest (found : Option Instant) (among : Instant → Prop) : Prop where
  mem : ∀ t, found = some t → among t
  le : ∀ t, among t → ∃ first, found = some first ∧ first ≤ t

namespace Instant

theorem IsEarliest.earlier {a b : Option Instant} {p q : Instant → Prop} (ha : IsEarliest a p)
    (hb : IsEarliest b q) : IsEarliest (earlier a b) fun t => p t ∨ q t := by
  cases a with
  | none =>
      refine ⟨fun t ht => .inr (hb.mem t ht), fun t ht => ?_⟩
      rcases ht with ht | ht
      · obtain ⟨first, hfirst, -⟩ := ha.le t ht
        cases hfirst
      · exact hb.le t ht
  | some x =>
      cases b with
      | none =>
          refine ⟨fun t ht => .inl (ha.mem t ht), fun t ht => ?_⟩
          rcases ht with ht | ht
          · exact ha.le t ht
          · obtain ⟨first, hfirst, -⟩ := hb.le t ht
            cases hfirst
      | some y =>
          refine ⟨fun t ht => ?_, fun t ht => ⟨min x y, rfl, ?_⟩⟩
          · obtain rfl : min x y = t := Option.some.inj ht
            rcases Nat.le_total x y with hle | hle
            · exact .inl (ha.mem _ (congrArg some (Nat.min_eq_left hle).symm))
            · exact .inr (hb.mem _ (congrArg some (Nat.min_eq_right hle).symm))
          · rcases ht with ht | ht
            · obtain ⟨first, hfirst, hle⟩ := ha.le t ht
              cases hfirst
              exact Nat.le_trans (Nat.min_le_left x y) hle
            · obtain ⟨first, hfirst, hle⟩ := hb.le t ht
              cases hfirst
              exact Nat.le_trans (Nat.min_le_right x y) hle

theorem IsEarliest.congr {found : Option Instant} {p q : Instant → Prop} (h : IsEarliest found p)
    (hpq : ∀ t, p t ↔ q t) : IsEarliest found q :=
  ⟨fun t ht => (hpq t).mp (h.mem t ht), fun t ht => h.le t ((hpq t).mpr ht)⟩

theorem isEarliest_self (found : Option Instant) : IsEarliest found fun t => found = some t :=
  ⟨fun _ => id, fun t ht => ⟨t, ht, Nat.le_refl t⟩⟩

theorem IsEarliest.foldl {first : Option Instant} {p : Instant → Prop} (h : IsEarliest first p)
    (dues : List (Option Instant)) :
    IsEarliest (dues.foldl Instant.earlier first) fun t => p t ∨ some t ∈ dues := by
  induction dues generalizing first p with
  | nil => exact h.congr (by simp)
  | cons due dues ih =>
      refine (ih (h.earlier (isEarliest_self due))).congr fun t => ?_
      rw [or_assoc, List.mem_cons, eq_comm (a := due)]

theorem isEarliest_earliest (dues : List (Option Instant)) :
    IsEarliest (earliest dues) fun t => some t ∈ dues :=
  ((isEarliest_self none).foldl dues).congr (by simp)

end Instant

theorem Authenticator.isEarliest_due? (a : Authenticator) : Instant.IsEarliest a.due? fun t =>
    (∃ job ∈ a.pool.jobs, job.state.due? = some t) ∨
      ∃ r ∈ a.requests, r.phase.due? = some t := by
  have hjobs := Instant.isEarliest_earliest (a.pool.jobs.map (·.state.due?))
  have hrequests := Instant.isEarliest_earliest (a.requests.map (·.phase.due?))
  exact (hjobs.earlier hrequests).congr fun t => by simp

/-! ## One request -/

namespace AuthRequest

variable {limits : AuthLimits} {now : Instant} {state : Option JobState} {r : AuthRequest}
  {p : Pool}

/-- There is nothing the request can do at an instant. -/
def Rests (limits : AuthLimits) (now : Instant) (state : Option JobState) (r : AuthRequest) :
    Prop := (r.observe limits now state).expire now = r

instance : Decidable (r.Rests limits now state) :=
  inferInstanceAs (Decidable ((r.observe limits now state).expire now = r))

/-- A request that looks twice sees nothing new. -/
theorem observe_observe (limits : AuthLimits) (now : Instant) (state : Option JobState)
    (r : AuthRequest) :
    (r.observe limits now state).observe limits now state = r.observe limits now state := by
  obtain ⟨ticket, password, phase⟩ := r
  cases phase <;> cases state with
  | none => rfl
  | some state => cases state <;> rfl

theorem expire_cases (now : Instant) (r : AuthRequest) :
    (r.expire now).outcome? = some .timedOut ∨ r.expire now = r := by
  unfold expire
  split
  · exact .inl rfl
  · exact .inr rfl

theorem rests_of_outcome? {outcome : AuthOutcome} (h : r.outcome? = some outcome)
    (limits : AuthLimits) (now : Instant) (state : Option JobState) : r.Rests limits now state :=
  expire_observe_of_outcome? h limits now state

/-- To a request, a job that was given up is like one that still waits. -/
theorem Rests.withdraw (h : r.Rests limits now (p.state? r.ticket)) (ticket : Ticket) :
    r.Rests limits now ((p.withdraw ticket).state? r.ticket) := by
  unfold Pool.withdraw
  split
  · next hwaiting =>
      by_cases hticket : ticket = r.ticket
      · subst hticket
        rw [Pool.state?_setState_self hwaiting]
        rw [hwaiting] at h
        obtain ⟨ticket, password, phase⟩ := r
        cases phase <;> exact h
      · rwa [Pool.state?_setState_of_ne hticket]
  · exact h

/-- A request that has looked rests. -/
theorem rests_advance (limits : AuthLimits) (now : Instant) (p : Pool) (r : AuthRequest) :
    (r.advance limits now p).1.Rests limits now
      ((r.advance limits now p).2.state? (r.advance limits now p).1.ticket) := by
  set noted := r.observe limits now (p.state? r.ticket) with hnoted
  rcases expire_cases now noted with hgave | hsame
  · exact rests_of_outcome? hgave limits now _
  · have hticket : noted.ticket = r.ticket := (r.same_observe limits now _).1
    have hrests : noted.Rests limits now (p.state? noted.ticket) := by
      unfold Rests
      rw [hticket, hnoted, observe_observe, ← hnoted, hsame]
    have hadvance : r.advance limits now p = (noted,
        if noted.outcome? = some .timedOut then p.withdraw noted.ticket else p) := by
      simp only [advance, ← hnoted, hsame]
    rw [hadvance]
    dsimp only
    split
    · exact hrests.withdraw noted.ticket
    · exact hrests

theorem observe_cases (limits : AuthLimits) (now : Instant) (state : Option JobState)
    (r : AuthRequest) : r.observe limits now state = r ∨
      (∃ outcome, r.observe limits now state = r.conclude now outcome) ∨
      ∃ limit, r.phase = .queueing limit ∧ r.observe limits now state =
        { r with phase := .fetching (now + limits.fetch.millis) } := by
  unfold observe
  split
  case h_3 | h_4 => exact .inr (.inr ⟨_, ‹_›, rfl⟩)
  case h_5 | h_6 | h_7 => exact .inr (.inl ⟨_, rfl⟩)
  all_goals exact .inl rfl

/-- A request that rests waits for a time that has not come. -/
theorem Rests.lt_due (h : r.Rests limits now state) {due : Instant}
    (hdue : r.phase.due? = some due) : now < due := by
  have hwaits : r.outcome? = none := by
    unfold outcome?
    cases hphase : r.phase <;> simp [hphase, AuthPhase.due?] at hdue ⊢
  unfold Rests at h
  rcases observe_cases limits now state r with
    hsame | ⟨outcome, hconcluded⟩ | ⟨limit, hphase, hfetches⟩
  · rw [hsame] at h
    by_contra hle
    have hgave : r.expire now = r.conclude now .timedOut := by
      rw [expire, hdue, if_pos (by simpa using hle)]
    rw [← h, hgave] at hwaits
    cases hwaits
  · have hexpired : (r.conclude now outcome).expire now = r.conclude now outcome := rfl
    rw [hconcluded, hexpired] at h
    rw [← h] at hwaits
    cases hwaits
  · rw [hfetches] at h
    rcases expire_cases now { r with phase := .fetching (now + limits.fetch.millis) } with
      hgave | hsame
    · rw [h, hwaits] at hgave
      cases hgave
    · rw [h] at hsame
      have hstays := congrArg phase hsame
      rw [hphase] at hstays
      cases hstays

end AuthRequest

/-! ## All that is done at an instant -/

namespace Pool

variable {now : Instant} {p : Pool}

/-- The lookups that are under way end later than at this instant. -/
def Ahead (now : Instant) (p : Pool) : Prop := ∀ (ticket : Ticket) (state : JobState) (t : Instant),
  p.state? ticket = some state → state.due? = some t → now < t

theorem Ahead.withdraw (h : p.Ahead now) (ticket : Ticket) : (p.withdraw ticket).Ahead now := by
  unfold Pool.withdraw
  split
  · next hwaiting =>
      intro i state t hstate hdue
      by_cases hi : ticket = i
      · subst hi
        rw [state?_setState_self hwaiting] at hstate
        cases hstate
        cases hdue
      · rw [state?_setState_of_ne hi] at hstate
        exact h i state t hstate hdue
  · exact h

theorem ahead_settle (now : Instant) (p : Pool) : (p.settle now).Ahead now := by
  have hstep := step?_settle now p
  unfold step? at hstep
  simp only [Option.orElse_eq_orElse, Option.orElse_eq_or, Option.or_eq_none_iff] at hstep
  have hnone : (p.settle now).first? (fun state => state.due?.any (· ≤ now)) = none := by
    cases hfirst : (p.settle now).first? (fun state => state.due?.any (· ≤ now)) with
    | none => rfl
    | some found =>
        obtain ⟨ticket, username, state⟩ := found
        obtain ⟨-, hdue⟩ := of_first? hfirst
        obtain ⟨hfinish, -⟩ := hstep
        rw [finish?, hfirst] at hfinish
        cases state with
        | running due finding => cases finding <;> cases hfinish
        | _ => cases hdue
  intro i state t hstate hdue
  have htest := not_test_of_first?_eq_none hnone hstate
  simpa [hdue] using htest

end Pool

namespace Authenticator

variable {now : Instant} {a : Authenticator} {limits : AuthLimits} {p : Pool}

/-- Nothing more can be done at an instant, and all timers are set for later. -/
structure Settled (now : Instant) (a : Authenticator) : Prop where
  rests : ∀ r ∈ a.requests, r.Rests a.limits now (a.pool.state? r.ticket)
  later : ∀ t, a.due? = some t → now < t

/-- Each time a request has looked, it rests, whatever those do that look after it. -/
theorem rests_advanceAll (limits : AuthLimits) (now : Instant) (rs : List AuthRequest) (p : Pool)
    (done : List AuthRequest) (hdone : ∀ r ∈ done, r.Rests limits now (p.state? r.ticket)) :
    ∀ r ∈ done ++ (advanceAll limits now p rs).2,
      r.Rests limits now ((advanceAll limits now p rs).1.state? r.ticket) := by
  induction rs generalizing p done with
  | nil => simpa [advanceAll] using hdone
  | cons r rs ih =>
      have hothers : ∀ other ∈ done, other.Rests limits now
          ((r.advance limits now p).2.state? other.ticket) := by
        intro other hother
        rcases Crew.advance_snd_cases limits now p r with hsame | ⟨ticket, hgave⟩
        · rw [hsame]
          exact hdone other hother
        · rw [hgave]
          exact (hdone other hother).withdraw ticket
      have hall := ih (r.advance limits now p).2 (done ++ [(r.advance limits now p).1]) (by
        intro other hother
        rcases List.mem_append.mp hother with hold | hnew
        · exact hothers other hold
        · rw [List.mem_singleton.mp hnew]
          exact r.rests_advance limits now p)
      simpa [advanceAll] using hall

theorem ahead_advanceAll (limits : AuthLimits) (rs : List AuthRequest) (h : p.Ahead now) :
    (advanceAll limits now p rs).1.Ahead now := by
  induction rs generalizing p with
  | nil => exact h
  | cons r rs ih =>
      have hadvanced : (r.advance limits now p).2.Ahead now := by
        rcases Crew.advance_snd_cases limits now p r with hsame | ⟨ticket, hgave⟩
        · rw [hsame]
          exact h
        · rw [hgave]
          exact h.withdraw ticket
      exact ih hadvanced

theorem settled_settle (now : Instant) (a : Authenticator) : (a.settle now).Settled now := by
  have hrests := rests_advanceAll a.limits now a.requests (a.pool.settle now) [] nofun
  have hahead := ahead_advanceAll a.limits a.requests (a.pool.ahead_settle now)
  refine ⟨hrests, fun t ht => ?_⟩
  rcases (a.settle now).isEarliest_due?.mem t ht with ⟨job, hjob, hdue⟩ | ⟨r, hr, hdue⟩
  · obtain ⟨i, hi⟩ := List.mem_iff_getElem?.mp hjob
    exact hahead i job.state t (Pool.state?_of_job hi) hdue
  · exact (hrests r hr).lt_due hdue

end Authenticator

/-! ## On time -/

namespace Crew

variable {c : Crew} {i : Nat} {now time upto target : Instant}
  {steps more : List (Instant × CrewStep)} {looked : List (Nat × Ticket)}
  {refused : List (Nat × Pool.SubmitError)}

/-- For all that a requester does, time may pass: if any does, the request rests, and its timer is
not set for an earlier instant. -/
def Lets (i : Nat) (now time : Instant) (c : Crew) : Prop :=
  now ≤ time ∧ (now < time → ∀ r ∈ c.authenticator.requests[i]?,
    r.Rests c.authenticator.limits now (c.pool.state? r.ticket) ∧
      ∀ due ∈ r.phase.due?, time ≤ due)

instance : Decidable (c.Lets i now time) := inferInstanceAs (Decidable (_ ∧ (_ → _)))

/-- One requester is on time in these steps, which begin at an instant, and after them up to
another. -/
def Prompt (i : Nat) (c : Crew) (now : Instant) : List (Instant × CrewStep) → Instant → Prop
  | [], upto => c.Lets i now upto
  | (time, s) :: steps, upto => c.Lets i now time ∧ (c.step time s).Prompt i time steps upto

instance decidablePrompt (i : Nat) (c : Crew) (now : Instant) :
    (steps : List (Instant × CrewStep)) → (upto : Instant) → Decidable (c.Prompt i now steps upto)
  | [], upto => inferInstanceAs (Decidable (c.Lets i now upto))
  | (time, s) :: steps, upto =>
    have := decidablePrompt i (c.step time s) time steps upto
    inferInstanceAs (Decidable (c.Lets i now time ∧ (c.step time s).Prompt i time steps upto))

theorem lets_self (i : Nat) (now : Instant) (c : Crew) : c.Lets i now now :=
  ⟨Nat.le_refl now, fun h => absurd h (Nat.lt_irrefl now)⟩

theorem Lets.trans (h : c.Lets i now time) (h' : c.Lets i time target) : c.Lets i now target := by
  refine ⟨Nat.le_trans h.1 h'.1, fun hlt r hr => ?_⟩
  rcases Nat.lt_or_eq_of_le h'.1 with hlate | rfl
  · rcases Nat.lt_or_eq_of_le h.1 with hsoon | rfl
    · exact ⟨(h.2 hsoon r hr).1, (h'.2 hlate r hr).2⟩
    · exact h'.2 hlate r hr
  · exact h.2 hlt r hr

theorem Prompt.of_lets (h : c.Lets i now time) (hsteps : c.Prompt i time steps upto) :
    c.Prompt i now steps upto := by
  cases steps with
  | nil => exact h.trans hsteps
  | cons first steps => exact ⟨h.trans hsteps.1, hsteps.2⟩

theorem Prompt.append (h : c.Prompt i now steps time)
    (hmore : (c.run steps).Prompt i time more upto) : c.Prompt i now (steps ++ more) upto := by
  induction steps generalizing c now with
  | nil => exact .of_lets h hmore
  | cons first steps ih => exact ⟨h.1, ih h.2 hmore⟩

/-- Within an instant nobody is late. -/
theorem prompt_instant (i : Nat) (c : Crew) (now : Instant) (todo : List CrewStep) :
    c.Prompt i now (todo.map (Prod.mk now)) now := by
  induction todo generalizing c with
  | nil => exact lets_self i now c
  | cons s todo ih => exact ⟨lets_self i now c, ih (c.step now s)⟩

/-! ## The authenticator that is run -/

/-- Where all has happened, time may pass until the first timer. -/
theorem lets_of_settled (h : c.authenticator.Settled now) (hle : now ≤ time)
    (hdue : ∀ t, c.authenticator.due? = some t → time ≤ t) (i : Nat) : c.Lets i now time := by
  refine ⟨hle, fun _ r hr => ⟨h.rests r (List.mem_of_getElem? hr), fun due hr' => ?_⟩⟩
  obtain ⟨first, hfirst, hfirst'⟩ := c.authenticator.isEarliest_due?.le due
    (.inr ⟨r, List.mem_of_getElem? hr, hr'⟩)
  exact Nat.le_trans (hdue first hfirst) hfirst'

/-- An instant at which all happens that can happen. -/
theorem exists_prompt_settle (h : c.Sound looked refused) (hlets : ∀ i, c.Lets i now time) :
    ∃ steps, (c.run steps).authenticator = c.authenticator.settle time ∧
      ∀ i, c.Prompt i now steps time := by
  obtain ⟨todo, htodo⟩ := exists_run_settle h time
  exact ⟨todo.map (Prod.mk time), htodo, fun i => .of_lets (hlets i) (prompt_instant i c time todo)⟩

/-- What an authenticator does while time passes. -/
theorem exists_prompt_elapse (h : c.Sound looked refused) (hsettled : c.authenticator.Settled now)
    (hle : now ≤ target) : ∃ steps,
      (c.run steps).authenticator = Clocked.elapse now target c.authenticator ∧
        ∀ i, c.Prompt i now steps target := by
  generalize ha : c.authenticator = a at hsettled
  fun_induction Clocked.elapse now target a generalizing c looked refused with
  | case1 now a hnext =>
      subst ha
      refine exists_prompt_settle h (lets_of_settled hsettled hle fun t ht => ?_)
      have hlater := hsettled.later t ht
      have hdue : Clocked.due? c.authenticator = some t := ht
      by_contra hbefore
      have hin : now < t ∧ t ≤ target := ⟨hlater, Nat.le_of_not_le hbefore⟩
      simp [Clocked.next?, hdue, hin] at hnext
  | case2 now a due hin hnext _ ih =>
      subst ha
      have hdue : c.authenticator.due? = some due := by
        unfold Clocked.next? at hnext
        split at hnext
        · cases hnext
        · next first hfirst =>
            split at hnext
            · cases hnext
              exact hfirst
            · cases hnext
      have hlets := lets_of_settled hsettled (Nat.le_of_lt hin.1) fun t ht => by
        rw [hdue] at ht
        exact Nat.le_of_eq (Option.some.inj ht)
      obtain ⟨first, hfirst, hprompt⟩ := exists_prompt_settle h hlets
      obtain ⟨rest, hrest, hprompt'⟩ :=
        ih (h.run first) hin.2 hfirst (Authenticator.settled_settle due c.authenticator)
      refine ⟨first ++ rest, ?_, fun i => (hprompt i).append (hprompt' i)⟩
      rw [run_append]
      exact hrest

/-- From any instant on, an authenticator that first does all it can and is then left to itself is a
crew all of whose requesters are on time. -/
theorem exists_prompt_settle_elapse (h : c.Sound looked refused) (hle : now ≤ target) : ∃ steps,
    (c.run steps).authenticator = Clocked.elapse now target (c.authenticator.settle now) ∧
      ∀ i, c.Prompt i now steps target := by
  obtain ⟨first, hfirst, hprompt⟩ := exists_prompt_settle h fun i => lets_self i now c
  obtain ⟨rest, hrest, hprompt'⟩ := exists_prompt_elapse (h.run first)
    (hfirst ▸ Authenticator.settled_settle now c.authenticator) hle
  refine ⟨first ++ rest, ?_, fun i => (hprompt i).append (hprompt' i)⟩
  rw [run_append, hrest, hfirst]

end Crew

end Realm
