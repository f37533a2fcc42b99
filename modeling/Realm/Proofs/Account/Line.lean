import Mathlib.Logic.Relation
import Realm.Proofs.Account.Answer

/-!
# The line of jobs

Jobs are numbered in the order in which they are submitted; they get their places and are taken by
workers in this order. A job only ever moves onward, and after an instant at which all has happened
no job is left that a worker without one could take.
-/

namespace Realm

open Relation (ReflTransGen)

/-- How a count changes when one element of a list is replaced. -/
theorem countP_set_add {α : Type} {l : List α} {i : Nat} {a : α} (h : l[i]? = some a) (b : α)
    (test : α → Bool) :
    (l.set i b).countP test + (test a).toNat = l.countP test + (test b).toNat := by
  obtain ⟨hlt, rfl⟩ := List.getElem?_eq_some_iff.mp h
  have hpos : (test l[i]).toNat ≤ l.countP test := by
    cases htest : test l[i] with
    | false => exact Nat.zero_le _
    | true => exact List.countP_pos_iff.mpr ⟨_, List.getElem_mem hlt, htest⟩
  rw [List.countP_set hlt]
  generalize l.countP test = n at hpos ⊢
  cases hold : test l[i] <;> cases test b <;> simp [hold] at hpos ⊢
  all_goals omega

namespace JobState

inductive Moves : JobState → JobState → Prop
  | enter : Moves .waiting .queued
  | withdraw : Moves .waiting .withdrawn
  | refuse : Moves .waiting .refused
  | look (due : Option Instant) (finding : Finding) : Moves .queued (.running due finding)
  | drop : Moves .queued .dropped
  | answer (due : Option Instant) (result : LookupResult) :
      Moves (.running due (.answer result)) (.answered result)
  | crash (due : Option Instant) : Moves (.running due .crash) .dropped

/-- Whether nothing becomes of the job any more. -/
def isOver : JobState → Bool
  | .waiting | .queued | .running _ _ => false
  | _ => true

/-- Whether the job may have been with a worker. -/
def isTaken : JobState → Bool
  | .running _ _ | .answered _ | .dropped => true
  | _ => false

variable {state state' : JobState}

theorem eq_of_isOver (h : ReflTransGen Moves state state') (hover : state.isOver = true) :
    state' = state := by
  cases h.cases_head with
  | inl heq => exact heq.symm
  | inr hmove =>
      obtain ⟨next, hmove, -⟩ := hmove
      cases hmove <;> cases hover

theorem isTaken_of_moves (h : ReflTransGen Moves state state') (htaken : state.isTaken = true) :
    state'.isTaken = true := by
  induction h with
  | refl => exact htaken
  | tail _ hmove ih => cases hmove <;> first | rfl | cases ih

theorem moves_abandon (state : JobState) : ReflTransGen Moves state state.abandon := by
  cases state with
  | waiting => exact .single .refuse
  | queued => exact .single .drop
  | _ => exact .refl

end JobState

namespace Pool

variable {now : Instant} {p p' : Pool} {ticket i : Ticket} {state old : JobState} {job : Job}
  {test : JobState → Bool} {looked : List Ticket}

/-! ## Looking at jobs -/

theorem state?_setState (p : Pool) (ticket i : Ticket) (state : JobState) :
    (p.setState ticket state).state? i =
      if ticket = i then (p.state? i).map fun _ => state else p.state? i := by
  rw [state?, jobs_setState]
  split
  · rw [state?, Option.map_map, Option.map_map]
    rfl
  · rfl

theorem state?_setState_self (h : p.state? ticket = some old) (state : JobState) :
    (p.setState ticket state).state? ticket = some state := by
  rw [state?_setState, if_pos rfl, h, Option.map_some]

theorem state?_setState_of_ne (h : ticket ≠ i) (state : JobState) :
    (p.setState ticket state).state? i = p.state? i := by
  rw [state?_setState, if_neg h]

theorem state?_lt (h : p.state? ticket = some state) : ticket < p.jobs.length := by
  obtain ⟨job, hjob, -⟩ := Option.map_eq_some_iff.mp h
  exact (List.getElem?_eq_some_iff.mp hjob).1

/-- Nothing before the first job that passes a test passes it. -/
theorem not_test_of_first? (h : p.first? test = some (ticket, job)) (hi : i < ticket)
    (hstate : p.state? i = some state) : test state = false := by
  unfold first? at h
  obtain ⟨n, hn, hjob⟩ := Option.bind_eq_some_iff.mp h
  obtain ⟨found, -, heq⟩ := Option.map_eq_some_iff.mp hjob
  cases heq
  obtain ⟨hlt, -, hbefore⟩ := List.findIdx?_eq_some_iff_getElem.mp hn
  obtain ⟨other, hother, rfl⟩ := Option.map_eq_some_iff.mp hstate
  obtain ⟨hlt, rfl⟩ := List.getElem?_eq_some_iff.mp hother
  simpa using hbefore i hi

theorem not_test_of_first?_eq_none (h : p.first? test = none) (hstate : p.state? i = some state) :
    test state = false := by
  obtain ⟨other, hother, rfl⟩ := Option.map_eq_some_iff.mp hstate
  unfold first? at h
  cases hfound : p.jobs.findIdx? fun job => test job.state with
  | none => exact List.findIdx?_eq_none_iff.mp hfound other (List.mem_of_getElem? hother)
  | some n =>
      obtain ⟨hlt, -⟩ := List.findIdx?_eq_some_iff_getElem.mp hfound
      simp [hfound, List.getElem?_eq_getElem hlt] at h

theorem of_first?_eq_some (h : p.first? test = some (ticket, job)) :
    p.state? ticket = some job.state ∧ test job.state = true := by
  obtain ⟨hjob, htest⟩ := of_first? h
  exact ⟨state?_of_job hjob, htest⟩

theorem state_of_first?_isQueued (h : p.first? JobState.isQueued = some (ticket, job)) :
    p.jobs[ticket]? = some ⟨job.username, .queued⟩ := by
  obtain ⟨hjob, htest⟩ := of_first? h
  obtain ⟨username, state⟩ := job
  cases state <;> first | exact hjob | cases htest

theorem state_of_first?_isWaiting (h : p.first? JobState.isWaiting = some (ticket, job)) :
    p.state? ticket = some .waiting := by
  obtain ⟨hstate, htest⟩ := of_first?_eq_some h
  cases hs : job.state <;> rw [hs] at hstate htest <;> first | exact hstate | cases htest

/-! ## Counting jobs -/

theorem count_setState (h : p.state? ticket = some old) (state : JobState)
    (test : JobState → Bool) :
    (p.setState ticket state).count test + (test old).toNat =
      p.count test + (test state).toNat := by
  obtain ⟨job, hjob, rfl⟩ := Option.map_eq_some_iff.mp h
  have hset : (p.setState ticket state).jobs = p.jobs.set ticket { job with state } := by
    simp [setState, List.modify_eq_set_getElem?, hjob]
  rw [count, hset]
  exact countP_set_add hjob _ fun job => test job.state

theorem count_loseWorker_le
    (h : ∀ state : JobState, test state.abandon = true → test state = true) :
    p.loseWorker.count test ≤ p.count test := by
  unfold loseWorker count
  dsimp only
  split
  · rw [List.countP_map]
    exact List.countP_mono_left fun job _ hjob => h job.state hjob
  · exact Nat.le_refl _

theorem count_isRunning_loseWorker (p : Pool) :
    p.loseWorker.count JobState.isRunning = p.count JobState.isRunning := by
  unfold loseWorker count
  dsimp only
  split
  · rw [List.countP_map]
    refine List.countP_congr fun job _ => ?_
    cases hs : job.state <;> simp [hs, JobState.abandon, JobState.isRunning]
  · rfl

theorem count_submit (p : Pool) (username : String) (test : JobState → Bool) :
    (p.submit username).2.count test = p.count test + (test p.admission).toNat := by
  cases htest : test p.admission <;> simp [submit, count, htest]

/-! ## Jobs move onward -/

/-- The jobs stay, and each moves onward or not at all. -/
structure Moves (p p' : Pool) : Prop where
  storage_eq : p'.storage = p.storage
  capacity_eq : p'.capacity = p.capacity
  state : ∀ (i : Ticket) (state : JobState), p.state? i = some state →
    ∃ state', p'.state? i = some state' ∧ ReflTransGen JobState.Moves state state'

theorem Moves.refl (p : Pool) : p.Moves p := 
  ⟨rfl, rfl, fun _ state h => ⟨state, h, .refl⟩⟩

theorem Moves.trans {p'' : Pool} (h : p.Moves p') (h' : p'.Moves p'') : p.Moves p'' := by
  refine ⟨h'.storage_eq.trans h.storage_eq, h'.capacity_eq.trans h.capacity_eq,
    fun i state hstate => ?_⟩
  obtain ⟨state', hstate', hmoves⟩ := h.state i state hstate
  obtain ⟨state'', hstate'', hmoves'⟩ := h'.state i state' hstate'
  exact ⟨state'', hstate'', hmoves.trans hmoves'⟩

theorem Moves.over (h : p.Moves p') (hstate : p.state? i = some state)
    (hover : state.isOver = true) : p'.state? i = some state := by
  obtain ⟨state', hstate', hmoves⟩ := h.state i state hstate
  rw [hstate', JobState.eq_of_isOver hmoves hover]

theorem moves_setState (h : p.state? ticket = some old)
    (hmoves : ReflTransGen JobState.Moves old state) : p.Moves (p.setState ticket state) := by
  refine ⟨rfl, rfl, fun i other hother => ?_⟩
  by_cases hi : ticket = i
  · subst hi
    rw [h] at hother
    cases hother
    exact ⟨state, state?_setState_self h state, hmoves⟩
  · exact ⟨other, (state?_setState_of_ne hi state).trans hother, .refl⟩

theorem state?_loseWorker (p : Pool) (i : Ticket) : p.loseWorker.state? i =
    if p.workers - 1 = 0 then (p.state? i).map JobState.abandon else p.state? i := by
  unfold loseWorker state?
  dsimp only
  split
  · rw [List.getElem?_map, Option.map_map, Option.map_map]
    rfl
  · rfl

theorem moves_loseWorker (p : Pool) : p.Moves p.loseWorker := by
  refine ⟨rfl, rfl, fun i state hstate => ?_⟩
  rw [state?_loseWorker, hstate]
  split
  · exact ⟨_, rfl, JobState.moves_abandon state⟩
  · exact ⟨state, rfl, .refl⟩

theorem moves_submit (p : Pool) (username : String) : p.Moves (p.submit username).2 := by
  refine ⟨rfl, rfl, fun i state hstate => ⟨state, ?_, .refl⟩⟩
  have hlt := state?_lt hstate
  rwa [state?, submit, List.getElem?_append_left hlt]

theorem moves_enter (p : Pool) (ticket : Ticket) : p.Moves (p.enter ticket) := by
  unfold enter
  split
  · next hwaiting =>
      split
      · exact moves_setState hwaiting (.single .enter)
      · exact .refl p
  · exact .refl p

theorem look_of_idle {username : String} (hjob : p.jobs[ticket]? = some ⟨username, .queued⟩)
    (hidle : p.count JobState.isRunning < p.workers) (now : Instant) :
    p.look now ticket =
      let lookup := p.storage p.calls.length username
      { p.setState ticket (.running (lookup.duration.map (now + ·)) lookup.finding) with
        calls := p.calls ++ [username] } := by
  unfold look
  rw [hjob]
  exact if_pos hidle

theorem state?_look {username : String} (hjob : p.jobs[ticket]? = some ⟨username, .queued⟩)
    (hidle : p.count JobState.isRunning < p.workers) (now : Instant) :
    ∃ due finding, (p.look now ticket).state? ticket = some (.running due finding) := by
  rw [look_of_idle hjob hidle]
  exact ⟨_, _, state?_setState_self (state?_of_job hjob) _⟩

theorem state?_look_of_ne {username : String} (hjob : p.jobs[ticket]? = some ⟨username, .queued⟩)
    (hidle : p.count JobState.isRunning < p.workers) (now : Instant) (hne : ticket ≠ i) :
    (p.look now ticket).state? i = p.state? i := by
  rw [look_of_idle hjob hidle]
  exact state?_setState_of_ne hne _

theorem count_look {username : String} (hjob : p.jobs[ticket]? = some ⟨username, .queued⟩)
    (hidle : p.count JobState.isRunning < p.workers) (now : Instant) :
    ∃ due finding, ∀ test, (p.look now ticket).count test + (test .queued).toNat =
      p.count test + (test (.running due finding)).toNat := by
  rw [look_of_idle hjob hidle]
  exact ⟨_, _, count_setState (state?_of_job hjob) _⟩

theorem moves_look (now : Instant) (p : Pool) (ticket : Ticket) : p.Moves (p.look now ticket) := by
  rcases look_cases now p ticket with heq | ⟨username, due, hjob, heq⟩
  · rw [heq]
    exact .refl p
  · rw [heq]
    have hlook : ReflTransGen JobState.Moves .queued
        (.running due (p.storage p.calls.length username).finding) := .single (.look _ _)
    exact ⟨rfl, rfl, (moves_setState (state?_of_job hjob) hlook).state⟩

theorem moves_finish (now : Instant) (p : Pool) (ticket : Ticket) :
    p.Moves (p.finish now ticket) := by
  unfold finish
  split
  · next due finding hstate =>
      split
      · cases finding with
        | answer result => exact moves_setState hstate (.single (.answer _ _))
        | crash => exact (moves_setState hstate (.single (.crash _))).trans (moves_loseWorker _)
      · exact .refl p
  · exact .refl p

theorem moves_withdraw (p : Pool) (ticket : Ticket) : p.Moves (p.withdraw ticket) := by
  unfold withdraw
  split
  · next hwaiting => exact moves_setState hwaiting (.single .withdraw)
  · exact .refl p

/-! ## The order of the line -/

/-- The jobs that workers took so far, in order, and those that are still to be taken. -/
structure Ordered (p : Pool) (looked : List Ticket) : Prop where
  increasing : looked.Pairwise (· < ·)
  behind : ∀ (i : Ticket) (state : JobState), p.state? i = some state → state.isPending = true →
    ∀ l ∈ looked, l < i
  line : ∀ i j : Ticket, p.state? i = some .queued → p.state? j = some .waiting → i < j
  taken : ∀ l ∈ looked, ∃ state, p.state? l = some state ∧ state.isTaken = true
  room : p.queued ≤ p.capacity

theorem Ordered.taken_of_moves (h : p.Ordered looked) (hmoves : p.Moves p') :
    ∀ l ∈ looked, ∃ state, p'.state? l = some state ∧ state.isTaken = true := fun l hl => by
  obtain ⟨state, hstate, htaken⟩ := h.taken l hl
  obtain ⟨state', hstate', hmoves⟩ := hmoves.state l state hstate
  exact ⟨state', hstate', JobState.isTaken_of_moves hmoves htaken⟩

/-- Where no job comes into the line, its order stays. -/
theorem Ordered.of_pending (h : p.Ordered looked) (hmoves : p.Moves p')
    (hpending : ∀ (i : Ticket) (state : JobState), p'.state? i = some state →
      state.isPending = true → p.state? i = some state)
    (hqueued : p'.queued ≤ p.queued) : p'.Ordered looked where
  increasing := h.increasing
  behind i state hstate hp := h.behind i state (hpending i state hstate hp) hp
  line i j hi hj := h.line i j (hpending i _ hi rfl) (hpending j _ hj rfl)
  taken := h.taken_of_moves hmoves
  room := by
    have := h.room
    have := hmoves.capacity_eq
    omega

theorem Ordered.setState (h : p.Ordered looked) (hold : p.state? ticket = some old)
    (hmoves : ReflTransGen JobState.Moves old state) (hstate : state.isPending = false) :
    (p.setState ticket state).Ordered looked := by
  refine h.of_pending (moves_setState hold hmoves) (fun i other hother hpending => ?_) ?_
  · by_cases hi : ticket = i
    · subst hi
      rw [state?_setState_self hold] at hother
      cases hother
      rw [hstate] at hpending
      cases hpending
    · rwa [state?_setState_of_ne hi] at hother
  · have hcount := count_setState hold state JobState.isQueued
    have hnew : state.isQueued = false := by
      cases state <;> first | rfl | cases hstate
    rw [hnew] at hcount
    simp only [queued]
    simp at hcount
    omega

theorem Ordered.loseWorker (h : p.Ordered looked) : p.loseWorker.Ordered looked := by
  refine h.of_pending (moves_loseWorker p) (fun i state hstate hpending => ?_)
    (count_loseWorker_le fun state hstate => ?_)
  · rw [state?_loseWorker] at hstate
    split at hstate
    · obtain ⟨old, -, rfl⟩ := Option.map_eq_some_iff.mp hstate
      cases old <;> cases hpending
    · exact hstate
  · cases state <;> first | rfl | cases hstate

theorem Ordered.finish (h : p.Ordered looked) (now : Instant) (ticket : Ticket) :
    (p.finish now ticket).Ordered looked := by
  unfold Pool.finish
  split
  · next due finding hstate =>
      split
      · cases finding with
        | answer result => exact h.setState hstate (.single (.answer _ _)) rfl
        | crash => exact (h.setState hstate (.single (.crash _)) rfl).loseWorker
      · exact h
  · exact h

theorem Ordered.withdraw (h : p.Ordered looked) (ticket : Ticket) :
    (p.withdraw ticket).Ordered looked := by
  unfold Pool.withdraw
  split
  · next hwaiting => exact h.setState hwaiting (.single .withdraw) rfl
  · exact h

/-- A place goes to the first in the line. -/
theorem Ordered.enter (h : p.Ordered looked)
    (hfirst : p.first? JobState.isWaiting = some (ticket, job)) :
    (p.enter ticket).Ordered looked := by
  have hwaiting := state_of_first?_isWaiting hfirst
  unfold Pool.enter
  rw [hwaiting]
  dsimp only
  split
  · next hroom =>
      have hcount := count_setState hwaiting .queued JobState.isQueued
      refine ⟨h.increasing, fun i state hstate hpending => ?_, fun i j hi hj => ?_,
        h.taken_of_moves (moves_setState hwaiting (.single .enter)), ?_⟩
      · by_cases hi : ticket = i
        · exact h.behind i .waiting (hi ▸ hwaiting) rfl
        · rw [state?_setState_of_ne hi] at hstate
          exact h.behind i state hstate hpending
      · have hne : ticket ≠ j := fun heq => by
          rw [← heq, state?_setState_self hwaiting] at hj
          cases hj
        rw [state?_setState_of_ne hne] at hj
        by_cases hi' : ticket = i
        · subst hi'
          rcases Nat.lt_or_ge ticket j with hlt | hge
          · exact hlt
          · exact nomatch not_test_of_first? hfirst (Nat.lt_of_le_of_ne hge hne.symm) hj
        · rw [state?_setState_of_ne hi'] at hi
          exact h.line i j hi hj
      · simp [JobState.isQueued] at hcount
        show (p.setState ticket .queued).count JobState.isQueued ≤ p.capacity
        simp only [queued] at hroom
        omega
  · exact h

/-- A worker takes the first of the queue. -/
theorem Ordered.look (h : p.Ordered looked)
    (hfirst : p.first? JobState.isQueued = some (ticket, job))
    (hidle : p.count JobState.isRunning < p.workers) (now : Instant) :
    (p.look now ticket).Ordered (looked ++ [ticket]) := by
  have hjob := state_of_first?_isQueued hfirst
  have hqueued : p.state? ticket = some .queued := state?_of_job hjob
  obtain ⟨due, finding, hrunning⟩ := state?_look hjob hidle now
  have hother : ∀ j, ∀ state, (p.look now ticket).state? j = some state → state.isPending = true →
      ticket < j ∧ p.state? j = some state := fun j state hstate hpending => by
    have hne : ticket ≠ j := fun heq => by
      rw [← heq, hrunning] at hstate
      cases hstate
      cases hpending
    rw [state?_look_of_ne hjob hidle now hne] at hstate
    refine ⟨?_, hstate⟩
    cases state with
    | waiting => exact h.line ticket j hqueued hstate
    | queued =>
        refine Nat.lt_of_le_of_ne (Nat.not_lt.mp fun hlt => ?_) hne
        exact nomatch not_test_of_first? hfirst hlt hstate
    | _ => cases hpending
  refine ⟨?_, fun j state hstate hpending l hl => ?_, fun i j hi hj => ?_, fun l hl => ?_, ?_⟩
  · rw [List.pairwise_append]
    refine ⟨h.increasing, List.pairwise_singleton .., fun l hl t ht => ?_⟩
    rw [List.mem_singleton.mp ht]
    exact h.behind ticket .queued hqueued rfl l hl
  · obtain ⟨hlt, hold⟩ := hother j state hstate hpending
    rcases List.mem_append.mp hl with hl | hl
    · exact h.behind j state hold hpending l hl
    · rwa [List.mem_singleton.mp hl]
  · exact h.line i j (hother i _ hi rfl).2 (hother j _ hj rfl).2
  · rcases List.mem_append.mp hl with hl | hl
    · exact h.taken_of_moves (moves_look now p ticket) l hl
    · rw [List.mem_singleton.mp hl]
      exact ⟨_, hrunning, rfl⟩
  · obtain ⟨due, finding, hcount⟩ := count_look hjob hidle now
    have hcount := hcount JobState.isQueued
    have hroom := h.room
    have hcapacity := (moves_look now p ticket).capacity_eq
    simp only [queued] at hroom ⊢
    simp [JobState.isQueued] at hcount
    omega

theorem state?_submit_cases {username : String}
    (h : (p.submit username).2.state? i = some state) :
    p.state? i = some state ∨ i = p.jobs.length ∧ state = p.admission := by
  obtain ⟨job, hjob, rfl⟩ := Option.map_eq_some_iff.mp h
  rcases jobs_submit_cases hjob with hold | ⟨hi, rfl⟩
  · exact .inl (state?_of_job hold)
  · exact .inr ⟨hi, rfl⟩

theorem not_test_of_count_eq_zero (h : p.count test = 0) (hstate : p.state? i = some state) :
    test state = false := by
  obtain ⟨job, hjob, rfl⟩ := Option.map_eq_some_iff.mp hstate
  simpa using List.countP_eq_zero.mp h job (List.mem_of_getElem? hjob)

/-- A job is let into the queue at once only if there is a place and nobody waits for it. -/
theorem of_admission_eq_queued (h : p.admission = .queued) :
    p.queued < p.capacity ∧ p.count JobState.isWaiting = 0 := by
  unfold admission at h
  split at h
  · cases h
  · split at h
    · next hroom => exact hroom
    · cases h

/-- A new job stands behind all others. -/
theorem Ordered.submit (h : p.Ordered looked) (username : String) :
    (p.submit username).2.Ordered looked := by
  refine ⟨h.increasing, fun i state hstate hpending l hl => ?_, fun i j hi hj => ?_,
    h.taken_of_moves (moves_submit p username), ?_⟩
  · rcases state?_submit_cases hstate with hold | ⟨rfl, -⟩
    · exact h.behind i state hold hpending l hl
    · obtain ⟨taken, htaken, -⟩ := h.taken l hl
      exact state?_lt htaken
  · rcases state?_submit_cases hi with hold | ⟨rfl, hnew⟩
    · rcases state?_submit_cases hj with hold' | ⟨rfl, -⟩
      · exact h.line i j hold hold'
      · exact state?_lt hold
    · rcases state?_submit_cases hj with hold' | ⟨rfl, hnew'⟩
      · have hnobody := (of_admission_eq_queued hnew.symm).2
        exact nomatch not_test_of_count_eq_zero hnobody hold'
      · exact nomatch hnew.trans hnew'.symm
  · have hcount := count_submit p username JobState.isQueued
    have hroom := h.room
    show (p.submit username).2.count JobState.isQueued ≤ p.capacity
    simp only [queued] at hroom
    cases hadmission : p.admission with
    | queued =>
        have hplace := (of_admission_eq_queued hadmission).1
        simp only [queued] at hplace
        simp [hadmission, JobState.isQueued] at hcount
        omega
    | _ =>
        simp [hadmission, JobState.isQueued] at hcount
        omega

theorem ordered_start (storage : Storage) (workers capacity : Nat) :
    (start storage workers capacity).Ordered [] :=
  ⟨.nil, fun i state hstate => by simp [start, state?] at hstate,
    fun i j hi => by simp [start, state?] at hi, nofun, by simp [start, queued, count]⟩

/-! ## An instant leaves nothing to do -/

def movesLeft (p : Pool) : Nat :=
  3 * p.count JobState.isWaiting + 2 * p.count JobState.isQueued + p.count JobState.isRunning

theorem movesLeft_le (p : Pool) : p.movesLeft ≤ 3 * p.jobs.length := by
  unfold movesLeft count
  induction p.jobs with
  | nil => simp
  | cons job jobs ih =>
      have hone : 3 * (if job.state.isWaiting = true then 1 else 0) +
          2 * (if job.state.isQueued = true then 1 else 0) +
          (if job.state.isRunning = true then 1 else 0) ≤ 3 := by
        cases job.state <;> simp [JobState.isWaiting, JobState.isQueued, JobState.isRunning]
      simp only [List.countP_cons, List.length_cons]
      omega

theorem movesLeft_setState (h : p.state? ticket = some old) (state : JobState) :
    (p.setState ticket state).movesLeft +
        (3 * old.isWaiting.toNat + 2 * old.isQueued.toNat + old.isRunning.toNat) =
      p.movesLeft +
        (3 * state.isWaiting.toNat + 2 * state.isQueued.toNat + state.isRunning.toNat) := by
  have hwaiting := count_setState h state JobState.isWaiting
  have hqueued := count_setState h state JobState.isQueued
  have hrunning := count_setState h state JobState.isRunning
  unfold movesLeft
  omega

theorem movesLeft_loseWorker_le (p : Pool) : p.loseWorker.movesLeft ≤ p.movesLeft := by
  have hwaiting : p.loseWorker.count JobState.isWaiting ≤ p.count JobState.isWaiting :=
    count_loseWorker_le fun state hstate => by cases state <;> first | rfl | cases hstate
  have hqueued : p.loseWorker.count JobState.isQueued ≤ p.count JobState.isQueued :=
    count_loseWorker_le fun state hstate => by cases state <;> first | rfl | cases hstate
  have hrunning := count_isRunning_loseWorker p
  unfold movesLeft
  omega

theorem movesLeft_lt_of_step? (h : p.step? now = some p') : p'.movesLeft < p.movesLeft := by
  unfold step? at h
  simp only [Option.orElse_eq_orElse, Option.orElse_eq_or, Option.or_eq_some_iff] at h
  rcases h with hfinish | ⟨-, hlook | ⟨-, henter⟩⟩
  · obtain ⟨ticket, due, finding, hstate, hdue, rfl⟩ := exists_finish hfinish
    unfold finish
    rw [hstate]
    dsimp only
    rw [if_pos hdue]
    cases finding with
    | answer result =>
        have hset := movesLeft_setState hstate (.answered result)
        show (p.setState ticket (.answered result)).movesLeft < p.movesLeft
        simp [JobState.isWaiting, JobState.isQueued, JobState.isRunning] at hset
        omega
    | crash =>
        have hset := movesLeft_setState hstate .dropped
        have hlost := movesLeft_loseWorker_le (p.setState ticket .dropped)
        show (p.setState ticket .dropped).loseWorker.movesLeft < p.movesLeft
        simp [JobState.isWaiting, JobState.isQueued, JobState.isRunning] at hset
        omega
  · obtain ⟨ticket, job, hfirst, hidle, rfl⟩ := exists_look hlook
    obtain ⟨due, finding, hcount⟩ := count_look (state_of_first?_isQueued hfirst) hidle now
    have hwaiting := hcount JobState.isWaiting
    have hqueued := hcount JobState.isQueued
    have hrunning := hcount JobState.isRunning
    unfold movesLeft
    simp [JobState.isWaiting, JobState.isQueued, JobState.isRunning] at hwaiting hqueued hrunning
    omega
  · obtain ⟨ticket, job, hfirst, hroom, rfl⟩ := exists_enter henter
    have hwaiting := state_of_first?_isWaiting hfirst
    have hset := movesLeft_setState hwaiting .queued
    unfold enter
    rw [hwaiting]
    dsimp only
    rw [if_pos hroom]
    simp [JobState.isWaiting, JobState.isQueued, JobState.isRunning] at hset
    omega

/-- With as many rounds as moves are left, the jobs move until nothing is to be done. -/
theorem step?_steps {rounds : Nat} (h : p.movesLeft ≤ rounds) :
    (p.steps now rounds).step? now = none := by
  induction rounds generalizing p with
  | zero =>
      cases hstep : p.step? now with
      | none => exact hstep
      | some p' =>
          have := movesLeft_lt_of_step? hstep
          omega
  | succ rounds ih =>
      unfold steps
      cases hstep : p.step? now with
      | none => exact hstep
      | some p' =>
          have := movesLeft_lt_of_step? hstep
          exact ih (by omega)

theorem step?_settle (now : Instant) (p : Pool) : (p.settle now).step? now = none :=
  step?_steps (movesLeft_le p)

end Pool

end Realm
