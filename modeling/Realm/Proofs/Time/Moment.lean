import Realm.Time.Pulse
import Mathlib.Data.List.Basic
import Mathlib.Data.List.Infix

/-!
# Pulses in time

A pulse beside the clock, with a log of what was seen of it. At any instant and in any order the
pulse does the next thing it can do, the consumer looks for a tick, somebody tells the pulse to
stop, and the consumer stops listening. Time passes only while the pulse has nothing to do, and never
beyond the instant at which it is due. Whatever `settle`, `elapse` and `await` do is made of these
acts.
-/

namespace Realm

namespace Pulse

variable {now : Instant} {p : Pulse}

def Rests (now : Instant) (p : Pulse) : Prop := p.wake now = p

inductive Wakes (now : Instant) (p : Pulse) : Pulse → Prop
  | rests : Wakes now p p
  | ends : (p.stopping = true ∨ p.heard = false) → Wakes now p { p with phase := .finished }
  | emits (due : Instant) : p.phase = .sleeping due → due ≤ now → p.waiting = none →
      p.stopping = false → p.heard = true →
      Wakes now p { p with waiting := some now, phase := .sleeping (now + p.rate) }
  | misses (due tick : Instant) : p.phase = .sleeping due → due ≤ now → p.waiting = some tick →
      p.stopping = false → p.heard = true → Wakes now p { p with phase := .blocked }
  | resumes : p.phase = .blocked → p.waiting = none → p.stopping = false → p.heard = true →
      Wakes now p { p with phase := .sleeping (now + p.rate) }

theorem wakes (now : Instant) (p : Pulse) : p.Wakes now (p.wake now) := by
  obtain ⟨rate, phase, waiting, stopping, heard⟩ := p
  cases phase with
  | finished => exact .rests
  | sleeping due =>
    cases stopping with
    | true => exact .ends (.inl rfl)
    | false =>
      by_cases hdue : now < due
      · simpa [wake, hdue] using Wakes.rests
      · cases heard with
        | false => simpa [wake, hdue] using Wakes.ends (.inr rfl)
        | true =>
          cases waiting with
          | none =>
            simpa [wake, hdue] using Wakes.emits due rfl (Nat.le_of_not_lt hdue) rfl rfl rfl
          | some tick =>
            simpa [wake, hdue] using Wakes.misses due tick rfl (Nat.le_of_not_lt hdue) rfl rfl rfl
  | blocked =>
    cases stopping with
    | true => exact .ends (.inl rfl)
    | false =>
      cases heard with
      | false => exact .ends (.inr rfl)
      | true =>
        cases waiting with
        | none => exact .resumes rfl rfl rfl rfl
        | some tick => exact .rests

theorem rests_iff : p.Rests now ↔ p.phase = .finished ∨
    p.stopping = false ∧ ((∃ due, p.phase = .sleeping due ∧ now < due) ∨
      p.phase = .blocked ∧ p.heard = true ∧ p.waiting.isSome) := by
  obtain ⟨rate, phase, waiting, stopping, heard⟩ := p
  cases phase with
  | finished => simp [Rests, wake]
  | sleeping due =>
    cases stopping <;> cases heard <;> cases waiting <;> by_cases hdue : now < due <;>
      simp [Rests, wake, hdue]
  | blocked => cases stopping <;> cases heard <;> cases waiting <;> simp [Rests, wake]

/-- Three things are all that a pulse can do at an instant. -/
theorem rests_settle (now : Instant) (p : Pulse) : (p.settle now).Rests now := by
  obtain ⟨rate, phase, waiting, stopping, heard⟩ := p
  cases phase with
  | finished => simp [Rests, settle, wake]
  | sleeping due =>
    cases stopping <;> cases heard <;> cases waiting <;> by_cases hdue : now < due <;>
      by_cases hrate : rate = 0 <;> simp [Rests, settle, wake, hdue, hrate, Nat.pos_iff_ne_zero]
  | blocked =>
    cases stopping <;> cases heard <;> cases waiting <;> by_cases hrate : rate = 0 <;>
      simp [Rests, settle, wake, hrate, Nat.pos_iff_ne_zero]

theorem settle_of_rests (hp : p.Rests now) : p.settle now = p := by
  have hwake : p.wake now = p := hp
  simp [settle, hwake]

@[simp] theorem poll_snd (p : Pulse) : p.poll.2 = { p with waiting := none } := by
  obtain ⟨rate, phase, waiting, stopping, heard⟩ := p
  cases waiting <;> rfl

/-- Only a pulse that sleeps makes the consumer wait: one that rests and is blocked has a tick. -/
theorem poll_of_empty (hp : p.Rests now) (hempty : p.poll.1 = .empty) :
    ∃ due, p.due? = some due ∧ p.poll = (.empty, p) := by
  obtain ⟨rate, phase, waiting, stopping, heard⟩ := p
  obtain hdone | ⟨-, ⟨due, hphase, -⟩ | hblocked⟩ := rests_iff.mp hp <;> cases waiting <;>
    simp_all [poll, take, isFinished, due?]

theorem await_of_found {patience : Nat} (hfound : p.poll.1 ≠ .empty) :
    p.await now patience = (p.poll.1, now, p.poll.2) := by
  unfold await
  split
  · simp_all
  · simp_all

theorem await_of_empty {patience : Nat} {due : Instant} (hdue : p.due? = some due)
    (hpoll : p.poll = (.empty, p)) :
    p.await now patience =
      if due ≤ now + patience then ((p.settle due).poll.1, due, (p.settle due).poll.2)
      else (.empty, now + patience, p) := by
  simp [await, hpoll, hdue]

theorem Wakes.heard_eq {q : Pulse} (h : p.Wakes now q) : q.heard = p.heard := by
  cases h <;> rfl

theorem Wakes.stopping_eq {q : Pulse} (h : p.Wakes now q) : q.stopping = p.stopping := by
  cases h <;> rfl

@[simp] theorem heard_wake : (p.wake now).heard = p.heard := (p.wakes now).heard_eq

@[simp] theorem stopping_wake : (p.wake now).stopping = p.stopping := (p.wakes now).stopping_eq

/-- A pulse at rest stays so as long as it is not due. -/
theorem Rests.later {later : Instant} (hp : p.Rests now)
    (hdue : ∀ due, p.due? = some due → later < due) : p.Rests later := by
  obtain hdone | ⟨hgoing, ⟨due, hphase, -⟩ | hblocked⟩ := rests_iff.mp hp
  · exact rests_iff.mpr (.inl hdone)
  · exact rests_iff.mpr (.inr ⟨hgoing, .inl ⟨due, hphase, hdue due (by simp [due?, hphase])⟩⟩)
  · exact rests_iff.mpr (.inr ⟨hgoing, .inr hblocked⟩)

theorem Rests.lt_due {due : Instant} (hp : p.Rests now) (hdue : p.due? = some due) : now < due := by
  obtain hdone | ⟨-, ⟨_, hphase, hlt⟩ | hblocked⟩ := rests_iff.mp hp <;> simp_all [due?]

instance : Decidable (p.Rests now) := inferInstanceAs (Decidable (p.wake now = p))

inductive Beat where
  | emitted (now : Instant)
  /-- It was due, and its last tick was still there. -/
  | missed (now : Instant)
  /-- The consumer got a tick. -/
  | took (tick now : Instant)
  deriving DecidableEq, Repr

def beats (now : Instant) (p : Pulse) : List Beat :=
  if p.waiting = none ∧ (p.wake now).waiting.isSome then [.emitted now]
  else if p.phase ≠ .blocked ∧ (p.wake now).phase = .blocked then [.missed now]
  else []

def Heard.beats (now : Instant) : Heard → List Beat
  | .tick emitted => [.took emitted now]
  | _ => []

inductive Act where
  | wake
  | look
  | stop
  /-- The consumer stops listening. -/
  | leave
  | pass (span : Nat)
  deriving DecidableEq, Repr

/-- The pulse and the clock go on without anybody else. -/
def Act.isQuiet : Act → Bool
  | .wake | .pass _ => true
  | _ => false

def visit (target : Instant) (p : Pulse) : Pulse :=
  match p.due? with
  | some due => if due ≤ target then p.settle due else p
  | none => p

theorem elapse_eq (target : Instant) (p : Pulse) :
    p.elapse target = ((p.visit target).visit target).settle target := rfl

theorem isSome_waiting_settle {soon due : Instant} (hsoon : p.due? = some soon)
    (hdue : (p.settle soon).due? = some due) : (p.settle soon).waiting.isSome := by
  obtain ⟨rate, phase, waiting, stopping, heard⟩ := p
  obtain rfl : phase = .sleeping soon := by cases phase <;> simp_all [due?]
  revert hdue
  cases stopping <;> cases heard <;> cases waiting <;> by_cases hrate : rate = 0 <;>
    simp [due?, settle, wake, hrate, Nat.pos_iff_ne_zero]

theorem due?_settle {soon : Instant} (hsoon : p.due? = some soon) (hp : p.waiting.isSome) :
    (p.settle soon).due? = none := by
  obtain ⟨rate, phase, waiting, stopping, heard⟩ := p
  obtain rfl : phase = .sleeping soon := by cases phase <;> simp_all [due?]
  cases stopping <;> cases heard <;> cases waiting <;> simp_all [due?, settle, wake]

/-- Whoever visits a pulse twice without the consumer in between finds it not due any more: the
first time it may emit, and then it is blocked. -/
theorem lt_due_visit {target due : Instant}
    (hdue : ((p.visit target).visit target).due? = some due) : target < due := by
  have hvisit (q : Pulse) {due : Instant} (h : (q.visit target).due? = some due) :
      target < due ∨ ∃ soon, q.due? = some soon ∧ soon ≤ target ∧
        q.visit target = q.settle soon := by
    cases hsoon : q.due? with
    | none => simp [visit, hsoon] at h
    | some soon =>
      by_cases hle : soon ≤ target
      · exact .inr ⟨soon, rfl, hle, by simp [visit, hsoon, hle]⟩
      · have : soon = due := by simpa [visit, hsoon, hle] using h
        exact .inl (by lia)
  obtain hlt | ⟨soon, hsoon, hle, heq⟩ := hvisit _ hdue
  · exact hlt
  · obtain hlt | ⟨_, hfirst, -, heq'⟩ := hvisit _ hsoon
    · exact absurd hlt (by lia)
    · have hwaiting : (p.visit target).waiting.isSome :=
        heq' ▸ isSome_waiting_settle hfirst (heq' ▸ hsoon)
      rw [heq, due?_settle hsoon hwaiting] at hdue
      cases hdue

end Pulse

/-- A pulse at an instant, and what was seen of it. -/
structure Moment where
  now : Instant
  pulse : Pulse
  log : List Pulse.Beat

namespace Moment

open Pulse

def start (rate : Nat) (now : Instant) : Moment := ⟨now, Pulse.start rate now, []⟩

def act (m : Moment) : Act → Moment
  | .wake => { m with pulse := m.pulse.wake m.now, log := m.log ++ m.pulse.beats m.now }
  | .look => { m with pulse := m.pulse.poll.2, log := m.log ++ m.pulse.poll.1.beats m.now }
  | .stop => { m with pulse := m.pulse.stop }
  | .leave => { m with pulse := m.pulse.unhear }
  | .pass span => { m with now := m.now + span }

/-- An act can happen: only a consumer who listens looks for a tick, and time waits for the
pulse. -/
def Allows (m : Moment) : Act → Prop
  | .look => m.pulse.heard = true
  | .pass span => m.pulse.Rests m.now ∧ (m.pulse.due?.all fun due => m.now + span ≤ due) = true
  | _ => True

def play (m : Moment) (acts : List Act) : Moment := acts.foldl act m

def Runs (m : Moment) : List Act → Prop
  | [] => True
  | a :: acts => m.Allows a ∧ (m.act a).Runs acts

def answers (m : Moment) : List Act → List Heard
  | [] => []
  | a :: acts => (if a = .look then [m.pulse.poll.1] else []) ++ (m.act a).answers acts

instance (m : Moment) : (a : Act) → Decidable (m.Allows a)
  | .wake | .stop | .leave => inferInstanceAs (Decidable True)
  | .look => inferInstanceAs (Decidable (m.pulse.heard = true))
  | .pass span => inferInstanceAs (Decidable (m.pulse.Rests m.now ∧
      (m.pulse.due?.all fun due => m.now + span ≤ due) = true))

instance decidableRuns (m : Moment) : (acts : List Act) → Decidable (m.Runs acts)
  | [] => inferInstanceAs (Decidable True)
  | a :: acts =>
    have := decidableRuns (m.act a) acts
    inferInstanceAs (Decidable (m.Allows a ∧ (m.act a).Runs acts))

@[simp] theorem play_nil (m : Moment) : m.play [] = m := rfl

@[simp] theorem play_cons (m : Moment) (a : Act) (acts : List Act) :
    m.play (a :: acts) = (m.act a).play acts := rfl

theorem play_append (m : Moment) (acts more : List Act) :
    m.play (acts ++ more) = (m.play acts).play more :=
  List.foldl_append

@[simp] theorem runs_nil (m : Moment) : m.Runs [] := trivial

@[simp] theorem runs_cons (m : Moment) (a : Act) (acts : List Act) :
    m.Runs (a :: acts) ↔ m.Allows a ∧ (m.act a).Runs acts := Iff.rfl

theorem runs_append {m : Moment} {acts more : List Act} :
    m.Runs (acts ++ more) ↔ m.Runs acts ∧ (m.play acts).Runs more := by
  induction acts generalizing m with
  | nil => simp
  | cons a acts ih => simp [ih, and_assoc]

/-- What every act keeps holds all the time. -/
theorem play_induction {P : Moment → Prop} (hstep : ∀ m a, m.Allows a → P m → P (m.act a))
    {m : Moment} {acts : List Act} (hruns : m.Runs acts) (hm : P m) : P (m.play acts) := by
  induction acts generalizing m with
  | nil => exact hm
  | cons a acts ih => exact ih hruns.2 (hstep m a hruns.1 hm)

theorem exists_acts_visit {m : Moment} {target : Instant} (hm : m.pulse.Rests m.now)
    (hle : m.now ≤ target) :
    ∃ acts, (∀ a ∈ acts, a.isQuiet) ∧ m.Runs acts ∧ (m.play acts).now ≤ target ∧
      (m.play acts).pulse = m.pulse.visit target ∧ (m.play acts).pulse.Rests (m.play acts).now := by
  cases hdue : m.pulse.due? with
  | none => exact ⟨[], by simp, trivial, hle, by simp [visit, hdue], hm⟩
  | some due =>
    by_cases hsoon : due ≤ target
    · have hlt : m.now < due := hm.lt_due hdue
      have hclock : m.now + (due - m.now) = due := by lia
      refine ⟨[.pass (due - m.now), .wake, .wake, .wake], by simp [Act.isQuiet], ?_, ?_, ?_, ?_⟩
      · simp [Allows, hm, hdue, hclock]
      · simpa [act, hclock] using hsoon
      · simp [act, hclock, visit, hdue, hsoon, settle]
      · simpa [act, hclock, settle] using rests_settle due m.pulse
    · exact ⟨[], by simp, trivial, hle, by simp [visit, hdue, hsoon], hm⟩

/-- What happens while time passes without the consumer. -/
theorem exists_acts_elapse {m : Moment} {target : Instant} (hm : m.pulse.Rests m.now)
    (hle : m.now ≤ target) :
    ∃ acts, (∀ a ∈ acts, a.isQuiet) ∧ m.Runs acts ∧ (m.play acts).now = target ∧
      (m.play acts).pulse = m.pulse.elapse target ∧ (m.play acts).pulse.Rests target := by
  obtain ⟨acts, hquiet, hruns, hnow, hpulse, hrests⟩ := exists_acts_visit hm hle
  obtain ⟨more, hquiet', hruns', hnow', hpulse', hrests'⟩ := exists_acts_visit hrests hnow
  let m' := (m.play acts).play more
  have hdue : ∀ due, m'.pulse.due? = some due → target < due := fun due h =>
    lt_due_visit (by rwa [← hpulse, ← hpulse'])
  have hlast : m'.pulse.Rests target := hrests'.later hdue
  have hclock : m'.now + (target - m'.now) = target := by
    have : m'.now ≤ target := hnow'
    lia
  refine ⟨acts ++ (more ++ [.pass (target - m'.now)]), ?_, ?_, ?_, ?_, ?_⟩
  · simp only [List.mem_append, List.mem_singleton]
    rintro a (ha | ha | rfl)
    exacts [hquiet a ha, hquiet' a ha, rfl]
  · refine runs_append.mpr ⟨hruns, runs_append.mpr ⟨hruns', ⟨hrests', ?_⟩, trivial⟩⟩
    refine (Option.all_eq_true _ _).mpr fun due h => ?_
    have := hdue due h
    simpa [m', hclock] using this.le
  · simpa [play_append, act] using hclock
  · rw [elapse_eq, ← hpulse, ← hpulse', settle_of_rests hlast]
    simp [play_append, act, m']
  · simpa [play_append, act] using hlast

/-- What happens while the consumer waits for a tick. -/
theorem exists_acts_await {m : Moment} (patience : Nat) (hm : m.pulse.Rests m.now)
    (hheard : m.pulse.heard = true) :
    ∃ acts, (∀ a ∈ acts, a.isQuiet ∨ a = .look) ∧ m.Runs acts ∧
      (m.answers acts).getLast? = some (m.pulse.await m.now patience).1 ∧
      (m.play acts).now = (m.pulse.await m.now patience).2.1 ∧
      (m.play acts).pulse = (m.pulse.await m.now patience).2.2 := by
  by_cases hempty : m.pulse.poll.1 = .empty
  · obtain ⟨due, hdue, hpoll⟩ := poll_of_empty hm hempty
    have hlt : m.now < due := hm.lt_due hdue
    have hlook : m.act .look = m := by simp [act, hpoll, Heard.beats]
    rw [await_of_empty hdue hpoll]
    by_cases hsoon : due ≤ m.now + patience
    · have hclock : m.now + (due - m.now) = due := by lia
      refine ⟨[.look, .pass (due - m.now), .wake, .wake, .wake, .look], by simp [Act.isQuiet],
        ?_, ?_, ?_, ?_⟩
      · simp [act, hpoll, Allows, hheard, hm, hdue, hclock]
      · simp [answers, act, hclock, hsoon, hpoll, settle]
      · simp [act, hclock, hsoon]
      · simp [act, hpoll, hclock, hsoon, settle]
    · have hwait : m.now + patience ≤ due := by lia
      refine ⟨[.look, .pass patience], by simp [Act.isQuiet], ?_, ?_, ?_, ?_⟩
      · simp [hlook, Allows, hheard, hm, hdue, hwait]
      · simp [answers, hpoll, hsoon]
      · simp [act, hsoon]
      · simp [act, hpoll, hsoon]
  · rw [await_of_found hempty]
    exact ⟨[.look], by simp, ⟨hheard, trivial⟩, rfl, rfl, rfl⟩

end Moment

end Realm
