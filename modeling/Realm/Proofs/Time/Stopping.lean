import Realm.Proofs.Time.Spacing

/-!
# The end of a pulse

A pulse that is told to stop emits nothing from then on: the next thing it does is to end, and no
time passes before. What it left in the channel the consumer still gets. A pulse whose consumer
stops listening notices it when it is due, or at once if it was waiting for the consumer.
-/

namespace Realm

namespace Pulse

variable {now : Instant} {p : Pulse}

def ticks (found : List Heard) : List Instant :=
  found.filterMap fun
    | .tick tick => some tick
    | _ => none

theorem ticks_cons (found : Heard) (rest : List Heard) :
    ticks (found :: rest) = ticks [found] ++ ticks rest := by
  cases found <;> rfl

theorem ticks_poll (p : Pulse) : ticks [p.poll.1] = p.waiting.toList := by
  obtain ⟨rate, phase, waiting, stopping, heard⟩ := p
  cases waiting with
  | none => by_cases hdone : phase = .finished <;> simp [poll, take, isFinished, hdone, ticks]
  | some tick => rfl

/-- What a consumer finds who looks so many times at a pulse that ended. -/
def remains (p : Pulse) (looks : Nat) : List Heard :=
  (p.waiting.toList.map Heard.tick ++ List.replicate looks Heard.closed).take looks

/-- The pulse was told to stop, or nobody listens. -/
def Quits (p : Pulse) : Prop := p.stopping = true ∨ p.heard = false

theorem remains_succ (hp : p.isFinished = true) (looks : Nat) :
    p.remains (looks + 1) = p.poll.1 :: p.poll.2.remains looks := by
  obtain ⟨rate, phase, waiting, stopping, heard⟩ := p
  cases waiting with
  | none => simp_all [remains, poll, take, List.replicate_succ]
  | some tick => simp [remains, poll, take, List.take_replicate]

theorem Quits.wake_eq (hp : p.Quits) (now : Instant) :
    p.wake now = p ∨ p.wake now = { p with phase := .finished } := by
  have hwakes := p.wakes now
  generalize p.wake now = q at hwakes
  cases hwakes with
  | rests => exact .inl rfl
  | ends => exact .inr rfl
  | _ => rcases hp with hp | hp <;> simp_all

theorem Quits.waiting_wake (hp : p.Quits) : (p.wake now).waiting = p.waiting := by
  rcases hp.wake_eq now with h | h <;> rw [h]

theorem Quits.emissions_beats (hp : p.Quits) : emissions (p.beats now) = [] := by
  cases h : p.waiting <;> simp [beats, hp.waiting_wake, h, apply_ite emissions]

theorem wake_of_isFinished (hp : p.isFinished = true) : p.wake now = p := by
  simp_all [isFinished, wake]

theorem isFinished_wake_of_stopping (hp : p.stopping = true) :
    (p.wake now).isFinished = true := by
  obtain ⟨rate, phase, waiting, stopping, heard⟩ := p
  cases phase <;> simp_all [isFinished, wake]

theorem isFinished_wake_of_unheard (hp : p.heard = false)
    (hdue : ∀ due, p.due? = some due → due ≤ now) : (p.wake now).isFinished = true := by
  obtain ⟨rate, phase, waiting, stopping, heard⟩ := p
  obtain rfl : heard = false := hp
  cases phase with
  | finished => rfl
  | sleeping due =>
    have : ¬ now < due := Nat.not_lt.mpr (hdue due rfl)
    cases stopping <;> simp [isFinished, wake, this]
  | blocked => cases stopping <;> rfl

end Pulse

namespace Moment

open Pulse

/-- What follows when a pulse is told to stop at a moment. -/
structure Stopped (m : Moment) (later : List Act) : Prop where
  silent : emissions ((m.act .stop).play later).log = emissions m.log
  /-- The next thing that the pulse does is to end. -/
  ends : (((m.act .stop).play later).act .wake).pulse.isFinished = true
  prompt : ((m.act .stop).play later).now = m.now ∨
    ((m.act .stop).play later).pulse.isFinished = true
  /-- The consumer gets the tick in the channel, if there is one. -/
  drained : ticks ((m.act .stop).answers later) <+: m.pulse.waiting.toList
  closed : ∀ more, ((m.act .stop).play later).Runs more →
    ((m.act .stop).play later).pulse.isFinished = true →
    ((m.act .stop).play later).answers more =
      ((m.act .stop).play later).pulse.remains (more.count Act.look)
  /-- It makes no difference to tell it again. -/
  again : (m.act .stop).play (later.filter (· ≠ .stop)) = (m.act .stop).play later ∧
    (m.act .stop).answers (later.filter (· ≠ .stop)) = (m.act .stop).answers later

structure Abandoned (m : Moment) (later : List Act) : Prop where
  silent : emissions ((m.act .leave).play later).log = emissions m.log
  ends : ((m.act .leave).play later).now < m.pulse.due?.getD m.now ∨
    (((m.act .leave).play later).act .wake).pulse.isFinished = true
  prompt : ((m.act .leave).play later).now ≤ m.pulse.due?.getD m.now ∨
    ((m.act .leave).play later).pulse.isFinished = true

variable {m : Moment}

@[simp] theorem emissions_beats_heard (found : Heard) (now : Instant) :
    emissions (found.beats now) = [] := by
  cases found <;> rfl

theorem quits_act (hm : m.pulse.Quits) (a : Act) : (m.act a).pulse.Quits := by
  cases a with
  | wake => simpa [act, Quits] using hm
  | look => simpa [act, Quits] using hm
  | stop => exact .inl rfl
  | leave => exact .inr rfl
  | pass => exact hm

/-- A pulse that has to end emits nothing. -/
theorem emissions_play_of_quits {acts : List Act} (hm : m.pulse.Quits) (hruns : m.Runs acts) :
    emissions (m.play acts).log = emissions m.log :=
  (play_induction (P := fun m' => m'.pulse.Quits ∧ emissions m'.log = emissions m.log)
    (fun m' a _ h => ⟨quits_act h.1 a, by cases a <;> simpa [act, h.1.emissions_beats] using h.2⟩)
    hruns ⟨hm, rfl⟩).2

theorem isFinished_act (hm : m.pulse.isFinished = true) (a : Act) :
    (m.act a).pulse.isFinished = true := by
  cases a with
  | wake => simpa [act, wake_of_isFinished hm] using hm
  | look => simpa [act, isFinished] using hm
  | _ => exact hm

theorem stopping_act (hm : m.pulse.stopping = true) (a : Act) :
    (m.act a).pulse.stopping = true := by
  cases a <;> simp [act, stop, unhear, hm]

theorem heard_act (hm : m.pulse.heard = false) (a : Act) : (m.act a).pulse.heard = false := by
  cases a <;> simp [act, stop, unhear, hm]

theorem answers_of_unheard {acts : List Act} (hm : m.pulse.heard = false) (hruns : m.Runs acts) :
    m.answers acts = [] ∧ acts.count Act.look = 0 := by
  induction acts generalizing m with
  | nil => simp [answers]
  | cons a acts ih =>
    have hlook : a ≠ .look := by
      rintro rfl
      simp [Allows, hm] at hruns
    simpa [answers, hlook] using ih (heard_act hm a) hruns.2

/-- The consumer finds what was in the channel, and then that it is closed. -/
theorem answers_of_finished {acts : List Act} (hm : m.pulse.isFinished = true)
    (hruns : m.Runs acts) : m.answers acts = m.pulse.remains (acts.count Act.look) := by
  induction acts generalizing m with
  | nil => simp [answers, remains]
  | cons a acts ih =>
    have hrest := ih (isFinished_act hm a) hruns.2
    cases a with
    | look => simpa [answers, remains_succ hm, act] using hrest
    | wake => simpa [answers, act, wake_of_isFinished hm] using hrest
    | leave =>
      obtain ⟨hnone, hzero⟩ := answers_of_unheard (m := m.act .leave) rfl hruns.2
      simp [answers, hnone, hzero, remains]
    | stop => simpa [answers, act, stop, remains] using hrest
    | pass => simpa [answers, act] using hrest

theorem ticks_answers_of_quits {acts : List Act} (hm : m.pulse.Quits) :
    ticks (m.answers acts) <+: m.pulse.waiting.toList := by
  induction acts generalizing m with
  | nil => simp [answers, ticks]
  | cons a acts ih =>
    have hrest := ih (quits_act hm a)
    cases a with
    | look =>
      have hnone : ticks ((m.act .look).answers acts) = [] := by simpa [act] using hrest
      have hcons : m.answers (.look :: acts) = m.pulse.poll.1 :: (m.act .look).answers acts := rfl
      rw [hcons, ticks_cons, hnone, List.append_nil, ticks_poll]
    | wake => simpa [answers, act, hm.waiting_wake] using hrest
    | leave =>
      have hnone : ticks ((m.act .leave).answers acts) = [] := by simpa [act, unhear] using hrest
      simp [answers, hnone]
    | stop => simpa [answers, act, stop] using hrest
    | pass => simpa [answers, act] using hrest

theorem play_filter_stop (hm : m.pulse.stopping = true) (acts : List Act) :
    m.play (acts.filter (· ≠ .stop)) = m.play acts ∧
      m.answers (acts.filter (· ≠ .stop)) = m.answers acts := by
  induction acts generalizing m with
  | nil => exact ⟨rfl, rfl⟩
  | cons a acts ih =>
    have hrest := ih (stopping_act hm a)
    by_cases hstop : a = .stop
    · subst hstop
      have hsame : m.act .stop = m := by
        obtain ⟨now, ⟨rate, phase, waiting, stopping, heard⟩, log⟩ := m
        obtain rfl : stopping = true := hm
        rfl
      simpa [answers, hsame] using hrest
    · simpa [answers, hstop] using hrest

theorem stopped {later : List Act} (m : Moment) (hruns : (m.act .stop).Runs later) :
    Stopped m later := by
  have hstop : (m.act .stop).pulse.stopping = true := rfl
  have hquits : (m.act .stop).pulse.Quits := .inl hstop
  have hafter := play_induction (P := fun m' => m'.pulse.stopping = true ∧
    (m'.now = m.now ∨ m'.pulse.isFinished = true)) ?_ hruns ⟨hstop, .inl rfl⟩
  · exact {
      silent := emissions_play_of_quits hquits hruns
      ends := isFinished_wake_of_stopping hafter.1
      prompt := hafter.2
      drained := ticks_answers_of_quits hquits
      closed := fun more hmore hdone => answers_of_finished hdone hmore
      again := play_filter_stop hstop later }
  · rintro m' a hallows ⟨hstopping, hended⟩
    refine ⟨stopping_act hstopping a, ?_⟩
    cases a with
    | wake => exact .inr (isFinished_wake_of_stopping hstopping)
    | pass span =>
      have hwake : m'.pulse.wake m'.now = m'.pulse := hallows.1
      exact .inr (hwake ▸ isFinished_wake_of_stopping hstopping)
    | _ => exact hended.imp id fun h => isFinished_act h _

/-- A pulse that sleeps is not overdue. -/
def Timely (m : Moment) : Prop := ∀ due, m.pulse.due? = some due → m.now ≤ due

theorem Timely.act {a : Act} (h : Timely m) (hm : m.Allows a) : Timely (m.act a) := by
  cases a with
  | wake =>
    intro due hdue
    have hwakes := m.pulse.wakes m.now
    simp only [Moment.act] at hdue ⊢
    generalize m.pulse.wake m.now = q at hwakes hdue
    cases hwakes with
    | rests => exact h due hdue
    | ends => cases hdue
    | emits =>
      cases hdue
      exact Nat.le_add_right _ _
    | misses => cases hdue
    | resumes =>
      cases hdue
      exact Nat.le_add_right _ _
  | look => simpa [Timely, Moment.act, due?] using h
  | pass span =>
    intro due hdue
    simpa [Moment.act] using (Option.all_eq_true _ _).mp hm.2 due hdue
  | stop => exact h
  | leave => exact h

theorem abandoned {later : List Act} (hm : Timely m) (hruns : (m.act .leave).Runs later) :
    Abandoned m later := by
  have hunheard : (m.act .leave).pulse.heard = false := rfl
  have hle : m.now ≤ m.pulse.due?.getD m.now := by
    cases hdue : m.pulse.due? with
    | none => exact Nat.le_refl _
    | some due => exact hm due hdue
  have hdeadline {m' : Moment} (hphase : m'.pulse.phase = m.pulse.phase) {due : Instant}
      (hdue : m'.pulse.due? = some due) : m.pulse.due?.getD m.now = due := by
    simp_all [due?]
  have hafter := play_induction (P := fun m' => m'.pulse.heard = false ∧
    (m'.pulse.phase = m.pulse.phase ∧ m'.now ≤ m.pulse.due?.getD m.now ∨
      m'.pulse.isFinished = true)) ?_ hruns ⟨hunheard, .inl ⟨rfl, hle⟩⟩
  · obtain ⟨hheard, hended⟩ := hafter
    refine ⟨emissions_play_of_quits (.inr hunheard) hruns, ?_, hended.imp And.right id⟩
    rcases hended with ⟨hphase, hnow⟩ | hdone
    · rcases Nat.lt_or_eq_of_le hnow with hlt | heq
      · exact .inl hlt
      · refine .inr (isFinished_wake_of_unheard hheard fun due hdue => ?_)
        rw [heq, hdeadline hphase hdue]
    · exact .inr (isFinished_act hdone .wake)
  · rintro m' a hallows ⟨hheard, hended⟩
    refine ⟨heard_act hheard a, ?_⟩
    rcases hended with ⟨hphase, hnow⟩ | hdone
    · cases a with
      | wake =>
        obtain hsame | hdone := Quits.wake_eq (.inr hheard) m'.now
        · exact .inl ⟨by simpa [act, hsame] using hphase, hnow⟩
        · exact .inr (by simp [act, hdone, isFinished])
      | pass span =>
        obtain ⟨hrests, hbound⟩ := hallows
        obtain hdone | ⟨-, ⟨due, hsleeps, -⟩ | ⟨-, hhears, -⟩⟩ := rests_iff.mp hrests
        · exact .inr (decide_eq_true hdone)
        · have hdue : m'.pulse.due? = some due := by simp [due?, hsleeps]
          refine .inl ⟨hphase, ?_⟩
          rw [hdeadline hphase hdue]
          simpa [act, hdue] using hbound
        · simp [hheard] at hhears
      | look => exact .inl ⟨by simpa [act] using hphase, hnow⟩
      | stop => exact .inl ⟨hphase, hnow⟩
      | leave => exact .inl ⟨hphase, hnow⟩
    · exact .inr (isFinished_act hdone a)

/-- The end of a pulse, whatever happened to it before. -/
theorem ends_play (rate : Nat) (start : Instant) (acts : List Act)
    (hruns : (Moment.start rate start).Runs acts) :
    let m := (Moment.start rate start).play acts
    (∀ later, (m.act .stop).Runs later → Stopped m later) ∧
      ∀ later, (m.act .leave).Runs later → Abandoned m later := by
  intro m
  have htimely : Timely m := play_induction (fun _ _ hallows h => h.act hallows) hruns (by
    rintro due ⟨⟩
    exact Nat.le_refl start)
  exact ⟨fun _ => stopped m, fun _ => abandoned htimely⟩

/-- The end of a pulse that waits for a consumer who did not take the first tick. -/
theorem ends_play_blocked :
    let acts : List Act := [.wake, .pass 5, .wake]
    let m := (Moment.start 5 0).play acts
    let later : List Act := [.wake, .look, .pass 10, .stop, .look]
    (Moment.start 5 0).Runs acts ∧ (m.act .stop).Runs later ∧ Stopped m later ∧
      (m.act .leave).Runs [.wake, .pass 10] ∧ Abandoned m [.wake, .pass 10] ∧
      (m.act .stop).answers later = [.tick 0, .closed] := by
  intro acts m later
  have hruns : (Moment.start 5 0).Runs acts := by decide
  have hstop : (m.act .stop).Runs later := by decide
  have hleave : (m.act .leave).Runs [.wake, .pass 10] := by decide
  obtain ⟨hstopped, habandoned⟩ := ends_play 5 0 acts hruns
  exact ⟨hruns, hstop, hstopped later hstop, hleave, habandoned _ hleave, by decide⟩

end Moment

end Realm
