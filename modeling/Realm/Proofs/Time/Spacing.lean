import Realm.Proofs.Time.Moment
import Mathlib.Data.List.Chain

/-!
# The spacing of ticks

A pulse that is neither told to stop nor left alone emits its first tick when it starts. The next
one comes a full rate after the last one, if this was taken by then, and otherwise a full rate
after the consumer took it. So ticks are never closer than the rate, and a consumer who stalls finds
one of them.

What is seen from a tick on has one of four shapes (`Interval`). The proof takes the log act by act,
and a state of the pulse belongs to every shape (`Stands`).
-/

namespace Realm

namespace Pulse

def emissions (log : List Beat) : List Instant :=
  log.filterMap fun
    | .emitted now => some now
    | _ => none

def received (log : List Beat) : List Instant :=
  log.filterMap fun
    | .took tick _ => some tick
    | _ => none

/-- What is seen from a tick on until the next one, and when the pulse is due. -/
inductive Interval (rate : Nat) (tick : Instant) : List Beat → Option Instant → Prop
  | fresh : Interval rate tick [] (some (tick + rate))
  | timely {taken : Instant} : taken ≤ tick + rate →
      Interval rate tick [.took tick taken] (some (tick + rate))
  | missed : Interval rate tick [.missed (tick + rate)] none
  | late {taken : Instant} : tick + rate ≤ taken →
      Interval rate tick [.missed (tick + rate), .took tick taken] (some (taken + rate))

structure Spaced (rate : Nat) (start : Instant) (log : List Beat) : Prop where
  first : ∀ {before after now}, log = before ++ .emitted now :: after → emissions before = [] →
    before = [] ∧ now = start
  next : ∀ {before between after tick now},
    log = before ++ .emitted tick :: (between ++ .emitted now :: after) → emissions between = [] →
    between ≠ [] ∧ Interval rate tick between (some now)
  apart : (emissions log).IsChain fun tick next => tick + rate ≤ next
  /-- At any moment the consumer has got the ticks in order, all of them or all but the last. -/
  behind : ∀ {before after}, log = before ++ after →
    received before <+: emissions before ∧
      (emissions before).length ≤ (received before).length + 1

@[simp] theorem emissions_append (log more : List Beat) :
    emissions (log ++ more) = emissions log ++ emissions more := List.filterMap_append

@[simp] theorem received_append (log more : List Beat) :
    received (log ++ more) = received log ++ received more := List.filterMap_append

@[simp] theorem emissions_nil : emissions [] = [] := rfl

@[simp] theorem received_nil : received [] = [] := rfl

@[simp] theorem emissions_missed (now : Instant) (log : List Beat) :
    emissions (.missed now :: log) = emissions log := rfl

@[simp] theorem emissions_took (tick now : Instant) (log : List Beat) :
    emissions (.took tick now :: log) = emissions log := rfl

@[simp] theorem received_emitted (now : Instant) (log : List Beat) :
    received (.emitted now :: log) = received log := rfl

@[simp] theorem received_missed (now : Instant) (log : List Beat) :
    received (.missed now :: log) = received log := rfl

@[simp] theorem received_took (tick now : Instant) (log : List Beat) :
    received (.took tick now :: log) = tick :: received log := rfl

@[simp] theorem emissions_emitted (now : Instant) (log : List Beat) :
    emissions (.emitted now :: log) = now :: emissions log := rfl

theorem Interval.emissions_eq {rate : Nat} {tick : Instant} {between : List Beat}
    {due : Option Instant} (h : Interval rate tick between due) : emissions between = [] := by
  cases h <;> rfl

/-- A log has one last tick. -/
theorem last_unique {before before' between between' : List Beat} {tick tick' : Instant}
    (h : before ++ .emitted tick :: between = before' ++ .emitted tick' :: between')
    (hb : emissions between = []) (hb' : emissions between' = []) :
    before = before' ∧ tick = tick' ∧ between = between' := by
  obtain ⟨rest, rfl, hrest⟩ | ⟨rest, rfl, hrest⟩ := List.append_eq_append_iff.mp h
  all_goals
    cases rest with
    | nil => simp_all
    | cons beat rest =>
      obtain ⟨-, rfl⟩ := List.cons.inj hrest
      simp at hb hb'

variable {rate : Nat} {start now : Instant} {log : List Beat}

theorem spaced_nil : Spaced rate start [] where
  first h _ := by simp at h
  next h _ := by simp at h
  apart := .nil
  behind h := by
    obtain ⟨rfl, -⟩ := List.append_eq_nil_iff.mp h.symm
    simp

/-- The splits of a log that grew by one beat. -/
theorem split_snoc (log : List Beat) {before after : List Beat} {beat : Beat}
    (h : log ++ [beat] = before ++ after) :
    (before = log ++ [beat] ∧ after = []) ∨
      ∃ rest, log = before ++ rest ∧ after = rest ++ [beat] := by
  obtain rfl | ⟨rest, last, rfl⟩ := List.eq_nil_or_concat after
  · exact .inl ⟨by simpa using h.symm, rfl⟩
  · rw [List.concat_eq_append, ← List.append_assoc] at h
    obtain ⟨rfl, hlast⟩ := List.append_inj' h rfl
    exact .inr ⟨rest, rfl, by simpa using hlast.symm⟩

/-- A split in front of a tick, of a log that grew by one beat. -/
theorem split_snoc_emitted (log : List Beat) {before after : List Beat} {beat : Beat}
    {tick : Instant} (h : log ++ [beat] = before ++ .emitted tick :: after) :
    (before = log ∧ beat = .emitted tick ∧ after = []) ∨
      ∃ rest, log = before ++ .emitted tick :: rest ∧ after = rest ++ [beat] := by
  obtain ⟨-, hnil⟩ | ⟨rest, rfl, hrest⟩ := split_snoc _ h
  · simp at hnil
  · cases rest with
    | nil =>
      simp only [List.nil_append, List.cons.injEq] at hrest
      exact .inl ⟨by simp, hrest.1.symm, hrest.2⟩
    | cons first rest =>
      simp only [List.cons_append, List.cons.injEq] at hrest
      exact .inr ⟨rest, by rw [hrest.1], hrest.2⟩

theorem spaced_start (rate : Nat) (start : Instant) : Spaced rate start [.emitted start] where
  first hlog hnone := by
    obtain ⟨rfl, hnow, -⟩ | ⟨rest, hrest, -⟩ := split_snoc_emitted [] hlog
    · cases hnow
      exact ⟨rfl, rfl⟩
    · simp at hrest
  next hlog hnone := by
    obtain ⟨-, -, hnil⟩ | ⟨rest, hrest, -⟩ := split_snoc_emitted [] hlog
    · simp at hnil
    · simp at hrest
  apart := .singleton start
  behind hlog := by
    obtain ⟨rfl, -⟩ | ⟨rest, hrest, -⟩ := split_snoc [] hlog
    · simp
    · obtain ⟨rfl, -⟩ := List.append_eq_nil_iff.mp hrest.symm
      simp

theorem Spaced.snoc {beat : Beat} (h : Spaced rate start log) (hbeat : emissions [beat] = [])
    (hbehind : received (log ++ [beat]) <+: emissions log ∧
      (emissions log).length ≤ (received (log ++ [beat])).length + 1) :
    Spaced rate start (log ++ [beat]) where
  first hlog hnone := by
    obtain ⟨-, rfl, -⟩ | ⟨rest, hrest, -⟩ := split_snoc_emitted _ hlog
    · simp at hbeat
    · exact h.first hrest hnone
  next hlog hnone := by
    obtain ⟨-, rfl, -⟩ | ⟨rest, hrest, hafter⟩ := split_snoc_emitted _ hlog
    · simp at hbeat
    · obtain ⟨-, rfl, -⟩ | ⟨rest', rfl, -⟩ := split_snoc_emitted _ hafter.symm
      · simp at hbeat
      · exact h.next hrest hnone
  apart := by simpa [hbeat] using h.apart
  behind hlog := by
    obtain ⟨rfl, -⟩ | ⟨rest, hrest, -⟩ := split_snoc _ hlog
    · simpa [hbeat] using hbehind
    · exact h.behind hrest

/-- The next tick comes when the pulse is due, and never with the last one still there. -/
theorem Spaced.emit {before between : List Beat} {tick : Instant}
    (h : Spaced rate start (before ++ .emitted tick :: between)) (hbetween : between ≠ [])
    (hdue : Interval rate tick between (some now))
    (hbehind : emissions (before ++ .emitted tick :: between) =
      received (before ++ .emitted tick :: between)) :
    Spaced rate start (before ++ .emitted tick :: between ++ [.emitted now]) where
  first hlog hnone := by
    obtain ⟨rfl, -, -⟩ | ⟨rest, hrest, -⟩ := split_snoc_emitted _ hlog
    · simp at hnone
    · exact h.first hrest hnone
  next hlog hnone := by
    obtain ⟨-, -, hnil⟩ | ⟨rest, hrest, hafter⟩ := split_snoc_emitted _ hlog
    · simp at hnil
    · obtain ⟨rfl, hnow, -⟩ | ⟨rest', rfl, -⟩ := split_snoc_emitted _ hafter.symm
      · obtain ⟨rfl, rfl, rfl⟩ := last_unique hrest hdue.emissions_eq hnone
        cases hnow
        exact ⟨hbetween, hdue⟩
      · exact h.next hrest hnone
  apart := by
    have hlate : tick + rate ≤ now := by
      cases hdue with
      | fresh => exact absurd rfl hbetween
      | timely => exact Nat.le_refl _
      | late htaken => lia
    have hchain := h.apart
    simp only [emissions_append, emissions_emitted, emissions_nil, hdue.emissions_eq] at hchain ⊢
    rw [List.append_assoc]
    exact List.isChain_append_cons_cons.mpr ⟨hchain, hlate, .singleton now⟩
  behind hlog := by
    obtain ⟨rfl, -⟩ | ⟨rest, hrest, -⟩ := split_snoc _ hlog
    · rw [emissions_append, received_append, hbehind]
      simp [Nat.add_assoc]
    · exact h.behind hrest

theorem Spaced.stalled {before during after : List Beat}
    (h : Spaced rate start log) (hlog : log = before ++ during ++ after)
    (hnone : received during = []) : (emissions during).length ≤ 1 := by
  obtain ⟨hfirst, -⟩ := h.behind (hlog.trans (List.append_assoc ..))
  obtain ⟨-, hone⟩ := h.behind hlog
  have hle : (received before).length ≤ (emissions before).length := hfirst.length_le
  simp only [emissions_append, received_append, hnone, List.length_append] at hone
  simp at hone
  omega

end Pulse

namespace Moment

open Pulse

/-- Where a pulse stands when a log was seen of it. -/
inductive Stands (rate : Nat) (start : Instant) : Moment → Prop
  | start : Stands rate start ⟨start, ⟨rate, .sleeping start, none, false, true⟩, []⟩
  | waiting {before tick now} : now ≤ tick + rate →
      Stands rate start ⟨now, ⟨rate, .sleeping (tick + rate), some tick, false, true⟩,
        before ++ [.emitted tick]⟩
  | served {before between tick now due} : between ≠ [] → Interval rate tick between (some due) →
      now ≤ due → Stands rate start ⟨now, ⟨rate, .sleeping due, none, false, true⟩,
        before ++ .emitted tick :: between⟩
  | missed {before tick now} : tick + rate ≤ now →
      Stands rate start ⟨now, ⟨rate, .blocked, some tick, false, true⟩,
        before ++ [.emitted tick, .missed (tick + rate)]⟩
  | caught {before tick now} : tick + rate ≤ now →
      Stands rate start ⟨now, ⟨rate, .blocked, none, false, true⟩,
        before ++ [.emitted tick, .missed (tick + rate), .took tick now]⟩

structure Steady (rate : Nat) (start : Instant) (m : Moment) : Prop where
  stands : Stands rate start m
  spaced : Spaced rate start m.log
  buffered : emissions m.log = received m.log ++ m.pulse.waiting.toList

variable {rate : Nat} {start : Instant} {m : Moment}

theorem steady_start (rate : Nat) (start : Instant) : Steady rate start (.start rate start) where
  stands := .start
  spaced := spaced_nil
  buffered := rfl

theorem act_wake_of_rests (hm : m.pulse.Rests m.now) : m.act .wake = m := by
  have hwake : m.pulse.wake m.now = m.pulse := hm
  have hbeats : m.pulse.beats m.now = [] := by
    cases hwaiting : m.pulse.waiting <;> simp [beats, hwake, hwaiting]
  simp [act, hwake, hbeats]

/-- The pulse is due. -/
theorem act_wake_of_due {now due : Instant} {waiting : Option Instant} {log : List Beat}
    (hdue : due ≤ now) :
    act ⟨now, ⟨rate, .sleeping due, waiting, false, true⟩, log⟩ .wake =
      match waiting with
      | none => ⟨now, ⟨rate, .sleeping (now + rate), some now, false, true⟩, log ++ [.emitted now]⟩
      | some tick => ⟨now, ⟨rate, .blocked, some tick, false, true⟩, log ++ [.missed now]⟩ := by
  have : ¬ now < due := by lia
  cases waiting <;> simp [act, beats, Pulse.wake, this]

/-- The pulse finds that its tick was taken. -/
theorem act_wake_of_blocked {now : Instant} {log : List Beat} :
    act ⟨now, ⟨rate, .blocked, none, false, true⟩, log⟩ .wake =
      ⟨now, ⟨rate, .sleeping (now + rate), none, false, true⟩, log⟩ := by
  simp [act, beats, Pulse.wake]

theorem Steady.wake (h : Steady rate start m) : Steady rate start (m.act .wake) := by
  by_cases hrests : m.pulse.Rests m.now
  · rwa [act_wake_of_rests hrests]
  obtain ⟨hstands, hspaced, hbuffered⟩ := h
  cases hstands with
  | start =>
    rw [act_wake_of_due (Nat.le_refl start)]
    rw [List.nil_append]
    refine ⟨?_, spaced_start rate start, rfl⟩
    rw [← List.nil_append [Beat.emitted start]]
    exact .waiting (Nat.le_add_right start rate)
  | @waiting before tick now hle =>
    obtain rfl : now = tick + rate := by
      have : ¬ now < tick + rate := fun hlt => hrests (by simp [Rests, Pulse.wake, hlt])
      lia
    rw [act_wake_of_due (Nat.le_refl _)]
    refine ⟨?_, ?_, ?_⟩
    · show Stands rate start ⟨_, _, before ++ [.emitted tick] ++ [.missed (tick + rate)]⟩
      rw [List.append_assoc]
      exact .missed (Nat.le_refl _)
    · exact hspaced.snoc rfl (by simp [hbuffered])
    · simpa using hbuffered
  | @served before between tick now due hne hdue hle =>
    obtain rfl : now = due := by
      have : ¬ now < due := fun hlt => hrests (by simp [Rests, Pulse.wake, hlt])
      lia
    rw [act_wake_of_due (Nat.le_refl _)]
    refine ⟨.waiting (Nat.le_add_right now rate),
      hspaced.emit hne hdue (by simpa using hbuffered), ?_⟩
    rw [emissions_append, hbuffered]
    simp
  | missed hle => exact absurd rfl hrests
  | caught hle =>
    rw [act_wake_of_blocked]
    exact ⟨.served (List.cons_ne_nil _ _) (.late hle) (Nat.le_add_right _ rate), hspaced,
      hbuffered⟩

theorem act_look_of_none (hm : m.pulse.waiting = none) : m.act .look = m := by
  obtain ⟨now, ⟨rate, phase, waiting, stopping, heard⟩, log⟩ := m
  obtain rfl : waiting = none := hm
  by_cases hdone : phase = .finished <;> simp [act, poll, take, isFinished, hdone, Heard.beats]

theorem Steady.look (h : Steady rate start m) : Steady rate start (m.act .look) := by
  cases hwaiting : m.pulse.waiting with
  | none => rwa [act_look_of_none hwaiting]
  | some tick =>
    have hact : m.act .look =
        { m with
          pulse := { m.pulse with waiting := none }
          log := m.log ++ [.took tick m.now] } := by
      simp [act, poll, take, hwaiting, Heard.beats]
    obtain ⟨hstands, hspaced, hbuffered⟩ := h
    rw [hwaiting, Option.toList_some] at hbuffered
    have hspaced' : Spaced rate start (m.log ++ [.took tick m.now]) :=
      hspaced.snoc rfl (by simp [hbuffered])
    rw [hact]
    refine ⟨?_, hspaced', by simp [hbuffered]⟩
    cases hstands with
    | start => cases hwaiting
    | served => cases hwaiting
    | caught => cases hwaiting
    | waiting hle =>
      cases hwaiting
      simpa using Stands.served (List.cons_ne_nil _ _) (.timely hle) hle
    | missed hle =>
      cases hwaiting
      simpa using Stands.caught hle

theorem Steady.pass {span : Nat} (h : Steady rate start m) (hm : m.Allows (.pass span)) :
    Steady rate start (m.act (.pass span)) := by
  obtain ⟨hrests, hdue⟩ := hm
  obtain ⟨hstands, hspaced, hbuffered⟩ := h
  refine ⟨?_, hspaced, hbuffered⟩
  cases hstands with
  | start => simp [Rests, Pulse.wake] at hrests
  | waiting => exact .waiting (by simpa [due?] using hdue)
  | served hne hinterval => exact .served hne hinterval (by simpa [due?] using hdue)
  | missed hle => exact .missed (Nat.le_add_right_of_le hle)
  | caught => simp [Rests, Pulse.wake] at hrests

theorem Steady.play (h : Steady rate start m) {acts : List Act} (hruns : m.Runs acts)
    (hgoing : ∀ a ∈ acts, a ≠ .stop ∧ a ≠ .leave) : Steady rate start (m.play acts) := by
  induction acts generalizing m with
  | nil => exact h
  | cons a acts ih =>
    have ⟨hstop, hleave⟩ := hgoing a List.mem_cons_self
    refine ih ?_ hruns.2 fun b hb => hgoing b (List.mem_cons_of_mem a hb)
    cases a with
    | wake => exact h.wake
    | look => exact h.look
    | pass span => exact h.pass hruns.1
    | stop => exact absurd rfl hstop
    | leave => exact absurd rfl hleave

/-- What holds of a pulse that nobody stopped. Of the tick that came last it is known what happened
to it, and the pulse is never overdue. -/
structure Paced (rate : Nat) (start : Instant) (m : Moment) : Prop extends
    Spaced rate start m.log where
  opens : m.log = [] → m.now = start ∧ ¬ m.pulse.Rests m.now
  last : ∀ {before between tick}, m.log = before ++ .emitted tick :: between →
    emissions between = [] → ∃ due, Interval rate tick between due ∧
      ∀ instant, due = some instant → m.now ≤ instant ∧ (m.pulse.Rests m.now → m.now < instant)
  /-- One tick at most is in the channel. -/
  buffered : emissions m.log = received m.log ++ m.pulse.waiting.toList
  /-- While the consumer gets nothing, there is at most one new tick. -/
  stalled : ∀ {before during after}, m.log = before ++ during ++ after → received during = [] →
    (emissions during).length ≤ 1

/-- A pulse that is due and not blocked does something. -/
theorem lt_of_rests {now due : Instant} {waiting : Option Instant}
    (h : Rests now ⟨rate, .sleeping due, waiting, false, true⟩) : now < due := h.lt_due rfl

theorem Stands.exists_interval {before between : List Beat} {tick : Instant}
    (h : Stands rate start m) (hlog : m.log = before ++ .emitted tick :: between)
    (hnone : emissions between = []) :
    ∃ due, Interval rate tick between due ∧ ∀ instant, due = some instant →
      m.now ≤ instant ∧ (m.pulse.Rests m.now → m.now < instant) := by
  cases h with
  | start => simp at hlog
  | waiting hle =>
    obtain ⟨rfl, rfl, rfl⟩ := last_unique hlog.symm hnone rfl
    refine ⟨_, .fresh, ?_⟩
    rintro _ ⟨⟩
    exact ⟨hle, lt_of_rests⟩
  | served _ hinterval hle =>
    obtain ⟨rfl, rfl, rfl⟩ := last_unique hlog.symm hnone hinterval.emissions_eq
    refine ⟨_, hinterval, ?_⟩
    rintro _ ⟨⟩
    exact ⟨hle, lt_of_rests⟩
  | missed hle =>
    obtain ⟨rfl, rfl, rfl⟩ := last_unique hlog.symm hnone rfl
    exact ⟨_, .missed, nofun⟩
  | @caught _ _ now hle =>
    obtain ⟨rfl, rfl, rfl⟩ := last_unique hlog.symm hnone rfl
    refine ⟨_, .late hle, ?_⟩
    rintro _ ⟨⟩
    have hbusy : ¬ Rests now ⟨rate, .blocked, none, false, true⟩ := by simp [Rests, Pulse.wake]
    exact ⟨Nat.le_add_right now rate, fun hrests => absurd hrests hbusy⟩

theorem paced_play (rate : Nat) (start : Instant) (acts : List Act)
    (hruns : (Moment.start rate start).Runs acts)
    (hgoing : ∀ a ∈ acts, a ≠ .stop ∧ a ≠ .leave) :
    Paced rate start ((Moment.start rate start).play acts) := by
  have h := (steady_start rate start).play hruns hgoing
  generalize (Moment.start rate start).play acts = m at h
  exact {
    toSpaced := h.spaced
    opens := fun hlog => by
      cases h.stands with
      | start => exact ⟨rfl, by simp [Rests, Pulse.wake]⟩
      | _ => simp at hlog
    last := h.stands.exists_interval
    buffered := h.buffered
    stalled := h.spaced.stalled }

/-- A consumer who takes the first tick at once, and the second one four milliseconds after the
third was due. -/
theorem paced_stall :
    let acts : List Act := [.wake, .look, .pass 5, .wake, .pass 5, .wake, .pass 4, .look, .wake,
      .pass 5, .wake]
    (Moment.start 5 3).Runs acts ∧ (∀ a ∈ acts, a ≠ .stop ∧ a ≠ .leave) ∧
      Paced 5 3 ((Moment.start 5 3).play acts) ∧
      emissions ((Moment.start 5 3).play acts).log = [3, 8, 22] := by
  intro acts
  have hruns : (Moment.start 5 3).Runs acts := by decide
  have hgoing : ∀ a ∈ acts, a ≠ .stop ∧ a ≠ .leave := by decide
  exact ⟨hruns, hgoing, paced_play 5 3 acts hruns hgoing, by decide⟩

end Moment

end Realm
