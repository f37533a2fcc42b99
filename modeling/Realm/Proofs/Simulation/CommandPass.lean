import Realm.Proofs.Simulation.Lifetime
import Realm.Proofs.Simulation.Serving

/-!
# The command pass

Main statement: whatever reached a new simulation before, a tick treats every session that is
registered when it begins exactly as it should: which of its commands are applied, which go on
waiting, whether it is removed, and how its entity moves afterwards. What is done for one player
leaves the components of all other entities alone.
-/

namespace Realm

open Deed

namespace Simulation

variable {rules : GameRules} {s : Simulation} {c : ConnectionId} {x : Session} {delta : Duration}
  {done : ConnectionId → List Command}

/-! ## The command system runs at every tick -/

/-- The command system comes first, and it runs at every tick. -/
def Prompt (s : Simulation) : Prop := s.cadences.head? = some .always

theorem Regular.prompt_step (h : s.Regular rules) (hp : s.Prompt) (e : SimulationEvent) :
    (s.step e).Prompt := by
  unfold Prompt at hp ⊢
  cases e with
  | mail client payload =>
      cases payload with
      | authenticated account => exact (congrArg List.head? (s.cadences_join client account)).trans hp
      | command command => exact hp
  | tick delta =>
      show (s.tick delta).2.cadences.head? = _
      rw [h.cadences_tick, List.head?_map, hp]
      rfl
  | _ => exact hp

theorem Regular.prompt_run (h : s.Regular rules) (hp : s.Prompt) (events : List SimulationEvent) :
    (s.run events).Prompt := by
  induction events generalizing s with
  | nil => exact hp
  | cons e rest ih => exact ih (h.step e) (h.prompt_step hp e)

/-! ## What a tick does for a player -/

/-- The command system lists every player that is registered. -/
theorem Regular.mem_entities (h : s.Regular rules) (hx : s.lobby.session? c = some x) :
    ∀ entry ∈ s.world.applyChanges.systems, entry.2.interest = .single .player →
      entry.2.entities.Nodup ∧ x.entity ∈ entry.2.entities := by
  intro entry hm hinterest
  have hready : Ready s.world.applyChanges.stage := h.peopled.ready_apply
  obtain ⟨e, hl, hlink⟩ := hready.linked x.bond (Sessions.mem_roll_of_get? hx)
  have hheeds := h.heeds (b := x.bond) hl entry hm
  refine ⟨hheeds.nodup, hheeds.mem_iff.mpr ?_⟩
  have hplayer : e.mask.contains .player = true := by
    rw [hready.steady.tracked_of_living hl, hlink]
    rfl
  rw [System.wants, hinterest, Mask.single_intersects]
  exact hplayer

theorem attendance_of_session? (hx : s.lobby.session? c = some x) :
    s.lobby.attendance x.bond.connection =
      some (x.commands, x.terminated, s.lobby.connections.isClosed x.connection) := by
  have hc : x.bond.connection = c := (Sessions.get?_eq_some hx).2
  have hc' : x.connection = c := hc
  rw [hc, Lobby.attendance, hx, hc']
  rfl

/-- A tick begins with a pass of the command system, and nothing else is done for a player. -/
theorem Regular.exists_deeds_eq (h : s.Regular rules) (hp : s.Prompt) (delta : Duration) :
    ∃ entry ∈ s.world.applyChanges.systems, entry.2.interest = .single .player ∧ ∃ rest,
      s.deeds rules delta =
        GameSystem.commands.deeds rules entry.2.entities s.world.applyChanges.stage ++ rest ∧
      ∀ d ∈ rest, ∀ c, d.isOf c = false := by
  have hduty := h.equipped_applyChanges
  have hpolicies := h.policies_applyChanges
  unfold Prompt at hp
  unfold deeds
  cases hentries : s.world.applyChanges.systems with
  | nil =>
      rw [hentries] at hduty
      cases hduty
  | cons entry entries =>
      obtain ⟨id, y⟩ := entry
      rw [hentries] at hduty hpolicies
      obtain ⟨hfirst, -⟩ := List.cons_eq_cons.mp hduty
      have halways : y.policy = .always := by
        rw [← hpolicies] at hp
        exact Option.some.inj hp
      let ds := GameSystem.commands.deeds rules y.entities s.world.applyChanges.stage
      refine ⟨(id, y), List.mem_cons_self, congrArg Prod.snd hfirst,
        GameSystem.round rules delta [.movement, .drain] entries
          (performAll ds s.world.applyChanges.stage), ?_, fun d hd c => ?_⟩
      · show (if (y.policy.advance delta).1 then ds else []) ++ GameSystem.round rules delta
          [.movement, .drain] entries (performAll (if (y.policy.advance delta).1 then ds else []) _) = _
        rw [halways]
        rfl
      · exact isOf_of_mem_round (by decide) hd

/-- All that a tick does for a player. -/
theorem Regular.filter_deeds (h : s.Regular rules) (hp : s.Prompt)
    (hx : s.lobby.session? c = some x) (delta : Duration) :
    (s.deeds rules delta).filter (·.isOf c) =
      if s.lobby.isFinished x then [.reap x.entity c]
      else (untilLogout (x.commands.items.take rules.commandsPerTick)).map (.obey x.entity c) := by
  obtain ⟨entry, hm, hinterest, rest, hdeeds, hothers⟩ := h.exists_deeds_eq hp delta
  obtain ⟨hnodup, hlisted⟩ := h.mem_entities hx entry hm hinterest
  have hready : Ready s.world.applyChanges.stage := h.peopled.ready_apply
  have hroll : x.bond ∈ s.world.applyChanges.stage.shared.roll := Sessions.mem_roll_of_get? hx
  have hquiet : rest.filter (·.isOf c) = [] := by
    rw [List.filter_eq_nil_iff]
    intro d hd
    rw [hothers d hd]
    nofun
  have hpass := CommandSystem.filter_isOf_deeds rules hready hroll hnodup hlisted
    (attendance_of_session? hx)
  obtain ⟨-, rfl⟩ := Sessions.get?_eq_some hx
  rw [hdeeds, List.filter_append, hquiet, List.append_nil]
  exact hpass

theorem Regular.applied_eq (h : s.Regular rules) (hp : s.Prompt)
    (hx : s.lobby.session? c = some x) (delta : Duration) :
    s.applied rules c [.tick delta] = if s.lobby.isFinished x then []
      else untilLogout (x.commands.items.take rules.commandsPerTick) := by
  rw [applied_tick, ← filterMap_commandOf, h.filter_deeds hp hx]
  split
  · rfl
  · generalize untilLogout (x.commands.items.take rules.commandsPerTick) = commands
    induction commands with
    | nil => rfl
    | cons command rest ih =>
        have hfirst : (Deed.obey x.entity c command).commandOf c = some command := if_pos rfl
        rw [List.map_cons, List.filterMap_cons_some hfirst, ih]

/-- How a player is attended to after a tick. -/
theorem Regular.attendance_tick (h : s.Regular rules) (hp : s.Prompt)
    (hx : s.lobby.session? c = some x) (delta : Duration) :
    (s.tick delta).2.lobby.attendance c =
      if s.lobby.isFinished x = true ∨ .logout ∈ s.applied rules c [.tick delta] then none
      else some ({ x.commands with
        items := x.commands.items.drop (s.applied rules c [.tick delta]).length }, false, false) := by
  have ht := h.ticks delta
  have hbefore : s.world.applyChanges.stage.shared.attendance c =
      some (x.commands, x.terminated, s.lobby.connections.isClosed x.connection) := by
    rw [← (Sessions.get?_eq_some hx).2]
    exact attendance_of_session? hx
  have hfinished : s.lobby.isFinished x =
      (x.terminated || s.lobby.connections.isClosed x.connection) := rfl
  rw [ht.lobby_eq, ht.course.attendance ht.ready, h.filter_deeds hp hx, h.applied_eq hp hx,
    hbefore]
  by_cases hover : s.lobby.isFinished x = true
  · rw [if_pos hover, if_pos (.inl hover)]
    exact if_pos rfl
  · have hopen : x.terminated = false ∧ s.lobby.connections.isClosed x.connection = false := by
      rw [hfinished] at hover
      simpa using hover
    have hprefix := (prefix_untilLogout (x.commands.items.take rules.commandsPerTick)).trans
      (List.take_prefix _ _)
    rw [if_neg hover, hopen.1, hopen.2, foldl_attend_obey hprefix, if_neg hover]
    simp only [hover, Bool.false_eq_true, false_or]

/-! ## Who leaves and who stays -/

/-- A tick takes a player out: its session is spent and no longer registered, its connection is
closed and its entity is not alive. -/
structure Removes (rules : GameRules) (s : Simulation) (delta : Duration) (x : Session) : Prop where
  unregistered : (s.tick delta).2.lobby.session? x.connection = none
  spent : ∃ y ∈ s.departures rules (.tick delta), y.bond = x.bond ∧ y.Spent
  closed : (s.tick delta).2.lobby.connections.isClosed x.connection = true
  dead : (s.tick delta).2.world.store.isAlive x.entity = false

/-- A tick leaves a player where it is, with the commands that go on waiting: its session is still
registered and not terminated, and its entity lives. -/
structure Spares (rules : GameRules) (s : Simulation) (delta : Duration) (x : Session)
    (waiting : List Command) : Prop where
  registered : ∃ y, (s.tick delta).2.lobby.session? x.connection = some y ∧ y.bond = x.bond ∧
    y.terminated = false ∧ y.commands = { x.commands with items := waiting }
  remaining : ∀ y ∈ s.departures rules (.tick delta), y.bond ≠ x.bond
  alive : ∃ e, (s.tick delta).2.world.store.living? x.entity = some e

theorem Regular.removes (h : s.Regular rules) (hl : s.lobby.Consistent)
    (hx : s.lobby.session? c = some x) (hbears : x.bond.Bears s.world.store commands)
    (hgone : (s.tick delta).2.lobby.session? c = none) : s.Removes rules delta x := by
  have ht := h.ticks delta
  have hturnover := h.turnover_tick hl delta
  have hm : x.bond ∈ s.lobby.roll := Sessions.mem_roll_of_get? hx
  obtain ⟨-, rfl⟩ := Sessions.get?_eq_some hx
  have hout : x.bond ∉ (s.tick delta).2.lobby.roll := fun hstill =>
    Sessions.get?_eq_none_iff.mp hgone x.bond hstill rfl
  obtain ⟨y, hy, hbond⟩ : ∃ y ∈ s.departures rules (.tick delta), y.bond = x.bond := by
    have hall := hturnover.perm.mem_iff.mpr (List.mem_append_left _ hm)
    exact List.mem_map.mp ((List.mem_append.mp hall).resolve_left hout)
  obtain ⟨hspent, -, hclosed⟩ := hturnover.spent y hy
  have hconnection : y.connection = x.connection := congrArg Bond.connection hbond
  refine ⟨hgone, ⟨y, hy, hbond, hspent⟩, hconnection ▸ hclosed, ?_⟩
  -- A living entity of which a record is found belongs to somebody who was there before.
  by_contra halive
  have hafter := h.bears_along hm hbears (List.prefix_refl (s.deeds rules delta))
  rw [← ht.stage_eq] at hafter
  obtain ⟨b, hb, hentity⟩ :=
    (h.tick delta).peopled.exists_bond (eq_true_of_ne_false halive) hafter.player
  have hsubset := ht.course.roll_subset ht.ready
  rw [← ht.lobby_eq] at hsubset
  have hsame : b = x.bond := h.peopled.eq_of_entity (hsubset hb) hm hentity
  exact hout (hsame ▸ hb)

theorem Regular.spares (h : s.Regular rules) (hl : s.lobby.Consistent)
    (hx : s.lobby.session? c = some x) {waiting : List Command} {closed : Bool}
    (hstays : (s.tick delta).2.lobby.attendance c =
      some ({ x.commands with items := waiting }, false, closed)) :
    s.Spares rules delta x waiting := by
  obtain ⟨y, hy, hread⟩ := Option.map_eq_some_iff.mp hstays
  rw [Prod.mk.injEq, Prod.mk.injEq] at hread
  obtain ⟨hcommands, hterminated, -⟩ := hread
  have hbond : y.bond = x.bond := h.bond_eq_of_step (.tick delta) hx hy
  have hm : x.bond ∈ (s.tick delta).2.lobby.roll := hbond ▸ Sessions.mem_roll_of_get? hy
  obtain ⟨-, rfl⟩ := Sessions.get?_eq_some hx
  refine ⟨⟨y, hy, hbond, hterminated, hcommands⟩, ?_, ?_⟩
  · have hnodup := (h.turnover_tick hl delta).perm.nodup_iff.mpr
      ((List.append_nil s.lobby.roll).symm ▸ h.peopled.nodup.of_map _)
    intro z hz heq
    exact (List.nodup_append.mp hnodup).2.2 x.bond hm z.bond (List.mem_map_of_mem hz) heq.symm
  · obtain ⟨e, halive, -⟩ := (h.tick delta).peopled.linked x.bond hm
    exact ⟨e, halive⟩

/-! ## The pass -/

/-- What a tick makes of the players that are there when it begins, after the commands that were
applied in the life of each. -/
structure CommandPass (rules : GameRules) (s : Simulation) (life : ConnectionId → List Command)
    (delta : Duration) : Prop where
  /-- The tick does not fail, and it comes to the deeds of its scenes. -/
  ticks : s.Ticks rules delta
  /-- The entity of every player is visible when the systems run. -/
  visible : ∀ c x, s.lobby.session? c = some x →
    x.entity ∈ s.world.applyChanges.store.visible.map (·.handle)
  /-- No command of a session that is over is applied, and its player is removed. -/
  finished : ∀ c x, s.lobby.session? c = some x → s.lobby.isFinished x = true →
    s.applied rules c [.tick delta] = [] ∧ s.Removes rules delta x
  /-- Otherwise the first commands are applied, as many as the budget allows and none after a
  logout. -/
  applied : ∀ c x, s.lobby.session? c = some x → s.lobby.isFinished x = false →
    s.applied rules c [.tick delta] =
      untilLogout (x.commands.items.take rules.commandsPerTick)
  /-- Without a logout these are as many as there are and the budget allows. -/
  whole : ∀ c x, s.lobby.session? c = some x → s.lobby.isFinished x = false →
    .logout ∉ x.commands.items.take rules.commandsPerTick →
    s.applied rules c [.tick delta] = x.commands.items.take rules.commandsPerTick
  /-- A player that logs out is removed. -/
  logout : ∀ c x, s.lobby.session? c = some x → s.lobby.isFinished x = false →
    .logout ∈ s.applied rules c [.tick delta] → s.Removes rules delta x
  /-- A player that does not log out stays, and its other commands go on waiting. -/
  waits : ∀ c x, s.lobby.session? c = some x → s.lobby.isFinished x = false →
    .logout ∉ s.applied rules c [.tick delta] → s.Spares rules delta x
      (x.commands.items.drop (s.applied rules c [.tick delta]).length)
  /-- At every point of the tick an entity moves as the last move says that was applied. -/
  bears : ∀ c x, s.lobby.session? c = some x → ∀ ds, ds <+: s.deeds rules delta →
    x.bond.Bears (performAll ds s.world.applyChanges.stage).store
      (life c ++ ds.filterMap (·.commandOf c))
  /-- What is done for a player is done to its entity. -/
  own : ∀ c x, s.lobby.session? c = some x → ∀ p ∈ s.scenesOf rules (.tick delta),
    p.deed.isOf c = true → p.deed.entity = x.entity
  /-- It leaves the records of all other entities alone. -/
  apart : ∀ p ∈ s.scenesOf rules (.tick delta), ∀ h, h ≠ p.deed.entity →
    p.after.store.find? h = p.stage.store.find? h
  /-- No deed takes the link or the position of an entity away. -/
  keeps : ∀ p ∈ s.scenesOf rules (.tick delta), ∀ h,
    p.after.store.get? h .player = p.stage.store.get? h .player ∧
      ((p.stage.store.get? h .transform).isSome → (p.after.store.get? h .transform).isSome)

theorem Regular.commandPass (h : s.Regular rules) (hprompt : s.Prompt) (hl : s.lobby.Consistent)
    {life : ConnectionId → List Command} (hpoised : s.Poised life) (delta : Duration) :
    s.CommandPass rules life delta := by
  have ht := h.ticks delta
  have hregistered : ∀ {c x}, s.lobby.session? c = some x →
      x.bond ∈ s.lobby.roll ∧ x.bond.Bears s.world.store (life c) := by
    intro c x hx
    have hm : x.bond ∈ s.lobby.roll := Sessions.mem_roll_of_get? hx
    obtain ⟨-, rfl⟩ := Sessions.get?_eq_some hx
    exact ⟨hm, hpoised.bears x.bond hm⟩
  have hremoved : ∀ {c x}, s.lobby.session? c = some x →
      (s.tick delta).2.lobby.attendance c = none → s.Removes rules delta x := by
    intro c x hx hnone
    exact h.removes hl hx (hregistered hx).2 (Option.map_eq_none_iff.mp hnone)
  refine ⟨ht, ?_, ?_, ?_, ?_, ?_, ?_, ?_, ?_, ?_, ?_⟩
  · intro c x hx
    obtain ⟨e, hliving, -⟩ := ht.ready.linked x.bond (hregistered hx).1
    have hseen := Store.Steady.seen?_of_living ht.ready.idle hliving
    obtain ⟨slot, hslot, hvisible, hhandle⟩ := Store.seen?_eq_some_iff.mp hseen
    have hbounded : s.world.applyChanges.store.Bounded := ht.ready.steady.toBounded
    exact List.mem_map.mpr ⟨e, (Store.mem_visible_iff hbounded).mpr ⟨_, slot, hslot, hvisible⟩,
      hhandle⟩
  · intro c x hx hover
    have happlied := h.applied_eq hprompt hx delta
    have hattendance := h.attendance_tick hprompt hx delta
    rw [if_pos (.inl hover)] at hattendance
    exact ⟨happlied.trans (if_pos hover), hremoved hx hattendance⟩
  · intro c x hx hover
    exact (h.applied_eq hprompt hx delta).trans (if_neg (by rw [hover]; nofun))
  · intro c x hx hover hstays
    rw [h.applied_eq hprompt hx, hover, untilLogout_eq_self hstays]
    rfl
  · intro c x hx hover hlogout
    have hattendance := h.attendance_tick hprompt hx delta
    rw [if_pos (.inr hlogout)] at hattendance
    exact hremoved hx hattendance
  · intro c x hx hover hstays
    have hattendance := h.attendance_tick hprompt hx delta
    rw [if_neg (not_or.mpr ⟨by rw [hover]; nofun, hstays⟩)] at hattendance
    exact h.spares hl hx hattendance
  · intro c x hx ds hds
    obtain ⟨hm, hbears⟩ := hregistered hx
    obtain ⟨-, rfl⟩ := Sessions.get?_eq_some hx
    exact h.bears_along hm hbears hds
  · intro c x hx p hp hof
    have hmap : (s.scenesOf rules (.tick delta)).map Scene.deed = s.deeds rules delta :=
      map_deed_scenes _ _
    have hd : p.deed ∈ (s.deeds rules delta).filter (·.isOf c) :=
      List.mem_filter.mpr ⟨hmap ▸ List.mem_map_of_mem hp, hof⟩
    rw [h.filter_deeds hprompt hx] at hd
    split at hd
    · exact List.mem_singleton.mp hd ▸ rfl
    · obtain ⟨command, -, heq⟩ := List.mem_map.mp hd
      exact heq ▸ rfl
  · intro p hp g hne
    have hproper := h.proper_of_scenesOf hp
    exact (hproper.done.find?_eq hproper.ready.idle g).trans (if_neg hne)
  · intro p hp g
    have hproper := h.proper_of_scenesOf hp
    exact hproper.done.keeps hproper.ready.idle g

/-- Whatever reached a new simulation before, a tick treats its players as it should. -/
theorem commandPass_of_run (setup : SimulationSetup) (events : List SimulationEvent)
    (delta : Duration) : ((new setup .empty).run events).CommandPass setup.rules
      (fun c => lifetime setup.rules c (new setup .empty) [] events) delta := by
  have hnew := regular_new setup
  have hprompt : (new setup .empty).Prompt := rfl
  exact (hnew.run events).commandPass (hnew.prompt_run hprompt events)
    (hnew.consistent_run Lobby.consistent_empty events)
    (hnew.poised_run (poised_new setup) events) delta

end Simulation

end Realm
