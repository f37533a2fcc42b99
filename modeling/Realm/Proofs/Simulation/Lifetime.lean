import Realm.Proofs.Simulation.Departure
import Realm.Proofs.Simulation.Heading

/-!
# What a player bears from its life

The commands that were applied in the life of a session tell how its entity moves. They are followed
along a run beside the simulation: a session that lasts adds what is applied for it, and where no
session is left nothing is remembered. At every event, and at every point of a tick, the entity of a
player has the velocity that these commands say, the link to its client and a position.
-/

namespace Realm

open Deed

variable {rules : GameRules} {s : Simulation} {b : Bond} {commands : List Command}
  {store store' : Store GameComponent} {stage : Stage GameComponent Lobby} {ds ds' : List Deed}

/-- The entity of a player has what it should have after the commands of its life. -/
structure Bond.Bears (b : Bond) (store : Store GameComponent) (commands : List Command) :
    Prop where
  velocity : store.get? b.entity .velocity = (heading commands).map .velocity
  player : store.get? b.entity .player = some (.player ⟨b.connection, b.account⟩)
  transform : (store.get? b.entity .transform).isSome

namespace Bond.Bears

theorem congr (h : b.Bears store commands) (hfound : store'.find? b.entity = store.find? b.entity) :
    b.Bears store' commands := by
  have hget : ∀ k, store'.get? b.entity k = store.get? b.entity k :=
    fun k => congrArg (·.bind (·.get? k)) hfound
  refine ⟨?_, ?_, ?_⟩
  · rw [hget]
    exact h.velocity
  · rw [hget]
    exact h.player
  · rw [hget]
    exact h.transform

end Bond.Bears

namespace Deed

theorem Course.left (h : Course stage (ds ++ ds')) : Course stage ds := by
  induction ds generalizing stage with
  | nil => trivial
  | cons d ds ih => exact ⟨h.1, ih h.2⟩

theorem map_deed_scenes (ds : List Deed) (stage : Stage GameComponent Lobby) :
    (scenes stage ds).map Scene.deed = ds := by
  induction ds generalizing stage with
  | nil => rfl
  | cons d ds ih =>
      rw [scenes, List.map_cons, ih]

/-- A course leaves a player with what the commands of the player say that are applied in it. -/
theorem Course.bears (h : Course stage ds) (hr : Ready stage) (ha : b.Alone stage)
    (hb : b.Bears stage.store commands) : b.Bears (performAll ds stage).store
      (commands ++ ds.filterMap (·.commandOf b.connection)) := by
  obtain ⟨e, he, hlink⟩ := Option.bind_eq_some_iff.mp hb.player
  have hget : ∀ k, stage.store.get? b.entity k = e.get? k :=
    fun k => congrArg (·.bind (·.get? k)) he
  obtain ⟨e', he', hdriven⟩ := h.driven hr ha he
  have hget' : ∀ k, (performAll ds stage).store.get? b.entity k = e'.get? k :=
    fun k => congrArg (·.bind (·.get? k)) he'
  refine ⟨?_, ?_, ?_⟩
  · rw [hget', heading_append]
    exact hdriven.velocity _ ((hget .velocity).symm.trans hb.velocity)
  · rw [hget', hdriven.player]
    exact hlink
  · rw [hget']
    exact hdriven.transform (hget .transform ▸ hb.transform)

end Deed

namespace Simulation

/-! ## The commands of a life -/

/-- What is remembered of the commands for a connection after an event. -/
def remembered (rules : GameRules) (c : ConnectionId) (s : Simulation) (e : SimulationEvent)
    (commands : List Command) : List Command :=
  if ((s.step e).lobby.session? c).isSome then commands ++ s.applied rules c [e] else []

/-- The commands that were applied in the life of the session which a connection has after a run,
where those before the run are given. -/
def lifetime (rules : GameRules) (c : ConnectionId) :
    Simulation → List Command → List SimulationEvent → List Command
  | _, commands, [] => commands
  | s, commands, e :: rest => lifetime rules c (s.step e) (s.remembered rules c e commands) rest

/-- The entity of every player has what it should have, and where no player is nothing is
remembered. -/
structure Poised (s : Simulation) (life : ConnectionId → List Command) : Prop where
  bears : ∀ b ∈ s.lobby.roll, b.Bears s.world.store (life b.connection)
  fresh : ∀ c, s.lobby.session? c = none → life c = []

variable {life : ConnectionId → List Command} {delta : Duration}

theorem poised_new (setup : SimulationSetup) : (new setup .empty).Poised fun _ => [] :=
  ⟨nofun, fun _ _ => rfl⟩

/-! ## One event -/

theorem applied_tick (rules : GameRules) (c : ConnectionId) (s : Simulation) (delta : Duration) :
    s.applied rules c [.tick delta] = (s.deeds rules delta).filterMap (·.commandOf c) := by
  have hscenes : s.scenes rules [.tick delta] =
      Deed.scenes s.world.applyChanges.stage (s.deeds rules delta) := List.append_nil _
  rw [applied, hscenes]
  calc _ = ((Deed.scenes s.world.applyChanges.stage (s.deeds rules delta)).map
        Scene.deed).filterMap (·.commandOf c) := List.filterMap_map.symm
    _ = _ := by rw [map_deed_scenes]

/-- At every point of a tick a player bears what its life says up to there. -/
theorem Regular.bears_along (h : s.Regular rules) (hb : b ∈ s.lobby.roll)
    (hbears : b.Bears s.world.store commands) (hds : ds <+: s.deeds rules delta) :
    b.Bears (performAll ds s.world.applyChanges.stage).store
      (commands ++ ds.filterMap (·.commandOf b.connection)) := by
  have ht := h.ticks delta
  have hroll : b ∈ s.world.applyChanges.stage.shared.roll := hb
  obtain ⟨e, hl, -⟩ := h.peopled.linked b hb
  have hl' : s.world.applyChanges.stage.store.living? b.entity = some e :=
    (h.peopled.steady.living?_apply b.entity).trans hl
  have happlied := hbears.congr
    ((Store.find?_of_living hl').trans (Store.find?_of_living hl).symm)
  obtain ⟨rest, hrest⟩ := hds
  have hcourse : Course s.world.applyChanges.stage ds := (hrest ▸ ht.course).left
  exact hcourse.bears ht.ready (.of_mem ht.ready.toPeopled hroll) happlied

theorem Regular.bears_join (h : s.Regular rules) (hp : s.Poised life) (client : ConnectionId)
    (account : Account) : ∀ b ∈ (s.join client account).lobby.roll,
      b.Bears (s.join client account).world.store (life b.connection) := by
  unfold Simulation.join
  split
  · exact hp.bears
  · exact hp.bears
  · next hsession =>
      split
      · exact hp.bears
      · exact hp.bears
      · next entity store hcreate =>
          obtain ⟨hcreates, htakes⟩ := Store.creates_of_ok h.peopled.steady.toBounded hcreate
          have hliving := h.peopled.steady.living?_create hcreates htakes
          have hperm : (s.lobby.sessions.put
              (.fresh client account.id entity s.limits)).2.roll.Perm
              (⟨client, account.id, entity⟩ :: s.lobby.roll) := Sessions.perm_roll_put hsession
          intro b hb
          rcases List.mem_cons.mp (hperm.mem_iff.mp hb) with rfl | hold
          · have hcreated := Store.find?_of_living ((hliving entity).trans (if_pos rfl))
            have hget : ∀ k, store.get? entity k =
                (Entity.ofComponents entity (playerComponents client account.id)).get? k :=
              fun k => congrArg (·.bind (·.get? k)) hcreated
            have hlife : life client = [] := hp.fresh client hsession
            refine ⟨?_, ?_, ?_⟩
            · rw [hlife]
              exact (hget .velocity).trans (Entity.get?_ofComponents ..)
            · exact (hget .player).trans (Entity.get?_ofComponents ..)
            · have hsome : store.get? entity .transform = some (.transform .origin) :=
                (hget .transform).trans (Entity.get?_ofComponents ..)
              exact hsome ▸ rfl
          · obtain ⟨e, hl, -⟩ := h.peopled.linked b hold
            have hne : b.entity ≠ entity := by
              intro heq
              have hnone := h.peopled.steady.living?_eq_none_of_takes htakes
              rw [← heq, hl] at hnone
              cases hnone
            have hkept := (hliving b.entity).trans ((if_neg hne).trans hl)
            exact (hp.bears b hold).congr
              ((Store.find?_of_living hkept).trans (Store.find?_of_living hl).symm)

theorem Regular.poised_step (h : s.Regular rules) (hp : s.Poised life) (e : SimulationEvent) :
    (s.step e).Poised fun c => s.remembered rules c e (life c) := by
  refine ⟨fun b hb => ?_, fun c hnone => if_neg (by rw [hnone]; nofun)⟩
  obtain ⟨x, hx, -⟩ := (h.step e).peopled.session_of_bond hb
  have hlasts : ((s.step e).lobby.session? b.connection).isSome := Option.isSome_iff_exists.mpr ⟨x, hx⟩
  have hlife : s.remembered rules b.connection e (life b.connection) =
      life b.connection ++ s.applied rules b.connection [e] := if_pos hlasts
  rw [hlife]
  -- Only a tick applies commands.
  have hquiet : (∀ b ∈ (s.step e).lobby.roll, b.Bears (s.step e).world.store (life b.connection)) →
      s.applied rules b.connection [e] = [] → b.Bears (s.step e).world.store
        (life b.connection ++ s.applied rules b.connection [e]) := by
    intro hbears hnone
    rw [hnone, List.append_nil]
    exact hbears b hb
  have hsame : (s.step e).lobby.roll = s.lobby.roll → (s.step e).world.store = s.world.store →
      ∀ b ∈ (s.step e).lobby.roll, b.Bears (s.step e).world.store (life b.connection) := by
    intro hroll hstore b hb
    rw [hstore]
    exact hp.bears b (hroll ▸ hb)
  cases e with
  | register address size => exact hquiet (hsame rfl rfl) rfl
  | remove client => exact hquiet (hsame rfl rfl) rfl
  | close client => exact hquiet (hsame rfl rfl) rfl
  | drain client items => exact hquiet (hsame rfl rfl) rfl
  | dropWriter client => exact hquiet (hsame rfl rfl) rfl
  | terminate client => exact hquiet (hsame (s.lobby.roll_terminate client) rfl) rfl
  | mail client payload =>
      cases payload with
      | authenticated account => exact hquiet (h.bears_join hp client account) rfl
      | command command =>
          exact hquiet (hsame (s.lobby.roll_queueCommand client command) rfl) rfl
  | tick delta =>
      have ht := h.ticks delta
      have hsubset := ht.course.roll_subset ht.ready
      rw [← ht.lobby_eq] at hsubset
      have hold : b ∈ s.lobby.roll := hsubset hb
      have hafter := h.bears_along hold (hp.bears b hold) (List.prefix_refl (s.deeds rules delta))
      rw [← ht.stage_eq, ← applied_tick] at hafter
      exact hafter

/-! ## A run -/

theorem Regular.poised_run (h : s.Regular rules) (hp : s.Poised life)
    (events : List SimulationEvent) :
    (s.run events).Poised fun c => lifetime rules c s (life c) events := by
  induction events generalizing s life with
  | nil => exact hp
  | cons e rest ih => exact ih (h.step e) (h.poised_step hp e)

end Simulation

end Realm
