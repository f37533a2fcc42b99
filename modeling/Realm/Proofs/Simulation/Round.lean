import Realm.Proofs.Simulation.Course
import Realm.Proofs.Simulation.Run

/-!
# A tick as a sequence of deeds

Main statement: whatever reached a new simulation before, a tick does not fail, and it comes to the
same as first making the noted changes visible and then doing the deeds of the three systems one
after the other. Nothing is asked of how many players there ever were.
-/

namespace Realm

/-- The systems of the game in the order they run. -/
def GameSystem.lineup : List GameSystem := [.commands, .movement, .drain]

def System.duty {C σ P : Type} (y : System C σ P) :
    (List Handle → Duration → Work C σ Unit) × Mask := (y.process, y.interest)

def GameSystem.duty (rules : GameRules) (system : GameSystem) :
    (List Handle → Duration → GameWork Unit) × Mask := (system.process rules, system.interest)

def System.afterTick {C σ : Type} (delta : Duration) (y : System C σ Cadence) : System C σ Cadence :=
  { y with policy := (y.policy.advance delta).2 }

/-- The deeds of systems that run one after the other, each if its policy says so. -/
def GameSystem.round (rules : GameRules) (delta : Duration) : List GameSystem →
    List (SystemId × System GameComponent Lobby Cadence) → Stage GameComponent Lobby → List Deed
  | system :: rest, (_, y) :: entries, stage =>
    let ds := if (y.policy.advance delta).1 then system.deeds rules y.entities stage else []
    ds ++ round rules delta rest entries (Deed.performAll ds stage)
  | _, _, _ => []

def Simulation.deeds (rules : GameRules) (s : Simulation) (delta : Duration) : List Deed :=
  GameSystem.round rules delta GameSystem.lineup s.world.applyChanges.systems s.world.applyChanges.stage

open Deed

variable {rules : GameRules} {delta : Duration} {stage : Stage GameComponent Lobby}

/-! ## The systems of a tick -/

/-- A system of the game does its deeds if its policy says so. -/
theorem GameSystem.run_eq {system : GameSystem} {y : System GameComponent Lobby Cadence}
    (hy : y.process = system.process rules) (hr : Ready stage) :
    let ds := if (y.policy.advance delta).1 then system.deeds rules y.entities stage else []
    y.run delta stage =
        (.ok (y.policy.advance delta).1, y.afterTick delta, performAll ds stage) ∧
      Course stage ds := by
  have hdecide : Policy.decide y.policy delta =
      (.ok (y.policy.advance delta).1, (y.policy.advance delta).2) := rfl
  have hwork := system.realizes_process rules y.entities delta hr
  rw [← hy] at hwork
  unfold System.run
  rw [hdecide]
  cases (y.policy.advance delta).1 with
  | false => exact ⟨rfl, trivial⟩
  | true =>
      refine ⟨?_, hwork.course⟩
      simp only [hwork.eq]
      rfl

/-- Systems of the game do their deeds and let the tick pass. -/
theorem GameSystem.runSystems_eq (delta : Duration) {systems : List GameSystem}
    {entries : List (SystemId × System GameComponent Lobby Cadence)}
    (he : entries.map (·.2.duty) = systems.map (GameSystem.duty rules)) (hr : Ready stage) :
    World.runSystems delta stage entries =
        (.ok (), entries.map fun entry => (entry.1, entry.2.afterTick delta),
          performAll (GameSystem.round rules delta systems entries stage) stage) ∧
      Course stage (GameSystem.round rules delta systems entries stage) := by
  induction systems generalizing entries stage with
  | nil =>
      obtain rfl := List.map_eq_nil_iff.mp he
      exact ⟨rfl, trivial⟩
  | cons system systems ih =>
      cases entries with
      | nil => cases he
      | cons entry entries =>
          obtain ⟨id, y⟩ := entry
          obtain ⟨hfirst, hrest⟩ := List.cons_eq_cons.mp he
          let ds := if (y.policy.advance delta).1 then system.deeds rules y.entities stage else []
          obtain ⟨hrun, hcourse⟩ : y.run delta stage =
              (.ok (y.policy.advance delta).1, y.afterTick delta, performAll ds stage) ∧
                Course stage ds := GameSystem.run_eq (congrArg Prod.fst hfirst) hr
          obtain ⟨hothers, hcourse'⟩ := ih hrest (hcourse.ready hr)
          have hround : GameSystem.round rules delta (system :: systems) ((id, y) :: entries) stage =
              ds ++ GameSystem.round rules delta systems entries (performAll ds stage) := rfl
          rw [hround, performAll_append]
          refine ⟨?_, hcourse.append hcourse'⟩
          simp only [World.runSystems, hrun, hothers]
          rfl

/-! ## What every event keeps -/

namespace Simulation

/-- The order of a simulation between two events. -/
structure Regular (rules : GameRules) (s : Simulation) : Prop where
  peopled : Peopled s.world.stage
  faithful : s.world.Faithful
  equipped : (s.world.systems ++ s.world.joining).map (·.2.duty) =
    GameSystem.lineup.map (GameSystem.duty rules)
  leaving_eq : s.world.leaving = []

variable {s : Simulation}

theorem regular_new (setup : SimulationSetup) :
    (Simulation.new setup .empty).Regular setup.rules := by
  refine ⟨.empty setup.entityCapacity, ⟨nofun, ?_⟩, rfl, rfl⟩
  intro entry hm
  have hlisted : entry.2.entities ∈ (Simulation.new setup .empty).world.joining.map
      (·.2.entities) := List.mem_map_of_mem hm
  have hempty : (Simulation.new setup .empty).world.joining.map (·.2.entities) =
      [[], [], []] := rfl
  rw [hempty] at hlisted
  simpa using hlisted

theorem Regular.modifyLobby (h : s.Regular rules) (f : Lobby → Lobby)
    (hf : (f s.lobby).roll = s.lobby.roll) : (s.modifyLobby f).Regular rules :=
  ⟨h.peopled.withShared (hf ▸ .refl _), ⟨h.faithful.follows, h.faithful.joining⟩, h.equipped,
    h.leaving_eq⟩

theorem Regular.create {cs : List GameComponent} {h : Handle} {store : Store GameComponent}
    (hs : s.Regular rules) (hc : s.world.store.create cs = .ok (h, store)) {l : Lobby}
    (hp : Peopled ⟨store, l⟩) :
    ({ s with world := (s.world.withStore store).withShared l } : Simulation).Regular rules := by
  obtain ⟨hcreates, -⟩ := Store.creates_of_ok hs.peopled.steady.toBounded hc
  refine ⟨hp, ⟨?_, hs.faithful.joining⟩, hs.equipped, hs.leaving_eq⟩
  intro entry hm
  refine (hs.faithful.follows entry hm).congr hcreates.seen?_eq ?_
  intro h hm
  rw [show ((s.world.withStore store).withShared l).store = store from rfl, hcreates.changes_eq,
    Array.toList_push]
  exact List.mem_append_left _ hm

theorem Regular.join (hs : s.Regular rules) (client : ConnectionId) (account : Account) :
    (s.join client account).Regular rules := by
  unfold Simulation.join
  split
  · exact hs
  · exact hs
  · next hsession =>
      split
      · exact hs.modifyLobby (·.modifyConnection client (·.dismiss fullNotice.toPacket)) rfl
      · exact hs.modifyLobby (·.modifyConnection client (·.close)) rfl
      · next entity store hcreate =>
          let b : Bond := ⟨client, account.id, entity⟩
          have hnew : ∀ b' ∈ s.lobby.roll, b'.connection ≠ b.connection :=
            Sessions.get?_eq_none_iff.mp hsession
          have hroll : (s.lobby.sessions.put
              (Session.fresh client account.id entity s.limits)).2.roll.Perm (b :: s.lobby.roll) :=
            Sessions.perm_roll_put hsession
          refine hs.create hcreate ?_
          exact hs.peopled.create (b := b) hcreate hnew (link_playerComponents _ _) hroll

/-- Joining leaves the sessions of others alone, and one that is there already. -/
theorem session?_join (s : Simulation) (client c : ConnectionId) (account : Account) :
    (s.join client account).lobby.session? c = s.lobby.session? c ∨
      c = client ∧ s.lobby.session? client = none ∧ ∃ entity,
        (s.join client account).lobby.session? c =
          some (.fresh client account.id entity s.limits) := by
  unfold Simulation.join
  split
  · exact .inl rfl
  · exact .inl rfl
  · next hnone =>
      split
      · exact .inl rfl
      · exact .inl rfl
      · next entity store _ =>
          have hput : (s.lobby.sessions.put (.fresh client account.id entity s.limits)).2.get? c =
              if c = client then some (.fresh client account.id entity s.limits)
              else s.lobby.session? c := s.lobby.sessions.get?_put _ c
          by_cases hc : c = client
          · rw [if_pos hc] at hput
            exact .inr ⟨hc, hnone, entity, hput⟩
          · rw [if_neg hc] at hput
            exact .inl hput

/-! ## A tick -/

structure Ticks (rules : GameRules) (s : Simulation) (delta : Duration) : Prop where
  ready : Ready s.world.applyChanges.stage
  course : Course s.world.applyChanges.stage (s.deeds rules delta)
  ok : (s.tick delta).1 = .ok ()
  stage_eq : (s.tick delta).2.world.stage =
    performAll (s.deeds rules delta) s.world.applyChanges.stage
  systems_eq : (s.tick delta).2.world.systems =
    s.world.applyChanges.systems.map fun entry => (entry.1, entry.2.afterTick delta)

theorem Regular.equipped_applyChanges (h : s.Regular rules) :
    s.world.applyChanges.systems.map (·.2.duty) = GameSystem.lineup.map (GameSystem.duty rules) :=
  (World.map_applyChanges h.leaving_eq fun _ _ => rfl).trans h.equipped

theorem Regular.ticks (h : s.Regular rules) (delta : Duration) : s.Ticks rules delta := by
  have hready : Ready s.world.applyChanges.stage := h.peopled.ready_apply
  obtain ⟨hrun, hcourse⟩ := GameSystem.runSystems_eq delta h.equipped_applyChanges hready
  have htick : s.tick delta = (.ok (), { s with world := { s.world.applyChanges with
      stage := performAll (s.deeds rules delta) s.world.applyChanges.stage
      systems := s.world.applyChanges.systems.map fun entry =>
        (entry.1, entry.2.afterTick delta)
      ticks := s.world.applyChanges.ticks + 1 } }) := by
    rw [Simulation.tick, World.update, World.runTick, hrun]
    rfl
  refine ⟨hready, hcourse, ?_, ?_, ?_⟩
  · rw [htick]
  · rw [htick]
  · rw [htick]

theorem Regular.tick (h : s.Regular rules) (delta : Duration) :
    (s.tick delta).2.Regular rules := by
  have ht := h.ticks delta
  refine ⟨?_, ⟨?_, nofun⟩, ?_, rfl⟩
  · rw [ht.stage_eq]
    exact (ht.course.ready ht.ready).toPeopled
  · intro entry hm
    rw [ht.systems_eq] at hm
    obtain ⟨old, hold, rfl⟩ := List.mem_map.mp hm
    have hfollows := h.faithful.follows_of_steady h.peopled.steady old hold
    have hnoted : s.world.applyChanges.stage.store.changes.toList = [] := by
      have hnone : s.world.applyChanges.stage.store.changes = #[] :=
        Store.Steady.changes_apply s.world.store
      rw [hnone]
    have hafter := ht.course.follows ht.ready (hnoted ▸ hfollows)
    rw [← ht.stage_eq] at hafter
    exact hafter.of_eq rfl rfl
  · have hjoining : (s.tick delta).2.world.joining = [] := rfl
    rw [hjoining, List.append_nil, ht.systems_eq, List.map_map]
    exact h.equipped_applyChanges

/-! ## A run -/

theorem Regular.step (h : s.Regular rules) (e : SimulationEvent) : (s.step e).Regular rules := by
  cases e with
  | register address size =>
      exact h.modifyLobby
        (fun l => { l with connections := (l.connections.register address size).2 }) rfl
  | remove client =>
      exact h.modifyLobby (fun l => { l with connections := (l.connections.remove client).2 }) rfl
  | close client => exact h.modifyLobby (·.modifyConnection client (·.close)) rfl
  | drain client items =>
      exact h.modifyLobby (·.modifyConnection client fun c => (c.drain items).2) rfl
  | dropWriter client => exact h.modifyLobby (·.modifyConnection client (·.dropWriter)) rfl
  | terminate client =>
      exact h.modifyLobby (·.terminate client) (s.lobby.roll_terminate client)
  | mail client payload =>
      cases payload with
      | authenticated account => exact h.join client account
      | command command =>
          exact h.modifyLobby (fun l => (l.queueCommand client command).2)
            (s.lobby.roll_queueCommand client command)
  | tick delta => exact h.tick delta

/-- Whatever reaches a simulation, it stays in order. -/
theorem Regular.run (h : s.Regular rules) (events : List SimulationEvent) :
    (s.run events).Regular rules := by
  induction events generalizing s with
  | nil => exact h
  | cons e rest ih => exact ih (h.step e)

end Simulation

end Realm
