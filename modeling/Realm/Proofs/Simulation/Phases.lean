import Realm.Proofs.Simulation.CommandPass

/-!
# The three passes of a tick

A tick makes the noted changes visible and then runs the command system, the movement system and
the drain system, each for the entities it has subscribed and only if its policy says so. The first
and the last run at every tick, the second at the interval of the rules. A system has subscribed
exactly the living entities that had its component when the tick began.
-/

namespace Realm

open Deed

variable {rules : GameRules} {stage : Stage GameComponent Lobby} {h : Handle} {d : Deed}
  {ds : List Deed} {system : GameSystem} {entities : List Handle} {delta : Duration}

def GameSystem.place : GameSystem → Nat
  | .commands => 0
  | .movement => 1
  | .drain => 2

/-- The kind of component that makes an entity one of a system. -/
def GameSystem.kind : GameSystem → Kind
  | .movement => .velocity
  | _ => .player

namespace Deed

/-! ## Whose deed it is -/

def doer : Deed → GameSystem
  | .reap _ _ | .obey _ _ _ => .commands
  | .advance _ _ | .appear _ => .movement
  | .drain _ _ => .drain

theorem doer_of_mem_obeyDeeds {client : ConnectionId} {budget : Nat}
    (hd : d ∈ CommandSystem.obeyDeeds h client budget stage) : d.doer = .commands := by
  induction budget generalizing stage with
  | zero => cases hd
  | succ budget ih =>
      unfold CommandSystem.obeyDeeds at hd
      split at hd
      · cases hd
      · rcases List.mem_cons.mp hd with rfl | hd
        · rfl
        · split at hd
          · exact ih hd
          · cases hd

theorem doer_of_mem_deedsOf (hd : d ∈ system.deedsOf rules h stage) : d.doer = system := by
  cases system with
  | commands =>
      have hd : d ∈ CommandSystem.serveDeeds rules.commandsPerTick h stage := hd
      unfold CommandSystem.serveDeeds at hd
      split at hd
      · split at hd
        · cases hd
        · split at hd
          · exact List.mem_singleton.mp hd ▸ rfl
          · split at hd
            · exact List.mem_singleton.mp hd ▸ rfl
            · exact doer_of_mem_obeyDeeds hd
      · cases hd
  | movement =>
      have hd : d ∈ MovementSystem.moveDeeds rules.movementInterval h stage := hd
      unfold MovementSystem.moveDeeds at hd
      split at hd
      · split at hd
        · cases hd
        · split at hd <;> exact List.mem_singleton.mp hd ▸ rfl
      · cases hd
  | drain =>
      have hd : d ∈ DrainSystem.drainDeeds h stage := hd
      unfold DrainSystem.drainDeeds at hd
      split at hd
      · cases hd
      · exact List.mem_singleton.mp hd ▸ rfl

theorem doer_of_mem_deeds (hd : d ∈ system.deeds rules entities stage) :
    d.doer = system := by
  induction entities generalizing stage with
  | nil => cases hd
  | cons h rest ih =>
      rcases List.mem_append.mp hd with hd | hd
      · exact doer_of_mem_deedsOf hd
      · exact ih hd

end Deed

namespace Simulation

variable {s : Simulation}

/-! ## What a tick consists of -/

/-- The stage on which the systems of the next tick start. -/
def begun (s : Simulation) : Stage GameComponent Lobby := s.world.applyChanges.stage

/-- The entities that a system has subscribed when the systems of the next tick start. -/
def subscribers (s : Simulation) (system : GameSystem) : List Handle :=
  ((s.world.applyChanges.systems[system.place]?).map (·.2.entities)).getD []

def cadence? (s : Simulation) (system : GameSystem) : Option Cadence := s.cadences[system.place]?

def fires (s : Simulation) (system : GameSystem) (delta : Duration) : Bool :=
  (s.cadence? system).any fun cadence => (cadence.advance delta).1

def pass (rules : GameRules) (s : Simulation) (delta : Duration) (system : GameSystem)
    (stage : Stage GameComponent Lobby) : List Deed :=
  if s.fires system delta then system.deeds rules (s.subscribers system) stage else []

def obeyed (rules : GameRules) (s : Simulation) (delta : Duration) : Stage GameComponent Lobby :=
  performAll (s.pass rules delta .commands s.begun) s.begun

def moved (rules : GameRules) (s : Simulation) (delta : Duration) : Stage GameComponent Lobby :=
  performAll (s.pass rules delta .movement (s.obeyed rules delta)) (s.obeyed rules delta)

theorem Regular.exists_entries (h : s.Regular rules) : ∃ commands movement drain,
    s.world.applyChanges.systems = [commands, movement, drain] ∧
      [commands, movement, drain].map (·.2.duty) = GameSystem.lineup.map (GameSystem.duty rules) ∧
      s.cadences = [commands, movement, drain].map (·.2.policy) := by
  have hduty := h.equipped_applyChanges
  have hpolicies := h.policies_applyChanges
  have hlength := congrArg List.length hduty
  rw [List.length_map, List.length_map] at hlength
  obtain ⟨commands, movement, drain, hsystems⟩ := List.length_eq_three.mp hlength
  rw [hsystems] at hduty hpolicies
  exact ⟨commands, movement, drain, hsystems, hduty, hpolicies.symm⟩

/-- A tick consists of its three passes. -/
theorem Regular.deeds_eq (h : s.Regular rules) (delta : Duration) : s.deeds rules delta =
    s.pass rules delta .commands s.begun ++ (s.pass rules delta .movement (s.obeyed rules delta) ++
      s.pass rules delta .drain (s.moved rules delta)) := by
  obtain ⟨commands, movement, drain, hsystems, -, hcadences⟩ := h.exists_entries
  unfold moved obeyed
  simp only [pass, fires, cadence?, subscribers, hsystems, hcadences]
  unfold deeds
  rw [hsystems]
  simp [GameSystem.round, GameSystem.lineup, GameSystem.place, begun]

theorem course_pass (rules : GameRules) (s : Simulation) (delta : Duration) (system : GameSystem)
    (hr : Ready stage) : Course stage (s.pass rules delta system stage) := by
  unfold pass
  split
  · exact system.course_deeds rules hr _
  · trivial

theorem doer_of_mem_pass (hd : d ∈ s.pass rules delta system stage) : d.doer = system := by
  unfold pass at hd
  split at hd
  · exact doer_of_mem_deeds hd
  · cases hd

theorem Regular.ready_begun (h : s.Regular rules) : Ready s.begun := h.peopled.ready_apply

theorem Regular.ready_obeyed (h : s.Regular rules) (delta : Duration) :
    Ready (s.obeyed rules delta) :=
  (s.course_pass rules delta .commands h.ready_begun).ready h.ready_begun

/-! ## When the systems run -/

/-- The movement system runs at the interval of the rules, the others at every tick. -/
def Timed (rules : GameRules) (s : Simulation) : Prop :=
  ∃ i : Interval, s.cadences = [.always, .interval i, .always] ∧ i.rate = rules.movementInterval

theorem timed_new (setup : SimulationSetup) : (new setup .empty).Timed setup.rules :=
  ⟨.every setup.rules.movementInterval, rfl, rfl⟩

theorem Regular.timed_step (h : s.Regular rules) (ht : s.Timed rules) (e : SimulationEvent) :
    (s.step e).Timed rules := by
  obtain ⟨i, hcadences, hrate⟩ := ht
  cases e with
  | mail client payload =>
      cases payload with
      | authenticated account => exact ⟨i, (s.cadences_join client account).trans hcadences, hrate⟩
      | command command => exact ⟨i, hcadences, hrate⟩
  | tick delta =>
      have hkept : (i.advance delta).2.rate = i.rate := by
        unfold Interval.advance
        dsimp only
        split <;> rfl
      refine ⟨(i.advance delta).2, ?_, hkept.trans hrate⟩
      show (s.tick delta).2.cadences = _
      rw [h.cadences_tick, hcadences]
      rfl
  | _ => exact ⟨i, hcadences, hrate⟩

theorem Regular.timed_run (h : s.Regular rules) (ht : s.Timed rules)
    (events : List SimulationEvent) : (s.run events).Timed rules := by
  induction events generalizing s with
  | nil => exact ht
  | cons e rest ih => exact ih (h.step e) (h.timed_step ht e)

theorem Timed.fires_drain (ht : s.Timed rules) (delta : Duration) :
    s.fires .drain delta = true := by
  obtain ⟨i, hcadences, -⟩ := ht
  rw [fires, cadence?, hcadences]
  rfl

theorem Timed.fires_movement (ht : s.Timed rules) (delta : Duration) : ∃ i : Interval,
    s.cadence? .movement = some (.interval i) ∧ i.rate = rules.movementInterval ∧
      s.fires .movement delta = (i.advance delta).1 := by
  obtain ⟨i, hcadences, hrate⟩ := ht
  have hcadence : s.cadence? .movement = some (.interval i) := by
    rw [cadence?, hcadences]
    rfl
  refine ⟨i, hcadence, hrate, ?_⟩
  rw [fires, hcadence]
  rfl

theorem Timed.prompt (ht : s.Timed rules) : s.Prompt := by
  obtain ⟨i, hcadences, -⟩ := ht
  rw [Prompt, hcadences]
  rfl

/-! ## For whom the systems run -/

/-- When the systems start a record can be found of the entities that are alive, and of no other. -/
theorem Regular.find?_begun (h : s.Regular rules) (g : Handle) :
    s.begun.store.find? g = s.world.store.living? g := by
  have hliving : s.begun.store.living? g = s.world.store.living? g :=
    h.peopled.steady.living?_apply g
  have hchanges : s.begun.store.changes = #[] := Store.Steady.changes_apply s.world.store
  have hready := h.ready_begun
  rw [← hliving]
  cases hfound : s.begun.store.find? g with
  | none =>
      rw [Store.living?, hfound, ite_self]
  | some e =>
      -- A visible record that is not current would have its destruction noted.
      obtain ⟨slot, hslot, hf⟩ := Option.bind_eq_some_iff.mp hfound
      have hslot : s.begun.store.at? g.id = some slot := hslot
      have hcurrent : g = slot.current g.id := by
        by_contra hne
        have hshown := Store.Steady.shown_of_living (hready.idle g.id slot hslot) hf
        have hnoted := hready.steady.doomed_destroyed g.id slot g hslot hshown hne
        rw [hchanges] at hnoted
        cases hnoted
      exact (Store.living?_eq_some_iff.mpr ⟨slot, hslot, hcurrent, hf⟩).symm

theorem Regular.get?_begun (h : s.Regular rules) (g : Handle) (k : Kind) :
    s.begun.store.get? g k = (s.world.store.living? g).bind (·.get? k) := by
  rw [Store.get?, h.find?_begun]

/-- A system has subscribed the living entities that have its component, each once. -/
structure Subscribes (s : Simulation) (system : GameSystem) : Prop where
  nodup : (s.subscribers system).Nodup
  mem_iff : ∀ g, g ∈ s.subscribers system ↔
    ∃ e, s.world.store.living? g = some e ∧ (e.get? system.kind).isSome

theorem Regular.subscribes (h : s.Regular rules) (system : GameSystem) : s.Subscribes system := by
  have hready := h.ready_begun
  obtain ⟨entry, hm, hinterest, hlist⟩ : ∃ entry ∈ s.world.applyChanges.systems,
      entry.2.interest = .single system.kind ∧ s.subscribers system = entry.2.entities := by
    obtain ⟨commands, movement, drain, hsystems, hduty, -⟩ := h.exists_entries
    obtain ⟨hcommands, hduty⟩ := List.cons_eq_cons.mp hduty
    obtain ⟨hmovement, hduty⟩ := List.cons_eq_cons.mp hduty
    obtain ⟨hdrain, -⟩ := List.cons_eq_cons.mp hduty
    unfold subscribers
    rw [hsystems]
    cases system with
    | commands => exact ⟨commands, by simp, congrArg Prod.snd hcommands, rfl⟩
    | movement => exact ⟨movement, by simp, congrArg Prod.snd hmovement, rfl⟩
    | drain => exact ⟨drain, by simp, congrArg Prod.snd hdrain, rfl⟩
  have hfollows := h.faithful.follows_of_steady h.peopled.steady entry hm
  have hwants : ∀ {g e}, s.begun.store.living? g = some e →
      (entry.2.wants e.mask = true ↔ (e.get? system.kind).isSome) := by
    intro g e hl
    rw [← hready.steady.tracked_of_living hl system.kind, System.wants, hinterest,
      Mask.single_intersects]
  have hliving : ∀ g, s.begun.store.living? g = s.world.store.living? g :=
    h.peopled.steady.living?_apply
  refine ⟨hlist ▸ hfollows.nodup, fun g => ?_⟩
  rw [hlist, ← hliving]
  constructor
  · intro hg
    obtain ⟨e, hseen⟩ := hfollows.seen g hg
    obtain ⟨slot, hslot, hvisible, hhandle⟩ := Store.seen?_eq_some_iff.mp hseen
    have hfound : s.begun.store.find? g = some e := (Store.find?_of_at? hslot).trans
      (Slot.find?_eq_some_iff.mpr (.inl ⟨hvisible, hhandle⟩))
    have hl : s.begun.store.living? g = some e :=
      (hliving g).trans ((h.find?_begun g).symm.trans hfound)
    exact ⟨e, hl, (hwants hl).mp ((hfollows.mem_iff g e hseen List.not_mem_nil).mp hg)⟩
  · rintro ⟨e, hl, hsome⟩
    have hseen := Store.Steady.seen?_of_living hready.idle hl
    exact (hfollows.mem_iff g e hseen List.not_mem_nil).mpr ((hwants hl).mpr hsome)

end Simulation

end Realm
