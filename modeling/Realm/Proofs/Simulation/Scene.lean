import Realm.Proofs.Simulation.Round

/-!
# Scenes of a run

A scene is a deed together with the stage it is done on. The scenes of a run are those of its ticks
in order; the stage of each has its players, and the deed fits it.
-/

namespace Realm

/-- A deed and the stage it is done on. -/
structure Scene where
  stage : Stage GameComponent Lobby
  deed : Deed

namespace Scene

def after (p : Scene) : Stage GameComponent Lobby := p.deed.perform p.stage

def lobby (p : Scene) : Lobby := p.stage.shared

/-- The deed is possible. -/
structure Proper (p : Scene) : Prop where
  ready : Ready p.stage
  fits : p.deed.Fits p.stage

theorem Proper.done {p : Scene} (hp : p.Proper) : p.deed.Done p.stage := hp.fits.done hp.ready

/-- Nobody joins at a deed. -/
theorem Proper.roll_subset {p : Scene} (hp : p.Proper) : p.after.shared.roll ⊆ p.lobby.roll := by
  have hshared : p.after.shared = p.deed.lobby p.lobby := hp.done.shared_eq
  have hended : ∀ (l : Lobby) (c : ConnectionId), (l.endSession c).roll ⊆ l.roll := by
    intro l c
    rw [l.roll_endSession c]
    exact List.filter_sublist.subset
  have hsame : ∀ {l l' : Lobby}, l'.roll = l.roll → l'.roll ⊆ l.roll := fun h b hb => h ▸ hb
  have hnodup := hp.ready.nodup
  rw [hshared]
  obtain ⟨stage, d⟩ := p
  cases d with
  | reap h c => exact hended stage.shared c
  | obey h c command =>
      have htaken := stage.shared.roll_takeCommand c
      have hanswer : (Deed.answer h c command (stage.shared.takeCommand c).2).roll ⊆
          (stage.shared.takeCommand c).2.roll := by
        cases command with
        | chat text => exact hsame (Lobby.roll_broadcast _ _)
        | ping nonce => exact hsame (Lobby.roll_queueEvent _ _ _)
        | logout => exact hended _ c
        | move dx dy => exact List.Subset.refl _
        | login username password => exact List.Subset.refl _
      exact htaken ▸ hanswer
  | advance h position => exact hsame (stage.shared.roll_broadcast _)
  | appear h => exact hsame (stage.shared.roll_broadcast _)
  | drain h c => exact hsame (stage.shared.roll_drainEvents c hnodup)

end Scene

def Deed.scenes : Stage GameComponent Lobby → List Deed → List Scene
  | _, [] => []
  | stage, d :: ds => ⟨stage, d⟩ :: scenes (d.perform stage) ds

theorem Deed.Course.proper {stage : Stage GameComponent Lobby} {ds : List Deed} {p : Scene}
    (h : Deed.Course stage ds) (hr : Ready stage) (hp : p ∈ Deed.scenes stage ds) : p.Proper := by
  induction ds generalizing stage with
  | nil => cases hp
  | cons d ds ih =>
      rcases List.mem_cons.mp hp with rfl | hp
      · exact ⟨hr, h.1⟩
      · exact ih h.2 (h.1.done hr).ready hp

theorem Deed.Course.roll_subset {stage : Stage GameComponent Lobby} {ds : List Deed}
    (h : Deed.Course stage ds) (hr : Ready stage) :
    (Deed.performAll ds stage).shared.roll ⊆ stage.shared.roll := by
  induction ds generalizing stage with
  | nil => exact List.Subset.refl _
  | cons d ds ih =>
      have hproper : (⟨stage, d⟩ : Scene).Proper := ⟨hr, h.1⟩
      exact List.Subset.trans (ih h.2 hproper.done.ready) hproper.roll_subset

namespace Simulation

def scenesOf (rules : GameRules) (s : Simulation) : SimulationEvent → List Scene
  | .tick delta => Deed.scenes s.world.applyChanges.stage (s.deeds rules delta)
  | _ => []

def scenes (rules : GameRules) (s : Simulation) : List SimulationEvent → List Scene
  | [] => []
  | e :: rest => s.scenesOf rules e ++ (s.step e).scenes rules rest

variable {rules : GameRules} {s : Simulation} {p : Scene}

theorem run_append (s : Simulation) (events rest : List SimulationEvent) :
    s.run (events ++ rest) = (s.run events).run rest := List.foldl_append

/-- The lobby of a tick is that of the last deed. -/
theorem Ticks.lobby_eq {delta : Duration} (h : s.Ticks rules delta) :
    (s.tick delta).2.lobby =
      (Deed.performAll (s.deeds rules delta) s.world.applyChanges.stage).shared :=
  congrArg Stage.shared h.stage_eq

theorem Regular.proper_of_scenesOf (h : s.Regular rules) {e : SimulationEvent}
    (hp : p ∈ s.scenesOf rules e) : p.Proper := by
  cases e with
  | tick delta =>
      have ht := h.ticks delta
      exact ht.course.proper ht.ready hp
  | _ => cases hp

/-- A session that is there before and after an event is the same one. -/
theorem Regular.bond_eq_of_step (h : s.Regular rules) (e : SimulationEvent) {c : ConnectionId}
    {x y : Session} (hx : s.lobby.session? c = some x)
    (hy : (s.step e).lobby.session? c = some y) : y.bond = x.bond := by
  have hm := Sessions.mem_roll_of_get? hx
  have hc : x.bond.connection = y.bond.connection :=
    (Sessions.get?_eq_some hx).2.trans (Sessions.get?_eq_some hy).2.symm
  have hkept : (s.step e).lobby.roll ⊆ s.lobby.roll → y.bond = x.bond := fun hsubset =>
    (h.peopled.eq_of_connection hm (hsubset (Sessions.mem_roll_of_get? hy)) hc).symm
  have hsame : ∀ {l : Lobby}, l.roll = s.lobby.roll → l.roll ⊆ s.lobby.roll :=
    fun heq b hb => heq ▸ hb
  cases e with
  | register address size => exact hkept (hsame rfl)
  | remove client => exact hkept (hsame rfl)
  | close client => exact hkept (hsame rfl)
  | drain client items => exact hkept (hsame rfl)
  | dropWriter client => exact hkept (hsame rfl)
  | terminate client => exact hkept (hsame (s.lobby.roll_terminate client))
  | mail client payload =>
      cases payload with
      | authenticated account =>
          have hjoined : (s.join client account).lobby.session? c = some y := hy
          rcases s.session?_join client c account with heq | ⟨rfl, hnone, -⟩
          · rw [heq, hx] at hjoined
            rw [Option.some.inj hjoined]
          · rw [hx] at hnone
            cases hnone
      | command command => exact hkept (hsame (s.lobby.roll_queueCommand client command))
  | tick delta =>
      have ht := h.ticks delta
      have hsubset := ht.course.roll_subset ht.ready
      rw [← ht.lobby_eq] at hsubset
      exact hkept hsubset

theorem Regular.proper (h : s.Regular rules) {events : List SimulationEvent}
    (hp : p ∈ s.scenes rules events) : p.Proper := by
  induction events generalizing s with
  | nil => cases hp
  | cons e rest ih =>
      rcases List.mem_append.mp hp with hp | hp
      · exact h.proper_of_scenesOf hp
      · exact ih (h.step e) hp

/-! ## Runs in which a session lasts -/

/-- A connection has a session before, between and after events. -/
def Stays (c : ConnectionId) (s : Simulation) (events : List SimulationEvent) : Prop :=
  ∀ before, before <+: events → ((s.run before).lobby.session? c).isSome

namespace Stays

variable {c : ConnectionId} {e : SimulationEvent} {events rest : List SimulationEvent}

theorem isSome (h : s.Stays c events) : (s.lobby.session? c).isSome := h [] List.nil_prefix

theorem tail (h : s.Stays c (e :: events)) : (s.step e).Stays c events :=
  fun before hp => h (e :: before) (List.cons_prefix_cons.mpr ⟨rfl, hp⟩)

theorem right (h : s.Stays c (events ++ rest)) : (s.run events).Stays c rest := by
  intro before hp
  rw [← run_append]
  exact h (events ++ before) ((List.prefix_append_right_inj events).mpr hp)

end Stays

end Simulation

end Realm
