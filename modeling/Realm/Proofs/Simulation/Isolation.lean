import Mathlib.Data.List.Infix
import Realm.Proofs.Simulation.Turn

/-!
# Players are isolated from each other

Two runs with the commands of one connection changed treat every other player alike. Main
statement: after every tick, up to the one that ends its session, a player has in both runs the same
session, the same entity, the same components and the same waiting commands. Commands change what
is written for clients, so the runs need not agree on what the writers take either. What the runs
may differ in, the player's footing does not depend on: who else is there, in which order they are
served, what is queued for clients, and who takes it.
-/

namespace Realm

open Deed

variable {rules : GameRules} {stage stage' : Stage GameComponent Lobby} {b : Bond}
  {delta : Duration}

/-! ## A tick -/

/-- A system lists a player once if it wants its record, and else not. -/
structure System.Heeds (y : System GameComponent Lobby Cadence) (h : Handle)
    (e : Entity GameComponent) : Prop where
  nodup : y.entities.Nodup
  mem_iff : h ∈ y.entities ↔ y.wants e.mask = true

/-- The systems of a tick keep two stages alike for a player. -/
theorem GameSystem.footing_round_congr {systems : List GameSystem}
    {entries entries' : List (SystemId × System GameComponent Lobby Cadence)}
    {e : Entity GameComponent}
    (hduty : entries.map (·.2.duty) = systems.map (GameSystem.duty rules))
    (hduty' : entries'.map (·.2.duty) = systems.map (GameSystem.duty rules))
    (hpolicy : entries'.map (·.2.policy) = entries.map (·.2.policy))
    (hheeds : ∀ entry ∈ entries, entry.2.Heeds b.entity e)
    (hheeds' : ∀ entry ∈ entries', entry.2.Heeds b.entity e) (hr : Ready stage)
    (hr' : Ready stage') (ha : b.Alone stage) (ha' : b.Alone stage')
    (hs : b.footing stage' = b.footing stage) :
    b.footing (performAll (GameSystem.round rules delta systems entries' stage') stage') =
      b.footing (performAll (GameSystem.round rules delta systems entries stage) stage) := by
  induction systems generalizing entries entries' stage stage' with
  | nil => exact hs
  | cons system systems ih =>
      obtain ⟨⟨id, y⟩, entries, rfl, hy, hduty⟩ := List.map_eq_cons_iff.mp hduty
      obtain ⟨⟨id', y'⟩, entries', rfl, hy', hduty'⟩ := List.map_eq_cons_iff.mp hduty'
      obtain ⟨hpolicy, hpolicies⟩ := List.cons_eq_cons.mp hpolicy
      have hpolicy : y'.policy = y.policy := hpolicy
      -- The policies agree, so either both passes take place or neither does.
      let ds := if (y.policy.advance delta).1 then system.deeds rules y.entities stage else []
      let ds' := if (y'.policy.advance delta).1 then system.deeds rules y'.entities stage' else []
      have hround : GameSystem.round rules delta (system :: systems) ((id, y) :: entries) stage =
          ds ++ GameSystem.round rules delta systems entries (performAll ds stage) := rfl
      have hround' : GameSystem.round rules delta (system :: systems) ((id', y') :: entries') stage' =
          ds' ++ GameSystem.round rules delta systems entries' (performAll ds' stage') := rfl
      have hone := hheeds (id, y) List.mem_cons_self
      have hone' := hheeds' (id', y') List.mem_cons_self
      have hcourse : Course stage ds := by
        show Course stage (if _ then _ else _)
        split
        · exact system.course_deeds rules hr y.entities
        · trivial
      have hcourse' : Course stage' ds' := by
        show Course stage' (if _ then _ else _)
        split
        · exact system.course_deeds rules hr' y'.entities
        · trivial
      have hmem : b.entity ∈ y'.entities ↔ b.entity ∈ y.entities := by
        have hinterest : y'.interest = y.interest :=
          (congrArg Prod.snd hy').trans (congrArg Prod.snd hy).symm
        rw [hone.mem_iff, hone'.mem_iff, System.wants, System.wants, hinterest]
      have hpass : b.footing (performAll ds' stage') = b.footing (performAll ds stage) := by
        show b.footing (performAll (if _ then _ else _) _) =
          b.footing (performAll (if _ then _ else _) _)
        rw [hpolicy]
        split
        · exact system.footing_deeds_congr rules hr hr' ha ha' hone.nodup hone'.nodup hmem hs
        · exact hs
      rw [hround, hround', performAll_append, performAll_append]
      exact ih hduty hduty' hpolicies (fun entry hm => hheeds entry (List.mem_cons_of_mem _ hm))
        (fun entry hm => hheeds' entry (List.mem_cons_of_mem _ hm)) (hcourse.ready hr)
        (hcourse'.ready hr') (ha.mono (hcourse.roll_subset hr))
        (ha'.mono (hcourse'.roll_subset hr')) hpass

/-- Whether runs may differ in an event: it is a command of the client, or a writer takes or drops
what was queued for it. -/
def SimulationEvent.isOpen (client : ConnectionId) : SimulationEvent → Bool
  | .mail c (.command _) => c = client
  | .drain _ _ | .dropWriter _ => true
  | _ => false

def SimulationEvent.fixed (client : ConnectionId) (events : List SimulationEvent) :
    List SimulationEvent := events.filter fun e => !e.isOpen client

namespace Simulation

variable {s s' : Simulation}

def cadences (s : Simulation) : List Cadence :=
  (s.world.systems ++ s.world.joining).map (·.2.policy)

theorem Regular.policies_applyChanges (h : s.Regular rules) :
    s.world.applyChanges.systems.map (·.2.policy) = s.cadences :=
  World.map_applyChanges h.leaving_eq fun _ _ => rfl

theorem Regular.cadences_tick (h : s.Regular rules) (delta : Duration) :
    (s.tick delta).2.cadences = s.cadences.map fun policy => (policy.advance delta).2 := by
  have hjoining : (s.tick delta).2.world.joining = [] := rfl
  rw [cadences, hjoining, List.append_nil, (h.ticks delta).systems_eq, List.map_map,
    ← h.policies_applyChanges, List.map_map]
  rfl

/-- Once the noted changes are visible, every system lists a player as its record demands. -/
theorem Regular.heeds (h : s.Regular rules) {e : Entity GameComponent}
    (hl : s.world.applyChanges.stage.store.living? b.entity = some e) :
    ∀ entry ∈ s.world.applyChanges.systems, entry.2.Heeds b.entity e := by
  intro entry hm
  have hfollows := h.faithful.follows_of_steady h.peopled.steady entry hm
  have hseen := Store.Steady.seen?_of_living h.peopled.ready_apply.idle hl
  exact ⟨hfollows.nodup, hfollows.mem_iff b.entity e hseen nofun⟩

theorem Regular.footing_applyChanges (h : s.Regular rules) (b : Bond) :
    b.footing s.world.applyChanges.stage =
      ⟨s.lobby.attendance b.connection, (s.world.store.at? b.entity.id).map Slot.settle⟩ :=
  congrArg (Footing.mk _) (h.peopled.steady.at?_apply b.entity.id)

/-- A tick keeps two simulations alike for a player. -/
theorem Regular.footing_tick (h : s.Regular rules) (h' : s'.Regular rules)
    (hb : b ∈ s.lobby.roll) (hb' : b ∈ s'.lobby.roll)
    (hs : b.footing s'.world.stage = b.footing s.world.stage) (hc : s'.cadences = s.cadences)
    (delta : Duration) :
    b.footing (s'.tick delta).2.world.stage = b.footing (s.tick delta).2.world.stage := by
  have ht := h.ticks delta
  have ht' := h'.ticks delta
  have hmem : b ∈ s.world.applyChanges.stage.shared.roll := hb
  have hmem' : b ∈ s'.world.applyChanges.stage.shared.roll := hb'
  have hsame : b.footing s'.world.applyChanges.stage = b.footing s.world.applyChanges.stage := by
    have hattendance : s'.lobby.attendance b.connection = s.lobby.attendance b.connection :=
      Bond.attendance_eq hs
    have hslot : s'.world.store.at? b.entity.id = s.world.store.at? b.entity.id := Bond.slot_eq hs
    rw [h.footing_applyChanges, h'.footing_applyChanges, hattendance, hslot]
  -- Both stores hold the same record of the player, so the systems list it in both or in neither.
  obtain ⟨e, hl, -⟩ := ht.ready.linked b hmem
  have hl' := (Store.living?_congr (Bond.slot_eq hsame)).trans hl
  have hpolicies : s'.world.applyChanges.systems.map (·.2.policy) =
      s.world.applyChanges.systems.map (·.2.policy) := by
    rw [h.policies_applyChanges, h'.policies_applyChanges, hc]
  rw [ht.stage_eq, ht'.stage_eq]
  exact GameSystem.footing_round_congr h.equipped_applyChanges h'.equipped_applyChanges hpolicies
    (h.heeds hl) (h'.heeds hl') ht.ready ht'.ready (.of_mem ht.ready.toPeopled hmem)
    (.of_mem ht'.ready.toPeopled hmem') hsame

theorem Regular.outline_tick (h : s.Regular rules) (delta : Duration) :
    (s.tick delta).2.lobby.connections.outline = s.lobby.connections.outline := by
  have ht := h.ticks delta
  have houtline := ht.course.outline_eq ht.ready
  rw [← ht.lobby_eq] at houtline
  exact houtline

/-! ## Other events -/

theorem join_cases (s : Simulation) (client : ConnectionId) (account : Account) :
    s.join client account = s ∨ s.lobby.session? client = none ∧
      ∃ f : Connection → Connection, (∀ k, (f k).id = k.id) ∧
        (s.join client account).lobby.connections = s.lobby.connections.modify client f ∧
        ((s.join client account).world.store = s.world.store ∨
          ∃ entity, s.world.store.create (playerComponents client account.id) =
            .ok (entity, (s.join client account).world.store)) := by
  have hdismissed : ∀ k : Connection, (k.dismiss fullNotice.toPacket).id = k.id :=
    fun k => congrArg Prod.fst (k.label_dismiss _)
  have hclosed : ∀ k : Connection, k.close.id = k.id := fun k => congrArg Prod.fst k.label_close
  have haccepted : ∀ (entity : Handle) (k : Connection),
      (Session.send k (.loginAccepted entity)).2.id = k.id :=
    fun entity k => congrArg Prod.fst (Session.label_send k _)
  unfold Simulation.join
  split
  · exact .inl rfl
  · exact .inl rfl
  · next hnone =>
      refine .inr ⟨hnone, ?_⟩
      split
      · exact ⟨_, hdismissed, rfl, .inl rfl⟩
      · exact ⟨_, hclosed, rfl, .inl rfl⟩
      · next entity store hcreate =>
          exact ⟨_, haccepted entity, rfl, .inr ⟨entity, hcreate⟩⟩

theorem outline_join (s : Simulation) (client : ConnectionId) (account : Account) :
    (s.join client account).lobby.connections.outline = s.lobby.connections.outline := by
  rcases s.join_cases client account with h | ⟨-, f, hf, h, -⟩
  · rw [h]
  · rw [h]
    exact Connections.outline_modify fun k _ => hf k

/-- Whoever else joins, the footing of a player stays. -/
theorem Regular.footing_join (h : s.Regular rules) (hb : b ∈ s.lobby.roll)
    (client : ConnectionId) (account : Account) :
    b.footing (s.join client account).world.stage = b.footing s.world.stage := by
  obtain ⟨x, hx, -⟩ := h.peopled.session_of_bond hb
  rcases s.join_cases client account with heq | ⟨hnone, f, hf, hconnections, hstore⟩
  · rw [heq]
  · have hne : b.connection ≠ client := by
      rintro rfl
      have hboth : (none : Option Session) = some x := hnone.symm.trans hx
      cases hboth
    have hsession : (s.join client account).lobby.session? b.connection =
        s.lobby.session? b.connection := by
      rcases s.session?_join client b.connection account with heq | ⟨heq, -⟩
      · exact heq
      · exact absurd heq hne
    have hattendance : (s.join client account).lobby.attendance b.connection =
        s.lobby.attendance b.connection := by
      refine Lobby.attendance_of_eq hsession ?_
      rw [hconnections]
      exact Connections.isClosed_modify_of_ne (fun k _ => hf k) hne
    have hslot : (s.join client account).world.store.at? b.entity.id =
        s.world.store.at? b.entity.id := by
      rcases hstore with heq | ⟨entity, hcreate⟩
      · rw [heq]
      · -- The identity that is taken is free, and that of a player is not.
        obtain ⟨hcreates, htakes⟩ := Store.creates_of_ok h.peopled.steady.toBounded hcreate
        obtain ⟨e, hl, -⟩ := h.peopled.linked b hb
        rw [hcreates.at?_eq]
        refine if_neg fun hid => ?_
        have hgone := h.peopled.steady.living?_eq_none_of_takes (hid ▸ htakes)
        have hboth : (none : Option (Entity GameComponent)) = some e := hgone.symm.trans hl
        cases hboth
    show Footing.mk _ _ = Footing.mk _ _
    exact congr (congrArg Footing.mk hattendance) hslot

theorem cadences_join (s : Simulation) (client : ConnectionId) (account : Account) :
    (s.join client account).cadences = s.cadences := by
  unfold Simulation.join
  split
  · rfl
  · rfl
  · split <;> rfl

/-- Who is on the roll and has a session after an event still is on it. -/
theorem Regular.enrolled_step (h : s.Regular rules) (hb : b ∈ s.lobby.roll) (e : SimulationEvent)
    (hstays : ((s.step e).lobby.session? b.connection).isSome) : b ∈ (s.step e).lobby.roll := by
  obtain ⟨x, hx, hxb⟩ := h.peopled.session_of_bond hb
  obtain ⟨y, hy⟩ := Option.isSome_iff_exists.mp hstays
  have hbond := h.bond_eq_of_step e hx hy
  rw [← hxb, ← hbond]
  exact Sessions.mem_roll_of_get? hy

/-! ## Two runs -/

/-- Two simulations are alike for a player. -/
structure Twin (rules : GameRules) (b : Bond) (s s' : Simulation) : Prop where
  regular : s.Regular rules
  regular' : s'.Regular rules
  enrolled : b ∈ s.lobby.roll
  enrolled' : b ∈ s'.lobby.roll
  footing_eq : b.footing s'.world.stage = b.footing s.world.stage
  outline_eq : s'.lobby.connections.outline = s.lobby.connections.outline
  cadences_eq : s'.cadences = s.cadences

namespace Twin

theorem refl (h : s.Regular rules) (hb : b ∈ s.lobby.roll) : Twin rules b s s :=
  ⟨h, h, hb, hb, rfl, rfl, rfl⟩

theorem symm (h : Twin rules b s s') : Twin rules b s' s :=
  ⟨h.regular', h.regular, h.enrolled', h.enrolled, h.footing_eq.symm, h.outline_eq.symm,
    h.cadences_eq.symm⟩

theorem attendance_eq (h : Twin rules b s s') :
    s'.lobby.attendance b.connection = s.lobby.attendance b.connection :=
  Bond.attendance_eq h.footing_eq

theorem alike (h : Twin rules b s s') :
    Connections.Alike b.connection s.lobby.connections s'.lobby.connections := by
  refine ⟨h.outline_eq.symm, ?_⟩
  obtain ⟨x, hx, -⟩ := h.regular.peopled.session_of_bond h.enrolled
  obtain ⟨x', hx', -⟩ := h.regular'.peopled.session_of_bond h.enrolled'
  have hx : s.lobby.session? b.connection = some x := hx
  have hx' : s'.lobby.session? b.connection = some x' := hx'
  have hattendance := h.attendance_eq
  unfold Lobby.attendance at hattendance
  rw [hx, hx'] at hattendance
  exact (congrArg (fun a : Bounded Command × Bool × Bool => a.2.2)
    (Option.some.inj hattendance)).symm

theorem footing_of_lobby (h : Twin rules b s s') {l l' : Lobby}
    (ha : l'.attendance b.connection = l.attendance b.connection) :
    b.footing (s'.withLobby l').world.stage = b.footing (s.withLobby l).world.stage := by
  have hslot : s'.world.store.at? b.entity.id = s.world.store.at? b.entity.id :=
    Bond.slot_eq h.footing_eq
  show Footing.mk _ _ = Footing.mk _ _
  exact congr (congrArg Footing.mk ha) hslot

theorem attendance_of_connections (h : Twin rules b s s') {t t' : Connections}
    (ht : t'.isClosed b.connection = t.isClosed b.connection) :
    (⟨s'.lobby.sessions, t'⟩ : Lobby).attendance b.connection =
      (⟨s.lobby.sessions, t⟩ : Lobby).attendance b.connection := by
  have hread : ∀ (l : Lobby) (t : Connections), (⟨l.sessions, t⟩ : Lobby).attendance b.connection =
      (l.attendance b.connection).map fun a => (a.1, a.2.1, t.isClosed b.connection) := by
    intro l t
    unfold Lobby.attendance
    rw [Option.map_map]
    rfl
  rw [hread s'.lobby, hread s.lobby, ht, h.attendance_eq]

/-- Writing for a client and taking what was written do not show. -/
theorem isClosed_modify_of_label (h : Twin rules b s s') (client : ConnectionId)
    {f : Connection → Connection} (hf : ∀ k, (f k).label = k.label) :
    s'.lobby.connections.isClosed b.connection =
      (s.lobby.connections.modify client f).isClosed b.connection := by
  have hid : ∀ k : Connection, k.id = client → (f k).id = k.id :=
    fun k _ => congrArg Prod.fst (hf k)
  rw [Connections.isClosed_modify hid (fun k _ => congrArg Prod.snd (hf k)), h.alike.isClosed_eq]

theorem footing_modify_of_label (h : Twin rules b s s') (client : ConnectionId)
    {f : Connection → Connection} (hf : ∀ k, (f k).label = k.label) :
    b.footing s'.world.stage =
      b.footing (s.modifyLobby (·.modifyConnection client f)).world.stage :=
  h.footing_of_lobby (h.attendance_of_connections (h.isClosed_modify_of_label client hf))

/-- The same event keeps two simulations alike for a player. -/
theorem footing_step (h : Twin rules b s s') (e : SimulationEvent) :
    b.footing (s'.step e).world.stage = b.footing (s.step e).world.stage := by
  have hquiet : ∀ (client : ConnectionId) {f : Connection → Connection},
      (∀ k, (f k).label = k.label) →
      b.footing (s'.modifyLobby (·.modifyConnection client f)).world.stage =
        b.footing (s.modifyLobby (·.modifyConnection client f)).world.stage :=
    fun client f hf => (h.symm.footing_modify_of_label client hf).symm.trans
      (h.footing_eq.symm.trans (h.footing_modify_of_label client hf))
  cases e with
  | register address size =>
      exact h.footing_of_lobby (h.attendance_of_connections
        (h.alike.register address size).isClosed_eq.symm)
  | remove client =>
      exact h.footing_of_lobby (h.attendance_of_connections (h.alike.remove client).isClosed_eq.symm)
  | close client =>
      exact h.footing_of_lobby (h.attendance_of_connections (h.alike.close client).isClosed_eq.symm)
  | drain client items => exact hquiet client fun k => k.label_drain items
  | dropWriter client => exact hquiet client fun _ => rfl
  | terminate client =>
      refine h.footing_of_lobby ?_
      rw [Lobby.attendance_terminate, Lobby.attendance_terminate, h.attendance_eq]
      by_cases hc : b.connection = client
      · rw [if_pos hc, if_pos hc, ← hc, h.attendance_eq]
      · rw [if_neg hc, if_neg hc]
  | mail client payload =>
      cases payload with
      | authenticated account =>
          exact (h.regular'.footing_join h.enrolled' client account).trans
            (h.footing_eq.trans (h.regular.footing_join h.enrolled client account).symm)
      | command command =>
          refine h.footing_of_lobby ?_
          rw [Lobby.attendance_queueCommand, Lobby.attendance_queueCommand, h.attendance_eq]
          by_cases hc : b.connection = client
          · rw [if_pos hc, if_pos hc, ← hc, h.attendance_eq]
          · rw [if_neg hc, if_neg hc]
  | tick delta =>
      exact h.regular.footing_tick h.regular' h.enrolled h.enrolled' h.footing_eq h.cadences_eq delta

theorem outline_step (h : Twin rules b s s') (e : SimulationEvent) :
    (s'.step e).lobby.connections.outline = (s.step e).lobby.connections.outline := by
  have hkept : ∀ {t t' : Connections}, t.outline = s.lobby.connections.outline →
      t'.outline = s'.lobby.connections.outline → t'.outline = t.outline :=
    fun ht ht' => ht'.trans (h.outline_eq.trans ht.symm)
  cases e with
  | register address size => exact (h.alike.register address size).outline_eq.symm
  | remove client => exact (h.alike.remove client).outline_eq.symm
  | close client => exact (h.alike.close client).outline_eq.symm
  | drain client items =>
      have hid : ∀ k : Connection, k.id = client → (k.drain items).2.id = k.id :=
        fun k _ => congrArg Prod.fst (k.label_drain items)
      exact hkept (Connections.outline_modify hid) (Connections.outline_modify hid)
  | dropWriter client =>
      have hid : ∀ k : Connection, k.id = client → k.dropWriter.id = k.id := fun _ _ => rfl
      exact hkept (Connections.outline_modify hid) (Connections.outline_modify hid)
  | terminate client =>
      exact hkept (s.lobby.outline_terminate client) (s'.lobby.outline_terminate client)
  | mail client payload =>
      cases payload with
      | authenticated account =>
          exact hkept (s.outline_join client account) (s'.outline_join client account)
      | command command => exact h.outline_eq
  | tick delta => exact hkept (h.regular.outline_tick delta) (h.regular'.outline_tick delta)

theorem cadences_step (h : Twin rules b s s') (e : SimulationEvent) :
    (s'.step e).cadences = (s.step e).cadences := by
  cases e with
  | mail client payload =>
      cases payload with
      | authenticated account =>
          exact (s'.cadences_join client account).trans
            (h.cadences_eq.trans (s.cadences_join client account).symm)
      | command command => exact h.cadences_eq
  | tick delta =>
      show (s'.tick delta).2.cadences = (s.tick delta).2.cadences
      rw [h.regular.cadences_tick, h.regular'.cadences_tick, h.cadences_eq]
  | _ => exact h.cadences_eq

theorem isSome_session?_eq (h : Twin rules b s s') (e : SimulationEvent) :
    ((s'.step e).lobby.session? b.connection).isSome =
      ((s.step e).lobby.session? b.connection).isSome := by
  have hattendance := congrArg Option.isSome (Bond.attendance_eq (h.footing_step e))
  unfold Lobby.attendance at hattendance
  rw [Option.isSome_map, Option.isSome_map] at hattendance
  exact hattendance

/-- As long as the session of the player lasts, the same event keeps two simulations alike. -/
theorem step (h : Twin rules b s s') (e : SimulationEvent)
    (hstays : ((s.step e).lobby.session? b.connection).isSome) :
    Twin rules b (s.step e) (s'.step e) where
  regular := h.regular.step e
  regular' := h.regular'.step e
  enrolled := h.regular.enrolled_step h.enrolled e hstays
  enrolled' := h.regular'.enrolled_step h.enrolled' e ((h.isSome_session?_eq e).trans hstays)
  footing_eq := h.footing_step e
  outline_eq := h.outline_step e
  cadences_eq := h.cadences_step e

theorem step_queueCommand (h : Twin rules b s s') {client : ConnectionId}
    (hc : client ≠ b.connection) (command : Command) :
    Twin rules b (s.step (.mail client (.command command))) s' := by
  have hattendance := s.lobby.attendance_queueCommand client b.connection command
  rw [if_neg hc.symm] at hattendance
  have hroll := s.lobby.roll_queueCommand client command
  refine ⟨h.regular.step _, h.regular', ?_, h.enrolled', ?_, h.outline_eq, h.cadences_eq⟩
  · exact hroll.symm ▸ h.enrolled
  · exact h.footing_eq.trans
      (congrArg (Footing.mk · (s.world.store.at? b.entity.id)) hattendance.symm)

/-- What a writer takes or drops leaves every player as it is. -/
theorem modify_of_label (h : Twin rules b s s') (client : ConnectionId)
    {f : Connection → Connection} (hf : ∀ k, (f k).label = k.label)
    (hregular : (s.modifyLobby (·.modifyConnection client f)).Regular rules) :
    Twin rules b (s.modifyLobby (·.modifyConnection client f)) s' where
  regular := hregular
  regular' := h.regular'
  enrolled := h.enrolled
  enrolled' := h.enrolled'
  footing_eq := h.footing_modify_of_label client hf
  outline_eq := h.outline_eq.trans
    (Connections.outline_modify fun k _ => congrArg Prod.fst (hf k)).symm
  cadences_eq := h.cadences_eq

/-- An event that runs may differ in keeps two simulations alike if it reaches one of them only. -/
theorem step_of_open (h : Twin rules b s s') {client : ConnectionId} (hc : client ≠ b.connection)
    {e : SimulationEvent} (he : e.isOpen client = true) : Twin rules b (s.step e) s' := by
  cases e with
  | mail c payload =>
      cases payload with
      | command command =>
          obtain rfl : c = client := of_decide_eq_true he
          exact h.step_queueCommand hc command
      | authenticated account => cases he
  | drain c items =>
      exact h.modify_of_label c (fun k => k.label_drain items) (h.regular.step (.drain c items))
  | dropWriter c => exact h.modify_of_label c (fun _ => rfl) (h.regular.step (.dropWriter c))
  | register | remove | close | terminate | tick => cases he

theorem run_of_open (h : Twin rules b s s') {client : ConnectionId} (hc : client ≠ b.connection)
    {events : List SimulationEvent} (he : ∀ e ∈ events, e.isOpen client = true) :
    Twin rules b (s.run events) s' := by
  induction events generalizing s with
  | nil => exact h
  | cons e events ih =>
      exact ih (h.step_of_open hc (he e List.mem_cons_self))
        fun e' hm => he e' (List.mem_cons_of_mem e hm)

/-- Runs that agree on all other events keep two simulations alike. -/
theorem run (h : Twin rules b s s') {client : ConnectionId} (hc : client ≠ b.connection)
    {events events' : List SimulationEvent}
    (hsame : SimulationEvent.fixed client events' = SimulationEvent.fixed client events)
    (hstays : s.Stays b.connection events) : Twin rules b (s.run events) (s'.run events') := by
  -- Along the second run: an open event is dropped from it; any other event is also the next one of
  -- the first run once the open events before it are dropped.
  induction events' generalizing s s' events with
  | nil =>
      refine h.run_of_open hc fun e hm => ?_
      have hnone := List.filter_eq_nil_iff.mp hsame.symm e hm
      simpa using hnone
  | cons e' events' ih =>
      by_cases he' : e'.isOpen client = true
      · have hskip : SimulationEvent.fixed client (e' :: events') =
            SimulationEvent.fixed client events' := List.filter_cons_of_neg (by simp [he'])
        exact ih (h.symm.step_of_open hc he').symm (hskip.symm.trans hsame) hstays
      · have hkept : SimulationEvent.fixed client (e' :: events') =
            e' :: SimulationEvent.fixed client events' := List.filter_cons_of_pos (by simp [he'])
        obtain ⟨skipped, rest, rfl, hskipped, -, hrest⟩ :=
          List.filter_eq_cons_iff.mp (hsame.symm.trans hkept)
        have hopen : ∀ e ∈ skipped, e.isOpen client = true := by
          intro e hm
          simpa using hskipped e hm
        have hmid := h.run_of_open hc hopen
        have hlast := hstays.right
        have hnext := hmid.step e' hlast.tail.isSome
        rw [Simulation.run_append]
        exact ih hnext hrest.symm hlast.tail

end Twin

/-! ## The player of a session -/

/-- What two simulations have in common for the player of a session. -/
structure SameFor (x : Session) (s s' : Simulation) : Prop where
  /-- The session is registered in both or in neither. -/
  registered : x.bond ∈ s'.lobby.roll ↔ x.bond ∈ s.lobby.roll
  alive : s'.world.store.isAlive x.entity = s.world.store.isAlive x.entity
  transform : s'.world.store.get? x.entity .transform = s.world.store.get? x.entity .transform
  velocity : s'.world.store.get? x.entity .velocity = s.world.store.get? x.entity .velocity
  /-- The queue of commands that wait in its session, if there still is one. -/
  pending : (s'.lobby.session? x.connection).map (·.commands) =
    (s.lobby.session? x.connection).map (·.commands)

theorem Twin.sameFor {x : Session} (h : Twin rules x.bond s s') (e : SimulationEvent) :
    SameFor x (s.step e) (s'.step e) := by
  have hslot : (s'.step e).world.store.at? x.entity.id = (s.step e).world.store.at? x.entity.id :=
    Bond.slot_eq (h.footing_step e)
  have hattendance : (s'.step e).lobby.attendance x.connection =
      (s.step e).lobby.attendance x.connection := Bond.attendance_eq (h.footing_step e)
  have henrolled : ∀ {s : Simulation}, s.Regular rules → x.bond ∈ s.lobby.roll →
      (x.bond ∈ (s.step e).lobby.roll ↔ ((s.step e).lobby.session? x.connection).isSome) := by
    intro s hr hb
    refine ⟨fun hb' => ?_, hr.enrolled_step hb e⟩
    obtain ⟨y, hy, -⟩ := (hr.step e).peopled.session_of_bond hb'
    exact Option.isSome_iff_exists.mpr ⟨y, hy⟩
  refine ⟨?_, Store.isAlive_congr hslot, Store.get?_congr hslot _, Store.get?_congr hslot _, ?_⟩
  · rw [henrolled h.regular h.enrolled, henrolled h.regular' h.enrolled']
    exact Bool.eq_iff_iff.mp (h.isSome_session?_eq e)
  · have hqueue := congrArg (Option.map (·.1)) hattendance
    unfold Lobby.attendance at hqueue
    rw [Option.map_map, Option.map_map] at hqueue
    exact hqueue

/-- Two runs from a state that a simulation can get to, with the same events but for the commands of
one connection and what any writers take and drop: to every tick of one there is the tick of the
other after the same events, and as long as the session of another connection lasts before it, both
runs have done the same for its player. -/
theorem same_of_run (setup : SimulationSetup) (past : List SimulationEvent) {x : Session}
    (hx : ((Simulation.new setup .empty).run past).lobby.session? x.connection = some x)
    {client : ConnectionId} (hc : client ≠ x.connection) {events events' : List SimulationEvent}
    (hsame : SimulationEvent.fixed client events' = SimulationEvent.fixed client events)
    {before after : List SimulationEvent} {delta : Duration}
    (hsplit : events = before ++ .tick delta :: after)
    (hstays : ((Simulation.new setup .empty).run past).Stays x.connection before) :
    ∃ before' after', events' = before' ++ .tick delta :: after' ∧
      SimulationEvent.fixed client before' = SimulationEvent.fixed client before ∧
      SameFor x (((Simulation.new setup .empty).run past).run (before ++ [.tick delta]))
        (((Simulation.new setup .empty).run past).run (before' ++ [.tick delta])) := by
  have hregular : ((Simulation.new setup .empty).run past).Regular setup.rules :=
    (regular_new setup).run past
  have hkept : SimulationEvent.fixed client events =
      SimulationEvent.fixed client before ++ .tick delta :: SimulationEvent.fixed client after := by
    rw [hsplit, SimulationEvent.fixed, List.filter_append]
    rfl
  obtain ⟨first, rest, rfl, hfirst, hrest⟩ := List.filter_eq_append_iff.mp (hsame.trans hkept)
  obtain ⟨skipped, after', rfl, hskipped, -, -⟩ := List.filter_eq_cons_iff.mp hrest
  have hopen : SimulationEvent.fixed client (first ++ skipped) =
      SimulationEvent.fixed client before := by
    have hnone : SimulationEvent.fixed client skipped = [] := List.filter_eq_nil_iff.mpr hskipped
    rw [SimulationEvent.fixed, List.filter_append]
    exact (congrArg₂ (· ++ ·) hfirst hnone).trans (List.append_nil _)
  refine ⟨first ++ skipped, after', (List.append_assoc ..).symm, hopen, ?_⟩
  have htwin := (Twin.refl hregular (Sessions.mem_roll_of_get? hx)).run hc hopen hstays
  rw [Simulation.run_append, Simulation.run_append]
  exact htwin.sameFor (.tick delta)

/-- One player chats and logs out in one run and walks in the other, and the writers take different
things. The second player walks in both, and its session ends at the last tick. -/
theorem same_of_run_of_logout :
    let setup : SimulationSetup := ⟨2, ⟨2, ⟨50⟩⟩, ⟨4, 4⟩⟩
    let past : List SimulationEvent :=
      [.register (.v4 [127, 0, 0, 1] 4000) 8, .register (.v4 [127, 0, 0, 1] 4001) 8,
        .mail 1 (.authenticated ⟨⟨5⟩, "ada", "x"⟩), .mail 2 (.authenticated ⟨⟨6⟩, "bob", "y"⟩)]
    let s := (Simulation.new setup .empty).run past
    let x := Session.fresh 2 ⟨6⟩ ⟨1, 0⟩ setup.sessions
    let walk : SimulationEvent := .mail 2 (.command (.move (.ofNat 1) .zero))
    let before : List SimulationEvent :=
      [.mail 1 (.command (.chat "hi")), .mail 1 (.command .logout), walk, .tick ⟨50⟩,
        .dropWriter 1, .tick ⟨50⟩, .drain 2 none, .mail 2 (.command .logout)]
    let events' : List SimulationEvent :=
      [.drain 2 (some 1), walk, .mail 1 (.command (.move (.ofNat 1) .zero)), .tick ⟨50⟩,
        .tick ⟨50⟩, .drain 1 none, .mail 2 (.command .logout), .tick ⟨50⟩]
    s.lobby.session? 2 = some x ∧ (s.run before).lobby.roll = [⟨2, ⟨6⟩, ⟨1, 0⟩⟩] ∧
      (s.run events').lobby.roll = [⟨1, ⟨5⟩, ⟨0, 0⟩⟩] ∧
      SimulationEvent.fixed 1 events' = SimulationEvent.fixed 1 (before ++ [.tick ⟨50⟩]) ∧
      s.Stays 2 before ∧ ∃ before' after', events' = before' ++ .tick ⟨50⟩ :: after' ∧
        SimulationEvent.fixed 1 before' = SimulationEvent.fixed 1 before ∧
        SameFor x (s.run (before ++ [.tick ⟨50⟩])) (s.run (before' ++ [.tick ⟨50⟩])) := by
  intro setup past s x walk before events'
  have hx : s.lobby.session? 2 = some x := by decide +kernel
  have hsame : SimulationEvent.fixed 1 events' =
      SimulationEvent.fixed 1 (before ++ [.tick ⟨50⟩]) := rfl
  have hlasts : ∀ early ∈ before.inits, ((s.run early).lobby.session? 2).isSome = true := by
    decide +kernel
  have hstays : s.Stays 2 before := fun early hp => hlasts early ((List.mem_inits _ _).mpr hp)
  have hne : (1 : ConnectionId) ≠ x.connection := by decide
  exact ⟨hx, by decide +kernel, by decide +kernel, hsame, hstays,
    same_of_run setup past hx hne hsame rfl hstays⟩

end Simulation

end Realm
