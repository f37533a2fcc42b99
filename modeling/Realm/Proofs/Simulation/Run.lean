import Realm.Proofs.Simulation.Tick
import Realm.Proofs.Store.Identities

/-!
# Sessions and player entities along a run

Main statement: whatever reaches a simulation, in whatever order, the registered sessions and the
living entities match one to one, by the link that the entity carries. Others may open, drain,
remove and close connections and end sessions at any time.
-/

namespace Realm

/-- What can reach a simulation and what it shares with the rest of the server. -/
inductive SimulationEvent where
  | register (address : SocketAddress) (capacity : Nat)
  | remove (client : ConnectionId)
  | close (client : ConnectionId)
  | drain (client : ConnectionId) (items : Option Nat)
  | dropWriter (client : ConnectionId)
  | terminate (client : ConnectionId)
  | mail (client : ConnectionId) (payload : Inbound)
  | tick (delta : Duration)

namespace Simulation

def step (s : Simulation) : SimulationEvent → Simulation
  | .register address capacity =>
    s.modifyLobby fun l => { l with connections := (l.connections.register address capacity).2 }
  | .remove client =>
    s.modifyLobby fun l => { l with connections := (l.connections.remove client).2 }
  | .close client => s.modifyLobby (·.modifyConnection client (·.close))
  | .drain client items => s.modifyLobby (·.modifyConnection client fun c => (c.drain items).2)
  | .dropWriter client => s.modifyLobby (·.modifyConnection client (·.dropWriter))
  | .terminate client => s.modifyLobby (·.terminate client)
  | .mail client payload => s.handle client payload
  | .tick delta => (s.tick delta).2

def run (s : Simulation) (events : List SimulationEvent) : Simulation := events.foldl step s

def admits (s : Simulation) : SimulationEvent → Bool
  | .mail client (.authenticated account) =>
    (s.lobby.connections.get? client).isSome && (s.lobby.session? client).isNone &&
      (s.world.store.create (playerComponents client account.id)).toOption.isSome
  | _ => false

def admissions (s : Simulation) : List SimulationEvent → Nat
  | [] => 0
  | e :: rest => (if s.admits e then 1 else 0) + (s.step e).admissions rest

theorem admissions_le_length (s : Simulation) (events : List SimulationEvent) :
    s.admissions events ≤ events.length := by
  induction events generalizing s with
  | nil => exact Nat.le_refl 0
  | cons e rest ih =>
      have hrest := ih (s.step e)
      rw [admissions, List.length_cons]
      split <;> omega

def IsGameWork (process : List Handle → Duration → GameWork Unit) : Prop :=
  ∃ (rules : GameRules) (system : GameSystem), process = system.process rules

/-- Sessions and living entities match after `n` admissions, and the systems are those of the
game. -/
structure Orderly (capacity : UInt32) (n : Nat) (s : Simulation) : Prop where
  matched : Matched capacity n s.world.stage
  does : s.world.Does IsGameWork

variable {capacity : UInt32} {n : Nat} {s : Simulation}

/-! ## One event -/

theorem orderly_new (setup : SimulationSetup) :
    (Simulation.new setup .empty).Orderly setup.entityCapacity 0 := by
  refine ⟨⟨.start setup.entityCapacity, rfl, rfl, .start _⟩, ?_⟩
  have hempty : (World.empty setup.entityCapacity .empty : GameWorld).Does IsGameWork :=
    World.does_empty _ _
  exact ((hempty.addSystem ⟨_, .commands, rfl⟩).addSystem ⟨_, .movement, rfl⟩).addSystem
    ⟨_, .drain, rfl⟩

theorem Orderly.modifyLobby (hs : s.Orderly capacity n) (f : Lobby → Lobby)
    (hf : (f s.lobby).roll = s.lobby.roll) : (s.modifyLobby f).Orderly capacity n :=
  ⟨hs.matched.withShared hf, hs.does⟩

/-- A tick never fails. -/
theorem Orderly.tick (hs : s.Orderly capacity n) (delta : Duration) :
    ∃ s', s.tick delta = (.ok (), s') ∧ s'.Orderly capacity n := by
  have hsecures : s.world.Does fun process => ∀ entities delta,
      Work.Secures (Matched capacity n) (process entities delta) fun _ => Matched capacity n := by
    refine ⟨?_, ?_⟩
    · intro entry hm
      obtain ⟨rules, system, heq⟩ := hs.does.1 entry hm
      rw [heq]
      exact system.secures_process rules
    · intro entry hm
      obtain ⟨rules, system, heq⟩ := hs.does.2 entry hm
      rw [heq]
      exact system.secures_process rules
  obtain ⟨w, hupdate, hmatched⟩ :=
    World.update_of_secures Cadence.decides hsecures delta hs.matched.applyChanges
  have hdoes := World.does_update hs.does delta
  rw [hupdate] at hdoes
  refine ⟨{ s with world := w }, ?_, hmatched, hdoes⟩
  rw [Simulation.tick, hupdate]

/-- The components of a new player link it to its client. -/
theorem link_playerComponents (client : ConnectionId) (account : AccountId) :
    ((playerComponents client account).filter fun c => Component.kind c = Kind.player).getLast? =
      some (.player ⟨client, account⟩) := rfl

theorem Orderly.join (hs : s.Orderly capacity n) (client : ConnectionId) (account : Account)
    (hn : (if s.admits (.mail client (.authenticated account)) then n + 1 else n) < 2 ^ 32) :
    (s.join client account).Orderly capacity
      (if s.admits (.mail client (.authenticated account)) then n + 1 else n) := by
  unfold Simulation.join
  unfold admits at hn ⊢
  cases hclient : s.lobby.connections.get? client with
  | none => simpa [hclient] using hs
  | some c =>
      cases hsession : s.lobby.session? client with
      | some x => simpa [hclient, hsession] using hs
      | none =>
          cases hcreate : s.world.store.create (playerComponents client account.id) with
          | error e =>
              have hkept : ∀ f : Lobby → Lobby, (f s.lobby).roll = s.lobby.roll →
                  (s.modifyLobby f).Orderly capacity n := fun f hf => hs.modifyLobby f hf
              cases e with
              | capacity _ =>
                  simpa [hclient, hsession, hcreate, Except.toOption] using hkept _ rfl
              | stale _ => simpa [hclient, hsession, hcreate, Except.toOption] using hkept _ rfl
              | system _ _ => simpa [hclient, hsession, hcreate, Except.toOption] using hkept _ rfl
              | policy _ _ => simpa [hclient, hsession, hcreate, Except.toOption] using hkept _ rfl
          | ok created =>
              obtain ⟨entity, store⟩ := created
              simp only [hclient, hsession, hcreate, Except.toOption, Option.isSome_some,
                Option.isNone_none, Bool.and_self, if_true] at hn ⊢
              obtain ⟨t, hstore, hlength, hp⟩ := hs.matched
              let b : Bond := ⟨client, account.id, entity⟩
              have hp' : Paired capacity ⟨store, b.entity :: t.issued, t.destroyed⟩
                  (b :: s.lobby.roll) := by
                refine hp.create (hstore ▸ hcreate) (by omega) ?_ (link_playerComponents _ _)
                exact Sessions.get?_eq_none_iff.mp hsession
              let session := Session.fresh client account.id entity s.limits
              have hroll : (s.lobby.sessions.put session).2.roll.Perm (b :: s.lobby.roll) :=
                Sessions.perm_roll_put hsession
              refine ⟨⟨⟨store, b.entity :: t.issued, t.destroyed⟩, rfl, ?_, hp'.perm hroll⟩,
                hs.does⟩
              exact congrArg (· + 1) hlength

/-- One event keeps sessions and entities matched. -/
theorem Orderly.step (hs : s.Orderly capacity n) (e : SimulationEvent)
    (hn : (if s.admits e then n + 1 else n) < 2 ^ 32) :
    (s.step e).Orderly capacity (if s.admits e then n + 1 else n) := by
  cases e with
  | register address size =>
      exact hs.modifyLobby
        (fun l => { l with connections := (l.connections.register address size).2 }) rfl
  | remove client =>
      exact hs.modifyLobby (fun l => { l with connections := (l.connections.remove client).2 }) rfl
  | close client => exact hs.modifyLobby (·.modifyConnection client (·.close)) rfl
  | drain client items =>
      exact hs.modifyLobby (·.modifyConnection client fun c => (c.drain items).2) rfl
  | dropWriter client => exact hs.modifyLobby (·.modifyConnection client (·.dropWriter)) rfl
  | terminate client =>
      exact hs.modifyLobby (·.terminate client) (s.lobby.roll_terminate client)
  | mail client payload =>
      cases payload with
      | authenticated account => exact hs.join client account hn
      | command command =>
          exact hs.modifyLobby (fun l => (l.queueCommand client command).2)
            (s.lobby.roll_queueCommand client command)
  | tick delta =>
      obtain ⟨s', htick, hs'⟩ := hs.tick delta
      have hstep : s.step (.tick delta) = s' := congrArg Prod.snd htick
      rw [hstep]
      exact hs'

theorem Orderly.run (hs : s.Orderly capacity n) (events : List SimulationEvent)
    (hn : n + s.admissions events < 2 ^ 32) :
    (s.run events).Orderly capacity (n + s.admissions events) := by
  induction events generalizing s n with
  | nil => exact hs
  | cons e rest ih =>
      have hcount : (if s.admits e then n + 1 else n) + (s.step e).admissions rest =
          n + s.admissions (e :: rest) := by
        have hcons : s.admissions (e :: rest) =
            (if s.admits e then 1 else 0) + (s.step e).admissions rest := rfl
        rw [hcons]
        split <;> omega
      rw [← hcount] at hn ⊢
      exact ih (hs.step e (by omega)) hn

/-! ## What follows for the sessions -/

/-- The sessions and the living entities of a simulation match one to one. The next handle of a free
identity counts as alive but no entity is found under it. -/
structure Bijective (s : Simulation) (capacity : UInt32) : Prop where
  of_session : ∀ c x, s.lobby.session? c = some x → x.connection = c ∧
    s.world.store.isAlive x.entity = true ∧
    s.world.store.get? x.entity .player = some (.player ⟨c, x.account⟩)
  of_entity : ∀ h, s.world.store.isAlive h = true → (s.world.store.find? h).isSome = true →
    ∃ link x, s.world.store.get? h .player = some (.player link) ∧
      s.lobby.session? link.connection = some x ∧ x.entity = h ∧ x.account = link.account
  entity_injective : ∀ c c' x x', s.lobby.session? c = some x → s.lobby.session? c' = some x' →
    x.entity = x'.entity → c = c'
  reserved_eq : s.world.store.reserved = .ok s.lobby.sessions.size
  size_le : s.lobby.sessions.size ≤ capacity.toNat

theorem Orderly.bijective (hs : s.Orderly capacity n) : s.Bijective capacity := by
  obtain ⟨t, hstore, -, hp⟩ := hs.matched
  have hstore : t.store = s.world.store := hstore
  have hp : Paired capacity t s.lobby.sessions.roll := hp
  have hsize : s.lobby.sessions.roll.length = s.lobby.sessions.size := List.length_map _
  refine ⟨?_, ?_, ?_, ?_, ?_⟩
  · intro c x hx
    obtain ⟨-, rfl⟩ := Sessions.get?_eq_some hx
    have hb := Sessions.mem_roll_of_get? hx
    rw [← hstore]
    exact ⟨rfl, hp.isAlive hb, (hp.linked x.bond hb).2.2⟩
  · intro h ha hf
    rw [← hstore] at ha hf
    obtain ⟨b, hb, rfl⟩ := hp.exists_bond ha hf
    obtain ⟨x, hx, rfl⟩ := Sessions.get?_of_mem_roll hp.nodup hb
    rw [← hstore]
    exact ⟨_, x, (hp.linked x.bond hb).2.2, hx, rfl, rfl⟩
  · intro c c' x x' hx hx' heq
    have hbond : x.bond = x'.bond :=
      hp.eq_of_entity (Sessions.mem_roll_of_get? hx) (Sessions.mem_roll_of_get? hx') heq
    rw [← (Sessions.get?_eq_some hx).2, ← (Sessions.get?_eq_some hx').2]
    exact congrArg Bond.connection hbond
  · rw [← hstore, hp.sound.reserved_eq, hp.countP_isAlive, hsize]
  · have hcount := hp.sound.countP_isAlive
    have hle := hp.sound.tidy.size_le
    rw [hp.countP_isAlive, hsize] at hcount
    rw [hp.capacity_eq] at hle
    omega

/-- Whatever reaches a new simulation, its sessions and its entities match one to one. -/
theorem bijective_of_run (setup : SimulationSetup) (events : List SimulationEvent)
    (hn : (Simulation.new setup .empty).admissions events < 2 ^ 32) :
    ((Simulation.new setup .empty).run events).Bijective setup.entityCapacity := by
  have hnew := orderly_new setup
  have hrun := hnew.run events (by omega)
  exact hrun.bijective

/-- A client takes the only place, its connection closes, and another client takes its place. -/
theorem bijective_of_replaced :
    let setup : SimulationSetup := ⟨1, ⟨2, ⟨50⟩⟩, ⟨4, 4⟩⟩
    let start := Simulation.new setup .empty
    let events : List SimulationEvent :=
      [.register (.v4 [127, 0, 0, 1] 4000) 8, .mail 1 (.authenticated ⟨⟨5⟩, "ada", "x"⟩),
        .tick ⟨50⟩, .mail 1 (.command (.chat "hi")), .close 1, .tick ⟨50⟩,
        .register (.v4 [127, 0, 0, 1] 4001) 8, .mail 2 (.authenticated ⟨⟨6⟩, "bob", "y"⟩)]
    (start.run events).lobby.roll = [⟨2, ⟨6⟩, ⟨0, 1⟩⟩] ∧ start.admissions events < 2 ^ 32 ∧
      (start.run events).Bijective 1 := by
  intro setup start events
  have hn : start.admissions events < 2 ^ 32 :=
    Nat.lt_of_le_of_lt (start.admissions_le_length events) (by decide +kernel)
  exact ⟨by decide +kernel, hn, bijective_of_run setup events hn⟩

end Simulation

end Realm
