import Realm.Message.Inbound
import Realm.Simulation.Systems

/-!
# The simulation

The simulation owns the game world. Mail turns authenticated clients into players and queues
their commands; a tick advances the world; the end of the simulation ends every session.
-/

namespace Realm

structure SimulationSetup where
  entityCapacity : UInt32
  rules : GameRules
  sessions : SessionLimits
  deriving DecidableEq, Repr

structure Simulation where
  world : GameWorld
  limits : SessionLimits

namespace Simulation

/-- A simulation whose world has the three systems of the game. -/
def new (setup : SimulationSetup) (lobby : Lobby) : Simulation :=
  let world : GameWorld := .empty setup.entityCapacity lobby
  let add := fun (w : GameWorld) (s : GameSystem) => (s.addTo setup.rules w s.interest).2
  ⟨[GameSystem.commands, .movement, .drain].foldl add world, setup.sessions⟩

def lobby (s : Simulation) : Lobby := s.world.shared

def withLobby (s : Simulation) (lobby : Lobby) : Simulation :=
  { s with world := s.world.withShared lobby }

def modifyLobby (s : Simulation) (f : Lobby → Lobby) : Simulation := s.withLobby (f s.lobby)

def playerComponents (client : ConnectionId) (account : AccountId) : List GameComponent :=
  [.transform .origin, .player ⟨client, account⟩]

def fullNotice : Event := .loginRejected "server is full"

/-- Makes a player of an authenticated client. Nothing happens if the client has left or plays
already; if the world is full the client is told so and its connection closed. -/
def join (s : Simulation) (client : ConnectionId) (account : Account) : Simulation :=
  match s.lobby.connections.get? client, s.lobby.session? client with
  | none, _ => s
  | some _, some _ => s
  | some _, none =>
    match s.world.store.create (playerComponents client account.id) with
    | .error (.capacity _) =>
      s.modifyLobby (·.modifyConnection client (·.dismiss fullNotice.toPacket))
    | .error _ => s.modifyLobby (·.modifyConnection client (·.close))
    | .ok (entity, store) =>
      let session := Session.fresh client account.id entity s.limits
      let s := { s with world := s.world.withStore store }
      let s := s.modifyLobby fun l => { l with sessions := (l.sessions.put session).2 }
      s.modifyLobby (·.modifyConnection client fun c => (Session.send c (.loginAccepted entity)).2)

def handle (s : Simulation) (client : ConnectionId) : Inbound → Simulation
  | .authenticated account => s.join client account
  | .command command => s.modifyLobby fun l => (l.queueCommand client command).2

/-- Advances the world. A failure ends the tick, not the simulation. -/
def tick (s : Simulation) (delta : Duration) : Except WorldError Unit × Simulation :=
  let (result, world) := s.world.update delta
  (result, { s with world })

/-- Ends every session and destroys its entity. -/
def finish (s : Simulation) : Simulation :=
  s.lobby.sessions.sessions.foldl (fun s session =>
    let s := s.modifyLobby (·.endSession session.connection)
    match s.world.store.destroy session.entity with
    | .ok store => { s with world := s.world.withStore store }
    | .error _ => s) s

end Simulation

end Realm
