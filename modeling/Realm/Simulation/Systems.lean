import Realm.Simulation.Component
import Realm.Simulation.Lobby
import Realm.World.Basic

/-!
# The systems of the game

Three systems run at a tick, in this order. The command system applies what the players asked
for and removes those whose session is over. The movement system advances what moves by one fixed
step and announces the new positions. The drain system hands the events of the tick to the
writers. So the effect of a command and the events it causes belong to the tick it is applied in.
-/

namespace Realm

abbrev GameWork (α : Type) := Work GameComponent Lobby α

abbrev GameWorld := World GameComponent Lobby Cadence

/-- The connection of the player who controls an entity. -/
def Store.playerOf (s : Store GameComponent) (h : Handle) : Option ConnectionId :=
  ((s.get? h .player).bind (·.link?)).map (·.connection)

/-! ## Commands -/

namespace CommandSystem

/-- Removes a player: the session ends and the entity is destroyed. -/
def reap (entity : Handle) (connection : ConnectionId) : GameWork Unit := do
  Work.modifyShared (·.endSession connection)
  Work.destroy entity

/-- Applies one command of the player of an entity. A velocity of zero is no velocity. -/
def apply (entity : Handle) (connection : ConnectionId) : Command → GameWork Unit
  | .move dx dy => do
    if dx.isZero && dy.isZero then
      discard (Work.remove entity .velocity)
    else
      discard (Work.add entity (.velocity ⟨dx, dy⟩))
  | .chat text => Work.modifyShared (·.broadcast (.chatRelay entity text))
  | .ping nonce => Work.modifyShared fun l => (l.queueEvent connection (.pong nonce)).2
  | .logout => reap entity connection
  | .login _ _ => pure ()

/-- Applies at most `budget` queued commands, and none after the entity is gone. -/
def obey (entity : Handle) (connection : ConnectionId) : (budget : Nat) → GameWork Unit
  | 0 => pure ()
  | budget + 1 => do
    let (command, lobby) := (← Work.shared).takeCommand connection
    Work.modifyShared fun _ => lobby
    match command with
    | none => pure ()
    | some command =>
      apply entity connection command
      if (← Work.store).isAlive entity then obey entity connection budget

/-- Serves one entity: players whose session is over are removed, the others are obeyed. -/
def serve (budget : Nat) (entity : Handle) : GameWork Unit := do
  let store ← Work.store
  if store.isAlive entity then
    match store.playerOf entity with
    | none => pure ()
    | some connection =>
      let lobby ← Work.shared
      match lobby.session? connection with
      | none => reap entity connection
      | some session =>
        if lobby.isFinished session then reap entity connection
        else obey entity connection budget

def process (budget : Nat) (entities : List Handle) (_ : Duration) : GameWork Unit :=
  entities.forM (serve budget)

end CommandSystem

/-! ## Movement -/

namespace MovementSystem

/-- A span of time in seconds, as a single: whole seconds and the fraction are rounded apart. -/
def seconds (step : Duration) : Single :=
  .ofNat step.seconds + .ofNat step.subsecond / .ofNat Duration.nanosPerSecond

def advance (t : Single) (v : Velocity) (p : Position) : Position :=
  ⟨p.x + v.dx * t, p.y + v.dy * t⟩

/-- Moves one entity and announces where it is. One without a position appears at the origin. -/
def move (step : Duration) (entity : Handle) : GameWork Unit := do
  let store ← Work.store
  if store.isAlive entity then
    match (store.get? entity .velocity).bind (·.velocity?) with
    | none => pure ()
    | some velocity =>
      match (store.get? entity .transform).bind (·.position?) with
      | some position =>
        let moved := advance (seconds step) velocity position
        Work.modifyStore (·.modify entity .transform fun _ => .transform moved)
        Work.modifyShared (·.broadcast (.entityMoved entity moved.x moved.y))
      | none =>
        discard (Work.add entity (.transform .origin))
        Work.modifyShared (·.broadcast (.entityMoved entity .zero .zero))

def process (step : Duration) (entities : List Handle) (_ : Duration) : GameWork Unit :=
  entities.forM (move step)

end MovementSystem

/-! ## Draining -/

namespace DrainSystem

def drain (entity : Handle) : GameWork Unit := do
  match (← Work.store).playerOf entity with
  | none => pure ()
  | some connection => Work.modifyShared (·.drainEvents connection)

def process (entities : List Handle) (_ : Duration) : GameWork Unit := entities.forM drain

end DrainSystem

/-! ## The systems of a world -/

inductive GameSystem where
  | commands
  | movement
  | drain
  deriving DecidableEq, Repr

structure GameRules where
  commandsPerTick : Nat
  movementInterval : Duration
  deriving DecidableEq, Repr

namespace GameSystem

def name : GameSystem → String
  | .commands => "commands"
  | .movement => "movement"
  | .drain => "event_drain"

def interest : GameSystem → Mask
  | .commands => .single .player
  | .movement => .single .velocity
  | .drain => .single .player

def cadence (rules : GameRules) : GameSystem → Cadence
  | .movement => .interval (.every rules.movementInterval)
  | _ => .always

def process (rules : GameRules) : GameSystem → List Handle → Duration → GameWork Unit
  | .commands => CommandSystem.process rules.commandsPerTick
  | .movement => MovementSystem.process rules.movementInterval
  | .drain => DrainSystem.process

def addTo (rules : GameRules) (w : GameWorld) (system : GameSystem) (interest : Mask) :
    SystemId × GameWorld :=
  w.addSystem system.name interest (system.cadence rules) (system.process rules)

end GameSystem

end Realm
