import Realm.Account.Basic
import Realm.Entity.Basic
import Realm.Net.Connection
import Realm.Number.Single

/-!
# Components of the game world

Where an entity is, how fast it moves, and which client controls it.
-/

namespace Realm

structure Position where
  x : Single
  y : Single
  deriving DecidableEq, Repr

def Position.origin : Position := ⟨.zero, .zero⟩

/-- A velocity, in units per second. -/
structure Velocity where
  dx : Single
  dy : Single
  deriving DecidableEq, Repr

/-- The client that controls an entity. -/
structure PlayerLink where
  connection : ConnectionId
  account : AccountId
  deriving DecidableEq, Repr

inductive GameComponent where
  | transform (position : Position)
  | velocity (velocity : Velocity)
  | player (link : PlayerLink)
  deriving DecidableEq, Repr

namespace Kind

def transform : Kind := ⟨⟨0, by decide⟩⟩

def velocity : Kind := ⟨⟨1, by decide⟩⟩

def player : Kind := ⟨⟨2, by decide⟩⟩

end Kind

namespace GameComponent

def kind : GameComponent → Kind
  | .transform _ => .transform
  | .velocity _ => .velocity
  | .player _ => .player

instance : Component GameComponent := ⟨kind⟩

def position? : GameComponent → Option Position
  | .transform p => some p
  | _ => none

def velocity? : GameComponent → Option Velocity
  | .velocity v => some v
  | _ => none

def link? : GameComponent → Option PlayerLink
  | .player l => some l
  | _ => none

end GameComponent

end Realm
