import Realm.Entity.Handle
import Realm.Wire.Field
import Realm.Wire.Packet

/-!
# Server events

What the server tells a client. Events have kinds from 128 on, so they never collide with
commands. Unlike a command, an event may carry any singles.
-/

namespace Realm

open Wire (Field Packet Read Reader WireError)

inductive Event where
  | loginAccepted (entity : Handle)
  | loginRejected (reason : String)
  | entityMoved (entity : Handle) (x y : Single)
  | chatRelay (entity : Handle) (text : String)
  | pong (nonce : UInt32)
  deriving DecidableEq, Repr

namespace Event

def kind : Event → UInt8
  | .loginAccepted _ => 128
  | .loginRejected _ => 129
  | .entityMoved _ _ _ => 130
  | .chatRelay _ _ => 131
  | .pong _ => 132

def handleFields (h : Handle) : List Field := [.number h.id, .number h.generation]

def fields : Event → List Field
  | .loginAccepted entity => handleFields entity
  | .loginRejected reason => [.text reason]
  | .entityMoved entity x y => handleFields entity ++ [.single x, .single y]
  | .chatRelay entity text => handleFields entity ++ [.text text]
  | .pong nonce => [.number nonce]

def toPacket (e : Event) : Packet := ⟨e.kind, Field.encodeAll e.fields⟩

def readHandle : Read Handle := do
  let id ← Reader.number "entity.id"
  let generation ← Reader.number "entity.generation"
  pure ⟨id, generation⟩

/-- Reads the fields of an event of the given kind; `none` for a kind that is no event's. -/
def fieldsOf? (kind : UInt8) : Option (Read Event) :=
  if kind = 128 then some do
    let entity ← readHandle
    pure (.loginAccepted entity)
  else if kind = 129 then some do
    let reason ← Reader.text "reason"
    pure (.loginRejected reason)
  else if kind = 130 then some do
    let entity ← readHandle
    let x ← Reader.single "x"
    let y ← Reader.single "y"
    pure (.entityMoved entity x y)
  else if kind = 131 then some do
    let entity ← readHandle
    let text ← Reader.text "text"
    pure (.chatRelay entity text)
  else if kind = 132 then some do
    let nonce ← Reader.number "nonce"
    pure (.pong nonce)
  else none

def ofPacket (p : Packet) : Except WireError Event :=
  match fieldsOf? p.kind with
  | none => .error (.unknownKind p.kind)
  | some fields => Reader.run p.payload fields

end Event

end Realm
