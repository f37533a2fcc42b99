import Realm.Message.Topic
import Realm.Wire.Packet

/-!
# Message catalogs

A catalog tells, for each kind of packet, which topic its messages are published on and how
their payload is read. Types are kept in the order of their kinds, at most one for each kind.
-/

namespace Realm

open Wire (Packet WireError)

/-- A type of message: its kind, its topic, and how its payload is read. -/
structure MessageType (α : Type) where
  kind : UInt8
  topic : Topic
  decode : List UInt8 → Except WireError α

/-- The message types a reader knows, in the order of their kinds. -/
structure Catalog (α : Type) where
  types : List (MessageType α)

namespace Catalog

variable {α : Type}

def empty : Catalog α := ⟨[]⟩

/-- Puts a type at the place of its kind, instead of the type that had the kind before. -/
def insertType (new : MessageType α) : List (MessageType α) → List (MessageType α)
  | [] => [new]
  | type :: types =>
    if new.kind < type.kind then new :: type :: types
    else if new.kind = type.kind then new :: types
    else type :: insertType new types

/-- Adds a message type; of two types of one kind the later one stays. -/
def register (c : Catalog α) (new : MessageType α) : Catalog α := ⟨insertType new c.types⟩

def ofList (types : List (MessageType α)) : Catalog α := types.foldl register empty

def find? (c : Catalog α) (kind : UInt8) : Option (MessageType α) :=
  c.types.find? fun type => type.kind = kind

def decode (c : Catalog α) (p : Packet) : Except WireError (Topic × α) :=
  match c.find? p.kind with
  | none => .error (.unknownKind p.kind)
  | some type =>
    match type.decode p.payload with
    | .error e => .error e
    | .ok message => .ok (type.topic, message)

def size (c : Catalog α) : Nat := c.types.length

/-- The topics of all types, in order and each once. -/
def topics (c : Catalog α) : List Topic := ((c.types.map (·.topic)).mergeSort Topic.le).eraseReps

def display (c : Catalog α) : String :=
  "\x7b" ++ String.intercalate ", " (c.types.map fun type => s!"{type.kind}: {type.topic.display}")
    ++ "\x7d"

end Catalog

end Realm
