import Realm.Entity.Basic
import Realm.World.Error

/-!
# The entity store

The store owns the identities and the entity records. An identity has a slot: its current
generation, the record that systems see, and the record that waits to be seen. Creating,
destroying and changing the set of components act on the records at once, but the visible set
changes only in `Store.apply`, which replays the noted changes and reports the transitions.

Destroying an entity releases its identity at once, while its record stays visible under the
old handle until the next `apply`; so one slot can hold the visible record of a destroyed entity
beside the waiting record of the next occupant.
-/

namespace Realm

/-- One identity. -/
structure Slot (C : Type) where
  /-- The generation that a living entity of this identity carries. -/
  generation : UInt32
  /-- The record that systems see. -/
  visible : Option (Entity C)
  /-- The record that becomes visible at the next `apply`. -/
  pending : Option (Entity C)

/-- A structural change that systems have not seen yet. -/
inductive Change where
  | created (handle : Handle)
  | destroyed (handle : Handle)
  | changed (handle : Handle)
  deriving DecidableEq, Repr

/-- What a change did to the visible set. -/
inductive Transition where
  /-- The entity became visible with this mask. -/
  | added (handle : Handle) (mask : Mask)
  /-- The kinds of a visible entity changed; this is its mask now. -/
  | changed (handle : Handle) (mask : Mask)
  /-- The entity is gone. -/
  | removed (handle : Handle)
  deriving DecidableEq, Repr

structure Store (C : Type) where
  /-- The number of identities that can be taken at once. -/
  capacity : UInt32
  /-- The identities issued so far. -/
  slots : Array (Slot C)
  /-- The released identities, the one released last first. -/
  free : List UInt32
  /-- The changes since the last `apply`, in order. -/
  changes : Array Change

/-- The record, if it carries exactly this handle. -/
def Entity.matching {C : Type} (h : Handle) (record : Option (Entity C)) : Option (Entity C) :=
  record.filter fun e => e.handle = h

namespace Slot

variable {C : Type}

def fresh : Slot C := ⟨0, none, none⟩

/-- The record with a handle: the visible one first, else the waiting one. -/
def find? (slot : Slot C) (h : Handle) : Option (Entity C) :=
  (Entity.matching h slot.visible).or (Entity.matching h slot.pending)

def modify (slot : Slot C) (h : Handle) (f : Entity C → Entity C) : Slot C :=
  if (Entity.matching h slot.visible).isSome then { slot with visible := slot.visible.map f }
  else if (Entity.matching h slot.pending).isSome then { slot with pending := slot.pending.map f }
  else slot

end Slot

namespace Store

variable {C : Type}

def empty (capacity : UInt32) : Store C := ⟨capacity, #[], [], #[]⟩

def slot? (s : Store C) (h : Handle) : Option (Slot C) := s.slots[h.id.toNat]?

def modifySlot (s : Store C) (h : Handle) (f : Slot C → Slot C) : Store C :=
  { s with slots := s.slots.modify h.id.toNat f }

/-- Notes a change for the next `apply`. -/
def note (s : Store C) (change : Change) : Store C :=
  { s with changes := s.changes.push change }

/-! ## Looking -/

/-- Whether the handle carries the current generation of its identity. -/
def isAlive (s : Store C) (h : Handle) : Bool :=
  match s.slot? h with
  | some slot => slot.generation = h.generation
  | none => false

/-- The record with a handle. Records of destroyed entities can be found until the next `apply`. -/
def find? (s : Store C) (h : Handle) : Option (Entity C) := (s.slot? h).bind (·.find? h)

def get? (s : Store C) (h : Handle) (k : Kind) : Option C := (s.find? h).bind (·.get? k)

def mask? (s : Store C) (h : Handle) : Option Mask := (s.find? h).map (·.mask)

/-- The entities that systems see, in the order of their identities. -/
def visible (s : Store C) : List (Entity C) := s.slots.toList.filterMap (·.visible)

def visibleCount (s : Store C) : Nat := s.visible.length

/-- The number of identities in use. There is none when more identities are free than were
issued, which takes handles that the store never gave out. -/
def reserved (s : Store C) : Except Violation Nat :=
  if s.free.length ≤ s.slots.size then .ok (s.slots.size - s.free.length)
  else .error .reservedBelowZero

/-! ## Changing -/

/-- Takes an identity: the one released last, or a new one as long as the capacity admits it. -/
def reserve (s : Store C) : Except WorldError (UInt32 × Store C) :=
  match s.free with
  | id :: free => .ok (id, { s with free })
  | [] =>
    let next := UInt32.ofNat s.slots.size
    if s.capacity ≤ next then .error (.capacity s.capacity)
    else .ok (next, { s with slots := s.slots.push .fresh })

def handleOf (s : Store C) (id : UInt32) : Handle :=
  ⟨id, ((s.slots[id.toNat]?).map (·.generation)).getD 0⟩

/-- Creates an entity, which becomes visible at the next `apply`. -/
def create [Component C] (s : Store C) (components : List C) :
    Except WorldError (Handle × Store C) :=
  match s.reserve with
  | .error e => .error e
  | .ok (id, s) =>
    let h := s.handleOf id
    let s := s.modifySlot h fun slot => { slot with pending := some (.ofComponents h components) }
    .ok (h, s.note (.created h))

/-- Destroys an entity. Its identity is free at once. A visible record stays until the next
`apply`; a waiting one is dropped. -/
def destroy (s : Store C) (h : Handle) : Except WorldError (Store C) :=
  if s.isAlive h then
    let waiting := ((s.slot? h).bind fun slot => Entity.matching h slot.pending).isSome
    let s := s.modifySlot h fun slot => { slot with generation := slot.generation + 1 }
    let s := { s with free := h.id :: s.free }
    .ok (if waiting then s.modifySlot h fun slot => { slot with pending := none }
      else s.note (.destroyed h))
  else .error (.stale h)

/-- Rewrites the record of a living entity. A visible record's change is noted if `matters`. -/
def change (s : Store C) (h : Handle) (f : Entity C → Entity C) (matters : Entity C → Bool) :
    Except WorldError (Entity C × Store C) :=
  if s.isAlive h then
    match s.slot? h with
    | none => .error (.stale h)
    | some slot =>
      match Entity.matching h slot.visible, Entity.matching h slot.pending with
      | some e, _ =>
        let s := s.modifySlot h (·.modify h f)
        .ok (e, if matters e then s.note (.changed h) else s)
      | none, some e => .ok (e, s.modifySlot h (·.modify h f))
      | none, none => .error (.stale h)
  else .error (.stale h)

/-- Attaches a component and returns the one of the same kind that it replaced. -/
def add [Component C] (s : Store C) (h : Handle) (c : C) :
    Except WorldError (Option C × Store C) :=
  (s.change h (·.insert c) fun _ => true).map fun (e, s) => (e.get? (Component.kind c), s)

/-- Detaches the component of a kind and returns it. -/
def remove (s : Store C) (h : Handle) (k : Kind) : Except WorldError (Option C × Store C) :=
  (s.change h (·.erase k) fun e => (e.get? k).isSome).map fun (e, s) => (e.get? k, s)

/-- Rewrites the component of a kind in place, where it can be found. -/
def modify (s : Store C) (h : Handle) (k : Kind) (f : C → C) : Store C :=
  s.modifySlot h (·.modify h (·.modify k f))

/-! ## Applying the changes -/

/-- Applies one change to the visible set; a change that no longer concerns a record is skipped. -/
def applyChange (s : Store C) (change : Change) : Option Transition × Store C :=
  match change with
  | .created h =>
    match (s.slot? h).bind fun slot => Entity.matching h slot.pending with
    | none => (none, s)
    | some e =>
      (some (.added h e.mask),
        s.modifySlot h fun slot => { slot with visible := some e, pending := none })
  | .destroyed h =>
    match (s.slot? h).bind fun slot => Entity.matching h slot.visible with
    | none => (none, s)
    | some _ => (some (.removed h), s.modifySlot h fun slot => { slot with visible := none })
  | .changed h =>
    match (s.slot? h).bind fun slot => Entity.matching h slot.visible with
    | none => (none, s)
    | some e => (some (.changed h e.mask), s)

def applyChanges (s : Store C) : List Change → List Transition × Store C
  | [] => ([], s)
  | change :: rest =>
    let (transition, s) := s.applyChange change
    let (transitions, s) := applyChanges s rest
    (transition.toList ++ transitions, s)

/-- Makes every noted change visible, in the order the changes were made. -/
def apply (s : Store C) : List Transition × Store C :=
  applyChanges { s with changes := #[] } s.changes.toList

end Store

end Realm
