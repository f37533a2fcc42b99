import Realm.Entity.Store
import Realm.World.Policy

/-!
# Systems

A system is a unit of work that a world does at its ticks: a policy, an interest in certain
kinds, the list of the entities that have one of these kinds, and what is done with them. The
work sees the entity store and a value of type `σ` that all systems of a world share.
-/

namespace Realm

structure Stage (C σ : Type) where
  store : Store C
  shared : σ

/-- Work on a stage. What was done before a failure stays done. -/
abbrev Work (C σ α : Type) := EStateM WorldError (Stage C σ) α

namespace Work

variable {C σ α : Type}

/-- Work on the store that may fail and then changes nothing. -/
def onStore (f : Store C → Except WorldError (α × Store C)) : Work C σ α := fun stage =>
  match f stage.store with
  | .ok (a, store) => .ok a { stage with store }
  | .error e => .error e stage

def modifyStore (f : Store C → Store C) : Work C σ Unit :=
  modify fun stage => { stage with store := f stage.store }

/-- Work that changes what the systems share and cannot fail. -/
def modifyShared (f : σ → σ) : Work C σ Unit :=
  modify fun stage => { stage with shared := f stage.shared }

def store : Work C σ (Store C) := do return (← get).store

def shared : Work C σ σ := do return (← get).shared

def create [Component C] (components : List C) : Work C σ Handle :=
  onStore fun s => s.create components

def destroy (h : Handle) : Work C σ Unit :=
  onStore fun s => (s.destroy h).map fun s => ((), s)

def add [Component C] (h : Handle) (c : C) : Work C σ (Option C) := onStore fun s => s.add h c

def remove (h : Handle) (k : Kind) : Work C σ (Option C) := onStore fun s => s.remove h k

end Work

structure System (C σ P : Type) where
  name : String
  /-- The kinds of which an entity needs one to be subscribed. -/
  interest : Mask
  policy : P
  process : List Handle → Duration → Work C σ Unit
  /-- The subscribed entities, in the order of their subscription. -/
  entities : List Handle

namespace System

variable {C σ P : Type}

def wants (s : System C σ P) (mask : Mask) : Bool := s.interest.intersects mask

/-- Subscribes or drops an entity, as its mask demands. -/
def resubscribe (s : System C σ P) (h : Handle) (mask : Mask) : System C σ P :=
  if s.wants mask then
    if h ∈ s.entities then s else { s with entities := s.entities ++ [h] }
  else { s with entities := s.entities.erase h }

def unsubscribe (s : System C σ P) (h : Handle) : System C σ P :=
  { s with entities := s.entities.filter fun other => other ≠ h }

def follow (s : System C σ P) : Transition → System C σ P
  | .added h mask => s.resubscribe h mask
  | .changed h mask => s.resubscribe h mask
  | .removed h => s.unsubscribe h

/-- Subscribes the visible entities of a store to a system that has seen none yet. -/
def backfill (s : System C σ P) (store : Store C) : System C σ P :=
  { s with
    entities := s.entities ++ (store.visible.filter fun e => s.wants e.mask).map (·.handle) }

/-- Runs the system at a tick if its policy says so. -/
def run [Policy P] (s : System C σ P) (delta : Duration) (stage : Stage C σ) :
    Except WorldError Bool × System C σ P × Stage C σ :=
  match Policy.decide s.policy delta with
  | (.error e, policy) => (.error e, { s with policy }, stage)
  | (.ok false, policy) => (.ok false, { s with policy }, stage)
  | (.ok true, policy) =>
    match s.process s.entities delta stage with
    | .ok _ stage => (.ok true, { s with policy }, stage)
    | .error e stage => (.error e, { s with policy }, stage)

end System

end Realm
