import Realm.Entity.Handle
import Realm.Entity.Mask

/-!
# Entities

An entity record holds at most one component of each kind. The record keeps the set of its kinds
as a mask, which changes only together with the places of the components.
-/

namespace Realm

/-- Components know the kind they are stored under. -/
class Component (C : Type) where
  kind : C → Kind

/-- An entity: its handle, the set of its kinds, and a place for each kind. -/
structure Entity (C : Type) where
  handle : Handle
  mask : Mask
  places : Vector (Option C) Kind.count

namespace Entity

variable {C : Type}

def bare (handle : Handle) : Entity C := ⟨handle, .empty, Vector.replicate _ none⟩

def get? (e : Entity C) (k : Kind) : Option C := e.places[k.position]

def components (e : Entity C) : List C := Kind.all.filterMap e.get?

/-- Rewrites the component of a kind, if there is one. The mask is not looked at, so `f` should
keep the kind. -/
def modify (e : Entity C) (k : Kind) (f : C → C) : Entity C :=
  { e with places := e.places.set k.position ((e.get? k).map f) }

def erase (e : Entity C) (k : Kind) : Entity C :=
  { e with mask := e.mask.erase k, places := e.places.set k.position none }

def insert [Component C] (e : Entity C) (c : C) : Entity C :=
  { e with
    mask := e.mask.insert (Component.kind c)
    places := e.places.set (Component.kind c).position (some c) }

/-- The entity with the given components; of two of one kind the later one stays. -/
def ofComponents [Component C] (handle : Handle) (components : List C) : Entity C :=
  components.foldl insert (bare handle)

def maskOf [Component C] (components : List C) : Mask :=
  components.foldl (fun mask c => mask.insert (Component.kind c)) .empty

@[simp] theorem handle_modify (e : Entity C) (k : Kind) (f : C → C) :
    (e.modify k f).handle = e.handle := rfl

@[simp] theorem handle_erase (e : Entity C) (k : Kind) : (e.erase k).handle = e.handle := rfl

@[simp] theorem handle_insert [Component C] (e : Entity C) (c : C) :
    (e.insert c).handle = e.handle := rfl

end Entity

end Realm
