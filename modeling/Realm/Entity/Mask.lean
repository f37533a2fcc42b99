import Realm.Entity.Kind

/-!
# Masks

A set of component kinds, one bit of a word for each kind.
-/

namespace Realm

structure Mask where
  bits : UInt64
  deriving DecidableEq, Repr, Inhabited

namespace Mask

def empty : Mask := ⟨0⟩

def single (k : Kind) : Mask := ⟨1 <<< UInt64.ofNat k.index⟩

def union (a b : Mask) : Mask := ⟨a.bits ||| b.bits⟩

def insert (m : Mask) (k : Kind) : Mask := ⟨m.bits ||| (single k).bits⟩

def erase (m : Mask) (k : Kind) : Mask := ⟨m.bits &&& ~~~(single k).bits⟩

def ofList (kinds : List Kind) : Mask := kinds.foldl insert empty

def contains (m : Mask) (k : Kind) : Bool := m.bits &&& (single k).bits != 0

def intersects (a b : Mask) : Bool := a.bits &&& b.bits != 0

def isEmpty (m : Mask) : Bool := m.bits == 0

def ones (n : Nat) : Nat := if n = 0 then 0 else n % 2 + ones (n / 2)
termination_by n
decreasing_by omega

def size (m : Mask) : Nat := ones m.bits.toNat

def toList (m : Mask) : List Kind := Kind.all.filter m.contains

end Mask

end Realm
