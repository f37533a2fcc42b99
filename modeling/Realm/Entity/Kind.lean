/-!
# Component kinds

Components are stored by kind. There are 64 kinds, one for each bit of a mask.
-/

namespace Realm

def Kind.count : Nat := 64

structure Kind where
  position : Fin Kind.count
  deriving DecidableEq, Repr

/-- What goes wrong when a value that must be in range is not. -/
inductive Violation where
  /-- A kind was asked for at a position that no mask has. -/
  | kindOutOfRange
  /-- More identities are free than were issued. -/
  | reservedBelowZero
  deriving DecidableEq, Repr

def Violation.message : Violation → String
  | .kindOutOfRange => "component kind position out of range"
  | .reservedBelowZero => "attempt to subtract with overflow"

namespace Kind

def ofNat? (position : Nat) : Option Kind :=
  if h : position < count then some ⟨⟨position, h⟩⟩ else none

/-- The kind at a position that has to be one. -/
def ofNat (position : Nat) : Except Violation Kind :=
  match ofNat? position with
  | some kind => .ok kind
  | none => .error .kindOutOfRange

def index (k : Kind) : Nat := k.position.val

def all : List Kind := (List.finRange count).map Kind.mk

def display (k : Kind) : String := s!"kind#{k.index}"

theorem index_lt (k : Kind) : k.index < count := k.position.isLt

theorem mem_all (k : Kind) : k ∈ all := by simp [all, List.mem_finRange]

end Kind

end Realm
