/-!
# Bounded queues

A first-in first-out queue with a fixed number of places, at least one. A full queue refuses
the newest item and stays as it is.
-/

namespace Realm

/-- A queue that holds at most `capacity` items. -/
structure Bounded (α : Type) where
  capacity : Nat
  items : List α
  deriving DecidableEq, Repr

namespace Bounded

variable {α : Type}

/-- The empty queue. A capacity of zero counts as one. -/
def empty (capacity : Nat) : Bounded α := ⟨max 1 capacity, []⟩

def isFull (q : Bounded α) : Bool := q.capacity ≤ q.items.length

def room (q : Bounded α) : Nat := q.capacity - q.items.length

def size (q : Bounded α) : Nat := q.items.length

def push (q : Bounded α) (a : α) : Bounded α := { q with items := q.items ++ [a] }

/-- Adds an item at the end if there is a place for it; whether it was added. -/
def offer (q : Bounded α) (a : α) : Bool × Bounded α :=
  if q.isFull then (false, q) else (true, q.push a)

def pop (q : Bounded α) : Option α × Bounded α :=
  match q.items with
  | [] => (none, q)
  | a :: rest => (some a, { q with items := rest })

/-- Takes the first `n` items, or all if `n` is none. -/
def drain (q : Bounded α) (n : Option Nat) : List α × Bounded α :=
  match n with
  | none => (q.items, { q with items := [] })
  | some n => (q.items.take n, { q with items := q.items.drop n })

def clear (q : Bounded α) : Bounded α := { q with items := [] }

@[simp] theorem items_push (q : Bounded α) (a : α) : (q.push a).items = q.items ++ [a] := rfl

@[simp] theorem capacity_offer (q : Bounded α) (a : α) :
    (q.offer a).2.capacity = q.capacity := by
  unfold offer
  split <;> rfl

end Bounded

end Realm
