import Realm.World.System

/-!
# The world

A world owns an entity store and an ordered list of systems. A tick has two phases. The first
makes the changes since the last tick visible: transitions of entities, then systems that leave,
then systems that join. The second runs the systems in order and stops at the first failure;
what the first phase did stays.
-/

namespace Realm

structure SystemId where
  number : UInt32
  deriving DecidableEq, Repr, Inhabited

def SystemId.display (id : SystemId) : String := s!"system#{id.number}"

/-- Entities and the systems that work on them. -/
structure World (C σ P : Type) where
  stage : Stage C σ
  /-- The registered systems, in the order they run. -/
  systems : List (SystemId × System C σ P)
  /-- The systems that join at the next tick. -/
  joining : List (SystemId × System C σ P)
  /-- The systems that leave at the next tick. -/
  leaving : List SystemId
  nextId : UInt32
  ticks : Nat

namespace World

variable {C σ P : Type}

def empty (capacity : UInt32) (shared : σ) : World C σ P :=
  ⟨⟨.empty capacity, shared⟩, [], [], [], 0, 0⟩

def store (w : World C σ P) : Store C := w.stage.store

def shared (w : World C σ P) : σ := w.stage.shared

def withStore (w : World C σ P) (store : Store C) : World C σ P :=
  { w with stage := { w.stage with store } }

def withShared (w : World C σ P) (shared : σ) : World C σ P :=
  { w with stage := { w.stage with shared } }

/-- Adds a system, which joins at the next tick. -/
def addSystem (w : World C σ P) (name : String) (interest : Mask) (policy : P)
    (process : List Handle → Duration → Work C σ Unit) : SystemId × World C σ P :=
  let id : SystemId := ⟨w.nextId⟩
  (id, { w with
    joining := w.joining ++ [(id, ⟨name, interest, policy, process, []⟩)]
    nextId := w.nextId + 1 })

/-- Removes a system, which leaves at the next tick. -/
def removeSystem (w : World C σ P) (id : SystemId) : World C σ P :=
  { w with leaving := w.leaving ++ [id] }

def system? (w : World C σ P) (id : SystemId) : Option (System C σ P) :=
  (w.systems.find? fun entry => entry.1 = id).map (·.2)

/-- The first phase of a tick. A system that leaves before it ever joined never runs. -/
def applyChanges (w : World C σ P) : World C σ P :=
  let (transitions, store) := w.store.apply
  let followed := w.systems.map fun (id, s) => (id, transitions.foldl System.follow s)
  let stays := fun (entry : SystemId × System C σ P) => !w.leaving.contains entry.1
  let joined := (w.joining.filter stays).map fun (id, s) => (id, s.backfill store)
  { w with
    stage := { w.stage with store }
    systems := followed.filter stays ++ joined
    joining := []
    leaving := [] }

/-- Runs systems in order up to the first that fails. -/
def runSystems [Policy P] (delta : Duration) (stage : Stage C σ) :
    List (SystemId × System C σ P) →
    Except WorldError Unit × List (SystemId × System C σ P) × Stage C σ
  | [] => (.ok (), [], stage)
  | (id, s) :: rest =>
    match s.run delta stage with
    | (.error e, s, stage) => (.error e, (id, s) :: rest, stage)
    | (.ok _, s, stage) =>
      let (result, rest, stage) := runSystems delta stage rest
      (result, (id, s) :: rest, stage)

def runTick [Policy P] (w : World C σ P) (delta : Duration) :
    Except WorldError Unit × World C σ P :=
  let (result, systems, stage) := runSystems delta w.stage w.systems
  (result, { w with stage, systems, ticks := w.ticks + 1 })

def update [Policy P] (w : World C σ P) (delta : Duration) :
    Except WorldError Unit × World C σ P :=
  w.applyChanges.runTick delta

end World

end Realm
