import Realm.World.Basic

/-!
# Scripted systems

Systems whose policy and whose work are given as data. The work is a list of actions on the
subscribed entities; it leaves a record of every run, with what the actions found. Components
are numbers that count under a kind.
-/

namespace Realm

structure Counter where
  kind : Kind
  value : Int64
  deriving DecidableEq, Repr

instance : Component Counter := ⟨Counter.kind⟩

inductive ScriptedPolicy where
  | cadence (cadence : Cadence)
  /-- Fires by a repeated pattern (always, if it is empty), and fails at one call. -/
  | pattern (name reason : String) (fires : List Bool) (failsAt : Option Nat) (calls : Nat)
  deriving Repr

instance : Policy ScriptedPolicy where
  decide policy delta :=
    match policy with
    | .cadence cadence => (.ok (cadence.advance delta).1, .cadence (cadence.advance delta).2)
    | .pattern name reason fires failsAt calls =>
      let after := .pattern name reason fires failsAt (calls + 1)
      if failsAt = some (calls + 1) then (.error (.policy name reason), after)
      else (.ok (fires.getD (calls % fires.length) true), after)

inductive Action where
  | create (components : List Counter)
  | destroy (handle : Handle)
  /-- Destroys every subscribed entity that is alive. -/
  | destroyEach
  /-- Destroys the subscribed entity at a position, if there is one. -/
  | destroyNth (position : Nat)
  | addEach (component : Counter)
  | removeEach (kind : Kind)
  /-- Adds to the counters of a kind in place. -/
  | increaseEach (kind : Kind) (amount : Int64)
  /-- Sums up the counters of a kind. -/
  | sum (kind : Kind)
  | fail (reason : String)
  deriving Repr

inductive Note where
  | handle (handle : Handle)
  | component (component : Option Counter)
  | sum (value : Int64)
  deriving DecidableEq, Repr

structure Run where
  system : String
  entities : List Handle
  delta : Duration
  notes : List Note
  deriving DecidableEq, Repr

/-- The runs of a tick, the last one first. -/
abbrev RunLog := List Run

namespace Action

def jot (note : Note) : Work Counter RunLog Unit :=
  Work.modifyShared fun
    | [] => []
    | run :: runs => { run with notes := run.notes ++ [note] } :: runs

def perform (name : String) (entities : List Handle) : Action → Work Counter RunLog Unit
  | .create components => do jot (.handle (← Work.create components))
  | .destroy h => Work.destroy h
  | .destroyEach => entities.forM fun h => do if (← Work.store).isAlive h then Work.destroy h
  | .destroyNth position => (entities[position]?.toList).forM Work.destroy
  | .addEach c => entities.forM fun h => do jot (.component (← Work.add h c))
  | .removeEach k => entities.forM fun h => do jot (.component (← Work.remove h k))
  | .increaseEach k amount => entities.forM fun h =>
      Work.modifyStore fun s => s.modify h k fun c => { c with value := c.value + amount }
  | .sum k => do
      let store ← Work.store
      jot (.sum ((entities.filterMap (store.get? · k)).foldl (fun total c => total + c.value) 0))
  | .fail reason => throw (.system name reason)

/-- Does the actions in order and leaves a record of the run. -/
def performAll (name : String) (actions : List Action) (entities : List Handle)
    (delta : Duration) : Work Counter RunLog Unit := do
  Work.modifyShared (⟨name, entities, delta, []⟩ :: ·)
  actions.forM (perform name entities)

end Action

abbrev ScriptedWorld := World Counter RunLog ScriptedPolicy

end Realm
