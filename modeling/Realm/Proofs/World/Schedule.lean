import Mathlib.Data.List.Induction
import Realm.Proofs.World.Turns
import Realm.Proofs.World.Work
import Realm.World.Script

/-!
# The schedule of a world

Main statement: in a run of calls, an update runs the systems that were added before and not removed
before, in the order of their numbers, up to the first that fails. A failure takes nothing back of
what the first phase of the tick did.
-/

namespace Realm

variable {C σ P : Type}

inductive WorldCall (C σ P : Type) where
  | add (name : String) (interest : Mask) (policy : P)
      (process : List Handle → Duration → Work C σ Unit)
  | remove (id : SystemId)
  | update (delta : Duration)
  /-- Something is done to the entities or to what is shared. -/
  | edit (f : Stage C σ → Stage C σ)

/-- What a system is added as, and its number. -/
structure Badge (C σ : Type) where
  id : SystemId
  name : String
  interest : Mask
  process : List Handle → Duration → Work C σ Unit

def World.badge (entry : SystemId × System C σ P) : Badge C σ :=
  ⟨entry.1, entry.2.name, entry.2.interest, entry.2.process⟩

namespace WorldCall

def addedFrom : Nat → List (WorldCall C σ P) → List (Badge C σ)
  | _, [] => []
  | n, .add name interest _ process :: rest =>
    ⟨⟨.ofNat n⟩, name, interest, process⟩ :: addedFrom (n + 1) rest
  | n, _ :: rest => addedFrom n rest

def added (calls : List (WorldCall C σ P)) : List (Badge C σ) := addedFrom 0 calls

def removed? : WorldCall C σ P → Option SystemId
  | .remove id => some id
  | _ => none

def removed (calls : List (WorldCall C σ P)) : List SystemId := calls.filterMap removed?

def isUpdate : WorldCall C σ P → Bool
  | .update _ => true
  | _ => false

/-- Only numbers are removed that were given to a system before, `n` of them at the beginning. -/
def Lawful : Nat → List (WorldCall C σ P) → Prop
  | _, [] => True
  | n, .add _ _ _ _ :: rest => Lawful (n + 1) rest
  | n, .remove id :: rest => id.number.toNat < n ∧ Lawful n rest
  | n, _ :: rest => Lawful n rest

end WorldCall

namespace World

variable [Policy P]

def call (w : World C σ P) : WorldCall C σ P → World C σ P
  | .add name interest policy process => (w.addSystem name interest policy process).2
  | .remove id => w.removeSystem id
  | .update delta => (w.update delta).2
  | .edit f => { w with stage := f w.stage }

def callAll (w : World C σ P) (calls : List (WorldCall C σ P)) : World C σ P := calls.foldl call w

def turnsAt (w : World C σ P) (delta : Duration) : List (SystemId × Turn C σ) :=
  turns delta w.applyChanges.stage w.applyChanges.systems

end World

open WorldCall

variable {calls before : List (WorldCall C σ P)} {c : WorldCall C σ P} {n : Nat}

/-! ## Numbers -/

namespace WorldCall

theorem addedFrom_append (n : Nat) (calls rest : List (WorldCall C σ P)) :
    addedFrom n (calls ++ rest) =
      addedFrom n calls ++ addedFrom (n + (addedFrom n calls).length) rest := by
  induction calls generalizing n with
  | nil => rfl
  | cons c calls ih =>
      cases c with
      | add name interest policy process =>
          rw [List.cons_append, addedFrom, ih, addedFrom, List.cons_append, List.length_cons,
            Nat.add_assoc, Nat.add_comm 1]
      | _ => exact ih n

theorem added_concat_add (calls : List (WorldCall C σ P)) (name : String) (interest : Mask)
    (policy : P) (process : List Handle → Duration → Work C σ Unit) :
    added (calls ++ [.add name interest policy process]) =
      added calls ++ [⟨⟨.ofNat (added calls).length⟩, name, interest, process⟩] := by
  rw [added, addedFrom_append, Nat.zero_add]
  rfl

theorem removed_append (calls rest : List (WorldCall C σ P)) :
    removed (calls ++ rest) = removed calls ++ removed rest := List.filterMap_append

/-- The numbers of the added systems, if they do not run out. -/
theorem numbers_addedFrom (hn : n + (addedFrom n calls).length ≤ 2 ^ 32) :
    (addedFrom n calls).map (·.id.number.toNat) = List.range' n (addedFrom n calls).length := by
  induction calls generalizing n with
  | nil => rfl
  | cons c calls ih =>
      cases c with
      | add name interest policy process =>
          rw [addedFrom, List.length_cons] at hn ⊢
          rw [List.map_cons, List.range'_succ, ih (by omega)]
          have hsize : n < UInt32.size := show n < 2 ^ 32 by omega
          rw [UInt32.toNat_ofNat_of_lt' hsize]
      | _ => exact ih hn

theorem lawful_append (n : Nat) (calls rest : List (WorldCall C σ P)) :
    Lawful n (calls ++ rest) ↔
      Lawful n calls ∧ Lawful (n + (addedFrom n calls).length) rest := by
  induction calls generalizing n with
  | nil => exact (iff_of_eq (true_and _)).symm
  | cons c calls ih =>
      cases c with
      | add name interest policy process =>
          rw [List.cons_append, Lawful, ih, Lawful, addedFrom, List.length_cons, Nat.add_assoc,
            Nat.add_comm 1]
      | remove id =>
          rw [List.cons_append, Lawful, ih, Lawful, and_assoc]
          rfl
      | _ => exact ih n

/-- Removed numbers were given out. -/
theorem lt_of_mem_removed (h : Lawful n calls) {id : SystemId} (hm : id ∈ removed calls) :
    id.number.toNat < n + (addedFrom n calls).length := by
  induction calls generalizing n with
  | nil => cases hm
  | cons c calls ih =>
      cases c with
      | add name interest policy process =>
          have hlt := ih h hm
          rw [addedFrom, List.length_cons]
          omega
      | remove other =>
          rcases List.mem_cons.mp hm with rfl | hm
          · exact Nat.lt_of_lt_of_le h.1 (Nat.le_add_right _ _)
          · exact ih h.2 hm
      | update delta => exact ih h hm
      | edit f => exact ih h hm

end WorldCall

/-! ## One call -/

namespace World

variable {α : Type} {w : World C σ P}

/-- What a world has to do with the calls before. -/
structure Tracks (before : List (WorldCall C σ P)) (w : World C σ P) : Prop where
  nextId_eq : w.nextId = .ofNat (added before).length
  entries_eq : ((w.systems ++ w.joining).filter fun entry => !w.leaving.contains entry.1).map
      badge = (added before).filter fun b => !(removed before).contains b.id
  leaving_subset : w.leaving ⊆ removed before

theorem tracks_empty (capacity : UInt32) (shared : σ) :
    Tracks ([] : List (WorldCall C σ P)) (.empty capacity shared) :=
  ⟨rfl, rfl, List.Subset.refl _⟩

theorem Tracks.registered_eq (h : Tracks before w) : w.applyChanges.systems.map badge =
    (added before).filter fun b => !(removed before).contains b.id :=
  (w.map_applyChanges_of fun _ _ _ => rfl).trans h.entries_eq

theorem Tracks.addSystem (h : Tracks before w) (name : String) (interest : Mask) (policy : P)
    (process : List Handle → Duration → Work C σ Unit)
    (hfresh : ⟨w.nextId⟩ ∉ removed before) :
    Tracks (before ++ [.add name interest policy process])
      (w.addSystem name interest policy process).2 := by
  have hremoved : removed (before ++ [.add name interest policy process]) = removed before :=
    (removed_append _ _).trans (List.append_nil _)
  have hleaving : w.leaving.contains ⟨w.nextId⟩ = false := by
    rw [List.contains_eq_mem, decide_eq_false fun hm => hfresh (h.leaving_subset hm)]
  have hkept : (removed before).contains ⟨w.nextId⟩ = false := by
    rw [List.contains_eq_mem, decide_eq_false hfresh]
  refine ⟨?_, ?_, ?_⟩
  · show w.nextId + 1 = _
    rw [added_concat_add, List.length_append, h.nextId_eq, List.length_singleton, UInt32.ofNat_add]
    rfl
  · let new : SystemId × System C σ P := (⟨w.nextId⟩, ⟨name, interest, policy, process, []⟩)
    show ((w.systems ++ (w.joining ++ [new])).filter fun entry =>
      !w.leaving.contains entry.1).map badge = _
    rw [← List.append_assoc, List.filter_append, List.map_append, h.entries_eq, hremoved,
      added_concat_add, List.filter_append, ← h.nextId_eq]
    congr 1
    rw [List.filter_singleton, List.filter_singleton, hleaving, hkept]
    rfl
  · rw [hremoved]
    exact h.leaving_subset

theorem Tracks.removeSystem (h : Tracks before w) (id : SystemId) :
    Tracks (before ++ [.remove id]) (w.removeSystem id) := by
  have hremoved : removed (before ++ [.remove id]) = removed before ++ [id] := removed_append _ _
  have hadded : added (before ++ [.remove id]) = added before :=
    (addedFrom_append 0 before _).trans (List.append_nil _)
  have hsplit : ∀ (ids : List SystemId) (other : SystemId),
      (!(ids ++ [id]).contains other) = (!(other == id) && !ids.contains other) := by
    intro ids other
    rw [List.contains_append, Bool.not_or, Bool.and_comm, List.contains_cons, List.contains_nil,
      Bool.or_false]
  refine ⟨hadded ▸ h.nextId_eq, ?_, ?_⟩
  · show ((w.systems ++ w.joining).filter fun entry =>
      !(w.leaving ++ [id]).contains entry.1).map badge = _
    have hstays : (fun entry : SystemId × System C σ P => !(entry.1 == id)) =
        (fun b : Badge C σ => !(b.id == id)) ∘ badge := rfl
    rw [hadded, hremoved]
    simp only [hsplit]
    rw [← List.filter_filter, ← List.filter_filter, hstays, ← List.filter_map, h.entries_eq]
  · rw [hremoved]
    exact List.append_subset.mpr ⟨List.subset_append_of_subset_left _ h.leaving_subset,
      List.subset_append_right _ _⟩

/-- Systems keep their badges and what they list while they run. -/
theorem map_update [Policy P] (w : World C σ P) (delta : Duration)
    {f : SystemId × System C σ P → α}
    (hf : ∀ id (y : System C σ P) policy, f (id, { y with policy }) = f (id, y)) :
    (w.update delta).2.systems.map f = w.applyChanges.systems.map f := by
  have hturns := takesTurns_runSystems delta w.applyChanges.stage w.applyChanges.systems
  have hsystems : (w.update delta).2.systems =
      (runSystems delta w.applyChanges.stage w.applyChanges.systems).2.1 := rfl
  rw [hsystems, hturns.systems_eq, List.map_append, List.map_map]
  conv_rhs => rw [← List.take_append_drop (turns delta w.applyChanges.stage
    w.applyChanges.systems).length w.applyChanges.systems, List.map_append]
  congr 1
  exact List.map_congr_left fun entry _ => hf entry.1 entry.2 _

theorem Tracks.update [Policy P] (h : Tracks before w) (delta : Duration) :
    Tracks (before ++ [.update delta]) (w.update delta).2 := by
  have hremoved : removed (before ++ [.update delta]) = removed before :=
    (removed_append _ _).trans (List.append_nil _)
  have hadded : added (before ++ [.update delta]) = added before :=
    (addedFrom_append 0 before _).trans (List.append_nil _)
  refine ⟨hadded ▸ h.nextId_eq, ?_, List.nil_subset _⟩
  have hall : (((w.update delta).2.systems ++ (w.update delta).2.joining).filter fun entry =>
      !(w.update delta).2.leaving.contains entry.1) = (w.update delta).2.systems := by
    have hjoining : (w.update delta).2.joining = [] := rfl
    have hleaving : (w.update delta).2.leaving = [] := rfl
    rw [hjoining, hleaving, List.append_nil]
    exact List.filter_true _
  rw [hall, w.map_update delta fun _ _ _ => rfl, h.registered_eq, hadded, hremoved]

/-! ## A run -/

section Run

variable [Policy P] {capacity : UInt32} {shared : σ}

theorem callAll_append (w : World C σ P) (calls rest : List (WorldCall C σ P)) :
    w.callAll (calls ++ rest) = (w.callAll calls).callAll rest := List.foldl_append

/-- One call keeps track, if numbers are given out anew. -/
theorem Tracks.call (h : Tracks before w) (c : WorldCall C σ P)
    (hfresh : ⟨w.nextId⟩ ∉ removed before) : Tracks (before ++ [c]) (w.call c) := by
  cases c with
  | add name interest policy process => exact h.addSystem name interest policy process hfresh
  | remove id => exact h.removeSystem id
  | update delta => exact h.update delta
  | edit f =>
      have hremoved : removed (before ++ [.edit f]) = removed before :=
        (removed_append _ _).trans (List.append_nil _)
      have hadded : added (before ++ [.edit f]) = added before :=
        (addedFrom_append 0 before _).trans (List.append_nil _)
      refine ⟨hadded ▸ h.nextId_eq, ?_, hremoved ▸ h.leaving_subset⟩
      rw [hadded, hremoved]
      exact h.entries_eq

theorem tracks_run (capacity : UInt32) (shared : σ) (hadds : (added calls).length < 2 ^ 32)
    (hremoves : Lawful 0 calls) :
    Tracks calls ((World.empty capacity shared : World C σ P).callAll calls) := by
  induction calls using List.reverseRecOn with
  | nil => exact tracks_empty capacity shared
  | append_singleton before c ih =>
      have hbefore := ((lawful_append 0 before [c]).mp hremoves).1
      have hlength : (added before).length ≤ (added (before ++ [c])).length := by
        rw [added, added, addedFrom_append, List.length_append]
        exact Nat.le_add_right _ _
      have htracks := ih (Nat.lt_of_le_of_lt hlength hadds) hbefore
      rw [callAll_append]
      refine htracks.call c fun hm => ?_
      have hlt := lt_of_mem_removed hbefore hm
      have hsize : (added before).length < UInt32.size := Nat.lt_of_le_of_lt hlength hadds
      rw [htracks.nextId_eq, UInt32.toNat_ofNat_of_lt' hsize, Nat.zero_add] at hlt
      exact Nat.lt_irrefl _ hlt

structure Schedules (before : List (WorldCall C σ P)) (delta : Duration) (w : World C σ P) :
    Prop where
  /-- The systems are those that were added before and not removed before. -/
  registered : w.applyChanges.systems.map badge =
    (added before).filter fun b => b.id ∉ removed before
  /-- They stand in the order of their numbers, each once. -/
  ordered : (w.applyChanges.systems.map (·.1.number)).Pairwise (· < ·)
  /-- Those that were there or wait to join come with the policies they had. -/
  policies : w.applyChanges.systems.map (fun entry => (entry.1, entry.2.policy)) =
    ((w.systems ++ w.joining).filter fun entry => entry.1 ∉ w.leaving).map
      fun entry => (entry.1, entry.2.policy)
  /-- They take turns up to the first that fails, which decides the result. -/
  turns : TakesTurns delta w.applyChanges.stage w.applyChanges.systems (w.turnsAt delta)
    ((w.update delta).1, (w.update delta).2.systems, (w.update delta).2.stage)
  /-- The tick counts in any case. -/
  ticks_eq : (w.update delta).2.ticks = w.ticks + 1
  /-- In any case the systems and their entities stay as the first phase made them. -/
  kept : (w.update delta).2.systems.map (fun entry => (badge entry, entry.2.entities)) =
    w.applyChanges.systems.map fun entry => (badge entry, entry.2.entities)
  /-- Nothing waits any more to join or to leave. -/
  settled : (w.update delta).2.joining = [] ∧ (w.update delta).2.leaving = []

structure Scheduled (start : World C σ P) (calls : List (WorldCall C σ P)) : Prop where
  update : ∀ before delta after, calls = before ++ .update delta :: after →
    Schedules before delta (start.callAll before)
  /-- A system that was removed never has a turn again. -/
  gone : ∀ before id between delta after,
    calls = before ++ .remove id :: (between ++ .update delta :: after) →
    id ∉ ((start.callAll (before ++ .remove id :: between)).turnsAt delta).map (·.1)
  /-- Every update is a tick. -/
  ticks_eq : (start.callAll calls).ticks = start.ticks + calls.countP WorldCall.isUpdate

theorem Tracks.schedules (h : Tracks before w) (hadds : (added before).length < 2 ^ 32)
    (delta : Duration) : Schedules before delta w := by
  have hregistered : w.applyChanges.systems.map badge =
      (added before).filter fun b => b.id ∉ removed before := by
    rw [h.registered_eq]
    exact List.filter_congr fun b _ => by rw [List.contains_eq_mem, decide_not]
  refine ⟨hregistered, ?_, ?_, ?_, rfl, ?_, rfl, rfl⟩
  · have hnumbers : ((added before).map (·.id.number)).Pairwise (· < ·) := by
      have hrange : ((added before).map (·.id.number.toNat)).Pairwise (· < ·) := by
        rw [added, numbers_addedFrom (by rw [Nat.zero_add]; exact Nat.le_of_lt hadds)]
        exact List.pairwise_lt_range'
      rw [List.pairwise_map] at hrange ⊢
      exact hrange
    have hsome : (((added before).filter fun b => b.id ∉ removed before).map
        (·.id.number)).Pairwise (· < ·) := hnumbers.sublist (List.filter_sublist.map _)
    rw [← hregistered, List.map_map] at hsome
    exact hsome
  · rw [w.map_applyChanges_of fun _ _ _ => rfl]
    congr 1
    exact List.filter_congr fun entry _ => by rw [List.contains_eq_mem, decide_not]
  · exact takesTurns_runSystems delta _ _
  · exact w.map_update delta fun _ _ _ => rfl

/-- No system that was removed is there. -/
theorem Schedules.not_mem_of_removed {delta : Duration} (h : Schedules before delta w) {id : SystemId}
    (hm : id ∈ removed before) : id ∉ (w.turnsAt delta).map (·.1) := by
  intro hturn
  have hid := h.turns.inOrder.subset hturn
  have hids : w.applyChanges.systems.map (·.1) =
      ((added before).filter fun b => b.id ∉ removed before).map (·.id) := by
    rw [← h.registered, List.map_map]
    rfl
  rw [hids] at hid
  obtain ⟨b, hb, rfl⟩ := List.mem_map.mp hid
  obtain ⟨-, hstays⟩ := List.mem_filter.mp hb
  exact of_decide_eq_true hstays hm

theorem ticks_callAll (w : World C σ P) (calls : List (WorldCall C σ P)) :
    (w.callAll calls).ticks = w.ticks + calls.countP WorldCall.isUpdate := by
  induction calls generalizing w with
  | nil => rfl
  | cons c calls ih =>
      have hone : (w.call c).ticks = w.ticks + if c.isUpdate then 1 else 0 := by
        cases c <;> rfl
      have hrest : (w.callAll (c :: calls)).ticks =
          (w.call c).ticks + calls.countP WorldCall.isUpdate := ih (w.call c)
      rw [hrest, hone, List.countP_cons, Nat.add_assoc, Nat.add_comm (List.countP _ _)]

/-- In every run of calls, updates schedule the systems that are there. -/
theorem scheduled_run (capacity : UInt32) (shared : σ) (calls : List (WorldCall C σ P))
    (hadds : (added calls).length < 2 ^ 32) (hremoves : Lawful 0 calls) :
    Scheduled (World.empty capacity shared) calls := by
  let start : World C σ P := .empty capacity shared
  have hschedules : ∀ before delta after, calls = before ++ .update delta :: after →
      Schedules before delta (start.callAll before) := by
    rintro before delta after rfl
    have hlength : (added before).length ≤ (added (before ++ .update delta :: after)).length := by
      rw [added, added, addedFrom_append, List.length_append]
      exact Nat.le_add_right _ _
    have hbefore := Nat.lt_of_le_of_lt hlength hadds
    have hlawful := ((lawful_append 0 before _).mp hremoves).1
    exact (tracks_run capacity shared hbefore hlawful).schedules hbefore delta
  refine ⟨hschedules, ?_, ?_⟩
  · rintro before id between delta after rfl hturn
    have hsplit : before ++ .remove id :: (between ++ .update delta :: after) =
        (before ++ .remove id :: between) ++ .update delta :: after := by simp
    have hschedule := hschedules (before ++ .remove id :: between) delta after hsplit
    have hremoved : id ∈ removed (before ++ .remove id :: between) := by
      rw [removed_append]
      exact List.mem_append_right _ List.mem_cons_self
    exact hschedule.not_mem_of_removed hremoved hturn
  · exact ticks_callAll _ calls

end Run

/-- Of four systems one is removed before it joins. At the first update the policy of another fails,
and the last has no turn; the first is then removed twice. -/
theorem scheduled_run_of_removed :
    let start : ScriptedWorld := .empty 4 []
    let always : ScriptedPolicy := .cadence .always
    let idle : List Handle → Duration → Work Counter RunLog Unit := fun _ _ => pure ()
    let calls : List (WorldCall Counter RunLog ScriptedPolicy) :=
      [.add "first" .empty always idle, .add "second" .empty always idle, .remove ⟨1⟩,
        .add "third" .empty (.pattern "third" "not yet" [] (some 1) 0) idle,
        .add "fourth" .empty always idle, .update .zero, .remove ⟨0⟩, .remove ⟨0⟩, .update .zero]
    (added calls).length < 2 ^ 32 ∧ Lawful 0 calls ∧
      ((start.callAll (calls.take 5)).turnsAt .zero).map (·.1) = [⟨0⟩, ⟨2⟩] ∧
      ((start.callAll (calls.take 8)).turnsAt .zero).map (·.1) = [⟨2⟩, ⟨3⟩] ∧
      Scheduled start calls := by
  intro start always idle calls
  have hadds : (added calls).length < 2 ^ 32 := by decide +kernel
  have hremoves : Lawful 0 calls := ⟨by decide, by decide, by decide, trivial⟩
  exact ⟨hadds, hremoves, by decide +kernel, by decide +kernel,
    scheduled_run 4 [] calls hadds hremoves⟩

end World

end Realm
