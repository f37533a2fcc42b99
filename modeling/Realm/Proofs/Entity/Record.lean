import Mathlib.Data.List.Induction
import Realm.Proofs.Entity.Mask
import Realm.Entity.Basic

/-!
# Entity records as maps

A record is read only through `get?` and its mask. Each operation has one equation for `get?`, and
the mask of every record that is built by the operations lists exactly the kinds that `get?` finds.
-/

namespace Realm.Entity

variable {C : Type}

/-! ## Reading after writing -/

theorem get?_set (e : Entity C) (k other : Kind) (c : Option C) (mask : Mask) :
    (Entity.mk e.handle mask (e.places.set k.position c k.position.isLt)).get? other =
      if other = k then c else e.get? other := by
  have hindex : k.position.val = other.position.val ↔ other = k := by
    rw [show k.position.val = k.index from rfl, show other.position.val = other.index from rfl,
      Kind.index_eq_iff, eq_comm]
  unfold get?
  rw [Fin.getElem_fin, Vector.getElem_set]
  by_cases h : other = k
  · simp [h]
  · have : ¬ k.position.val = other.position.val := fun heq => h (hindex.mp heq)
    simp [h, this]

@[simp] theorem get?_bare (h : Handle) (k : Kind) : (bare h : Entity C).get? k = none := by
  simp [get?, bare]

@[simp] theorem get?_insert [Component C] (e : Entity C) (c : C) (k : Kind) :
    (e.insert c).get? k = if k = Component.kind c then some c else e.get? k :=
  get?_set e (Component.kind c) k (some c) _

@[simp] theorem get?_erase (e : Entity C) (k other : Kind) :
    (e.erase k).get? other = if other = k then none else e.get? other :=
  get?_set e k other none _

@[simp] theorem get?_modify (e : Entity C) (k other : Kind) (f : C → C) :
    (e.modify k f).get? other = if other = k then (e.get? k).map f else e.get? other :=
  get?_set e k other _ _

@[simp] theorem mask_modify (e : Entity C) (k : Kind) (f : C → C) :
    (e.modify k f).mask = e.mask := rfl

/-! ## Records built from components -/

section OfComponents

variable [Component C]

theorem ofComponents_concat (h : Handle) (cs : List C) (c : C) :
    ofComponents h (cs ++ [c]) = (ofComponents h cs).insert c := by
  simp [ofComponents]

@[simp] theorem handle_ofComponents (h : Handle) (cs : List C) :
    (ofComponents h cs).handle = h := by
  induction cs using List.reverseRecOn with
  | nil => rfl
  | append_singleton cs c ih => rw [ofComponents_concat, handle_insert, ih]

/-- Of several components of one kind the last one is found. -/
theorem get?_ofComponents (h : Handle) (cs : List C) (k : Kind) :
    (ofComponents h cs).get? k = (cs.filter fun c => Component.kind c = k).getLast? := by
  induction cs using List.reverseRecOn with
  | nil => exact get?_bare h k
  | append_singleton cs c ih =>
      rw [ofComponents_concat, get?_insert, ih, List.filter_append]
      by_cases hk : Component.kind c = k
      · simp [hk]
      · have : ¬ k = Component.kind c := fun heq => hk heq.symm
        simp [hk, this]

/-- The mask that components announce depends on their kinds only. -/
theorem maskOf_eq_ofList (cs : List C) : maskOf cs = Mask.ofList (cs.map Component.kind) := by
  rw [maskOf, Mask.ofList, List.foldl_map]

/-- The record that is built carries the mask that was announced. -/
theorem mask_ofComponents (h : Handle) (cs : List C) :
    (ofComponents h cs).mask = maskOf cs := by
  induction cs using List.reverseRecOn with
  | nil => rfl
  | append_singleton cs c ih =>
      have hmask : ((ofComponents h cs).insert c).mask =
          (ofComponents h cs).mask.insert (Component.kind c) := rfl
      rw [ofComponents_concat, hmask, ih, maskOf, maskOf, List.foldl_concat]

end OfComponents

/-! ## The mask follows the places -/

/-- The mask lists exactly the kinds of which there is a component. -/
def Tracked (e : Entity C) : Prop := ∀ k, e.mask.contains k = (e.get? k).isSome

theorem Tracked.bare (h : Handle) : (Entity.bare h : Entity C).Tracked := by
  intro k
  rw [get?_bare]
  exact Mask.contains_empty k

theorem Tracked.insert [Component C] {e : Entity C} (he : e.Tracked) (c : C) :
    (e.insert c).Tracked := by
  intro k
  have hmask : (e.insert c).mask = e.mask.insert (Component.kind c) := rfl
  rw [hmask, Mask.contains_insert, get?_insert, he k]
  by_cases hk : k = Component.kind c <;> simp [hk]

theorem Tracked.erase {e : Entity C} (he : e.Tracked) (k : Kind) : (e.erase k).Tracked := by
  intro other
  have hmask : (e.erase k).mask = e.mask.erase k := rfl
  rw [hmask, Mask.contains_erase, get?_erase, he other]
  by_cases hk : other = k <;> simp [hk]

theorem Tracked.modify {e : Entity C} (he : e.Tracked) (k : Kind) (f : C → C) :
    (e.modify k f).Tracked := by
  intro other
  rw [mask_modify, get?_modify, he other]
  by_cases hk : other = k <;> simp [hk]

theorem Tracked.ofComponents [Component C] (h : Handle) (cs : List C) :
    (Entity.ofComponents h cs).Tracked := by
  induction cs using List.reverseRecOn with
  | nil => exact Tracked.bare h
  | append_singleton cs c ih =>
      rw [ofComponents_concat]
      exact ih.insert c

/-- Taking away a component that is not there leaves the mask alone. -/
theorem Tracked.mask_erase_of_none {e : Entity C} (he : e.Tracked) {k : Kind}
    (hk : e.get? k = none) : (e.erase k).mask = e.mask := by
  have hcontains : e.mask.contains k = false := by rw [he k, hk]; rfl
  exact Mask.erase_of_not_contains hcontains

end Realm.Entity
