import Realm.Proofs.Store.Tidy

/-!
# The visible records

The visible records are listed slot by slot, so in the order of their identities and each once.
-/

namespace Realm.Store

variable {C : Type} {s : Store C} {h : Handle} {e : Entity C}

theorem mem_visible_iff (hb : s.Bounded) :
    e ∈ s.visible ↔ ∃ id slot, s.at? id = some slot ∧ slot.visible = some e := by
  rw [visible, List.mem_filterMap]
  constructor
  · rintro ⟨slot, hm, hv⟩
    obtain ⟨i, hi, rfl⟩ := List.mem_iff_getElem.mp hm
    exact ⟨UInt32.ofNat i, s.slots.toList[i], hb.at?_ofNat hi, hv⟩
  · rintro ⟨id, slot, hs, hv⟩
    obtain ⟨hlt, rfl⟩ := Array.getElem?_eq_some_iff.mp hs
    exact ⟨_, Array.getElem_mem_toList hlt, hv⟩

/-- The slots do not exceed the capacity, and a visible record stands in the slot of its identity. -/
structure Placed (s : Store C) : Prop extends s.Bounded where
  id_of_shown : ∀ id slot h, s.at? id = some slot → slot.shown = some h → h.id = id

theorem Tidy.placed (ht : s.Tidy) : s.Placed :=
  ⟨ht.toBounded, fun id slot h hs hshown => ((ht.slot id slot hs).shown_le h hshown).1⟩

/-- A visible record stands in the slot of its handle. -/
theorem Placed.mem_visible_iff (hp : s.Placed) :
    e ∈ s.visible ↔ ∃ slot, s.at? e.handle.id = some slot ∧ slot.visible = some e := by
  rw [Store.mem_visible_iff hp.toBounded]
  constructor
  · rintro ⟨id, slot, hs, hv⟩
    have hid := hp.id_of_shown id slot e.handle hs (Slot.shown_of_visible hv)
    exact ⟨slot, hid ▸ hs, hv⟩
  · rintro ⟨slot, hs, hv⟩
    exact ⟨_, slot, hs, hv⟩

theorem Tidy.mem_visible_iff (ht : s.Tidy) :
    e ∈ s.visible ↔ ∃ slot, s.at? e.handle.id = some slot ∧ slot.visible = some e :=
  ht.placed.mem_visible_iff

theorem Tidy.mem_handles_iff (ht : s.Tidy) :
    h ∈ s.visible.map (·.handle) ↔ ∃ slot, s.at? h.id = some slot ∧ slot.shown = some h := by
  rw [List.mem_map]
  constructor
  · rintro ⟨e, hm, rfl⟩
    obtain ⟨slot, hs, hv⟩ := ht.mem_visible_iff.mp hm
    exact ⟨slot, hs, Slot.shown_of_visible hv⟩
  · rintro ⟨slot, hs, hshown⟩
    obtain ⟨e, hv, rfl⟩ := Option.map_eq_some_iff.mp hshown
    exact ⟨e, ht.mem_visible_iff.mpr ⟨slot, hs, hv⟩, rfl⟩

theorem Placed.pairwise_visible (hp : s.Placed) :
    s.visible.Pairwise fun a b => a.handle.id < b.handle.id := by
  rw [visible, List.pairwise_filterMap, List.pairwise_iff_getElem]
  intro i j hi hj hlt a ha b hb
  have hid : ∀ i (hi : i < s.slots.toList.length) (e : Entity C),
      s.slots.toList[i].visible = some e → e.handle.id.toNat = i := by
    intro i hi e hv
    have hto := hp.toNat_ofNat (Nat.le_of_lt (by simpa using hi))
    rw [hp.id_of_shown _ _ e.handle (hp.at?_ofNat hi) (Slot.shown_of_visible hv), hto]
  rw [UInt32.lt_iff_toNat_lt, hid i hi a ha, hid j hj b hb]
  exact hlt

theorem Tidy.pairwise_visible (ht : s.Tidy) :
    s.visible.Pairwise fun a b => a.handle.id < b.handle.id := ht.placed.pairwise_visible

theorem Placed.nodup_handles (hp : s.Placed) : (s.visible.map (·.handle)).Nodup := by
  rw [List.nodup_iff_pairwise_ne, List.pairwise_map]
  refine hp.pairwise_visible.imp ?_
  intro a b hlt heq
  rw [heq] at hlt
  exact UInt32.lt_irrefl _ hlt

theorem Tidy.nodup_handles (ht : s.Tidy) : (s.visible.map (·.handle)).Nodup :=
  ht.placed.nodup_handles

end Realm.Store
