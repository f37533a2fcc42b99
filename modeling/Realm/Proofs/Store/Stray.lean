import Realm.Proofs.Store.Identities

/-!
# Handles from elsewhere

A handle can be put together from any two numbers. Whether a store takes it for a living entity is
decided by its generation alone, and a released identity has a generation too: the handle of its
next occupant passes before there is one. Destroying that handle releases the identity a second
time. Every other handle without an entity is refused, and a store that was never asked to destroy
a vacant handle keeps its identities apart, whatever else it was given.
-/

namespace Realm

variable {C : Type}

/-- What a slot keeps to however often its generations start over. -/
structure Slot.Kept (slot : Slot C) (id : UInt32) (free : Prop) : Prop where
  id_of_shown : ∀ h, slot.shown = some h → h.id = id
  of_free : free → slot.waiting = none
  of_used : ¬ free → slot.waiting = some (slot.current id) ∨
    slot.waiting = none ∧ slot.shown = some (slot.current id)

namespace Slot.Kept

variable {slot : Slot C} {id : UInt32} {free : Prop} {h : Handle}

theorem of_waiting (hk : slot.Kept id free) (hw : slot.waiting = some h) :
    h = slot.current id ∧ ¬ free := by
  have hused : ¬ free := fun hf => by simp [hk.of_free hf] at hw
  rcases hk.of_used hused with hcur | ⟨hnone, -⟩
  · exact ⟨Option.some.inj (hw.symm.trans hcur), hused⟩
  · simp [hnone] at hw

theorem congr {other : Slot C} (hk : slot.Kept id free) (ho : other.outline = slot.outline) :
    other.Kept id free := by
  obtain ⟨hg, hs, hw⟩ := Slot.outline_eq_iff.mp ho
  have hcur : other.current id = slot.current id := by simp [current, hg]
  constructor
  · simpa only [hs] using hk.id_of_shown
  · simpa only [hw] using hk.of_free
  · simpa only [hs, hw, hcur] using hk.of_used

theorem release (hk : slot.Kept id free) (hused : ¬ free) (hcur : h = slot.current id) :
    (slot.release h).Kept id True where
  id_of_shown := hk.id_of_shown
  of_free := by
    intro _
    rcases hk.of_used hused with hw | ⟨hw, -⟩ <;> simp [hw, hcur]
  of_used := fun hnot => absurd trivial hnot

end Slot.Kept

/-- A change does not take away what another one shows. -/
def Change.Spares : Change → Change → Prop
  | .created h, .destroyed h' => h.id ≠ h'.id
  | _, _ => True

theorem pairwise_spares_push {queue : List Change} {change : Change}
    (ho : queue.Pairwise Change.Spares) (hlast : ∀ c ∈ queue, c.Spares change) :
    (queue ++ [change]).Pairwise Change.Spares := by
  rw [List.pairwise_append]
  refine ⟨ho, List.pairwise_singleton _ _, ?_⟩
  intro c hc other hother
  rw [List.mem_singleton.mp hother]
  exact hlast c hc

namespace Store

/-- The store has a living entity with exactly this handle. -/
def Holds (s : Store C) (h : Handle) : Prop :=
  h.id ∉ s.free ∧ s.isAlive h = true ∧ (s.find? h).isSome = true

/-- The handle that the next occupant of a released identity gets. -/
def Vacant (s : Store C) (h : Handle) : Prop := h.id ∈ s.free ∧ s.isAlive h = true

instance (s : Store C) (h : Handle) : Decidable (s.Holds h) :=
  inferInstanceAs (Decidable (h.id ∉ s.free ∧ s.isAlive h = true ∧ (s.find? h).isSome = true))

instance (s : Store C) (h : Handle) : Decidable (s.Vacant h) :=
  inferInstanceAs (Decidable (h.id ∈ s.free ∧ s.isAlive h = true))

/-- The part of a store's order that does not depend on the order of generations, given what is
still noted. -/
structure Kept (s : Store C) (queue : List Change) : Prop extends s.Bounded where
  free_nodup : s.free.Nodup
  slot : ∀ id slot, s.at? id = some slot → slot.Kept id (id ∈ s.free)
  undestroyed : ∀ id slot, s.at? id = some slot → id ∉ s.free → slot.waiting = none →
    ∀ h, .destroyed h ∈ queue → h.id ≠ id
  ordered : queue.Pairwise Change.Spares

/-- The order of a store between two calls: of an entity that is visible nothing is noted that
could hide it or another one of its identity. -/
structure Roamed (s : Store C) : Prop where
  kept : s.Kept s.changes.toList
  uncreated : ∀ id slot, s.at? id = some slot → id ∉ s.free → slot.waiting = none →
    ∀ h, .created h ∈ s.changes.toList → h.id ≠ id

theorem Roamed.empty (capacity : UInt32) : (Store.empty capacity : Store C).Roamed := by
  have hnone : ∀ id slot, (Store.empty capacity : Store C).at? id ≠ some slot := by
    intro id slot hs
    simp [at?, Store.empty] at hs
  refine ⟨⟨⟨Nat.zero_le _, ?_⟩, List.nodup_nil, ?_, ?_, .nil⟩, ?_⟩
  · intro id hid
    cases hid
  · intro id slot hs
    exact absurd hs (hnone id slot)
  · intro id slot hs
    exact absurd hs (hnone id slot)
  · intro id slot hs
    exact absurd hs (hnone id slot)

section Edits

variable {s s' : Store C} {h : Handle}

theorem Roamed.create [Component C] {cs : List C} (hr : s.Roamed) (hc : s.Creates cs h s')
    (ht : s.Takes h.id s') : s'.Roamed := by
  have hfree : ∀ id, id ∈ s'.free ↔ id ∈ s.free ∧ id ≠ h.id := fun id =>
    ht.mem_free_iff hr.kept.free_nodup
  have hshown : ∀ h', (s.slotOrFresh h.id).shown = some h' → h'.id = h.id := by
    intro h' hs
    cases hslot : s.at? h.id with
    | none => simp [slotOrFresh, hslot, Slot.fresh, Slot.shown] at hs
    | some slot =>
        rw [slotOrFresh_of_at? hslot] at hs
        exact (hr.kept.slot h.id slot hslot).id_of_shown h' hs
  have hcur : h = (s.slotOrFresh h.id).current h.id :=
    Slot.eq_current_iff.mpr ⟨rfl, hc.generation_eq⟩
  -- Only the slot that is taken is new, and its record waits.
  have hold : ∀ id slot, s'.at? id = some slot → slot.waiting = none →
      id ≠ h.id ∧ s.at? id = some slot := by
    intro id slot hs hw
    rcases at?_cases (hc.at?_eq id) hs with ⟨rfl, hnew⟩ | hsame
    · obtain rfl := Option.some.inj hnew
      simp at hw
    · exact hsame
  refine ⟨⟨⟨?_, ?_⟩, ?_, ?_, ?_, ?_⟩, ?_⟩
  · rw [hc.capacity_eq]
    cases ht with
    | reused _ hsize => rw [hsize]; exact hr.kept.size_le
    | grown _ _ _ hlt hsize => omega
  · intro id hid
    have hlt := hr.kept.free_lt id ((hfree id).mp hid).1
    cases ht with
    | reused _ hsize => omega
    | grown _ _ _ _ hsize => omega
  · cases ht with
    | reused hcons _ => exact (List.nodup_cons.mp (hcons ▸ hr.kept.free_nodup)).2
    | grown _ hnil _ _ _ => simp [hnil]
  · intro id slot hs
    rcases at?_cases (hc.at?_eq id) hs with ⟨rfl, hnew⟩ | ⟨hid, hs⟩
    · obtain rfl := Option.some.inj hnew
      refine ⟨hshown, fun hmem => absurd rfl ((hfree h.id).mp hmem).2, fun _ => .inl ?_⟩
      rw [Slot.waiting_await, Entity.handle_ofComponents]
      exact congrArg some hcur
    · have hiff : (id ∈ s'.free) = (id ∈ s.free) := by simp [hfree id, hid]
      rw [hiff]
      exact hr.kept.slot id slot hs
  · intro id slot hs hused hw h' hm
    obtain ⟨hid, hs⟩ := hold id slot hs hw
    have hm : .destroyed h' ∈ s.changes.toList := by simpa [hc.changes_eq] using hm
    exact hr.kept.undestroyed id slot hs (fun hf => hused ((hfree id).mpr ⟨hf, hid⟩)) hw h' hm
  · rw [hc.changes_eq, Array.toList_push]
    refine pairwise_spares_push hr.kept.ordered ?_
    intro c _
    cases c <;> trivial
  · intro id slot hs hused hw h' hm
    obtain ⟨hid, hs⟩ := hold id slot hs hw
    rw [hc.changes_eq, Array.toList_push, List.mem_append, List.mem_singleton] at hm
    rcases hm with hm | hnew
    · exact hr.uncreated id slot hs (fun hf => hused ((hfree id).mpr ⟨hf, hid⟩)) hw h' hm
    · obtain rfl : h' = h := by simpa using hnew
      exact hid.symm

theorem Roamed.destroy {slot : Slot C} (hr : s.Roamed) (hslot : s.at? h.id = some slot)
    (hcur : h = slot.current h.id) (hd : s.Destroys h slot s') (hused : h.id ∉ s.free) :
    s'.Roamed := by
  have hkept := hr.kept.slot h.id slot hslot
  have hold : ∀ id other, s'.at? id = some other → id ∉ s'.free →
      id ≠ h.id ∧ id ∉ s.free ∧ s.at? id = some other := by
    intro id other hs hfree
    rw [hd.free_eq, List.mem_cons, not_or] at hfree
    rcases at?_cases (hd.at?_eq id) hs with ⟨rfl, -⟩ | ⟨hid, hs⟩
    · exact absurd rfl hfree.1
    · exact ⟨hid, hfree.2, hs⟩
  refine ⟨⟨⟨?_, ?_⟩, ?_, ?_, ?_, ?_⟩, ?_⟩
  · rw [hd.capacity_eq, hd.size_eq]
    exact hr.kept.size_le
  · intro id hid
    rw [hd.size_eq]
    rw [hd.free_eq, List.mem_cons] at hid
    rcases hid with rfl | hid
    · exact lt_size_of_at? hslot
    · exact hr.kept.free_lt id hid
  · rw [hd.free_eq]
    exact List.nodup_cons.mpr ⟨hused, hr.kept.free_nodup⟩
  · intro id other hs
    rw [hd.free_eq]
    rcases at?_cases (hd.at?_eq id) hs with ⟨rfl, hnew⟩ | ⟨hid, hs⟩
    · obtain rfl := Option.some.inj hnew
      simpa using hkept.release hused hcur
    · simpa [hid] using hr.kept.slot id other hs
  · intro id other hs hfree hw h' hm
    obtain ⟨hid, hfree, hs⟩ := hold id other hs hfree
    rw [hd.changes_eq] at hm
    split at hm
    · exact hr.kept.undestroyed id other hs hfree hw h' hm
    · rw [Array.toList_push, List.mem_append, List.mem_singleton] at hm
      rcases hm with hm | hnew
      · exact hr.kept.undestroyed id other hs hfree hw h' hm
      · obtain rfl : h' = h := by simpa using hnew
        exact hid.symm
  · rw [hd.changes_eq]
    split
    · exact hr.kept.ordered
    · next hnot =>
        rw [Array.toList_push]
        refine pairwise_spares_push hr.kept.ordered ?_
        intro c hm
        have hw : slot.waiting = none := by
          rcases hkept.of_used hused with hw | ⟨hw, -⟩
          · exact absurd (hw.trans (congrArg some hcur.symm)) hnot
          · exact hw
        cases c with
        | created h' => exact hr.uncreated _ slot hslot hused hw h' hm
        | destroyed h' => trivial
        | changed h' => trivial
  · intro id other hs hfree hw h' hm
    obtain ⟨hid, hfree, hs⟩ := hold id other hs hfree
    refine hr.uncreated id other hs hfree hw h' ?_
    rw [hd.changes_eq] at hm
    split at hm
    · exact hm
    · simpa using hm

theorem Roamed.rewrite {f : Entity C → Entity C} {noted : Prop} (hr : s.Roamed)
    (hw : s.Rewrites h f noted s') (hf : ∀ e, (f e).handle = e.handle) : s'.Roamed := by
  have hback : ∀ id slot', s'.at? id = some slot' → ∃ slot, s.at? id = some slot ∧
      slot'.outline = slot.outline := by
    intro id slot' hs
    have hmap := hw.map_outline hf id
    rw [hs, Option.map_some, eq_comm, Option.map_eq_some_iff] at hmap
    obtain ⟨slot, hslot, ho⟩ := hmap
    exact ⟨slot, hslot, ho.symm⟩
  have hmem : ∀ c ∈ s'.changes.toList, c ∈ s.changes.toList ∨ c = .changed h := by
    intro c hc
    rcases hw.changes_eq with ⟨-, heq⟩ | ⟨-, heq⟩
    · simpa [heq] using hc
    · exact .inl (heq ▸ hc)
  refine ⟨⟨⟨?_, ?_⟩, ?_, ?_, ?_, ?_⟩, ?_⟩
  · rw [hw.capacity_eq, hw.size_eq]
    exact hr.kept.size_le
  · rw [hw.free_eq, hw.size_eq]
    exact hr.kept.free_lt
  · rw [hw.free_eq]
    exact hr.kept.free_nodup
  · intro id slot' hs
    obtain ⟨slot, hslot, ho⟩ := hback id slot' hs
    rw [hw.free_eq]
    exact (hr.kept.slot id slot hslot).congr ho
  · intro id slot' hs hfree hnone h' hm
    obtain ⟨slot, hslot, ho⟩ := hback id slot' hs
    rw [(Slot.outline_eq_iff.mp ho).2.2] at hnone
    refine hr.kept.undestroyed id slot hslot (hw.free_eq ▸ hfree) hnone h' ?_
    exact (hmem _ hm).resolve_right (by simp)
  · rcases hw.changes_eq with ⟨-, heq⟩ | ⟨-, heq⟩
    · rw [heq, Array.toList_push]
      refine pairwise_spares_push hr.kept.ordered ?_
      intro c _
      cases c <;> trivial
    · rw [heq]
      exact hr.kept.ordered
  · intro id slot' hs hfree hnone h' hm
    obtain ⟨slot, hslot, ho⟩ := hback id slot' hs
    rw [(Slot.outline_eq_iff.mp ho).2.2] at hnone
    refine hr.uncreated id slot hslot (hw.free_eq ▸ hfree) hnone h' ?_
    exact (hmem _ hm).resolve_right (by simp)

theorem Roamed.change {f : Entity C → Entity C} {matters : Entity C → Bool} {e : Entity C}
    (hr : s.Roamed) (hc : s.change h f matters = .ok (e, s'))
    (hf : ∀ e, (f e).handle = e.handle) : s'.Roamed := by
  obtain ⟨slot, -, -, -, hrewrites⟩ := rewrites_of_ok hc
  exact hr.rewrite hrewrites hf

end Edits

/-! ## Applying the changes -/

/-- Whatever a store holds, a change that is applied shows a waiting record, takes a visible one
away, or does nothing to the slots. -/
theorem applyChange_cases (s : Store C) (change : Change) :
    (s.applyChange change).2 = s ∨
    (∃ h slot e, change = .created h ∧ s.at? h.id = some slot ∧ slot.pending = some e ∧
      e.handle = h ∧ (s.applyChange change).2 = s.modifySlot h (·.reveal e)) ∨
    (∃ h slot e, change = .destroyed h ∧ s.at? h.id = some slot ∧ slot.visible = some e ∧
      e.handle = h ∧ (s.applyChange change).2 = s.modifySlot h Slot.vacate) := by
  cases change with
  | created h =>
      cases hm : (s.slot? h).bind fun slot => Entity.matching h slot.pending with
      | none => simp [applyChange, hm]
      | some e =>
          obtain ⟨slot, hslot, hmatch⟩ := Option.bind_eq_some_iff.mp hm
          obtain ⟨hpending, hhandle⟩ := Entity.matching_eq_some_iff.mp hmatch
          refine .inr (.inl ⟨h, slot, e, rfl, hslot, hpending, hhandle, ?_⟩)
          simp only [applyChange, hm]
          rfl
  | destroyed h =>
      cases hm : (s.slot? h).bind fun slot => Entity.matching h slot.visible with
      | none => simp [applyChange, hm]
      | some e =>
          obtain ⟨slot, hslot, hmatch⟩ := Option.bind_eq_some_iff.mp hm
          obtain ⟨hvisible, hhandle⟩ := Entity.matching_eq_some_iff.mp hmatch
          refine .inr (.inr ⟨h, slot, e, rfl, hslot, hvisible, hhandle, ?_⟩)
          simp only [applyChange, hm]
          rfl
  | changed h =>
      left
      simp only [applyChange]
      split <;> rfl

theorem changes_applyChange (s : Store C) (change : Change) :
    (s.applyChange change).2.changes = s.changes := by
  rcases applyChange_cases s change with heq | ⟨h, slot, e, -, -, -, -, heq⟩ |
    ⟨h, slot, e, -, -, -, -, heq⟩ <;> rw [heq] <;> rfl

theorem changes_applyChanges (s : Store C) (queue : List Change) :
    (s.applyChanges queue).2.changes = s.changes := by
  induction queue generalizing s with
  | nil => rfl
  | cons change rest ih => rw [applyChanges_cons, ih, changes_applyChange]

theorem Kept.modifySlot {s : Store C} {queue : List Change} {h : Handle} {slot : Slot C}
    {f : Slot C → Slot C} (hk : s.Kept queue) (hslot : s.at? h.id = some slot)
    (hf : (f slot).Kept h.id (h.id ∈ s.free))
    (hquiet : h.id ∉ s.free → (f slot).waiting = none → ∀ h', .destroyed h' ∈ queue →
      h'.id ≠ h.id) : (s.modifySlot h f).Kept queue := by
  refine ⟨⟨?_, ?_⟩, hk.free_nodup, ?_, ?_, hk.ordered⟩
  · rw [size_modifySlot]
    exact hk.size_le
  · rw [size_modifySlot]
    exact hk.free_lt
  · intro id other hs
    rcases at?_cases (at?_modifySlot _ _ _ id) hs with ⟨rfl, hnew⟩ | ⟨-, hs⟩
    · obtain rfl : f slot = other := by simpa [hslot] using hnew
      exact hf
    · exact hk.slot id other hs
  · intro id other hs
    rcases at?_cases (at?_modifySlot _ _ _ id) hs with ⟨rfl, hnew⟩ | ⟨-, hs⟩
    · obtain rfl : f slot = other := by simpa [hslot] using hnew
      exact hquiet
    · exact hk.undestroyed id other hs

theorem Kept.applyChange {s : Store C} {change : Change} {rest : List Change}
    (hk : s.Kept (change :: rest)) : (s.applyChange change).2.Kept rest := by
  obtain ⟨hhead, htail⟩ := List.pairwise_cons.mp hk.ordered
  have hrest : s.Kept rest := ⟨hk.toBounded, hk.free_nodup, hk.slot,
    fun id slot hs hused hw h hm => hk.undestroyed id slot hs hused hw h
      (List.mem_cons_of_mem _ hm), htail⟩
  rcases applyChange_cases s change with heq | ⟨h, slot, e, rfl, hslot, hpending, hh, heq⟩ |
    ⟨h, slot, e, rfl, hslot, hvisible, hh, heq⟩
  · rw [heq]
    exact hrest
  · rw [heq]
    have hkept := hk.slot h.id slot hslot
    obtain ⟨hcur, hused⟩ := hkept.of_waiting (hh ▸ Slot.waiting_of_pending hpending)
    refine hrest.modifySlot hslot ⟨?_, fun hf => absurd hf hused, fun _ => ?_⟩ ?_
    · intro h' hs
      obtain rfl : e.handle = h' := Option.some.inj hs
      rw [hh]
    · exact .inr ⟨rfl, congrArg some (hh.trans hcur)⟩
    · intro _ _ h' hm
      exact (hhead _ hm).symm
  · rw [heq]
    have hkept := hk.slot h.id slot hslot
    -- A record that is about to go belongs to no living entity.
    have hwaiting : h.id ∉ s.free → slot.waiting ≠ none := fun hused hw =>
      hk.undestroyed h.id slot hslot hused hw h List.mem_cons_self rfl
    refine hrest.modifySlot hslot ⟨?_, hkept.of_free, fun hused => ?_⟩ ?_
    · intro h' hs
      cases hs
    · rcases hkept.of_used hused with hw | ⟨hw, -⟩
      · exact .inl hw
      · exact absurd hw (hwaiting hused)
    · intro hused hw
      exact absurd hw (hwaiting hused)

theorem Kept.applyChanges {s : Store C} {queue : List Change} (hk : s.Kept queue) :
    (s.applyChanges queue).2.Kept [] := by
  induction queue generalizing s with
  | nil => exact hk
  | cons change rest ih =>
      rw [applyChanges_cons]
      exact ih hk.applyChange

theorem Roamed.apply {s : Store C} (hr : s.Roamed) : s.apply.2.Roamed := by
  have hnone : s.apply.2.changes = #[] := changes_applyChanges _ _
  have hk : ({ s with changes := #[] } : Store C).Kept s.changes.toList :=
    ⟨⟨hr.kept.size_le, hr.kept.free_lt⟩, hr.kept.free_nodup, hr.kept.slot, hr.kept.undestroyed,
      hr.kept.ordered⟩
  constructor
  · rw [hnone]
    exact hk.applyChanges
  · intro id slot _ _ _ h hm
    simp [hnone] at hm

/-! ## Which handles pass -/

section Handles

variable {s : Store C} {h : Handle}

theorem Kept.isAlive_iff {queue : List Change} (hk : s.Kept queue) :
    s.isAlive h = true ↔ s.Holds h ∨ s.Vacant h := by
  constructor
  · intro ha
    by_cases hfree : h.id ∈ s.free
    · exact .inr ⟨hfree, ha⟩
    · obtain ⟨slot, hslot, hcur⟩ := Store.isAlive_iff.mp ha
      refine .inl ⟨hfree, ha, ?_⟩
      rw [find?_of_at? hslot, ← Option.ne_none_iff_isSome]
      intro hnone
      obtain ⟨hshown, hwaiting⟩ := Slot.find?_eq_none_iff.mp hnone
      rcases (hk.slot h.id slot hslot).of_used hfree with hw | ⟨-, hs⟩
      · exact hwaiting (hw.trans (congrArg some hcur.symm))
      · exact hshown (hs.trans (congrArg some hcur.symm))
  · rintro (hholds | hvacant)
    · exact hholds.2.1
    · exact hvacant.2

theorem change_of_find?_eq_none {f : Entity C → Entity C} {matters : Entity C → Bool}
    (hn : s.find? h = none) : s.change h f matters = .error (.stale h) := by
  cases hc : s.change h f matters with
  | error e =>
      unfold change at hc
      split at hc
      · split at hc
        · exact hc.symm
        · split at hc
          · cases hc
          · cases hc
          · exact hc.symm
      · exact hc.symm
  | ok result =>
      obtain ⟨slot, hslot, -, hfind, -⟩ := rewrites_of_ok hc
      rw [find?_of_at? hslot, hfind] at hn
      cases hn

theorem add_of_find?_eq_none [Component C] (hn : s.find? h = none) (c : C) :
    s.add h c = .error (.stale h) := by
  rw [add, change_of_find?_eq_none hn]
  rfl

theorem remove_of_find?_eq_none [Component C] (hn : s.find? h = none) (k : Kind) :
    s.remove h k = .error (.stale h) := by
  rw [remove, change_of_find?_eq_none hn]
  rfl

theorem modify_of_find?_eq_none [Component C] (hn : s.find? h = none) (k : Kind) (f : C → C) :
    s.modify h k f = s := by
  have hsame : ∀ slot, s.slots[h.id.toNat]? = some slot → slot.modify h (·.modify k f) = slot := by
    intro slot hslot
    rw [find?_of_at? hslot, Slot.find?_eq_none_iff] at hn
    rw [Slot.modify_eq, if_neg hn.1, if_neg hn.2]
  have hslots : s.slots.modify h.id.toNat (·.modify h (·.modify k f)) = s.slots := by
    apply Array.ext_getElem?
    intro i
    rw [Array.getElem?_modify]
    split
    · next hi =>
        subst hi
        cases hslot : s.slots[h.id.toNat]? with
        | none => rfl
        | some slot => rw [Option.map_some, hsame slot hslot]
    · rfl
  simp only [modify, modifySlot, hslots]

/-- An entity is created where none lives. -/
theorem Roamed.holds_of_create [Component C] {cs : List C} {s' : Store C} (hr : s.Roamed)
    (hc : s.create cs = .ok (h, s')) : ¬ s.Holds h ∧ s'.Holds h := by
  obtain ⟨hcreates, htakes⟩ := creates_of_ok hr.kept.toBounded hc
  have hr' := hr.create hcreates htakes
  have hat : s'.at? h.id = some ((s.slotOrFresh h.id).await (.ofComponents h cs)) := by
    rw [hcreates.at?_eq, if_pos rfl]
  have halive : s'.isAlive h = true :=
    Store.isAlive_iff.mpr ⟨_, hat, Slot.eq_current_iff.mpr ⟨rfl, hcreates.generation_eq⟩⟩
  refine ⟨?_, (hr'.kept.isAlive_iff.mp halive).resolve_right ?_⟩
  · rintro ⟨hused, hold, -⟩
    obtain ⟨slot, hslot, -⟩ := Store.isAlive_iff.mp hold
    cases htakes with
    | reused hfree _ => simp [hfree] at hused
    | grown _ _ hid _ _ =>
        have hlt := lt_size_of_at? hslot
        omega
  · intro hvacant
    exact ((htakes.mem_free_iff hr.kept.free_nodup).mp hvacant.1).2 rfl

/-- Creating from a released identity does not touch the generations. -/
theorem create_of_free [Component C] {id : UInt32} {free : List UInt32} (hf : s.free = id :: free)
    (cs : List C) : ∃ s', s.create cs = .ok (s.handleOf id, s') ∧ s'.free = free ∧
      s'.handleOf id = s.handleOf id := by
  refine ⟨_, by simp only [create, reserve, hf]; rfl, rfl, ?_⟩
  simp only [handleOf, note, modifySlot, Array.getElem?_modify]
  cases s.slots[id.toNat]? <;> simp

/-- The identity of a vacant handle that is destroyed is free twice. If it was the one released
last, then the next two entities get the same handle. -/
theorem Vacant.destroy [Component C] (hv : s.Vacant h) :
    ∃ s', s.destroy h = .ok s' ∧ s'.free.count h.id = s.free.count h.id + 1 ∧ ¬ s'.free.Nodup ∧
      (s.free.head? = some h.id → ∀ cs cs' : List C, ∃ again u v,
        s'.create cs = .ok (again, u) ∧ u.create cs' = .ok (again, v)) := by
  obtain ⟨s', hd⟩ := destroy_of_alive hv.2
  obtain ⟨slot, hslot, hcur, hdestroys⟩ := destroys_of_ok hd
  have hfree := hdestroys.free_eq
  refine ⟨s', hd, ?_, ?_, ?_⟩
  · rw [hfree, List.count_cons_self]
  · rw [hfree, List.nodup_cons]
    exact fun hnodup => hnodup.1 hv.1
  · intro hhead cs cs'
    obtain ⟨free, hrest⟩ := List.head?_eq_some_iff.mp hhead
    obtain ⟨u, hu, hfreeu, hsame⟩ := create_of_free hfree cs
    obtain ⟨v, hv, -, -⟩ := create_of_free (hfreeu.trans hrest) cs'
    exact ⟨_, u, v, hu, hsame ▸ hv⟩

end Handles

end Store

/-! ## Runs with any handles -/

namespace History

variable {t u : History C} {h : Handle}

/-- One history comes from another by any operations on any handles, except that no vacant handle
is destroyed. -/
inductive Roams [Component C] (t : History C) : History C → Prop
  | refl : Roams t t
  | edit {u : History C} (before : Roams t u) (e : Edit C)
      (spared : ∀ h, e = .destroy h → ¬ u.store.Vacant h) : Roams t (u.edit e)
  | apply {u : History C} (before : Roams t u) : Roams t u.apply

/-- A record carries only a handle that was given out. -/
theorem Sound.find?_eq_none (ht : t.Sound) (hm : h ∉ t.issued) : t.store.find? h = none := by
  cases hslot : t.store.at? h.id with
  | none => simp [Store.find?, Store.slot?_eq, hslot]
  | some slot =>
      rw [Store.find?_of_at? hslot, Slot.find?_eq_none_iff]
      constructor
      · intro hshown
        exact hm (ht.recorded.issued_of_shown h.id slot h hslot hshown)
      · intro hwaiting
        obtain ⟨hcur, hused, -⟩ := (ht.tidy.slot h.id slot hslot).of_waiting hwaiting
        exact hm (hcur ▸ ht.recorded.issued_of_used h.id slot hslot hused)

section Runs

variable [Component C]

theorem roamed_edit (hr : t.store.Roamed) {e : Edit C}
    (hs : ∀ h, e = .destroy h → ¬ t.store.Vacant h) : (t.edit e).store.Roamed := by
  cases e with
  | create cs =>
      cases hc : t.store.create cs with
      | error e => simpa [edit, hc] using hr
      | ok result =>
          obtain ⟨hcreates, htakes⟩ := Store.creates_of_ok hr.kept.toBounded hc
          simpa [edit, hc] using hr.create hcreates htakes
  | destroy h =>
      cases hd : t.store.destroy h with
      | error e => simpa [edit, hd] using hr
      | ok s =>
          obtain ⟨slot, hslot, hcur, hdestroys⟩ := Store.destroys_of_ok hd
          have halive : t.store.isAlive h = true := Store.isAlive_iff.mpr ⟨slot, hslot, hcur⟩
          have hused : h.id ∉ t.store.free := fun hfree => hs h rfl ⟨hfree, halive⟩
          simpa [edit, hd] using hr.destroy hslot hcur hdestroys hused
  | add h c =>
      cases hc : t.store.change h (·.insert c) (fun _ => true) with
      | error e => simpa [edit, Store.add, hc, Except.map] using hr
      | ok result =>
          obtain ⟨e, s⟩ := result
          have hchanged : s.Roamed := hr.change hc fun _ => rfl
          simpa [edit, Store.add, hc, Except.map, withStore] using hchanged
  | remove h k =>
      cases hc : t.store.change h (·.erase k) (fun e => (e.get? k).isSome) with
      | error e => simpa [edit, Store.remove, hc, Except.map] using hr
      | ok result =>
          obtain ⟨e, s⟩ := result
          have hchanged : s.Roamed := hr.change hc fun _ => rfl
          simpa [edit, Store.remove, hc, Except.map, withStore] using hchanged
  | modify h k f =>
      exact hr.rewrite (Store.rewrites_modify t.store h k f) fun _ => rfl

theorem Roams.roamed {capacity : UInt32} (hr : (start capacity : History C).Roams t) :
    t.store.Roamed := by
  induction hr with
  | refl => exact .empty capacity
  | edit before e spared ih => exact roamed_edit ih spared
  | apply before ih => exact ih.apply

/-- An operation on a handle that was never given out does nothing unless it destroys a vacant
one. -/
theorem Sound.edit_eq (ht : t.Sound) {e : Edit C} (hh : e.handle? = some h) (hm : h ∉ t.issued)
    (hs : e = .destroy h → ¬ t.store.Vacant h) : t.edit e = t := by
  have hnone := ht.find?_eq_none hm
  cases e with
  | create cs => cases hh
  | destroy g =>
      obtain rfl := Option.some.inj hh
      have hdead : t.store.isAlive g = false := by
        rw [← Bool.not_eq_true]
        intro halive
        obtain ⟨slot, hslot, hcur⟩ := Store.isAlive_iff.mp halive
        refine hs rfl ⟨?_, halive⟩
        by_contra hused
        exact hm (hcur ▸ ht.recorded.issued_of_used g.id slot hslot hused)
      exact (refuses_of_not_alive hdead).unchanged.1
  | add g c =>
      obtain rfl := Option.some.inj hh
      simp only [edit, Store.add_of_find?_eq_none hnone]
  | remove g k =>
      obtain rfl := Option.some.inj hh
      simp only [edit, Store.remove_of_find?_eq_none hnone]
  | modify g k f =>
      obtain rfl := Option.some.inj hh
      simp only [edit, Store.modify_of_find?_eq_none hnone, withStore]

/-- Short of wear, handles that were never given out might as well not have been used. -/
theorem Roams.reaches {capacity : UInt32} (hr : (start capacity : History C).Roams t)
    (hw : t.Unworn) : (start capacity).Reaches t := by
  induction hr with
  | refl => exact .refl
  | apply before ih => exact .apply (ih hw)
  | @edit u before e spared ih =>
      have hw := hw.of_suffix (suffix_destroyed_edit u e)
      have hreaches := ih hw
      have hsound := hreaches.sound (.start capacity) hw
      by_cases hadmits : u.Admits e
      · exact hreaches.edit e hadmits
      · obtain ⟨h, hh, hm⟩ : ∃ h, e.handle? = some h ∧ h ∉ u.issued := by
          simpa [Admits] using hadmits
        rw [hsound.edit_eq hh hm (spared h)]
        exact hreaches

/-! ## The main statement -/

/-- What a store makes of handles from elsewhere. -/
structure Guarded (t : History C) : Prop where
  isAlive_iff : ∀ h, t.store.isAlive h = true ↔ t.store.Holds h ∨ t.store.Vacant h
  refuses : ∀ h, ¬ t.store.Holds h → ¬ t.store.Vacant h → t.Refuses h
  /-- Without a record nothing is attached to a handle or detached from it, vacant or not. -/
  add_eq : ∀ h, t.store.find? h = none → ∀ c, t.store.add h c = .error (.stale h)
  remove_eq : ∀ h, t.store.find? h = none → ∀ k, t.store.remove h k = .error (.stale h)
  find?_eq_none : t.Unworn → ∀ h, ¬ t.store.Holds h → t.store.Vacant h → t.store.find? h = none
  free_nodup : t.store.free.Nodup
  created : ∀ cs h s, t.store.create cs = .ok (h, s) → ¬ t.store.Holds h ∧ s.Holds h
  unissued : t.Unworn → ∀ cs h s, t.store.create cs = .ok (h, s) → h ∉ t.issued
  /-- A vacant handle is taken for a living one. -/
  doubled : ∀ h, t.store.Vacant h → ∃ s, t.store.destroy h = .ok s ∧ s.free.count h.id = 2 ∧
    (t.store.free.head? = some h.id → ∀ cs cs' : List C, ∃ again u v,
      s.create cs = .ok (again, u) ∧ u.create cs' = .ok (again, v))

/-- Whatever handles a store was given, it refuses all that name no entity, and keeps its
identities apart, as long as no vacant handle was destroyed. -/
theorem guarded_of_roams {capacity : UInt32} (ht : (start capacity : History C).Roams t) :
    t.Guarded := by
  have hroamed := ht.roamed
  have halive : ∀ h, t.store.isAlive h = true ↔ t.store.Holds h ∨ t.store.Vacant h := fun h =>
    hroamed.kept.isAlive_iff
  refine ⟨halive, ?_, ?_, ?_, ?_, hroamed.kept.free_nodup, ?_, ?_, ?_⟩
  · intro h hholds hvacant
    refine refuses_of_not_alive ?_
    rw [← Bool.not_eq_true, halive]
    exact not_or.mpr ⟨hholds, hvacant⟩
  · intro h hnone c
    exact Store.add_of_find?_eq_none hnone c
  · intro h hnone k
    exact Store.remove_of_find?_eq_none hnone k
  · intro hw h _ hvacant
    have hsound := (ht.reaches hw).sound (.start capacity) hw
    refine hsound.find?_eq_none fun hm => ?_
    exact hsound.recorded.not_free_of_isAlive hm hvacant.2 hvacant.1
  · intro cs h s hc
    exact hroamed.holds_of_create hc
  · intro hw cs h s hc
    exact (((ht.reaches hw).sound (.start capacity) hw).taken hc).1
  · intro h hvacant
    obtain ⟨s, hd, hcount, -, hagain⟩ := hvacant.destroy
    refine ⟨s, hd, ?_, hagain⟩
    rw [hcount, List.count_eq_one_of_mem hroamed.kept.free_nodup hvacant.1]

/-- A handle of no identity, one that is ahead of its slot, and a vacant one that is only
attached to. -/
theorem guarded_of_forged :
    let c : Counter := ⟨⟨⟨3, by decide⟩⟩, 7⟩
    let t := ((((start 4).edit (.create [])).edit (.destroy ⟨0, 0⟩)).edit
      (.destroy ⟨9, 0⟩)).edit (.add ⟨0, 1⟩ c)
    (start 4).Roams t ∧ t.store.Vacant ⟨0, 1⟩ ∧ t.Guarded := by
  intro c t
  have ht : (start 4).Roams t := by
    refine .edit (.edit (.edit (.edit .refl _ ?_) _ ?_) _ ?_) _ ?_
    · intro h hh
      cases hh
    · intro h hh
      cases hh
      decide +kernel
    · intro h hh
      cases hh
      decide +kernel
    · intro h hh
      cases hh
  exact ⟨ht, by decide +kernel, guarded_of_roams ht⟩

/-- The handle that follows a destroyed one is destroyed as well, and two entities share the next. -/
theorem shared_of_vacant :
    let t := ((start 4 : History Counter).edit (.create [])).edit (.destroy ⟨0, 0⟩)
    let u := t.edit (.destroy ⟨0, 1⟩)
    t.store.isAlive ⟨0, 1⟩ = true ∧ ¬ t.store.Holds ⟨0, 1⟩ ∧ u.store.free = [0, 0] ∧
      u.store.reserved = .error .reservedBelowZero ∧
      ((u.edit (.create [])).edit (.create [])).issued = [⟨0, 2⟩, ⟨0, 2⟩, ⟨0, 0⟩] := by
  decide +kernel

end Runs

end History

end Realm
