import Realm.Proofs.Store.Queue

/-!
# Applying the noted changes

A single change of the queue does one of four things. From this follows what the whole pass does: a
slot is settled, which means that the waiting record becomes visible, and that a visible record of
an earlier generation is gone. Nothing is left to apply afterwards.
-/

namespace Realm

variable {C : Type}

namespace Slot

/-- The slot once nothing about it is left to apply. -/
def settle (slot : Slot C) : Slot C :=
  { slot with
    visible := slot.pending.or (slot.visible.filter fun e => e.handle.generation = slot.generation)
    pending := none }

@[simp] theorem waiting_settle (slot : Slot C) : slot.settle.waiting = none := rfl

@[simp] theorem generation_settle (slot : Slot C) : slot.settle.generation = slot.generation := rfl

theorem shown_settle (slot : Slot C) :
    slot.settle.shown =
      slot.waiting.or (slot.shown.filter fun h => h.generation = slot.generation) := by
  cases hp : slot.pending with
  | some e => simp [settle, shown, waiting, hp]
  | none =>
      cases hv : slot.visible with
      | none => simp [settle, shown, waiting, hp, hv]
      | some e =>
          by_cases hg : e.handle.generation = slot.generation <;>
            simp [settle, shown, waiting, hp, hv, Option.filter_some, hg]

def reveal (slot : Slot C) (e : Entity C) : Slot C :=
  { slot with visible := some e, pending := none }

def vacate (slot : Slot C) : Slot C := { slot with visible := none }

theorem Tidy.reveal {slot : Slot C} {id : UInt32} {free : Prop} {e : Entity C}
    (hcur : e.handle = slot.current id) (hused : ¬ free) : (slot.reveal e).Tidy id free where
  shown_le := by
    intro h hs
    obtain rfl : e.handle = h := Option.some.inj hs
    rw [hcur]
    exact ⟨rfl, Nat.le_refl _⟩
  of_free := fun hf => absurd hf hused
  of_used := fun _ => .inr ⟨rfl, congrArg some hcur⟩

theorem Tidy.vacate {slot : Slot C} {id : UInt32} {free : Prop} (ht : slot.Tidy id free)
    (hdoomed : slot.shown ≠ some (slot.current id)) : slot.vacate.Tidy id free where
  shown_le := by intro h hs; cases hs
  of_free := fun hf => ⟨(ht.of_free hf).1, by intro hs; cases hs⟩
  of_used := by
    intro hused
    rcases ht.of_used hused with ⟨hw, -⟩ | ⟨-, hshown⟩
    · exact .inl ⟨hw, by intro hs; cases hs⟩
    · exact absurd hshown hdoomed

end Slot

namespace Store

/-- What applying the first change of a queue does, with the transition it gives. -/
inductive Applies (s : Store C) : Change → Option Transition → Store C → Prop
  | added {h : Handle} {slot : Slot C} {e : Entity C} (found : s.at? h.id = some slot)
      (pending : slot.pending = some e) (handle : e.handle = h) (hidden : slot.visible = none) :
      Applies s (.created h) (some (.added h e.mask)) (s.modifySlot h (·.reveal e))
  | skipped {h : Handle} (dropped : ∀ slot, s.at? h.id = some slot → slot.waiting ≠ some h) :
      Applies s (.created h) none s
  | removed {h : Handle} {slot : Slot C} {e : Entity C} (found : s.at? h.id = some slot)
      (visible : slot.visible = some e) (handle : e.handle = h) (doomed : h ≠ slot.current h.id) :
      Applies s (.destroyed h) (some (.removed h)) (s.modifySlot h Slot.vacate)
  | changed {h : Handle} {slot : Slot C} {e : Entity C} (found : s.at? h.id = some slot)
      (visible : slot.visible = some e) (handle : e.handle = h) :
      Applies s (.changed h) (some (.changed h e.mask)) s

section Applies

variable {s s' : Store C} {change : Change} {rest : List Change} {transition : Option Transition}
  {h : Handle} {slot : Slot C}

/-- A new record becomes visible only where none is. -/
theorem Queued.visible_eq_none (hq : s.Queued (.created h :: rest)) (ht : s.Tidy)
    (hslot : s.at? h.id = some slot) : slot.visible = none := by
  obtain ⟨other, hother, hne, -⟩ := hq.of_created h List.mem_cons_self
  rw [hslot] at hother
  obtain rfl := Option.some.inj hother
  cases hvisible : slot.visible with
  | none => rfl
  | some e =>
      have hshown : slot.shown = some e.handle := Slot.shown_of_visible hvisible
      have hid := ((ht.slot h.id slot hslot).shown_le _ hshown).1
      have hdoomed : e.handle ≠ slot.current h.id := fun heq => hne (heq ▸ hshown)
      have hm := hq.doomed_destroyed h.id slot e.handle hslot hshown hdoomed
      have hm : .destroyed e.handle ∈ rest := by simpa using hm
      exact ((List.pairwise_cons.mp hq.ordered).1 _ hm hid.symm).elim

/-- Nothing else is noted of an identity once its waiting record becomes visible. -/
theorem Queued.id_ne_of_pending (hq : s.Queued (.created h :: rest)) (ht : s.Tidy)
    (hslot : s.at? h.id = some slot) (hw : slot.waiting = some h) :
    ∀ c ∈ rest, c.handle.id ≠ h.id := by
  intro c hc hid
  have hprec := (List.pairwise_cons.mp hq.ordered).1 c hc hid.symm
  cases c with
  | changed h' => exact hprec
  | destroyed h' => exact hprec
  | created h' =>
      have hlt : h.generation.toNat < h'.generation.toNat := hprec
      have hid : h'.id = h.id := hid
      obtain ⟨other, hother, -, hor⟩ := hq.of_created h' (List.mem_cons_of_mem _ hc)
      rw [hid, hslot] at hother
      obtain rfl := Option.some.inj hother
      have hgen : h.generation = slot.generation := by
        rw [((ht.slot h.id slot hslot).of_waiting hw).1, Slot.generation_current]
      rcases hor with hw' | hlt'
      · obtain rfl := Option.some.inj (hw.symm.trans hw')
        omega
      · rw [hgen] at hlt
        omega

/-- Of a destroyed record's identity only later creations are noted. -/
theorem Queued.eq_created_of_destroyed (hq : s.Queued (.destroyed h :: rest)) :
    ∀ c ∈ rest, c.handle.id = h.id → ∃ h', c = .created h' := by
  intro c hc hid
  have hprec := (List.pairwise_cons.mp hq.ordered).1 c hc hid.symm
  cases c with
  | created h' => exact ⟨h', rfl⟩
  | destroyed h' => exact hprec.elim
  | changed h' => exact hprec.elim

/-- A change can be dropped from the queue once nothing in the slots calls for it. -/
theorem Queued.tail (hq : s.Queued (change :: rest))
    (hcreated : ∀ id slot h, s.at? id = some slot → slot.waiting = some h → change ≠ .created h)
    (hdestroyed : ∀ id slot h, s.at? id = some slot → slot.shown = some h →
      h ≠ slot.current id → change ≠ .destroyed h) : s.Queued rest where
  waiting_created := by
    intro id slot h hs hw
    exact (List.mem_cons.mp (hq.waiting_created id slot h hs hw)).resolve_left
      (hcreated id slot h hs hw).symm
  doomed_destroyed := by
    intro id slot h hs hshown hne
    exact (List.mem_cons.mp (hq.doomed_destroyed id slot h hs hshown hne)).resolve_left
      (hdestroyed id slot h hs hshown hne).symm
  of_created := fun h hm => hq.of_created h (List.mem_cons_of_mem _ hm)
  of_destroyed := fun h hm => hq.of_destroyed h (List.mem_cons_of_mem _ hm)
  of_changed := fun h hm => hq.of_changed h (List.mem_cons_of_mem _ hm)
  ordered := (List.pairwise_cons.mp hq.ordered).2

/-- Once a record became visible, nothing that is left concerns its slot. -/
theorem Queued.reveal {e : Entity C} (hq : s.Queued (.created h :: rest)) (ht : s.Tidy)
    (found : s.at? h.id = some slot) (pending : slot.pending = some e) (handle : e.handle = h) :
    (s.modifySlot h (·.reveal e)).Queued rest := by
  have hw : slot.waiting = some h := handle ▸ Slot.waiting_of_pending pending
  have hcur : h = slot.current h.id := ((ht.slot h.id slot found).of_waiting hw).1
  have hout : ∀ id, id ≠ h.id → (s.modifySlot h (·.reveal e)).at? id = s.at? id := by
    intro id hid
    rw [at?_modifySlot, if_neg hid]
  have hother : ∀ c ∈ rest, c.handle.id ≠ h.id := hq.id_ne_of_pending ht found hw
  refine ⟨?_, ?_, ?_, ?_, ?_, (List.pairwise_cons.mp hq.ordered).2⟩
  · intro id other h' hs hw'
    rcases at?_cases (at?_modifySlot _ _ _ id) hs with ⟨rfl, hnew⟩ | ⟨hid, hold⟩
    · rw [found] at hnew
      obtain rfl := Option.some.inj hnew
      cases hw'
    · rcases List.mem_cons.mp (hq.waiting_created id other h' hold hw') with heq | hm
      · obtain rfl : h' = h := by simpa using heq
        obtain ⟨hcur', -⟩ := (ht.slot id other hold).of_waiting hw'
        exact absurd (Slot.eq_current_iff.mp hcur').1.symm hid
      · exact hm
  · intro id other h' hs hshown hne
    rcases at?_cases (at?_modifySlot _ _ _ id) hs with ⟨rfl, hnew⟩ | ⟨-, hs⟩
    · rw [found] at hnew
      obtain rfl := Option.some.inj hnew
      obtain rfl : e.handle = h' := Option.some.inj hshown
      exact absurd (handle.trans hcur) hne
    · simpa using hq.doomed_destroyed id other h' hs hshown hne
  · intro h' hm
    rw [hout h'.id (hother _ hm)]
    exact hq.of_created h' (List.mem_cons_of_mem _ hm)
  · intro h' hm
    rw [hout h'.id (hother _ hm)]
    exact hq.of_destroyed h' (List.mem_cons_of_mem _ hm)
  · intro h' hm
    rw [hout h'.id (hother _ hm)]
    exact hq.of_changed h' (List.mem_cons_of_mem _ hm)

/-- Once a record is gone, only creations are left that concern its slot. -/
theorem Queued.vacate {e : Entity C} (hq : s.Queued (.destroyed h :: rest)) (ht : s.Tidy)
    (found : s.at? h.id = some slot) (visible : slot.visible = some e) (handle : e.handle = h) :
    (s.modifySlot h Slot.vacate).Queued rest := by
  have hshown : slot.shown = some h := handle ▸ Slot.shown_of_visible visible
  have hat : (s.modifySlot h Slot.vacate).at? h.id = some slot.vacate := by simp [found]
  have hout : ∀ id, id ≠ h.id → (s.modifySlot h Slot.vacate).at? id = s.at? id := by
    intro id hid
    rw [at?_modifySlot, if_neg hid]
  have hcreated : ∀ c ∈ rest, c.handle.id = h.id → ∃ h', c = .created h' :=
    hq.eq_created_of_destroyed
  refine ⟨?_, ?_, ?_, ?_, ?_, (List.pairwise_cons.mp hq.ordered).2⟩
  · intro id other h' hs hw
    rcases at?_cases (at?_modifySlot _ _ _ id) hs with ⟨rfl, hnew⟩ | ⟨-, hs⟩
    · rw [found] at hnew
      obtain rfl := Option.some.inj hnew
      simpa using hq.waiting_created h.id slot h' found hw
    · simpa using hq.waiting_created id other h' hs hw
  · intro id other h' hs hsh hne
    rcases at?_cases (at?_modifySlot _ _ _ id) hs with ⟨rfl, hnew⟩ | ⟨hid, hold⟩
    · rw [found] at hnew
      obtain rfl := Option.some.inj hnew
      cases hsh
    · rcases List.mem_cons.mp (hq.doomed_destroyed id other h' hold hsh hne) with heq | hm
      · obtain rfl : h' = h := by simpa using heq
        exact absurd ((ht.slot id other hold).shown_le h' hsh).1.symm hid
      · exact hm
  · intro h' hm
    obtain ⟨other, hother, hsh, hor⟩ := hq.of_created h' (List.mem_cons_of_mem _ hm)
    by_cases hid : h'.id = h.id
    · rw [hid, found] at hother
      obtain rfl := Option.some.inj hother
      exact ⟨slot.vacate, by rw [hid, hat], (by intro hs; cases hs), hor⟩
    · exact ⟨other, by rw [hout _ hid, hother], hsh, hor⟩
  · intro h' hm
    by_cases hid : h'.id = h.id
    · obtain ⟨_, heq⟩ := hcreated _ hm hid
      cases heq
    · rw [hout _ hid]
      exact hq.of_destroyed h' (List.mem_cons_of_mem _ hm)
  · intro h' hm
    by_cases hid : h'.id = h.id
    · obtain ⟨_, heq⟩ := hcreated _ hm hid
      cases heq
    · rw [hout _ hid]
      exact hq.of_changed h' (List.mem_cons_of_mem _ hm)

/-- Applying the first change of a queue does one of the four things. -/
theorem applies (ht : s.Tidy) (hq : s.Queued (change :: rest)) :
    s.Applies change (s.applyChange change).1 (s.applyChange change).2 := by
  cases change with
  | created h =>
      obtain ⟨slot, hslot, -, -⟩ := hq.of_created h List.mem_cons_self
      cases hm : Entity.matching h slot.pending with
      | none =>
          have hw := Entity.matching_eq_none_iff.mp hm
          simp only [applyChange, slot?_eq, hslot, Option.bind_some, hm]
          refine .skipped ?_
          intro other hother
          rw [hslot] at hother
          obtain rfl := Option.some.inj hother
          exact hw
      | some e =>
          obtain ⟨hpending, hhandle⟩ := Entity.matching_eq_some_iff.mp hm
          simp only [applyChange, slot?_eq, hslot, Option.bind_some, hm]
          exact .added hslot hpending hhandle (hq.visible_eq_none ht hslot)
  | destroyed h =>
      obtain ⟨slot, hslot, hshown, hne⟩ := hq.of_destroyed h List.mem_cons_self
      obtain ⟨e, hvisible, hhandle⟩ := Option.map_eq_some_iff.mp hshown
      have hm := Entity.matching_eq_some_iff.mpr ⟨hvisible, hhandle⟩
      simp only [applyChange, slot?_eq, hslot, Option.bind_some, hm]
      exact .removed hslot hvisible hhandle hne
  | changed h =>
      obtain ⟨slot, hslot, hshown⟩ := hq.of_changed h List.mem_cons_self
      obtain ⟨e, hvisible, hhandle⟩ := Option.map_eq_some_iff.mp hshown
      have hm := Entity.matching_eq_some_iff.mpr ⟨hvisible, hhandle⟩
      simp only [applyChange, slot?_eq, hslot, Option.bind_some, hm]
      exact .changed hslot hvisible hhandle

namespace Applies

theorem capacity_eq (ha : s.Applies change transition s') : s'.capacity = s.capacity := by
  cases ha <;> rfl

theorem free_eq (ha : s.Applies change transition s') : s'.free = s.free := by
  cases ha <;> rfl

theorem changes_eq (ha : s.Applies change transition s') : s'.changes = s.changes := by
  cases ha <;> rfl

theorem size_eq (ha : s.Applies change transition s') : s'.slots.size = s.slots.size := by
  cases ha with
  | added => exact size_modifySlot _ _ _
  | skipped => rfl
  | removed => exact size_modifySlot _ _ _
  | changed => rfl

/-- A single change does not alter what the slots settle to, if only current records wait. -/
theorem map_settle (ha : s.Applies change transition s')
    (hcurrent : ∀ id slot h, s.at? id = some slot → slot.waiting = some h → h = slot.current id)
    (id : UInt32) : (s'.at? id).map Slot.settle = (s.at? id).map Slot.settle := by
  cases ha with
  | skipped => rfl
  | changed => rfl
  | @added h slot e found pending handle hidden =>
      rw [at?_modifySlot]
      by_cases hid : id = h.id
      · subst hid
        have hw : slot.waiting = some e.handle := Slot.waiting_of_pending pending
        have hcur := hcurrent h.id slot e.handle found hw
        have hgen : e.handle.generation = slot.generation := (Slot.eq_current_iff.mp hcur).2
        simp [found, Slot.settle, Slot.reveal, pending, hgen]
      · rw [if_neg hid]
  | @removed h slot e found visible handle doomed =>
      rw [at?_modifySlot]
      by_cases hid : id = h.id
      · subst hid
        have hgen : ¬ e.handle.generation = slot.generation := by
          intro heq
          exact doomed (Slot.eq_current_iff.mpr ⟨rfl, handle ▸ heq⟩)
        simp [found, Slot.settle, Slot.vacate, visible, Option.filter_some, hgen]
      · rw [if_neg hid]

theorem tidy (ha : s.Applies change transition s') (ht : s.Tidy) : s'.Tidy := by
  refine ⟨⟨?_, ?_⟩, ?_, ?_, ?_⟩
  · rw [ha.size_eq, ha.capacity_eq]
    exact ht.size_le
  · rw [ha.free_eq, ha.size_eq]
    exact ht.free_lt
  · rw [ha.free_eq]
    exact ht.free_nodup
  · intro id slot hs
    rw [ha.free_eq]
    cases ha with
    | skipped => exact ht.slot id slot hs
    | changed => exact ht.slot id slot hs
    | @added h old e found pending handle hidden =>
        rcases at?_cases (at?_modifySlot _ _ _ id) hs with ⟨rfl, hnew⟩ | ⟨-, hs⟩
        · rw [found] at hnew
          obtain rfl := Option.some.inj hnew
          have hw : old.waiting = some e.handle := Slot.waiting_of_pending pending
          obtain ⟨hcur, hused, -⟩ := (ht.slot h.id old found).of_waiting hw
          exact Slot.Tidy.reveal hcur hused
        · exact ht.slot id slot hs
    | @removed h old e found visible handle doomed =>
        rcases at?_cases (at?_modifySlot _ _ _ id) hs with ⟨rfl, hnew⟩ | ⟨-, hs⟩
        · rw [found] at hnew
          obtain rfl := Option.some.inj hnew
          have hshown : old.shown = some h := handle ▸ Slot.shown_of_visible visible
          exact (ht.slot h.id old found).vacate (by rw [hshown]; simpa using doomed)
        · exact ht.slot id slot hs
  · intro id slot other hs hother
    cases ha with
    | skipped => exact ht.tracked id slot other hs hother
    | changed => exact ht.tracked id slot other hs hother
    | @added h old e found pending handle hidden =>
        rcases at?_cases (at?_modifySlot _ _ _ id) hs with ⟨rfl, hnew⟩ | ⟨-, hs⟩
        · rw [found] at hnew
          obtain rfl := Option.some.inj hnew
          have heq : e = other := by simpa [Slot.reveal] using hother
          exact heq ▸ ht.tracked h.id old e found (.inr pending)
        · exact ht.tracked id slot other hs hother
    | @removed h old e found visible handle doomed =>
        rcases at?_cases (at?_modifySlot _ _ _ id) hs with ⟨rfl, hnew⟩ | ⟨-, hs⟩
        · rw [found] at hnew
          obtain rfl := Option.some.inj hnew
          have hpending : old.pending = some other := by simpa [Slot.vacate] using hother
          exact ht.tracked h.id old other found (.inr hpending)
        · exact ht.tracked id slot other hs hother

/-- What is left in the queue says about the new slots what the queue said about the old ones. -/
theorem queued (ha : s.Applies change transition s') (ht : s.Tidy)
    (hq : s.Queued (change :: rest)) : s'.Queued rest := by
  cases ha with
  | @skipped h dropped =>
      refine hq.tail ?_ ?_
      · intro id slot h' hs hw heq
        obtain rfl : h = h' := by simpa using heq
        obtain ⟨hcur, -⟩ := (ht.slot id slot hs).of_waiting hw
        have hid : h.id = id := (Slot.eq_current_iff.mp hcur).1
        exact dropped slot (hid ▸ hs) hw
      · intro id slot h' _ _ _ heq
        cases heq
  | changed =>
      refine hq.tail ?_ ?_
      · intro id slot h' _ _ heq
        cases heq
      · intro id slot h' _ _ _ heq
        cases heq
  | added found pending handle hidden => exact hq.reveal ht found pending handle
  | removed found visible handle doomed => exact hq.vacate ht found visible handle

end Applies

end Applies

/-! ## The whole queue -/

theorem applyChanges_cons (s : Store C) (change : Change) (rest : List Change) :
    s.applyChanges (change :: rest) =
      ((s.applyChange change).1.toList ++ ((s.applyChange change).2.applyChanges rest).1,
        ((s.applyChange change).2.applyChanges rest).2) := rfl

structure Settles (s s' : Store C) : Prop where
  capacity_eq : s'.capacity = s.capacity
  size_eq : s'.slots.size = s.slots.size
  free_eq : s'.free = s.free
  changes_eq : s'.changes = s.changes
  map_settle : ∀ id, (s'.at? id).map Slot.settle = (s.at? id).map Slot.settle
  tidy : s'.Tidy
  queued : s'.Queued []

theorem applyChanges_settles {s : Store C} {queue : List Change} (ht : s.Tidy)
    (hq : s.Queued queue) : s.Settles (s.applyChanges queue).2 := by
  induction queue generalizing s with
  | nil => exact ⟨rfl, rfl, rfl, rfl, fun _ => rfl, ht, hq⟩
  | cons change rest ih =>
      have ha := applies ht hq
      have hrest := ih (ha.tidy ht) (ha.queued ht hq)
      have hcurrent : ∀ id slot h, s.at? id = some slot → slot.waiting = some h →
          h = slot.current id := fun id slot _ hs hw => ((ht.slot id slot hs).of_waiting hw).1
      rw [applyChanges_cons]
      exact ⟨hrest.capacity_eq.trans ha.capacity_eq, hrest.size_eq.trans ha.size_eq,
        hrest.free_eq.trans ha.free_eq, hrest.changes_eq.trans ha.changes_eq,
        fun id => (hrest.map_settle id).trans (ha.map_settle hcurrent id), hrest.tidy, hrest.queued⟩

/-- Slots of which nothing is noted are settled. -/
theorem Queued.settle_eq {s : Store C} (hq : s.Queued []) {id : UInt32} {slot : Slot C}
    (hs : s.at? id = some slot) : slot.settle = slot := by
  have hpending : slot.pending = none := by
    cases hp : slot.pending with
    | none => rfl
    | some e =>
        have hw : slot.waiting = some e.handle := Slot.waiting_of_pending hp
        cases hq.waiting_created id slot e.handle hs hw
  have hvisible : slot.visible.filter (fun e => e.handle.generation = slot.generation) =
      slot.visible := by
    cases hv : slot.visible with
    | none => rfl
    | some e =>
        have hshown : slot.shown = some e.handle := Slot.shown_of_visible hv
        by_cases hcur : e.handle = slot.current id
        · simp [hcur]
        · cases hq.doomed_destroyed id slot e.handle hs hshown hcur
  rw [Slot.settle, hpending, hvisible, Option.none_or, ← hpending]

section Apply

variable {s : Store C}

theorem Tidy.with_changes (ht : s.Tidy) (changes : Array Change) :
    ({ s with changes } : Store C).Tidy :=
  ⟨⟨ht.size_le, ht.free_lt⟩, ht.free_nodup, ht.slot, ht.tracked⟩

theorem Queued.with_changes {queue : List Change} (hq : s.Queued queue) (changes : Array Change) :
    ({ s with changes } : Store C).Queued queue := hq.congr fun _ => rfl

theorem apply_settles (ht : s.Tidy) (hq : s.Queued s.changes.toList) :
    ({ s with changes := #[] } : Store C).Settles s.apply.2 :=
  applyChanges_settles (ht.with_changes #[]) (hq.with_changes #[])

/-- After applying everything that is noted, every slot is settled. -/
theorem at?_apply (ht : s.Tidy) (hq : s.Queued s.changes.toList) (id : UInt32) :
    s.apply.2.at? id = (s.at? id).map Slot.settle := by
  have hsettles := apply_settles ht hq
  have hmap : (s.apply.2.at? id).map Slot.settle = (s.at? id).map Slot.settle :=
    hsettles.map_settle id
  rw [← hmap]
  cases hslot : s.apply.2.at? id with
  | none => rfl
  | some slot => rw [Option.map_some, hsettles.queued.settle_eq hslot]

theorem changes_apply (ht : s.Tidy) (hq : s.Queued s.changes.toList) : s.apply.2.changes = #[] :=
  (apply_settles ht hq).changes_eq

theorem queued_apply (ht : s.Tidy) (hq : s.Queued s.changes.toList) :
    s.apply.2.Queued s.apply.2.changes.toList := by
  rw [changes_apply ht hq]
  exact (apply_settles ht hq).queued

end Apply

end Store

end Realm
