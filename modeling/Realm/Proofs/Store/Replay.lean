import Mathlib.Data.Finset.Basic
import Mathlib.Data.Finset.Dedup
import Realm.Proofs.World.Subscription
import Realm.World.Script

/-!
# Replaying the transitions of an `apply`

Main statement: the transitions that `apply` reports are exactly what happened to the visible
handles. They can be replayed one after the other on the handles that were visible before, they
lead to those that are visible afterwards, and they carry the masks that the entities have.
-/

namespace Realm

variable {C : Type}

namespace Transition

/-- One transition on a set of visible handles; `none` if it does not fit the set. -/
def replay? (seen : Finset Handle) : Transition → Option (Finset Handle)
  | .added h _ => if h ∉ seen ∧ ∀ g ∈ seen, g.id ≠ h.id then some (insert h seen) else none
  | .changed h _ => if h ∈ seen then some seen else none
  | .removed h => if h ∈ seen then some (seen.erase h) else none

def added? : Transition → Option Handle
  | .added h _ => some h
  | _ => none

def removed? : Transition → Option Handle
  | .removed h => some h
  | _ => none

def told? : Transition → Option (Handle × Mask)
  | .added h mask => some (h, mask)
  | .changed h mask => some (h, mask)
  | .removed _ => none

end Transition

namespace Change

def created? : Change → Option Handle
  | .created h => some h
  | _ => none

def destroyed? : Change → Option Handle
  | .destroyed h => some h
  | _ => none

theorem nodup_created {queue : List Change} (ho : queue.Pairwise Precedes) :
    (queue.filterMap created?).Nodup := by
  refine List.Pairwise.filterMap _ ?_ ho
  rintro first later hprec h hh h' hh' rfl
  cases first <;> cases later <;> simp_all [created?, Precedes, Change.handle]

theorem nodup_destroyed {queue : List Change} (ho : queue.Pairwise Precedes) :
    (queue.filterMap destroyed?).Nodup := by
  refine List.Pairwise.filterMap _ ?_ ho
  rintro first later hprec h hh h' hh' rfl
  cases first <;> cases later <;> simp_all [destroyed?, Precedes, Change.handle]

end Change

namespace Slot

variable {slot : Slot C} {id : UInt32} {free : Prop}

/-- Settling a slot leaves the record of the living entity as it is. -/
theorem find?_settle (ht : slot.Tidy id free) (hused : ¬ free) :
    slot.settle.find? (slot.current id) = slot.find? (slot.current id) := by
  rcases ht.of_used hused with ⟨hw, hs⟩ | ⟨hw, hs⟩
  · obtain ⟨e, hp, he⟩ := Option.map_eq_some_iff.mp hw
    have hvisible : slot.settle.visible = some e := by simp [settle, hp]
    rw [find?_eq_some_iff.mpr (.inl ⟨hvisible, he⟩), find?_eq_some_iff.mpr (.inr ⟨hs, hp, he⟩)]
  · obtain ⟨e, hv, he⟩ := Option.map_eq_some_iff.mp hs
    have hp : slot.pending = none := Option.map_eq_none_iff.mp hw
    have hvisible : slot.settle.visible = some e := by simp [settle, hp, hv, he]
    rw [find?_eq_some_iff.mpr (.inl ⟨hvisible, he⟩), find?_eq_some_iff.mpr (.inl ⟨hv, he⟩)]

/-- Once a slot of a tidy store is settled, it shows exactly the living entity. -/
theorem shown_settle_iff (ht : slot.Tidy id free) {h : Handle} :
    slot.settle.shown = some h ↔ h = slot.current id ∧ ¬ free := by
  rw [shown_settle, Option.or_eq_some_iff, Option.filter_eq_some_iff, decide_eq_true_eq]
  constructor
  · rintro (hw | ⟨-, hs, hg⟩)
    · exact ⟨(ht.of_waiting hw).1, (ht.of_waiting hw).2.1⟩
    · have hcur := eq_current_iff.mpr ⟨(ht.shown_le h hs).1, hg⟩
      exact ⟨hcur, (ht.of_shown_current (hcur ▸ hs)).1⟩
  · rintro ⟨rfl, hused⟩
    rcases ht.of_used hused with ⟨hw, -⟩ | ⟨hw, hs⟩
    · exact .inl hw
    · exact .inr ⟨hw, hs, rfl⟩

end Slot

namespace Store

def seen (s : Store C) : Finset Handle := (s.visible.map (·.handle)).toFinset

variable {s s' : Store C} {change : Change} {transition : Option Transition} {queue : List Change}
  {h : Handle}

theorem Tidy.mem_seen (ht : s.Tidy) : h ∈ s.seen ↔ (s.seen? h).isSome = true := by
  simp only [seen, List.mem_toFinset, List.mem_map, Option.isSome_iff_exists,
    ht.placed.seen?_eq_some_iff]

/-! ## One change -/

namespace Applies

/-- The transition of one change can be replayed and leads to what is visible after it. -/
theorem replay (ha : s.Applies change transition s') (ht : s.Tidy) :
    transition.toList.foldlM Transition.replay? s.seen = some s'.seen := by
  have ht' := ha.tidy ht
  cases ha with
  | skipped => rfl
  | @added h slot e found pending handle hidden =>
      have hother : ∀ g ∈ s.seen, g.id ≠ h.id := by
        intro g hg hid
        obtain ⟨e, hseen⟩ := Option.isSome_iff_exists.mp (ht.mem_seen.mp hg)
        obtain ⟨other, hother, hv, -⟩ := seen?_eq_some_iff.mp hseen
        rw [hid, found] at hother
        rw [← Option.some.inj hother, hidden] at hv
        cases hv
      have hnew : (s.modifySlot h (·.reveal e)).seen = insert h s.seen := by
        ext g
        rw [ht'.mem_seen, seen?_reveal found hidden handle, Finset.mem_insert, ht.mem_seen]
        by_cases hg : g = h <;> simp [hg]
      have hnot : h ∉ s.seen := fun hm => hother h hm rfl
      simpa [Transition.replay?, hnot, hnew] using hother
  | @removed h slot e found visible handle doomed =>
      have hseen : s.seen? h = some e := seen?_eq_some_iff.mpr ⟨slot, found, visible, handle⟩
      have hnew : (s.modifySlot h Slot.vacate).seen = s.seen.erase h := by
        ext g
        rw [ht'.mem_seen, seen?_vacate found visible handle, Finset.mem_erase, ht.mem_seen]
        by_cases hg : g = h <;> simp [hg]
      simp [Transition.replay?, ht.mem_seen, hseen, hnew]
  | @changed h slot e found visible handle =>
      have hseen : s.seen? h = some e := seen?_eq_some_iff.mpr ⟨slot, found, visible, handle⟩
      simp [Transition.replay?, ht.mem_seen, hseen]

/-- What is found after one change was found before it. -/
theorem find?_of_find? (ha : s.Applies change transition s') (ht : s.Tidy) {e : Entity C}
    (hf : s'.find? h = some e) : s.find? h = some e := by
  cases ha with
  | skipped => exact hf
  | changed => exact hf
  | @added g slot r found pending handle hidden =>
      rw [find?, slot?_eq, at?_modifySlot] at hf
      by_cases hid : h.id = g.id
      · rw [if_pos hid, hid, found] at hf
        rw [find?, slot?_eq, hid, found]
        simpa [Slot.find?, Slot.reveal, pending, hidden] using hf
      · rw [if_neg hid] at hf
        exact hf
  | @removed g slot r found visible handle doomed =>
      rw [find?, slot?_eq, at?_modifySlot] at hf
      by_cases hid : h.id = g.id
      · rw [if_pos hid, hid, found] at hf
        rw [find?, slot?_eq, hid, found]
        have hp : Entity.matching h slot.pending = some e := by
          simpa [Slot.find?, Slot.vacate] using hf
        obtain ⟨hpending, rfl⟩ := Entity.matching_eq_some_iff.mp hp
        -- the record that goes is of an earlier generation than the one that waits
        have hw : slot.waiting = some e.handle := Slot.waiting_of_pending hpending
        have hcur := ((ht.slot g.id slot found).of_waiting hw).1
        have hne : r.handle ≠ e.handle := by
          rw [handle, hcur]
          exact doomed
        simp [Slot.find?, visible, Entity.matching_of_ne hne, hp]
      · rw [if_neg hid] at hf
        exact hf

theorem told (ha : s.Applies change transition s') {t : Transition}
    (hm : t ∈ transition.toList) {mask : Mask} (htold : t.told? = some (h, mask)) :
    s.mask? h = some mask := by
  have hmask : ∀ {e : Entity C}, s.find? h = some e → s.mask? h = some e.mask := by
    intro e hf
    simp [mask?, hf]
  cases ha with
  | skipped => cases hm
  | @added g slot e found pending handle hidden =>
      obtain rfl : t = .added g e.mask := by simpa using hm
      obtain ⟨rfl, rfl⟩ : g = h ∧ e.mask = mask := by simpa [Transition.told?] using htold
      refine hmask ?_
      rw [find?_of_at? found]
      exact Slot.find?_eq_some_iff.mpr (.inr ⟨by simp [Slot.shown, hidden], pending, handle⟩)
  | removed found visible handle doomed =>
      obtain rfl := List.mem_singleton.mp hm
      cases htold
  | @changed g slot e found visible handle =>
      obtain rfl : t = .changed g e.mask := by simpa using hm
      obtain ⟨rfl, rfl⟩ : g = h ∧ e.mask = mask := by simpa [Transition.told?] using htold
      refine hmask ?_
      rw [find?_of_at? found]
      exact Slot.find?_eq_some_iff.mpr (.inl ⟨visible, handle⟩)

end Applies

/-! ## The whole queue -/

theorem replay_applyChanges (ht : s.Tidy) (hq : s.Queued queue) :
    (s.applyChanges queue).1.foldlM Transition.replay? s.seen =
      some (s.applyChanges queue).2.seen := by
  induction queue generalizing s with
  | nil => rfl
  | cons change rest ih =>
      have ha := applies ht hq
      rw [applyChanges_cons, List.foldlM_append, ha.replay ht]
      exact ih (ha.tidy ht) (ha.queued ht hq)

theorem told_applyChanges (ht : s.Tidy) (hq : s.Queued queue) {t : Transition}
    (hm : t ∈ (s.applyChanges queue).1) {mask : Mask} (htold : t.told? = some (h, mask)) :
    s.mask? h = some mask := by
  induction queue generalizing s with
  | nil => cases hm
  | cons change rest ih =>
      have ha := applies ht hq
      rw [applyChanges_cons] at hm
      rcases List.mem_append.mp hm with hm | hm
      · exact ha.told hm htold
      · have hlater := ih (ha.tidy ht) (ha.queued ht hq) hm
        obtain ⟨e, hf, rfl⟩ := Option.map_eq_some_iff.mp hlater
        simp [mask?, ha.find?_of_find? ht hf]

/-- Transitions of one sort come from changes of one sort, in order and each from its own. -/
theorem sublist_applyChanges {f : Transition → Option Handle} {g : Change → Option Handle}
    (hfg : ∀ {s s' : Store C} {change : Change} {t : Transition},
      s.Applies change (some t) s' → f t = none ∨ f t = g change)
    (ht : s.Tidy) (hq : s.Queued queue) :
    ((s.applyChanges queue).1.filterMap f).Sublist (queue.filterMap g) := by
  induction queue generalizing s with
  | nil => exact List.Sublist.refl _
  | cons change rest ih =>
      have ha := applies ht hq
      have hrest := ih (ha.tidy ht) (ha.queued ht hq)
      rw [applyChanges_cons, List.filterMap_append, ← List.singleton_append,
        List.filterMap_append]
      refine List.Sublist.append ?_ hrest
      cases hfirst : (s.applyChange change).1 with
      | none => simp
      | some t =>
          rw [hfirst] at ha
          rcases hfg ha with hnone | hsame
          · simp [hnone]
          · simp [List.filterMap_cons, hsame]

/-- Every noted change of kinds is reported. -/
theorem changed_mem_applyChanges (ht : s.Tidy) (hq : s.Queued queue) (hm : .changed h ∈ queue) :
    ∃ mask, .changed h mask ∈ (s.applyChanges queue).1 := by
  induction queue generalizing s with
  | nil => cases hm
  | cons change rest ih =>
      have ha := applies ht hq
      have hrest := ih (ha.tidy ht) (ha.queued ht hq)
      rw [applyChanges_cons]
      rcases List.mem_cons.mp hm with rfl | hm
      · generalize (s.applyChange (.changed h)).1 = first at ha ⊢
        generalize (s.applyChange (.changed h)).2 = after at ha
        cases ha with
        | @changed _ slot e found visible handle => exact ⟨e.mask, by simp⟩
      · obtain ⟨mask, hmask⟩ := hrest hm
        exact ⟨mask, List.mem_append_right _ hmask⟩

theorem apply_of_changes_eq (hc : s.changes = #[]) : s.apply = ([], s) := by
  rw [apply, hc]
  cases s
  simp_all [applyChanges]

end Store

namespace History

variable {t u : History C} {h : Handle}

/-! ## Since the last `apply` -/

/-- Only `apply` changes what is visible. -/
theorem Moves.isSome_seen? [Component C] (hm : t.Moves u) (h : Handle) :
    (u.store.seen? h).isSome = (t.store.seen? h).isSome := by
  cases hm with
  | refused => rfl
  | created creates takes => simp only [creates.seen?_eq]
  | destroyed genuine found current destroys => simp only [destroys.seen?_eq found]
  | @rewritten g f noted s rewrites handle tracked current quiet =>
      show (s.seen? h).isSome = _
      rw [rewrites.seen?_eq handle]
      split
      · next hh => simp [hh]
      · rfl

theorem Edits.seen_eq [Component C] (ht : t.Sound) (he : t.Edits u) (hw : u.Unworn) :
    u.store.seen = t.store.seen := by
  induction he with
  | refl => rfl
  | @edit v before e admits ih =>
      have hw' := hw.of_suffix (suffix_destroyed_edit _ e)
      have hsound := before.reaches.sound ht hw'
      have hmoves := History.moves hsound.tidy admits
      have htidy := (hmoves.sound hsound hw).tidy
      rw [← ih hw']
      ext h
      rw [htidy.mem_seen, hsound.tidy.mem_seen, hmoves.isSome_seen?]

/-- Of the visible entities all but those with a noted change have the mask they had at a base. -/
def Quiet (base : Handle → Option Mask) (s : Store C) : Prop :=
  ∀ h e, s.seen? h = some e → .changed h ∉ s.changes.toList → base h = some e.mask

theorem Quiet.moves [Component C] {base : Handle → Option Mask} (hb : Quiet base t.store)
    (hm : t.Moves u) : Quiet base u.store := by
  cases hm with
  | refused => exact hb
  | created creates takes =>
      intro h e he hnot
      rw [creates.seen?_eq] at he
      exact hb h e he fun hm => hnot (by simp [creates.changes_eq, hm])
  | @destroyed g slot s genuine found current destroys =>
      intro h e he hnot
      rw [destroys.seen?_eq found] at he
      refine hb h e he fun hm => hnot ?_
      rw [destroys.changes_eq]
      split <;> simp [hm]
  | @rewritten g f noted s rewrites handle tracked current quiet =>
      intro h e he hnot
      have he : s.seen? h = some e := he
      have hnot : .changed h ∉ s.changes.toList := hnot
      rw [rewrites.seen?_eq handle] at he
      rcases rewrites.changes_eq with ⟨hn, hchanges⟩ | ⟨hn, hchanges⟩
      · obtain ⟨hne, hkept⟩ : ¬ h = g ∧ .changed h ∉ t.store.changes.toList := by
          simpa [hchanges, and_comm] using hnot
        rw [if_neg hne] at he
        exact hb h e he hkept
      · rw [hchanges] at hnot
        by_cases hh : h = g
        · subst hh
          rw [if_pos rfl] at he
          obtain ⟨old, hold, rfl⟩ := Option.map_eq_some_iff.mp he
          obtain ⟨slot, hslot, hv, hhold⟩ := Store.seen?_eq_some_iff.mp hold
          rw [quiet hn slot old hslot hv hhold]
          exact hb h old hold hnot
        · rw [if_neg hh] at he
          exact hb h e he hnot

theorem Quiet.edits [Component C] {base : Handle → Option Mask} (hb : Quiet base t.store)
    (ht : t.Sound) (he : t.Edits u) (hw : u.Unworn) : Quiet base u.store := by
  induction he with
  | refl => exact hb
  | edit before e admits ih =>
      have hw' := hw.of_suffix (suffix_destroyed_edit _ e)
      have hsound := before.reaches.sound ht hw'
      exact Quiet.moves (ih hw') (History.moves hsound.tidy admits)

theorem quiet_mask? (s : Store C) : Quiet s.mask? s := by
  intro h e he _
  obtain ⟨slot, hslot, hv, hh⟩ := Store.seen?_eq_some_iff.mp he
  have hf : s.find? h = some e := by
    rw [Store.find?_of_at? hslot]
    exact Slot.find?_eq_some_iff.mpr (.inl ⟨hv, hh⟩)
  simp [Store.mask?, hf]

/-! ## The main statement -/

structure Reported (t : History C) : Prop where
  replay : t.store.apply.1.foldlM Transition.replay? t.store.seen = some t.apply.store.seen
  added_nodup : (t.store.apply.1.filterMap Transition.added?).Nodup
  removed_nodup : (t.store.apply.1.filterMap Transition.removed?).Nodup
  mem_seen_iff : ∀ h, h ∈ t.apply.store.seen ↔ h ∈ t.issued ∧ t.apply.store.isAlive h = true
  told : ∀ r ∈ t.store.apply.1, ∀ h mask, r.told? = some (h, mask) → t.store.mask? h = some mask
  kept : ∀ h ∈ t.issued, t.store.isAlive h = true → t.apply.store.isAlive h = true ∧
    t.apply.store.mask? h = t.store.mask? h ∧ ∀ k, t.apply.store.get? h k = t.store.get? h k
  again : t.apply.store.apply = ([], t.apply.store)

/-- What is reported of the masks of a store as the last `apply` left it. -/
structure ReportedSince (t : History C) (last : Store C) : Prop where
  seen_eq : t.store.seen = last.seen
  changed : ∀ h ∈ t.store.seen, h ∈ t.apply.store.seen → t.store.mask? h ≠ last.mask? h →
    ∃ mask, .changed h mask ∈ t.store.apply.1

theorem Sound.at?_apply (ht : t.Sound) (id : UInt32) :
    t.apply.store.at? id = (t.store.at? id).map Slot.settle :=
  Store.at?_apply ht.tidy ht.queued id

theorem Sound.isAlive_apply (ht : t.Sound) (h : Handle) :
    t.apply.store.isAlive h = t.store.isAlive h := by
  rw [Bool.eq_iff_iff, Store.isAlive_iff, Store.isAlive_iff, ht.at?_apply]
  cases t.store.at? h.id <;> simp [Slot.current]

theorem Sound.mem_seen_apply (ht : t.Sound) :
    h ∈ t.apply.store.seen ↔ h ∈ t.issued ∧ t.store.isAlive h = true := by
  have hseen : h ∈ t.apply.store.seen ↔
      ∃ slot, t.store.at? h.id = some slot ∧ h = slot.current h.id ∧ h.id ∉ t.store.free := by
    rw [Store.seen, List.mem_toFinset, ht.apply.tidy.mem_handles_iff, ht.at?_apply]
    constructor
    · rintro ⟨_, hmap, hshown⟩
      obtain ⟨slot, hslot, rfl⟩ := Option.map_eq_some_iff.mp hmap
      exact ⟨slot, hslot, (Slot.shown_settle_iff (ht.tidy.slot h.id slot hslot)).mp hshown⟩
    · rintro ⟨slot, hslot, hcur⟩
      exact ⟨slot.settle, by rw [hslot]; rfl,
        (Slot.shown_settle_iff (ht.tidy.slot h.id slot hslot)).mpr hcur⟩
  rw [hseen, Store.isAlive_iff]
  constructor
  · rintro ⟨slot, hslot, hcur, hused⟩
    have hissued := ht.recorded.issued_of_used h.id slot hslot hused
    exact ⟨hcur ▸ hissued, slot, hslot, hcur⟩
  · rintro ⟨hm, slot, hslot, hcur⟩
    exact ⟨slot, hslot, hcur, (ht.recorded.used_of_current hm hslot hcur).2⟩

theorem Sound.find?_apply (ht : t.Sound) (hm : h ∈ t.issued) (ha : t.store.isAlive h = true) :
    t.apply.store.find? h = t.store.find? h := by
  obtain ⟨slot, hslot, hcur⟩ := Store.isAlive_iff.mp ha
  have hused := (ht.recorded.used_of_current hm hslot hcur).2
  have hsettled := Slot.find?_settle (ht.tidy.slot h.id slot hslot) hused
  rw [← hcur] at hsettled
  rw [Store.find?_of_at? hslot, ← hsettled]
  exact Store.find?_of_at? (by rw [ht.at?_apply, hslot]; rfl)

theorem Sound.reported (ht : t.Sound) : t.Reported := by
  have htidy := ht.tidy.with_changes #[]
  have hqueued := ht.queued.with_changes #[]
  refine ⟨?_, ?_, ?_, ?_, ?_, ?_, ?_⟩
  · exact Store.replay_applyChanges htidy hqueued
  · refine (Store.sublist_applyChanges ?_ htidy hqueued).nodup (Change.nodup_created hqueued.ordered)
    intro s s' change r ha
    cases ha <;> simp [Transition.added?, Change.created?]
  · refine (Store.sublist_applyChanges ?_ htidy hqueued).nodup
      (Change.nodup_destroyed hqueued.ordered)
    intro s s' change r ha
    cases ha <;> simp [Transition.removed?, Change.destroyed?]
  · intro h
    rw [ht.mem_seen_apply, ht.isAlive_apply]
  · intro r hr h mask htold
    exact Store.told_applyChanges htidy hqueued hr htold
  · intro h hm ha
    have hfind := ht.find?_apply hm ha
    refine ⟨(ht.isAlive_apply h).trans ha, ?_, fun k => ?_⟩
    · rw [Store.mask?, Store.mask?, hfind]
    · rw [Store.get?, Store.get?, hfind]
  · exact Store.apply_of_changes_eq (Store.changes_apply ht.tidy ht.queued)

theorem Sound.reportedSince [Component C] (ht : t.Sound) (he : t.apply.Edits u)
    (hw : u.Unworn) : u.ReportedSince t.apply.store := by
  have hsound := he.reaches.sound ht.apply hw
  have hquiet := (quiet_mask? t.apply.store).edits ht.apply he hw
  refine ⟨he.seen_eq ht.apply hw, ?_⟩
  intro h hm _ hne
  obtain ⟨e, hseen⟩ := Option.isSome_iff_exists.mp (hsound.tidy.mem_seen.mp hm)
  have hmask : u.store.mask? h = some e.mask := by
    obtain ⟨slot, hslot, hv, hh⟩ := Store.seen?_eq_some_iff.mp hseen
    rw [Store.mask?, Store.find?_of_at? hslot, Slot.find?_eq_some_iff.mpr (.inl ⟨hv, hh⟩)]
    rfl
  have hnoted : .changed h ∈ u.store.changes.toList := by
    by_contra hnot
    exact hne (hmask.trans (hquiet h e hseen hnot).symm)
  exact Store.changed_mem_applyChanges (hsound.tidy.with_changes #[])
    (hsound.queued.with_changes #[]) hnoted

section Main

variable [Component C]

/-- However a store was used, the transitions of the next `apply` are exactly what it does, and the
masks that changed since the last one are among them. Nothing is visible before the first. -/
theorem reported_of_reaches {capacity : UInt32} (ht : (History.start capacity).Reaches t)
    (hw : t.Unworn) : t.Reported ∧
      ((History.start capacity).Edits t → t.store.seen = ∅) ∧
      ∀ u : History C, (History.start capacity).Reaches u → u.apply.Edits t →
        t.ReportedSince u.apply.store := by
  refine ⟨(ht.sound (.start capacity) hw).reported, ?_, ?_⟩
  · intro he
    exact he.seen_eq (.start capacity) hw
  · intro u hu he
    have hwu : u.Unworn := hw.of_suffix he.reaches.suffix_destroyed
    exact (hu.sound (.start capacity) hwu).reportedSince he hw

/-- A mask changes, an entity is replaced by one of the same identity, and another one is dropped
before it was ever visible. -/
theorem reported_of_replaced :
    let created : Edit Counter := .create [⟨⟨⟨3, by decide⟩⟩, 7⟩]
    let u := ((start 3).edit created).edit created
    let v := (u.apply.edit (.remove ⟨1, 0⟩ ⟨⟨3, by decide⟩⟩)).edit (.destroy ⟨0, 0⟩)
    let t := ((v.edit created).edit (.destroy ⟨0, 1⟩)).edit created
    (start 3).Reaches u ∧ u.apply.Edits t ∧ t.Unworn ∧
      t.store.apply.1 = [.changed ⟨1, 0⟩ ⟨0⟩, .removed ⟨0, 0⟩, .added ⟨0, 2⟩ ⟨8⟩] ∧
      t.Reported ∧ t.ReportedSince u.apply.store := by
  intro created u v t
  have hu : (start 3).Reaches u := by
    refine .edit (.edit .refl _ ?_) _ ?_
    · intro h hh
      cases hh
    · intro h hh
      cases hh
  have he : u.apply.Edits t := by
    refine .edit (.edit (.edit (.edit (.edit .refl _ ?_) _ ?_) _ ?_) _ ?_) _ ?_
    · intro h hh
      cases hh
      decide +kernel
    · intro h hh
      cases hh
      decide +kernel
    · intro h hh
      cases hh
    · intro h hh
      cases hh
      decide +kernel
    · intro h hh
      cases hh
  have hw : t.Unworn := unworn_of_length_lt (by decide +kernel)
  have hreported := reported_of_reaches ((hu.apply).trans he.reaches) hw
  exact ⟨hu, he, hw, by decide +kernel, hreported.1, hreported.2.2 u hu he⟩

end Main

end History

end Realm
