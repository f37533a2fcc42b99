import Realm.Proofs.Store.Roster
import Realm.Proofs.Store.Visible
import Realm.World.Script

/-!
# A store behaves as its roster

Main statement: a store and a roster that go through the same operations give the same answers
about every handle that was ever given out, also when an outgoing entity and a new one share an
identity. The new handles are the store's choice; everything else the roster knows by itself.
-/

namespace Realm

variable {C : Type}

namespace History

variable {t : History C} {h : Handle}

/-! ## Reading -/

theorem Recorded.listed?_of_not_issued (hr : t.Recorded) (ht : t.store.Tidy) (hm : h ∉ t.issued) :
    t.store.listed? h = none := by
  rw [Store.listed?]
  cases hslot : t.store.at? h.id with
  | none => rfl
  | some slot =>
      refine Slot.listed?_of_absent ?_ ?_
      · intro hs
        exact hm (hr.issued_of_shown h.id slot h hslot hs)
      · intro hw
        obtain ⟨hcur, hused, -⟩ := (ht.slot h.id slot hslot).of_waiting hw
        exact hm (hcur ▸ hr.issued_of_used h.id slot hslot hused)

end History

namespace Store

variable {s : Store C} {h : Handle} {e : Entity C}

theorem listed?_of_find? (hf : s.find? h = some e) :
    ∃ standing, s.listed? h = some ⟨standing, e.get?⟩ := by
  obtain ⟨slot, hslot, hf⟩ := Option.bind_eq_some_iff.mp hf
  rw [listed?_of_at? hslot]
  rcases Slot.find?_eq_some_iff.mp hf with ⟨hv, he⟩ | ⟨hs, hp, he⟩
  · exact ⟨_, Slot.listed?_of_visible hv he⟩
  · exact ⟨_, Slot.listed?_of_pending hs hp he⟩

theorem listed?_of_find?_eq_none (hf : s.find? h = none) : s.listed? h = none := by
  cases hslot : s.at? h.id with
  | none => simp [listed?, hslot]
  | some slot =>
      rw [find?_of_at? hslot, Slot.find?_eq_none_iff] at hf
      rw [listed?_of_at? hslot]
      exact Slot.listed?_of_absent hf.1 hf.2

theorem get?_eq (s : Store C) (h : Handle) (k : Kind) :
    s.get? h k = (s.listed? h).bind fun e => e.components k := by
  cases hf : s.find? h with
  | none => simp [get?, hf, listed?_of_find?_eq_none hf]
  | some e =>
      obtain ⟨standing, he⟩ := listed?_of_find? hf
      simp [get?, hf, he]

theorem Tidy.tracked_of_find? (ht : s.Tidy) (hf : s.find? h = some e) : e.Tracked := by
  obtain ⟨slot, hslot, hf⟩ := Option.bind_eq_some_iff.mp hf
  rcases Slot.find?_eq_some_iff.mp hf with ⟨hv, -⟩ | ⟨-, hp, -⟩
  · exact ht.tracked h.id slot e hslot (.inl hv)
  · exact ht.tracked h.id slot e hslot (.inr hp)

/-- The mask of a record is that of its components. -/
theorem mask_eq_of_tracked {standing : Standing} (he : e.Tracked) :
    e.mask = Entry.mask ⟨standing, e.get?⟩ := by
  apply Mask.eq_of_contains_eq
  intro k
  rw [Entry.mask, Mask.contains_ofList, he k]
  simp [Kind.mem_all]

theorem Tidy.mask?_eq (ht : s.Tidy) (h : Handle) : s.mask? h = (s.listed? h).map Entry.mask := by
  cases hf : s.find? h with
  | none => simp [mask?, hf, listed?_of_find?_eq_none hf]
  | some e =>
      obtain ⟨standing, he⟩ := listed?_of_find? hf
      rw [mask?, hf, he, Option.map_some, Option.map_some]
      exact congrArg some (mask_eq_of_tracked (ht.tracked_of_find? hf))

end Store

namespace History

variable {t : History C} {h : Handle}

/-! ## Changing the record of an entity -/

/-- A living entity has a record, and its entry is living. -/
theorem Sound.living?_of_isAlive (ht : t.Sound) (hm : h ∈ t.issued)
    (ha : t.store.isAlive h = true) : ∃ slot e standing, t.store.at? h.id = some slot ∧
      h = slot.current h.id ∧ slot.find? h = some e ∧
      t.roster.living? h = some ⟨standing, e.get?⟩ ∧
      t.store.listed? h = some ⟨standing, e.get?⟩ := by
  obtain ⟨slot, hslot, hcur⟩ := Store.isAlive_iff.mp ha
  have hused := (ht.recorded.used_of_current hm hslot hcur).2
  have hgen : h.generation = slot.generation := (Slot.eq_current_iff.mp hcur).2
  rcases (ht.tidy.slot h.id slot hslot).of_used hused with ⟨hw, hs⟩ | ⟨-, hs⟩
  · rw [← hcur] at hw hs
    obtain ⟨e, hp, he⟩ := Option.map_eq_some_iff.mp hw
    have hentry : t.store.listed? h = some ⟨.pending, e.get?⟩ := by
      rw [Store.listed?_of_at? hslot, Slot.listed?_of_pending hs hp he]
    exact ⟨slot, e, .pending, hslot, hcur, Slot.find?_eq_some_iff.mpr (.inr ⟨hs, hp, he⟩),
      by simp [Roster.living?, roster, hentry, Option.filter_some], hentry⟩
  · rw [← hcur] at hs
    obtain ⟨e, hv, he⟩ := Option.map_eq_some_iff.mp hs
    have hentry : t.store.listed? h = some ⟨.visible, e.get?⟩ := by
      rw [Store.listed?_of_at? hslot, Slot.listed?_of_visible hv he, if_pos hgen]
    exact ⟨slot, e, .visible, hslot, hcur, Slot.find?_eq_some_iff.mpr (.inl ⟨hv, he⟩),
      by simp [Roster.living?, roster, hentry, Option.filter_some], hentry⟩

theorem Sound.living?_of_not_isAlive (ht : t.Sound) (ha : t.store.isAlive h = false) :
    t.roster.living? h = none := by
  have hdead : ∀ slot, t.store.at? h.id = some slot → h ≠ slot.current h.id := by
    intro slot hslot hcur
    rw [Store.isAlive_iff.mpr ⟨slot, hslot, hcur⟩] at ha
    cases ha
  cases hslot : t.store.at? h.id with
  | none => simp [Roster.living?, roster, Store.listed?, hslot]
  | some slot =>
      have hne := hdead slot hslot
      have hentry : t.roster.listed? h = slot.listed? h := Store.listed?_of_at? hslot
      rw [Roster.living?, hentry]
      rcases slot.handle_cases h with ⟨e, hv, he⟩ | ⟨-, e, hp, he⟩ | ⟨hs, hw⟩
      · have hgen : ¬ h.generation = slot.generation := fun heq =>
          hne (Slot.eq_current_iff.mpr ⟨rfl, heq⟩)
        rw [Slot.listed?_of_visible hv he, if_neg hgen]
        rfl
      · have hw : slot.waiting = some h := he ▸ Slot.waiting_of_pending hp
        exact absurd ((ht.tidy.slot h.id slot hslot).of_waiting hw).1 hne
      · rw [Slot.listed?_of_absent hs hw]
        rfl

theorem Sound.isAlive_eq (ht : t.Sound) (hm : h ∈ t.issued) :
    t.store.isAlive h = t.roster.isAlive h := by
  cases ha : t.store.isAlive h with
  | false => rw [Roster.isAlive, ht.living?_of_not_isAlive ha]; rfl
  | true =>
      obtain ⟨slot, e, standing, -, -, -, hliving, -⟩ := ht.living?_of_isAlive hm ha
      rw [Roster.isAlive, hliving]
      rfl

theorem roster_withStore (t : History C) {s : Store C} {entry : Option (Entry C)}
    (hs : s.listed? = fun other => if other = h then entry else t.store.listed? other) :
    (t.withStore s).roster = t.roster.put h entry := by
  unfold roster Roster.put
  rw [show (t.withStore s).store.listed? = s.listed? from rfl, hs]
  rfl

/-- Changing a record changes the entry in the same way, and both are refused together. -/
theorem Sound.change (ht : t.Sound) (hm : h ∈ t.issued) {f : Entity C → Entity C}
    {g : Entry C → Entry C} (matters : Entity C → Bool) (hf : ∀ e, (f e).handle = e.handle)
    (hg : ∀ (e : Entity C) standing, g ⟨standing, e.get?⟩ = ⟨standing, (f e).get?⟩) :
    (∃ entry e s, t.roster.living? h = some entry ∧ t.store.change h f matters = .ok (e, s) ∧
      entry.components = e.get? ∧ (t.withStore s).roster = t.roster.put h (some (g entry))) ∨
    t.roster.living? h = none ∧ t.store.change h f matters = .error (.stale h) := by
  cases ha : t.store.isAlive h with
  | false => exact .inr ⟨ht.living?_of_not_isAlive ha, Store.change_of_not_alive ha⟩
  | true =>
      left
      obtain ⟨slot, e, standing, hslot, hcur, hfind, hliving, hentry⟩ :=
        ht.living?_of_isAlive hm ha
      obtain ⟨s, hok, hr⟩ := Store.change_of_find? f matters hslot hcur hfind
      refine ⟨_, e, s, hliving, hok, rfl, ?_⟩
      refine t.roster_withStore ?_
      rw [hr.listed?_eq hf hg, hentry]
      rfl

theorem Sound.change_erase (ht : t.Sound) (hm : h ∈ t.issued) (k : Kind) :
    (∃ entry e s, t.roster.living? h = some entry ∧
      t.store.change h (·.erase k) (fun e => (e.get? k).isSome) = .ok (e, s) ∧
      entry.components = e.get? ∧
      (t.withStore s).roster = t.roster.put h (some (entry.write k none))) ∨
    t.roster.living? h = none ∧
      t.store.change h (·.erase k) (fun e => (e.get? k).isSome) = .error (.stale h) := by
  refine ht.change (g := fun entry => entry.write k none) hm _ (fun _ => rfl) ?_
  intro e standing
  unfold Entry.write
  congr 1
  funext other
  exact (Entity.get?_erase e k other).symm

theorem roster_modify (t : History C) (h : Handle) (k : Kind) (f : C → C) :
    (t.withStore (t.store.modify h k f)).roster = t.roster.modify h k f := by
  refine t.roster_withStore ?_
  refine (Store.rewrites_modify t.store h k f).listed?_eq (fun _ => rfl) ?_
  intro e standing
  unfold Entry.write
  congr 1
  funext other
  exact (Entity.get?_modify e k other f).symm

theorem Sound.roster_apply (ht : t.Sound) : t.apply.roster = t.roster.apply := by
  unfold roster Roster.apply
  rw [show t.apply.store.listed? = t.store.apply.2.listed? from rfl,
    Store.listed?_apply ht.tidy ht.queued]
  rfl

section Squares

variable [Component C]

theorem Sound.change_insert (ht : t.Sound) (hm : h ∈ t.issued) (c : C) :
    (∃ entry e s, t.roster.living? h = some entry ∧
      t.store.change h (·.insert c) (fun _ => true) = .ok (e, s) ∧ entry.components = e.get? ∧
      (t.withStore s).roster =
        t.roster.put h (some (entry.write (Component.kind c) (some c)))) ∨
    t.roster.living? h = none ∧
      t.store.change h (·.insert c) (fun _ => true) = .error (.stale h) := by
  refine ht.change (g := fun entry => entry.write (Component.kind c) (some c)) hm _
    (fun _ => rfl) ?_
  intro e standing
  unfold Entry.write
  congr 1
  funext k
  exact (Entity.get?_insert e c k).symm

theorem Sound.roster_create (ht : t.Sound) {cs : List C} {s : Store C}
    (hc : t.store.create cs = .ok (h, s)) :
    (⟨s, h :: t.issued, t.destroyed⟩ : History C).roster = t.roster.create h cs := by
  obtain ⟨hcreates, htakes⟩ := Store.creates_of_ok ht.tidy.toBounded hc
  have hput := t.roster_withStore (hcreates.listed?_eq ht.tidy htakes)
  have hget : (Entity.ofComponents h cs).get? =
      fun k => (cs.filter fun c => Component.kind c = k).getLast? := by
    funext k
    exact Entity.get?_ofComponents h cs k
  rw [hget] at hput
  have hissued : (⟨s, h :: t.issued, t.destroyed⟩ : History C).roster =
      { (t.withStore s).roster with issued := h :: t.issued } := rfl
  rw [hissued, hput]
  rfl

/-- Destroying an entity strikes or dooms its entry, and both are refused together. -/
theorem Sound.destroy_cases (ht : t.Sound) (hm : h ∈ t.issued)
    (hw : (t.edit (.destroy h)).Unworn) :
    (∃ entry s, t.roster.living? h = some entry ∧ t.store.destroy h = .ok s ∧
      (⟨s, t.issued, h :: t.destroyed⟩ : History C).roster = t.roster.put h entry.doom) ∨
    t.roster.living? h = none ∧ t.store.destroy h = .error (.stale h) := by
  cases ha : t.store.isAlive h with
  | false => exact .inr ⟨ht.living?_of_not_isAlive ha, Store.destroy_of_not_alive ha⟩
  | true =>
      left
      obtain ⟨slot, e, standing, hslot, hcur, -, hliving, hentry⟩ := ht.living?_of_isAlive hm ha
      obtain ⟨s, hd⟩ := Store.destroy_of_alive ha
      obtain ⟨other, hother, -, hdestroys⟩ := Store.destroys_of_ok hd
      rw [hslot] at hother
      obtain rfl := Option.some.inj hother
      have hedit : t.edit (.destroy h) = ⟨s, t.issued, h :: t.destroyed⟩ := by
        simp only [edit, hd]
      have hg : slot.generation.toNat + 1 < 2 ^ 32 := by
        have hcount := hw h.id
        rw [hedit] at hcount
        simpa [ht.recorded.generation_eq h.id slot hslot] using hcount
      have hput := t.roster_withStore (hdestroys.listed?_eq ht.tidy hslot hcur hg)
      rw [hentry] at hput
      exact ⟨_, s, hliving, hd, hput⟩

def given? (t : History C) : Edit C → Option Handle
  | .create cs => (t.store.create cs).toOption.map (·.1)
  | _ => none

theorem Sound.roster_edit (ht : t.Sound) {e : Edit C} (ha : t.Admits e)
    (hw : (t.edit e).Unworn) : (t.edit e).roster = t.roster.edit (t.given? e) e := by
  cases e with
  | create cs =>
      cases hc : t.store.create cs with
      | error e => simp [edit, given?, Roster.edit, hc, Except.toOption]
      | ok result =>
          obtain ⟨h, s⟩ := result
          simpa [edit, given?, Roster.edit, hc, Except.toOption] using ht.roster_create hc
  | destroy h =>
      rcases ht.destroy_cases (ha h rfl) hw with ⟨entry, s, hliving, hd, hroster⟩ | ⟨hnone, hd⟩
      · simpa [edit, Roster.edit, Roster.destroy, hliving, hd, Except.toOption] using hroster
      · simp [edit, Roster.edit, Roster.destroy, hnone, hd, Except.toOption]
  | add h c =>
      rcases ht.change_insert (ha h rfl) c with
        ⟨entry, e, s, hliving, hok, -, hroster⟩ | ⟨hnone, he⟩
      · simpa [edit, Roster.edit, Roster.add, Store.add, hliving, hok, Except.toOption,
          Except.map] using hroster
      · simp [edit, Roster.edit, Roster.add, Store.add, hnone, he, Except.toOption, Except.map]
  | remove h k =>
      rcases ht.change_erase (ha h rfl) k with
        ⟨entry, e, s, hliving, hok, -, hroster⟩ | ⟨hnone, he⟩
      · simpa [edit, Roster.edit, Roster.remove, Store.remove, hliving, hok, Except.toOption,
          Except.map] using hroster
      · simp [edit, Roster.edit, Roster.remove, Store.remove, hnone, he, Except.toOption,
          Except.map]
  | modify h k f => exact t.roster_modify h k f

end Squares

/-! ## The visible records -/

theorem Sound.seen_iff (ht : t.Sound) :
    h ∈ t.issued ∧ t.roster.seen h = true ↔ h ∈ t.store.visible.map (·.handle) := by
  rw [ht.tidy.mem_handles_iff]
  constructor
  · rintro ⟨-, hseen⟩
    obtain ⟨entry, hentry, hstanding⟩ := (Option.any_eq_true _ _).mp hseen
    obtain ⟨slot, hslot, hentry⟩ := Option.bind_eq_some_iff.mp hentry
    refine ⟨slot, hslot, ?_⟩
    rcases slot.handle_cases h with ⟨e, hv, he⟩ | ⟨hs, e, hp, he⟩ | ⟨hs, hw⟩
    · exact he ▸ Slot.shown_of_visible hv
    · rw [Slot.listed?_of_pending hs hp he] at hentry
      obtain rfl := Option.some.inj hentry
      simp at hstanding
    · rw [Slot.listed?_of_absent hs hw] at hentry
      cases hentry
  · rintro ⟨slot, hslot, hshown⟩
    refine ⟨ht.recorded.issued_of_shown h.id slot h hslot hshown, ?_⟩
    obtain ⟨e, hv, he⟩ := Option.map_eq_some_iff.mp hshown
    have hentry : t.roster.listed? h = _ :=
      (Store.listed?_of_at? hslot).trans (Slot.listed?_of_visible hv he)
    rw [Roster.seen, hentry]
    by_cases hgen : h.generation = slot.generation <;> simp [hgen]

/-- The handles of the visible records are the seen ones in the order of their identities. -/
theorem Sound.handles_visible_eq (ht : t.Sound) :
    t.store.visible.map (·.handle) =
      (t.issued.filter t.roster.seen).mergeSort fun a b => a.id ≤ b.id := by
  have hmem : ∀ h, h ∈ t.issued.filter t.roster.seen ↔ h ∈ t.store.visible.map (·.handle) := by
    intro h
    rw [List.mem_filter]
    exact ht.seen_iff
  have hperm : (t.store.visible.map (·.handle)).Perm (t.issued.filter t.roster.seen) := by
    refine (List.perm_ext_iff_of_nodup ht.tidy.nodup_handles ?_).mpr fun h => (hmem h).symm
    exact ht.recorded.issued_nodup.filter _
  have hsorted : ((t.issued.filter t.roster.seen).mergeSort fun a b => a.id ≤ b.id).Pairwise
      fun a b => a.id ≤ b.id := by
    refine List.Pairwise.imp of_decide_eq_true (List.pairwise_mergeSort ?_ ?_ _)
    · simpa using fun a b c => UInt32.le_trans
    · simpa using fun a b => UInt32.le_total _ _
  refine @List.Perm.eq_of_pairwise _ (fun a b : Handle => a.id ≤ b.id) _ _ ?_ ?_ hsorted
    (hperm.trans (List.mergeSort_perm _ _).symm)
  · intro a b ha hb hle hge
    obtain ⟨slot, hslot, hshown⟩ := ht.tidy.mem_handles_iff.mp ha
    have hb := (hmem b).mp ((List.mergeSort_perm _ _).mem_iff.mp hb)
    obtain ⟨other, hother, hshown'⟩ := ht.tidy.mem_handles_iff.mp hb
    rw [UInt32.le_antisymm hle hge, hother] at hslot
    obtain rfl := Option.some.inj hslot
    exact Option.some.inj (hshown.symm.trans hshown')
  · rw [List.pairwise_map]
    exact ht.tidy.pairwise_visible.imp fun hlt => UInt32.le_of_lt hlt

theorem Sound.visible_eq (ht : t.Sound) :
    t.store.visible.map (fun e => (e.handle, e.mask, e.get?)) = t.roster.visible := by
  unfold Roster.visible
  rw [show t.roster.issued = t.issued from rfl, ← ht.handles_visible_eq, List.filterMap_map,
    ← List.filterMap_eq_map]
  refine List.filterMap_congr ?_
  intro e he
  obtain ⟨slot, hslot, hv⟩ := ht.tidy.mem_visible_iff.mp he
  have hentry : t.roster.listed? e.handle = _ :=
    (Store.listed?_of_at? hslot).trans (Slot.listed?_of_visible hv rfl)
  have htracked := ht.tidy.tracked _ slot e hslot (.inl hv)
  simp only [Function.comp_apply, hentry, Option.map_some]
  rw [← Store.mask_eq_of_tracked htracked]

/-! ## The answers of operations -/

theorem Sound.getLsbD_mask (ht : t.Sound) {m : Mask} (hm : t.store.mask? h = some m) (k : Kind) :
    m.bits.toBitVec.getLsbD k.index = (t.store.get? h k).isSome := by
  obtain ⟨e, hfind, rfl⟩ := Option.map_eq_some_iff.mp hm
  have hget : t.store.get? h k = e.get? k := by simp [Store.get?, hfind]
  rw [← Mask.contains_eq_getLsbD, hget]
  exact ht.tidy.tracked_of_find? hfind k

theorem Sound.destroy_eq (ht : t.Sound) (hm : h ∈ t.issued) :
    (t.store.destroy h).map (fun _ => ()) = (t.roster.destroy h).map fun _ => () := by
  cases ha : t.store.isAlive h with
  | false =>
      rw [Store.destroy_of_not_alive ha, Roster.destroy, ht.living?_of_not_isAlive ha]
      rfl
  | true =>
      obtain ⟨s, hd⟩ := Store.destroy_of_alive ha
      obtain ⟨slot, e, standing, -, -, -, hliving, -⟩ := ht.living?_of_isAlive hm ha
      rw [hd, Roster.destroy, hliving]
      rfl

theorem Sound.remove_eq (ht : t.Sound) (hm : h ∈ t.issued) (k : Kind) :
    (t.store.remove h k).map (·.1) = (t.roster.remove h k).map (·.1) := by
  unfold Store.remove Roster.remove
  rcases ht.change_erase hm k with ⟨entry, e, s, hliving, hok, heq, -⟩ | ⟨hnone, he⟩
  · simp [hliving, hok, heq, Except.map]
  · simp [hnone, he, Except.map]

/-! ## The main statement -/

section Main

variable [Component C]

/-- A store with a past and a roster that went through the same operations, on handles that the
store gave out. -/
inductive Mirrors (capacity : UInt32) : History C → Roster C → Prop
  | start : Mirrors capacity (History.start capacity) .empty
  | edit {t : History C} {r : Roster C} (before : Mirrors capacity t r) (e : Edit C)
      (admits : t.Admits e) : Mirrors capacity (t.edit e) (r.edit (t.given? e) e)
  | apply {t : History C} {r : Roster C} (before : Mirrors capacity t r) :
      Mirrors capacity t.apply r.apply

/-- A store and a roster answer alike about every handle that was given out. -/
structure Agrees (s : Store C) (r : Roster C) : Prop where
  get?_eq : ∀ h ∈ r.issued, ∀ k, s.get? h k = r.get? h k
  get?_modify_eq : ∀ h ∈ r.issued, ∀ k f, ∀ h' ∈ r.issued, ∀ k',
    (s.modify h k f).get? h' k' = (r.modify h k f).get? h' k'
  mask?_eq : ∀ h ∈ r.issued, s.mask? h = r.mask? h
  /-- The bits of a mask are the kinds of which there is a component. -/
  getLsbD_mask : ∀ h ∈ r.issued, ∀ m, s.mask? h = some m → ∀ k,
    m.bits.toBitVec.getLsbD k.index = (s.get? h k).isSome
  isAlive_eq : ∀ h ∈ r.issued, s.isAlive h = r.isAlive h
  visible_eq : s.visible.map (fun e => (e.handle, e.mask, e.get?)) = r.visible
  visible_ordered : s.visible.Pairwise fun a b => a.handle.id < b.handle.id
  visibleCount_eq : s.visibleCount = r.visible.length
  destroy_eq : ∀ h ∈ r.issued, (s.destroy h).map (fun _ => ()) = (r.destroy h).map fun _ => ()
  add_eq : ∀ h ∈ r.issued, ∀ c, (s.add h c).map (·.1) = (r.add h c).map (·.1)
  remove_eq : ∀ h ∈ r.issued, ∀ k, (s.remove h k).map (·.1) = (r.remove h k).map (·.1)

theorem Mirrors.reaches {capacity : UInt32} {r : Roster C} (hm : Mirrors capacity t r) :
    (History.start capacity).Reaches t := by
  induction hm with
  | start => exact .refl
  | edit before e admits ih => exact ih.edit e admits
  | apply before ih => exact ih.apply

theorem Mirrors.roster_eq {capacity : UInt32} {r : Roster C} (hm : Mirrors capacity t r)
    (hw : t.Unworn) : t.roster = r := by
  induction hm with
  | start => rfl
  | @edit t r before e admits ih =>
      have hw' := hw.of_suffix (suffix_destroyed_edit t e)
      have hsound := before.reaches.sound (.start capacity) hw'
      rw [hsound.roster_edit admits hw, ih hw']
  | @apply t r before ih =>
      have hsound := before.reaches.sound (.start capacity) hw
      rw [hsound.roster_apply, ih hw]

theorem Sound.add_eq (ht : t.Sound) (hm : h ∈ t.issued) (c : C) :
    (t.store.add h c).map (·.1) = (t.roster.add h c).map (·.1) := by
  unfold Store.add Roster.add
  rcases ht.change_insert hm c with ⟨entry, e, s, hliving, hok, heq, -⟩ | ⟨hnone, he⟩
  · simp [hliving, hok, heq, Except.map]
  · simp [hnone, he, Except.map]

/-- However a store was used, it answers as the roster that was used in the same way. -/
theorem agrees_of_mirrors {capacity : UInt32} {r : Roster C} (hm : Mirrors capacity t r)
    (hw : t.Unworn) : r.issued = t.issued ∧ Agrees t.store r := by
  have ht : t.Sound := hm.reaches.sound (.start capacity) hw
  have hr := hm.roster_eq hw
  subst hr
  refine ⟨rfl, fun h _ k => t.store.get?_eq h k, ?_, fun h _ => ht.tidy.mask?_eq h, ?_,
    fun h hm => ht.isAlive_eq hm, ht.visible_eq, ht.tidy.pairwise_visible, ?_,
    fun h hm => ht.destroy_eq hm, fun h hm c => ht.add_eq hm c, fun h hm k => ht.remove_eq hm k⟩
  · intro h _ k f h' _ k'
    rw [← t.roster_modify h k f]
    exact (t.store.modify h k f).get?_eq h' k'
  · intro h _ m hmask k
    exact ht.getLsbD_mask hmask k
  · rw [← ht.visible_eq, List.length_map]
    rfl

/-- An entity that was destroyed and is still visible, beside the next occupant of its identity. -/
theorem agrees_of_reused :
    let created : Edit Counter := .create [⟨⟨⟨3, by decide⟩⟩, 7⟩]
    let t := ((start 1).edit created).apply
    let r := (Roster.empty.edit ((start 1).given? created) created).apply
    let u := t.edit (.destroy ⟨0, 0⟩)
    let q := r.edit (t.given? (.destroy ⟨0, 0⟩)) (.destroy ⟨0, 0⟩)
    let v := u.edit created
    let p := q.edit (u.given? created) created
    Mirrors 1 v p ∧ v.Unworn ∧ p.issued = v.issued ∧ Agrees v.store p := by
  intro created t r u q v p
  have hm : Mirrors 1 v p := by
    refine .edit (.edit (.apply (.edit .start _ ?_)) _ ?_) _ ?_
    · intro h hh
      cases hh
    · intro h hh
      cases hh
      decide +kernel
    · intro h hh
      cases hh
  have hw : v.Unworn := unworn_of_length_lt (by decide +kernel)
  exact ⟨hm, hw, agrees_of_mirrors hm hw⟩

end Main

end History

end Realm
