import Realm.Proofs.Store.Roster
import Realm.Proofs.Store.Steady

/-!
# The records of living entities

In a steady store each living entity has one record, whether it is visible or waits. Every operation
writes the record of the entity it is about and leaves those of all others alone.
-/

namespace Realm

variable {C : Type}

namespace Store

def living? (s : Store C) (h : Handle) : Option (Entity C) :=
  if s.isAlive h then s.find? h else none

section Living

variable {s s' : Store C} {queue : List Change} {h h' : Handle} {slot : Slot C} {e : Entity C}

theorem living?_eq_some_iff : s.living? h = some e ↔
    ∃ slot, s.at? h.id = some slot ∧ h = slot.current h.id ∧ slot.find? h = some e := by
  unfold living?
  constructor
  · intro hl
    split at hl
    · next halive =>
        obtain ⟨slot, hslot, hcur⟩ := isAlive_iff.mp halive
        rw [find?_of_at? hslot] at hl
        exact ⟨slot, hslot, hcur, hl⟩
    · cases hl
  · rintro ⟨slot, hslot, hcur, hf⟩
    rw [if_pos (isAlive_iff.mpr ⟨slot, hslot, hcur⟩), find?_of_at? hslot, hf]

theorem living?_of_at? (hslot : s.at? h.id = some slot) :
    s.living? h = if h = slot.current h.id then slot.find? h else none := by
  have halive : s.isAlive h = true ↔ h = slot.current h.id := by
    rw [isAlive_iff, hslot]
    exact ⟨fun ⟨_, heq, hcur⟩ => Option.some.inj heq ▸ hcur, fun hcur => ⟨slot, rfl, hcur⟩⟩
  unfold living?
  by_cases hcur : h = slot.current h.id
  · rw [if_pos (halive.mpr hcur), if_pos hcur, find?_of_at? hslot]
  · rw [if_neg fun ha => hcur (halive.mp ha), if_neg hcur]

theorem living?_congr (hat : s'.at? h.id = s.at? h.id) : s'.living? h = s.living? h := by
  cases hslot : s.at? h.id with
  | none =>
      have hnone : ∀ s : Store C, s.at? h.id = none → s.living? h = none := by
        intro s hs
        rw [living?, find?, slot?_eq, hs]
        split <;> rfl
      rw [hnone s hslot, hnone s' (hat.trans hslot)]
  | some slot => rw [living?_of_at? hslot, living?_of_at? (hat.trans hslot)]

theorem isAlive_of_living (hl : s.living? h = some e) : s.isAlive h = true := by
  obtain ⟨slot, hslot, hcur, -⟩ := living?_eq_some_iff.mp hl
  exact isAlive_iff.mpr ⟨slot, hslot, hcur⟩

theorem find?_of_living (hl : s.living? h = some e) : s.find? h = some e := by
  rw [living?, if_pos (isAlive_of_living hl)] at hl
  exact hl

theorem living?_of_isAlive (ha : s.isAlive h = true) : s.living? h = s.find? h := if_pos ha

theorem living?_eq_none (ha : s.isAlive h = false) : s.living? h = none := by
  rw [living?, ha]
  rfl

namespace Steady

/-- The identity of a living entity is used: the next handle of a free one has no record. -/
theorem used_of_living (hs : s.Steady queue) (hl : s.living? h = some e) : h.id ∉ s.free := by
  obtain ⟨slot, hslot, hcur, hf⟩ := living?_eq_some_iff.mp hl
  intro hfree
  have hshown : slot.shown ≠ some h := fun heq =>
    hs.shown_ne h.id slot hslot (.inl hfree) (heq.trans (congrArg some hcur))
  have hwaiting : slot.waiting ≠ some h := by
    rw [(hs.slot h.id slot hslot).of_free hfree]
    nofun
  rw [Slot.find?_eq_none_iff.mpr ⟨hshown, hwaiting⟩] at hf
  cases hf

theorem tracked_of_living (hs : s.Steady queue) (hl : s.living? h = some e) : e.Tracked := by
  obtain ⟨slot, hslot, -, hf⟩ := living?_eq_some_iff.mp hl
  refine hs.tracked h.id slot e hslot ?_
  exact (Slot.find?_eq_some_iff.mp hf).imp And.left fun hp => hp.2.1

/-- The handle of an identity that is about to be taken has no record. -/
theorem living?_eq_none_of_takes (hs : s.Steady queue) (ht : s.Takes h.id s') :
    s.living? h = none := by
  by_contra hne
  obtain ⟨e, hl⟩ := Option.ne_none_iff_exists'.mp hne
  have hused := hs.used_of_living hl
  obtain ⟨slot, hslot, -⟩ := living?_eq_some_iff.mp hl
  cases ht with
  | reused hfree _ =>
      rw [hfree] at hused
      exact hused List.mem_cons_self
  | grown _ _ hid _ _ =>
      have hlt := lt_size_of_at? hslot
      omega

/-- Where nothing waits a living entity is visible. -/
theorem shown_of_living (hw : slot.waiting = none) (hf : slot.find? h = some e) :
    slot.shown = some h := by
  rcases Slot.find?_eq_some_iff.mp hf with ⟨hv, hh⟩ | ⟨-, hp, -⟩
  · exact hh ▸ Slot.shown_of_visible hv
  · rw [Slot.waiting_of_pending hp] at hw
    cases hw

theorem living?_create [Component C] {cs : List C} (hs : s.Steady s.changes.toList)
    (hc : s.Creates cs h s') (ht : s.Takes h.id s') (h' : Handle) :
    s'.living? h' = if h' = h then some (.ofComponents h cs) else s.living? h' := by
  by_cases hid : h'.id = h.id
  · obtain ⟨-, hnext⟩ := hs.of_takes ht
    have hcur : h = (s.slotOrFresh h.id).current h.id :=
      Slot.eq_current_iff.mpr ⟨rfl, hc.generation_eq⟩
    have hat : s'.at? h'.id = some ((s.slotOrFresh h.id).await (.ofComponents h cs)) := by
      rw [hc.at?_eq, if_pos hid]
    rw [living?_of_at? hat]
    by_cases heq : h' = h
    · have hfind : ((s.slotOrFresh h.id).await (.ofComponents h cs)).find? h =
          some (.ofComponents h cs) :=
        Slot.find?_eq_some_iff.mpr (.inr ⟨fun hshown => hnext (hshown.trans (congrArg some hcur)),
          rfl, Entity.handle_ofComponents h cs⟩)
      rw [heq, if_pos rfl, hfind]
      exact if_pos hcur
    · have hne : h' ≠ (s.slotOrFresh h.id).current h'.id := by
        rw [hid]
        exact fun hh => heq (hh.trans hcur.symm)
      rw [if_neg heq]
      refine (if_neg hne).trans ?_
      cases hold : s.living? h' with
      | none => rfl
      | some e =>
          obtain ⟨slot, hslot, hcur', -⟩ := living?_eq_some_iff.mp hold
          rw [hid] at hslot
          rw [slotOrFresh_of_at? hslot] at hne
          exact absurd hcur' hne
  · have hne : h' ≠ h := fun heq => hid (heq ▸ rfl)
    rw [if_neg hne]
    exact living?_congr (by rw [hc.at?_eq, if_neg hid])

theorem living?_destroy (hslot : s.at? h.id = some slot) (hcur : h = slot.current h.id)
    (hd : s.Destroys h slot s') (hshown : slot.shown = some h) (hw : slot.waiting = none)
    (h' : Handle) : s'.living? h' = if h' = h then none else s.living? h' := by
  by_cases hid : h'.id = h.id
  · have hat : s'.at? h'.id = some (slot.release h) := by rw [hd.at?_eq, if_pos hid]
    rw [living?_of_at? hat]
    by_cases heq : h' = h
    · rw [if_pos heq, heq]
      exact if_neg (Slot.ne_current_release hcur h)
    · have hne : slot.shown ≠ some h' := by
        rw [hshown]
        exact fun hh => heq (Option.some.inj hh).symm
      have hnone : (slot.release h).find? h' = none := by
        refine Slot.find?_eq_none_iff.mpr ⟨hne, ?_⟩
        rw [Slot.waiting_release, hw]
        nofun
      rw [hnone, if_neg heq, ite_self]
      rw [living?_of_at? (hid ▸ hslot)]
      refine (if_neg fun hh => heq (hh.trans ?_)).symm
      rw [hid]
      exact hcur.symm
  · have hne : h' ≠ h := fun heq => hid (heq ▸ rfl)
    rw [if_neg hne]
    exact living?_congr (by rw [hd.at?_eq, if_neg hid])

theorem find?_modify {f : Entity C → Entity C} (hf : ∀ e, (f e).handle = e.handle) (slot : Slot C)
    (h h' : Handle) : (slot.modify h f).find? h' =
      if h' = h then (slot.find? h).map f else slot.find? h' := by
  rcases slot.handle_cases h with ⟨e, hv, he⟩ | ⟨hs, e, hp, he⟩ | ⟨hs, hw⟩
  · have hs : slot.shown = some h := he ▸ Slot.shown_of_visible hv
    rw [Slot.modify_eq, if_pos hs, Slot.find?, Slot.find?, Slot.find?, hv, Option.map_some]
    by_cases hh : h' = h
    · simp [hh, Entity.matching_some, hf, he]
    · have hne : ¬ h = h' := fun heq => hh heq.symm
      simp [hh, hne, Entity.matching_some, hf, he]
  · have hw : slot.waiting = some h := he ▸ Slot.waiting_of_pending hp
    have hnone : Entity.matching h slot.visible = none := Entity.matching_eq_none_iff.mpr hs
    rw [Slot.modify_eq, if_neg hs, if_pos hw, Slot.find?, Slot.find?, Slot.find?, hp,
      Option.map_some]
    by_cases hh : h' = h
    · simp [hh, Entity.matching_some, hf, he, hnone]
    · have hne : ¬ h = h' := fun heq => hh heq.symm
      simp [hh, hne, Entity.matching_some, hf, he]
  · rw [Slot.modify_eq, if_neg hs, if_neg hw]
    by_cases hh : h' = h
    · rw [if_pos hh, hh, Slot.find?_eq_none_iff.mpr ⟨hs, hw⟩]
      rfl
    · rw [if_neg hh]

theorem living?_rewrite {f : Entity C → Entity C} {noted : Prop} (hw : s.Rewrites h f noted s')
    (hf : ∀ e, (f e).handle = e.handle) (h' : Handle) :
    s'.living? h' = if h' = h then (s.living? h).map f else s.living? h' := by
  by_cases hid : h'.id = h.id
  · cases hslot : s.at? h.id with
    | none =>
        have hsame : ∀ g : Handle, g.id = h.id → s.living? g = none := by
          intro g hg
          cases hl : s.living? g with
          | none => rfl
          | some e =>
              obtain ⟨slot, hslot', -⟩ := living?_eq_some_iff.mp hl
              rw [hg, hslot] at hslot'
              cases hslot'
        have hafter : s'.living? h' = s.living? h' :=
          living?_congr (by rw [hw.at?_eq, if_pos hid, hid, hslot]; rfl)
        rw [hafter, hsame h' hid, hsame h rfl]
        exact (ite_self _).symm
    | some slot =>
        have hat : s'.at? h'.id = some (slot.modify h f) := by
          rw [hw.at?_eq, if_pos hid, hid, hslot]
          rfl
        have hcur : (slot.modify h f).current h'.id = slot.current h'.id := by
          simp [Slot.current]
        rw [living?_of_at? hat, hcur, find?_modify hf, living?_of_at? hslot,
          living?_of_at? (hid ▸ hslot)]
        by_cases heq : h' = h
        · rw [if_pos heq, if_pos heq, heq]
          split <;> rfl
        · rw [if_neg heq, if_neg heq]
  · have hne : h' ≠ h := fun heq => hid (heq ▸ rfl)
    rw [if_neg hne]
    exact living?_congr (by rw [hw.at?_eq, if_neg hid])

theorem find?_settle {id : UInt32} (hs : s.Steady queue) (hslot : s.at? id = some slot) :
    slot.settle.find? (slot.current id) = slot.find? (slot.current id) := by
  rcases slot.handle_cases (slot.current id) with ⟨e, hv, he⟩ | ⟨hshown, e, hp, he⟩ | ⟨hshown, hw⟩
  · have hcurrent : slot.shown = some (slot.current id) := he ▸ Slot.shown_of_visible hv
    have hp : slot.pending = none :=
      Option.map_eq_none_iff.mp (hs.of_shown_current hslot hcurrent).2
    have hvisible : slot.settle.visible = some e := by simp [Slot.settle, hp, hv, he]
    rw [Slot.find?_eq_some_iff.mpr (.inl ⟨hvisible, he⟩), Slot.find?_eq_some_iff.mpr (.inl ⟨hv, he⟩)]
  · have hvisible : slot.settle.visible = some e := by simp [Slot.settle, hp]
    rw [Slot.find?_eq_some_iff.mpr (.inl ⟨hvisible, he⟩),
      Slot.find?_eq_some_iff.mpr (.inr ⟨hshown, hp, he⟩)]
  · have hidle : slot.waiting = none := by
      by_contra hne
      obtain ⟨g, hg⟩ := Option.ne_none_iff_exists'.mp hne
      exact hw (hg.trans (congrArg some (hs.of_waiting hslot hg).1))
    have hsettled : slot.settle.shown ≠ some (slot.current id) := by
      rw [Slot.shown_settle, hidle, Option.none_or, ne_eq, Option.filter_eq_some_iff]
      exact fun hand => hshown hand.1
    have hquiet : slot.settle.waiting ≠ some (slot.current id) := (Option.some_ne_none _).symm
    rw [Slot.find?_eq_none_iff.mpr ⟨hshown, hw⟩, Slot.find?_eq_none_iff.mpr ⟨hsettled, hquiet⟩]

/-- Applying the changes keeps the records of living entities. -/
theorem living?_apply (hs : s.Steady s.changes.toList) (h : Handle) :
    s.apply.2.living? h = s.living? h := by
  cases hslot : s.at? h.id with
  | none => exact living?_congr (by rw [hs.at?_apply, hslot]; rfl)
  | some slot =>
      have hat : s.apply.2.at? h.id = some slot.settle := by rw [hs.at?_apply, hslot]; rfl
      have hcurrent : slot.settle.current h.id = slot.current h.id := rfl
      rw [living?_of_at? hslot, living?_of_at? hat, hcurrent]
      by_cases hcur : h = slot.current h.id
      · rw [if_pos hcur, if_pos hcur, hcur]
        exact hs.find?_settle hslot
      · rw [if_neg hcur, if_neg hcur]

end Steady

end Living

end Store

end Realm
