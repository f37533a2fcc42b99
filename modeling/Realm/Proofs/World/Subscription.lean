import Realm.Proofs.Store.Ledger
import Realm.Proofs.Store.Visible
import Realm.World.System

/-!
# Following the changes of a store

A system is up to date except for the changes that are still noted: of every handle without a noted
change of kinds it lists exactly those whose visible record it wants. Operations on the store keep
this, and each applied change takes its exception away.
-/

namespace Realm

variable {C : Type}

namespace Store

def seen? (s : Store C) (h : Handle) : Option (Entity C) :=
  (s.at? h.id).bind fun slot => Entity.matching h slot.visible

variable {s s' : Store C} {h h' : Handle} {e : Entity C} {slot : Slot C}

theorem seen?_eq_some_iff :
    s.seen? h = some e ↔
      ∃ slot, s.at? h.id = some slot ∧ slot.visible = some e ∧ e.handle = h := by
  simp only [seen?, Option.bind_eq_some_iff, Entity.matching_eq_some_iff]

theorem Placed.seen?_eq_some_iff (hp : s.Placed) :
    s.seen? h = some e ↔ e ∈ s.visible ∧ e.handle = h := by
  rw [Store.seen?_eq_some_iff, hp.mem_visible_iff]
  constructor
  · rintro ⟨slot, hslot, hv, rfl⟩
    exact ⟨⟨slot, hslot, hv⟩, rfl⟩
  · rintro ⟨⟨slot, hslot, hv⟩, rfl⟩
    exact ⟨slot, hslot, hv, rfl⟩

theorem seen?_congr (hv : (s'.at? h.id).bind (·.visible) = (s.at? h.id).bind (·.visible)) :
    s'.seen? h = s.seen? h := by
  have hseen : ∀ s : Store C, s.seen? h = Entity.matching h ((s.at? h.id).bind (·.visible)) := by
    intro s
    cases hslot : s.at? h.id <;> simp [seen?, hslot, Entity.matching]
  rw [hseen, hseen, hv]

/-- An operation on one slot that changes what is seen under one handle of the slot. -/
theorem seen?_eq_of_at?_eq {record : Option (Entity C)}
    (hout : ∀ id, id ≠ h.id → s'.at? id = s.at? id)
    (hnew : ∀ other, other.id = h.id →
      s'.seen? other = if other = h then record else s.seen? other) (h' : Handle) :
    s'.seen? h' = if h' = h then record else s.seen? h' := by
  by_cases hid : h'.id = h.id
  · exact hnew h' hid
  · have hne : h' ≠ h := fun heq => hid (heq ▸ rfl)
    rw [if_neg hne]
    exact seen?_congr (by rw [hout h'.id hid])

theorem Creates.seen?_eq [Component C] {cs : List C} (hc : s.Creates cs h s') (h' : Handle) :
    s'.seen? h' = s.seen? h' := by
  refine seen?_congr ?_
  rw [hc.at?_eq]
  by_cases hid : h'.id = h.id
  · rw [if_pos hid, hid, slotOrFresh]
    cases s.at? h.id <;> rfl
  · rw [if_neg hid]

theorem Destroys.seen?_eq (hd : s.Destroys h slot s') (hslot : s.at? h.id = some slot)
    (h' : Handle) : s'.seen? h' = s.seen? h' := by
  refine seen?_congr ?_
  rw [hd.at?_eq]
  by_cases hid : h'.id = h.id
  · rw [if_pos hid, hid, hslot]
    rfl
  · rw [if_neg hid]

theorem Rewrites.seen?_eq {f : Entity C → Entity C} {noted : Prop}
    (hr : s.Rewrites h f noted s') (hf : ∀ e, (f e).handle = e.handle) (h' : Handle) :
    s'.seen? h' = if h' = h then (s.seen? h).map f else s.seen? h' := by
  refine seen?_eq_of_at?_eq (fun id hid => by rw [hr.at?_eq, if_neg hid]) ?_ h'
  intro other hid
  rw [seen?, seen?, seen?, hr.at?_eq, if_pos hid, hid]
  cases s.at? h.id with
  | none => simp
  | some slot =>
      rw [Option.map_some, Option.bind_some, Option.bind_some, Option.bind_some, Slot.modify_eq]
      by_cases hs : slot.shown = some h
      · obtain ⟨e, hv, he⟩ := Option.map_eq_some_iff.mp hs
        rw [if_pos hs, hv]
        by_cases hh : other = h
        · simp [hh, Entity.matching_some, he, hf]
        · have hne : ¬ h = other := fun heq => hh heq.symm
          simp [hh, Entity.matching_some, he, hf, hne]
      · rw [if_neg hs]
        have hnone : Entity.matching h slot.visible = none := Entity.matching_eq_none_iff.mpr hs
        have hsame : (if slot.waiting = some h then
            { slot with pending := slot.pending.map f } else slot).visible = slot.visible := by
          split <;> rfl
        rw [hsame, hnone]
        by_cases hh : other = h
        · rw [if_pos hh, hh, hnone]
          rfl
        · rw [if_neg hh]

theorem seen?_reveal (hslot : s.at? h.id = some slot) (hhidden : slot.visible = none)
    (he : e.handle = h) (h' : Handle) :
    (s.modifySlot h (·.reveal e)).seen? h' = if h' = h then some e else s.seen? h' := by
  refine seen?_eq_of_at?_eq (fun id hid => by rw [at?_modifySlot, if_neg hid]) ?_ h'
  intro other hid
  rw [seen?, seen?, at?_modifySlot, if_pos hid, hid, hslot]
  by_cases hh : other = h
  · simp [hh, Slot.reveal, Entity.matching_some, he]
  · have hne : ¬ h = other := fun heq => hh heq.symm
    simp [hh, Slot.reveal, Entity.matching_some, he, hhidden, hne]

theorem seen?_vacate (hslot : s.at? h.id = some slot) (hv : slot.visible = some e)
    (he : e.handle = h) (h' : Handle) :
    (s.modifySlot h Slot.vacate).seen? h' = if h' = h then none else s.seen? h' := by
  refine seen?_eq_of_at?_eq (fun id hid => by rw [at?_modifySlot, if_neg hid]) ?_ h'
  intro other hid
  rw [seen?, seen?, at?_modifySlot, if_pos hid, hid, hslot]
  by_cases hh : other = h
  · simp [hh, Slot.vacate]
  · have hne : ¬ h = other := fun heq => hh heq.symm
    simp [hh, Slot.vacate, Entity.matching_some, hv, he, hne]

end Store

namespace System

variable {σ P : Type}

/-- A system is up to date with a store, but for the changes of kinds in a queue. -/
structure Follows (y : System C σ P) (s : Store C) (queue : List Change) : Prop where
  nodup : y.entities.Nodup
  seen : ∀ h ∈ y.entities, ∃ e, s.seen? h = some e
  mem_iff : ∀ h e, s.seen? h = some e → .changed h ∉ queue →
    (h ∈ y.entities ↔ y.wants e.mask = true)

variable {y y' : System C σ P} {s s' : Store C} {queue rest : List Change} {h : Handle}
  {change : Change} {transition : Option Transition}

/-! ## Operations on the store -/

theorem Follows.congr (hf : y.Follows s queue) (hseen : ∀ h, s'.seen? h = s.seen? h)
    {queue' : List Change} (hqueue : ∀ h, .changed h ∈ queue → .changed h ∈ queue') :
    y.Follows s' queue' := by
  refine ⟨hf.nodup, ?_, ?_⟩
  · intro h hm
    rw [hseen]
    exact hf.seen h hm
  · intro h e he hnot
    rw [hseen] at he
    exact hf.mem_iff h e he fun hm => hnot (hqueue h hm)

theorem Follows.of_eq (hf : y.Follows s queue) (he : y'.entities = y.entities)
    (hi : y'.interest = y.interest) : y'.Follows s queue := by
  have hwants : y'.wants = y.wants := by
    funext mask
    rw [wants, wants, hi]
  refine ⟨?_, ?_, ?_⟩
  · rw [he]
    exact hf.nodup
  · rw [he]
    exact hf.seen
  · rw [he, hwants]
    exact hf.mem_iff

/-- Rewriting a record is noted, or does not alter the mask of a visible record. -/
theorem Follows.rewrite {f : Entity C → Entity C} {noted : Prop}
    (hf : y.Follows s s.changes.toList) (hr : s.Rewrites h f noted s')
    (hhandle : ∀ e, (f e).handle = e.handle)
    (hquiet : ¬ noted → ∀ slot e, s.at? h.id = some slot → slot.visible = some e →
      e.handle = h → (f e).mask = e.mask) : y.Follows s' s'.changes.toList := by
  refine ⟨hf.nodup, ?_, ?_⟩
  · intro h' hm
    obtain ⟨e, he⟩ := hf.seen h' hm
    rw [hr.seen?_eq hhandle]
    by_cases hh : h' = h
    · exact ⟨f e, by rw [if_pos hh, ← hh, he]; rfl⟩
    · exact ⟨e, by rw [if_neg hh, he]⟩
  · intro h' e he hnot
    rw [hr.seen?_eq hhandle] at he
    by_cases hh : h' = h
    · rw [if_pos hh] at he
      obtain ⟨old, hold, rfl⟩ := Option.map_eq_some_iff.mp he
      rcases hr.changes_eq with ⟨-, hchanges⟩ | ⟨hn, hchanges⟩
      · rw [hchanges, hh] at hnot
        simp at hnot
      · obtain ⟨slot, hslot, hv, hhold⟩ := Store.seen?_eq_some_iff.mp hold
        rw [hchanges] at hnot
        rw [hquiet hn slot old hslot hv hhold]
        exact hf.mem_iff h' old (hh ▸ hold) hnot
    · rw [if_neg hh] at he
      refine hf.mem_iff h' e he fun hm => hnot ?_
      rcases hr.changes_eq with ⟨-, hchanges⟩ | ⟨-, hchanges⟩
      · rw [hchanges, Array.toList_push]
        exact List.mem_append_left _ hm
      · rw [hchanges]
        exact hm

theorem Follows.moves [Component C] {t u : History C}
    (hf : y.Follows t.store t.store.changes.toList) (hm : t.Moves u) :
    y.Follows u.store u.store.changes.toList := by
  cases hm with
  | refused => exact hf
  | created creates takes =>
      refine hf.congr creates.seen?_eq ?_
      intro h hm
      rw [creates.changes_eq, Array.toList_push]
      exact List.mem_append_left _ hm
  | destroyed genuine found current destroys =>
      refine hf.congr (destroys.seen?_eq found) ?_
      intro h hm
      rw [destroys.changes_eq]
      split
      · exact hm
      · rw [Array.toList_push]
        exact List.mem_append_left _ hm
  | rewritten rewrites handle tracked current quiet => exact hf.rewrite rewrites handle quiet

theorem Follows.edits [Component C] {t u : History C}
    (hf : y.Follows t.store t.store.changes.toList) (ht : t.Sound) (he : t.Edits u)
    (hw : u.Unworn) : y.Follows u.store u.store.changes.toList := by
  induction he with
  | refl => exact hf
  | edit before e admits ih =>
      have hw' := hw.of_suffix (History.suffix_destroyed_edit _ e)
      have hsound := before.reaches.sound ht hw'
      exact (ih hw').moves (History.moves hsound.tidy admits)

/-! ## Applying the changes -/

/-- Subscribing or dropping one entity. -/
theorem mem_resubscribe (hn : y.entities.Nodup) {mask : Mask} {h' : Handle} :
    h' ∈ (y.resubscribe h mask).entities ↔
      if h' = h then y.wants mask = true else h' ∈ y.entities := by
  unfold resubscribe
  by_cases hw : y.wants mask = true
  · rw [if_pos hw]
    by_cases hm : h ∈ y.entities
    · rw [if_pos hm]
      by_cases hh : h' = h <;> simp [hh, hm, hw]
    · rw [if_neg hm]
      by_cases hh : h' = h <;> simp [hh, hw]
  · rw [if_neg hw, hn.mem_erase_iff]
    by_cases hh : h' = h <;> simp [hh, hw]

theorem nodup_resubscribe (hn : y.entities.Nodup) (h : Handle) (mask : Mask) :
    (y.resubscribe h mask).entities.Nodup := by
  unfold resubscribe
  split
  · split
    · exact hn
    · rename_i hm
      refine List.nodup_append.mpr ⟨hn, List.nodup_singleton h, ?_⟩
      intro a ha b hb heq
      rw [List.mem_singleton.mp hb] at heq
      exact hm (heq ▸ ha)
  · exact hn.erase h

theorem wants_resubscribe (y : System C σ P) (h : Handle) (mask : Mask) :
    (y.resubscribe h mask).wants = y.wants := by
  unfold resubscribe
  split
  · split <;> rfl
  · rfl

/-- A system that hears the mask of a record that is seen now is up to date with it. -/
theorem Follows.resubscribe {e : Entity C} (hf : y.Follows s (change :: rest))
    (hseen : ∀ h', s'.seen? h' = if h' = h then some e else s.seen? h')
    (hchange : ∀ h', h' ≠ h → change ≠ .changed h') :
    (y.resubscribe h e.mask).Follows s' rest := by
  refine ⟨nodup_resubscribe hf.nodup h e.mask, ?_, ?_⟩
  · intro h' hm
    rw [mem_resubscribe hf.nodup] at hm
    rw [hseen]
    by_cases hh : h' = h
    · exact ⟨e, if_pos hh⟩
    · rw [if_neg hh] at hm ⊢
      exact hf.seen h' hm
  · intro h' e' he' hnot
    rw [hseen] at he'
    rw [mem_resubscribe hf.nodup, wants_resubscribe]
    by_cases hh : h' = h
    · rw [if_pos hh] at he' ⊢
      rw [Option.some.inj he']
    · rw [if_neg hh] at he' ⊢
      refine hf.mem_iff h' e' he' ?_
      rw [List.mem_cons, not_or]
      exact ⟨(hchange h' hh).symm, hnot⟩

theorem Follows.unsubscribe (hf : y.Follows s (change :: rest))
    (hseen : ∀ h', s'.seen? h' = if h' = h then none else s.seen? h')
    (hchange : ∀ h', h' ≠ h → change ≠ .changed h') : (y.unsubscribe h).Follows s' rest := by
  have hmem : ∀ h', h' ∈ (y.unsubscribe h).entities ↔ h' ∈ y.entities ∧ h' ≠ h := by
    intro h'
    simp [System.unsubscribe]
  refine ⟨hf.nodup.filter _, ?_, ?_⟩
  · intro h' hm
    obtain ⟨hm, hh⟩ := (hmem h').mp hm
    rw [hseen, if_neg hh]
    exact hf.seen h' hm
  · intro h' e he hnot
    rw [hseen] at he
    by_cases hh : h' = h
    · rw [if_pos hh] at he
      cases he
    · rw [if_neg hh] at he
      rw [hmem, and_iff_left hh]
      refine hf.mem_iff h' e he ?_
      rw [List.mem_cons, not_or]
      exact ⟨(hchange h' hh).symm, hnot⟩

/-- Following the transition of one applied change. -/
theorem Follows.applies (hf : y.Follows s (change :: rest))
    (ha : s.Applies change transition s') :
    (transition.toList.foldl System.follow y).Follows s' rest := by
  cases ha with
  | added found pending handle hidden =>
      refine hf.resubscribe (Store.seen?_reveal found hidden handle) ?_
      intro h' _ heq
      cases heq
  | @skipped h dropped =>
      refine ⟨hf.nodup, hf.seen, ?_⟩
      intro h' e he hnot
      exact hf.mem_iff h' e he (by simpa using hnot)
  | removed found visible handle doomed =>
      refine hf.unsubscribe (Store.seen?_vacate found visible handle) ?_
      intro h' _ heq
      cases heq
  | @changed h slot e found visible handle =>
      have hseen : s.seen? h = some e :=
        Store.seen?_eq_some_iff.mpr ⟨slot, found, visible, handle⟩
      refine hf.resubscribe ?_ ?_
      · intro h'
        by_cases hh : h' = h
        · rw [if_pos hh, hh, hseen]
        · rw [if_neg hh]
      · intro h' hh heq
        exact hh (by simpa using heq.symm)

/-- Following everything that was noted brings a system up to date, if the noted changes apply one
after the other. -/
theorem Follows.applyChanges_of (hf : y.Follows s queue) (inv : Store C → List Change → Prop)
    (hs : inv s queue) (happlies : ∀ s change rest, inv s (change :: rest) →
      s.Applies change (s.applyChange change).1 (s.applyChange change).2 ∧
        inv (s.applyChange change).2 rest) :
    ((s.applyChanges queue).1.foldl System.follow y).Follows (s.applyChanges queue).2 [] := by
  induction queue generalizing s y with
  | nil => exact hf
  | cons change rest ih =>
      obtain ⟨ha, hrest⟩ := happlies s change rest hs
      rw [Store.applyChanges_cons, List.foldl_append]
      exact ih (hf.applies ha) hrest

/-- Listing the visible records that are wanted gives the same as following all changes. -/
theorem follows_backfill (he : y.entities = []) (hp : s.Placed) (queue : List Change) :
    (y.backfill s).Follows s queue := by
  have hentities : (y.backfill s).entities =
      (s.visible.filter fun e => y.wants e.mask).map (·.handle) := by
    simp [backfill, he]
  have hmem : ∀ h, h ∈ (y.backfill s).entities ↔
      ∃ e, s.seen? h = some e ∧ y.wants e.mask = true := by
    intro h
    rw [hentities, List.mem_map]
    constructor
    · rintro ⟨e, hm, hh⟩
      obtain ⟨hm, hw⟩ := List.mem_filter.mp hm
      exact ⟨e, hp.seen?_eq_some_iff.mpr ⟨hm, hh⟩, hw⟩
    · rintro ⟨e, hs, hw⟩
      obtain ⟨hm, hh⟩ := hp.seen?_eq_some_iff.mp hs
      exact ⟨e, List.mem_filter.mpr ⟨hm, hw⟩, hh⟩
  refine ⟨?_, ?_, ?_⟩
  · rw [hentities]
    exact hp.nodup_handles.sublist (List.filter_sublist.map _)
  · intro h hm
    obtain ⟨e, hs, -⟩ := (hmem h).mp hm
    exact ⟨e, hs⟩
  · intro h e hs _
    have hwants : (y.backfill s).wants = y.wants := rfl
    rw [hmem, hwants]
    constructor
    · rintro ⟨other, hother, hw⟩
      rw [hs] at hother
      rw [Option.some.inj hother]
      exact hw
    · intro hw
      exact ⟨e, hs, hw⟩

/-- A system that is up to date lists the visible records that it wants. -/
theorem Follows.mem_entities_iff (hf : y.Follows s []) (ht : s.Tidy) (h : Handle) :
    h ∈ y.entities ↔ ∃ e ∈ s.visible, e.handle = h ∧ y.wants e.mask = true := by
  constructor
  · intro hm
    obtain ⟨e, hs⟩ := hf.seen h hm
    obtain ⟨hv, hh⟩ := ht.placed.seen?_eq_some_iff.mp hs
    exact ⟨e, hv, hh, (hf.mem_iff h e hs (by simp)).mp hm⟩
  · rintro ⟨e, hv, hh, hw⟩
    have hs := ht.placed.seen?_eq_some_iff.mpr ⟨hv, hh⟩
    exact (hf.mem_iff h e hs (by simp)).mpr hw

end System

end Realm
