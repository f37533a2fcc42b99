import Realm.Proofs.Store.Living
import Realm.Proofs.World.Run

/-!
# Systems over a steady store

While systems run, entities are destroyed and their components change, but none is created: of an
idle store nothing waits. Whatever is done to one entity leaves the slots of all others alone, the
store steady, and the systems up to date but for what is noted.
-/

namespace Realm

variable {C σ P : Type}

namespace Store

/-- No record waits to be seen. -/
def Idle (s : Store C) : Prop := ∀ id slot, s.at? id = some slot → slot.waiting = none

/-- At most one visible entity was destroyed or had its components changed; `f` is what became of its
slot. -/
inductive Touches (s : Store C) (h : Handle) : (Slot C → Slot C) → Store C → Prop
  | spared : Touches s h id s
  | destroyed {slot : Slot C} {s' : Store C} (found : s.at? h.id = some slot)
      (current : h = slot.current h.id) (shown : slot.shown = some h)
      (destroys : s.Destroys h slot s') : Touches s h (·.release h) s'
  | rewritten {f : Entity C → Entity C} {noted : Prop} {s' : Store C}
      (rewrites : s.Rewrites h f noted s') (handle : ∀ e, (f e).handle = e.handle)
      (tracked : ∀ e, e.Tracked → (f e).Tracked)
      (current : noted → ∃ slot, s.at? h.id = some slot ∧ slot.shown = some h ∧
        h = slot.current h.id)
      (quiet : ¬ noted → ∀ slot e, s.at? h.id = some slot → slot.visible = some e →
        e.handle = h → (f e).mask = e.mask) : Touches s h (·.modify h f) s'

variable {s s' : Store C} {h : Handle} {f : Slot C → Slot C} {queue : List Change}

namespace Touches

theorem at?_eq (ht : s.Touches h f s') (id : UInt32) :
    s'.at? id = if id = h.id then (s.at? id).map f else s.at? id := by
  cases ht with
  | spared => simp
  | destroyed found _ _ destroys =>
      rw [destroys.at?_eq]
      by_cases hid : id = h.id
      · rw [if_pos hid, if_pos hid, hid, found]
        rfl
      · rw [if_neg hid, if_neg hid]
  | rewritten rewrites _ _ _ _ => exact rewrites.at?_eq id

theorem steady (ht : s.Touches h f s') (hs : s.Steady s.changes.toList) :
    s'.Steady s'.changes.toList := by
  cases ht with
  | spared => exact hs
  | destroyed found current shown destroys => exact hs.destroy found current destroys shown
  | rewritten rewrites handle tracked current _ => exact hs.rewrite rewrites handle tracked current

theorem idle (ht : s.Touches h f s') (hs : s.Idle) : s'.Idle := by
  intro id slot' hslot'
  rw [ht.at?_eq] at hslot'
  by_cases hid : id = h.id
  · rw [if_pos hid, Option.map_eq_some_iff] at hslot'
    obtain ⟨slot, hslot, rfl⟩ := hslot'
    have hidle := hs id slot hslot
    cases ht with
    | spared => exact hidle
    | destroyed found current shown destroys =>
        rw [Slot.waiting_release, hidle]
        rfl
    | rewritten rewrites handle _ _ _ =>
        rw [(Slot.outline_eq_iff.mp (Slot.outline_modify handle slot h)).2.2]
        exact hidle
  · rw [if_neg hid] at hslot'
    exact hs id slot' hslot'

/-- A system stays up to date but for what is noted. -/
theorem follows [Component C] {y : System C σ P} (ht : s.Touches h f s')
    (hy : y.Follows s s.changes.toList) : y.Follows s' s'.changes.toList := by
  cases ht with
  | spared => exact hy
  | destroyed found _ _ destroys =>
      refine hy.congr (destroys.seen?_eq found) ?_
      intro h' hm
      rw [destroys.changes_eq]
      split
      · exact hm
      · rw [Array.toList_push]
        exact List.mem_append_left _ hm
  | rewritten rewrites handle _ _ quiet => exact hy.rewrite rewrites handle quiet

theorem living?_of_ne (ht : s.Touches h f s') (hi : s.Idle) {h' : Handle} (hne : h' ≠ h) :
    s'.living? h' = s.living? h' := by
  cases ht with
  | spared => rfl
  | destroyed found current shown destroys =>
      rw [Steady.living?_destroy found current destroys shown (hi h.id _ found), if_neg hne]
  | rewritten rewrites handle _ _ _ => rw [Steady.living?_rewrite rewrites handle, if_neg hne]

end Touches

/-! ## The operations on an entity that lives -/

section Living

variable {e : Entity C}

theorem eq_of_living {h' : Handle} {e' : Entity C} (hl : s.living? h = some e)
    (hl' : s.living? h' = some e') (hid : h'.id = h.id) : h' = h := by
  obtain ⟨slot, hslot, hcur, -⟩ := living?_eq_some_iff.mp hl
  obtain ⟨slot', hslot', hcur', -⟩ := living?_eq_some_iff.mp hl'
  rw [hid, hslot] at hslot'
  obtain rfl := Option.some.inj hslot'
  rw [hcur', hid]
  exact hcur.symm

theorem touches_destroy (hi : s.Idle) (hl : s.living? h = some e) :
    ∃ s', s.destroy h = .ok s' ∧ s.Touches h (·.release h) s' ∧ s'.isAlive h = false := by
  obtain ⟨s', hs'⟩ := destroy_of_alive (isAlive_of_living hl)
  obtain ⟨slot, hslot, hcur, hd⟩ := destroys_of_ok hs'
  obtain ⟨other, hother, -, hf⟩ := living?_eq_some_iff.mp hl
  rw [hslot] at hother
  obtain rfl := Option.some.inj hother
  have hshown := Steady.shown_of_living (hi h.id slot hslot) hf
  refine ⟨s', hs', .destroyed hslot hcur hshown hd, ?_⟩
  by_contra ha
  obtain ⟨after, hafter, hcur'⟩ := isAlive_iff.mp (Bool.eq_true_of_not_eq_false ha)
  rw [hd.at?_eq, if_pos rfl] at hafter
  obtain rfl := Option.some.inj hafter
  exact Slot.ne_current_release hcur h hcur'

theorem touches_change {f : Entity C → Entity C} {matters : Entity C → Bool}
    (hl : s.living? h = some e) (handle : ∀ e, (f e).handle = e.handle)
    (tracked : ∀ e, e.Tracked → (f e).Tracked) (quiet : matters e = false → (f e).mask = e.mask) :
    ∃ s', s.change h f matters = .ok (e, s') ∧ s.Touches h (·.modify h f) s' ∧
      s'.living? h = some (f e) := by
  obtain ⟨slot, hslot, hcur, hfind⟩ := living?_eq_some_iff.mp hl
  obtain ⟨s', hs', hr⟩ := change_of_find? f matters hslot hcur hfind
  refine ⟨s', hs', .rewritten hr handle tracked ?_ ?_, ?_⟩
  · exact fun hnoted => ⟨slot, hslot, hnoted.1, hcur⟩
  · intro hquiet other e' hother hvisible hhandle
    rw [hslot] at hother
    obtain rfl := Option.some.inj hother
    have hshown : slot.shown = some h := hhandle ▸ Slot.shown_of_visible hvisible
    have he : slot.find? h = some e' := Slot.find?_eq_some_iff.mpr (.inl ⟨hvisible, hhandle⟩)
    rw [hfind] at he
    obtain rfl := Option.some.inj he
    exact quiet (by simpa [hshown] using hquiet)
  · rw [Steady.living?_rewrite hr handle, if_pos rfl, hl]
    rfl

theorem touches_add [Component C] (hl : s.living? h = some e) (c : C) :
    ∃ s', s.add h c = .ok (e.get? (Component.kind c), s') ∧
      s.Touches h (·.modify h (·.insert c)) s' ∧ s'.living? h = some (e.insert c) := by
  have hchange : ∃ s', s.change h (·.insert c) (fun _ => true) = .ok (e, s') ∧
      s.Touches h (·.modify h (·.insert c)) s' ∧ s'.living? h = some (e.insert c) :=
    touches_change hl (fun _ => rfl) (fun _ he => he.insert c) nofun
  obtain ⟨s', hs', ht⟩ := hchange
  exact ⟨s', by rw [add, hs']; rfl, ht⟩

theorem touches_remove (hs : s.Steady queue) (hl : s.living? h = some e) (k : Kind) :
    ∃ s', s.remove h k = .ok (e.get? k, s') ∧ s.Touches h (·.modify h (·.erase k)) s' ∧
      s'.living? h = some (e.erase k) := by
  have htracked : e.Tracked := hs.tracked_of_living hl
  have hquiet : (e.get? k).isSome = false → (e.erase k).mask = e.mask :=
    fun hk => htracked.mask_erase_of_none (by simpa using hk)
  have hchange : ∃ s', s.change h (·.erase k) (fun e => (e.get? k).isSome) = .ok (e, s') ∧
      s.Touches h (·.modify h (·.erase k)) s' ∧ s'.living? h = some (e.erase k) :=
    touches_change hl (fun _ => rfl) (fun _ he => he.erase k) hquiet
  obtain ⟨s', hs', ht⟩ := hchange
  exact ⟨s', by rw [remove, hs']; rfl, ht⟩

theorem touches_modify (hl : s.living? h = some e) (k : Kind) (f : C → C) :
    s.Touches h (·.modify h (·.modify k f)) (s.modify h k f) ∧
      (s.modify h k f).living? h = some (e.modify k f) := by
  have hr := s.rewrites_modify h k f
  refine ⟨.rewritten hr (fun _ => rfl) (fun _ he => he.modify k f) nofun ?_, ?_⟩
  · exact fun _ _ e _ _ _ => e.mask_modify k f
  · rw [Steady.living?_rewrite hr fun _ => rfl, if_pos rfl, hl]
    rfl

end Living

namespace Steady

theorem placed (hs : s.Steady queue) : s.Placed :=
  ⟨hs.toBounded, fun id slot h hslot hshown => (hs.slot id slot hslot).id_of_shown h hshown⟩

theorem idle_apply (hs : s.Steady s.changes.toList) : s.apply.2.Idle := by
  intro id slot hslot
  rw [hs.at?_apply, Option.map_eq_some_iff] at hslot
  obtain ⟨old, -, rfl⟩ := hslot
  rfl

/-- A visible record of a living entity is its only one. -/
theorem seen?_of_living {e : Entity C} (hs : s.Idle) (hl : s.living? h = some e) :
    s.seen? h = some e := by
  obtain ⟨slot, hslot, -, hf⟩ := living?_eq_some_iff.mp hl
  rcases Slot.find?_eq_some_iff.mp hf with ⟨hv, hh⟩ | ⟨-, hp, -⟩
  · exact Store.seen?_eq_some_iff.mpr ⟨slot, hslot, hv, hh⟩
  · have hw := hs h.id slot hslot
    rw [Slot.waiting_of_pending hp] at hw
    cases hw

end Steady

end Store

namespace World

variable {w : World C σ P}

/-- The first phase of a tick brings all systems up to date with a steady store. -/
theorem Faithful.follows_of_steady (hf : w.Faithful) (hs : w.store.Steady w.store.changes.toList) :
    ∀ entry ∈ w.applyChanges.systems, entry.2.Follows w.applyChanges.store [] := by
  have happlies : ∀ (s : Store C) change rest, s.Steady (change :: rest) →
      s.Applies change (s.applyChange change).1 (s.applyChange change).2 ∧
        (s.applyChange change).2.Steady rest :=
    fun s change rest hs => ⟨hs.applies, hs.applyChange⟩
  exact hf.follows_applyChanges_of Store.Steady (hs.with_changes #[]) happlies hs.apply.placed

end World

end Realm
