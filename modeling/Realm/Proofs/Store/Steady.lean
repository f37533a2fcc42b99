import Realm.Proofs.Store.Stray
import Realm.Proofs.Store.Visible

/-!
# Stores whose generations may start over

A store of which only visible entities are destroyed keeps its records apart for ever, however often
the generations of its identities start over: between two passes over the noted changes an identity
is released at most once, so the record that is about to go and the one that is about to come carry
neighbouring generations.
-/

namespace Realm

variable {C : Type}

/-- Whether one change may be noted before another. For one identity the visible record changes,
then is destroyed, then the next one is created. -/
def Change.Apart (first later : Change) : Prop :=
  first.handle.id = later.handle.id →
    match first, later with
    | .changed _, _ => True
    | .destroyed _, .created _ => True
    | _, _ => False

theorem Change.Apart.of_ne {first later : Change} (h : first.handle.id ≠ later.handle.id) :
    first.Apart later := fun heq => absurd heq h

namespace Store

/-- The order of a store of which only visible entities are destroyed, given what is still noted.
Neither a free identity nor one whose record waits shows its next handle. -/
structure Steady (s : Store C) (queue : List Change) : Prop extends s.Kept queue where
  shown_ne : ∀ id slot, s.at? id = some slot → id ∈ s.free ∨ slot.waiting ≠ none →
    slot.shown ≠ some (slot.current id)
  waiting_created : ∀ id slot h, s.at? id = some slot → slot.waiting = some h → .created h ∈ queue
  doomed_destroyed : ∀ id slot h, s.at? id = some slot → slot.shown = some h →
    h ≠ slot.current id → .destroyed h ∈ queue
  of_created : ∀ h, .created h ∈ queue → ∃ slot, s.at? h.id = some slot ∧ slot.waiting = some h
  of_destroyed : ∀ h, .destroyed h ∈ queue → ∃ slot, s.at? h.id = some slot ∧
    slot.shown = some h ∧ h ≠ slot.current h.id
  of_changed : ∀ h, .changed h ∈ queue → ∃ slot, s.at? h.id = some slot ∧ slot.shown = some h
  apart : queue.Pairwise Change.Apart
  tracked : ∀ id slot e, s.at? id = some slot →
    slot.visible = some e ∨ slot.pending = some e → e.Tracked

namespace Steady

variable {s s' : Store C} {queue : List Change} {h : Handle} {slot : Slot C} {e : Entity C}

theorem empty (capacity : UInt32) : (Store.empty capacity : Store C).Steady [] := by
  have hnone : ∀ id slot, (Store.empty capacity : Store C).at? id ≠ some slot := by
    intro id slot hs
    simp [at?, Store.empty] at hs
  refine ⟨(Roamed.empty capacity).kept, ?_, ?_, ?_, ?_, ?_, ?_, .nil, ?_⟩
  · exact fun id slot hs => absurd hs (hnone id slot)
  · exact fun id slot h hs => absurd hs (hnone id slot)
  · exact fun id slot h hs => absurd hs (hnone id slot)
  · exact fun h hm => absurd hm List.not_mem_nil
  · exact fun h hm => absurd hm List.not_mem_nil
  · exact fun h hm => absurd hm List.not_mem_nil
  · exact fun id slot e hs => absurd hs (hnone id slot)

/-- A waiting record is that of a used identity and carries its current handle. -/
theorem of_waiting {id : UInt32} (hs : s.Steady queue) (hslot : s.at? id = some slot)
    (hw : slot.waiting = some h) : h = slot.current id ∧ id ∉ s.free :=
  (hs.slot id slot hslot).of_waiting hw

/-- An identity whose visible record is current is used, and nothing waits there. -/
theorem of_shown_current {id : UInt32} (hs : s.Steady queue) (hslot : s.at? id = some slot)
    (hshown : slot.shown = some (slot.current id)) : id ∉ s.free ∧ slot.waiting = none := by
  refine ⟨fun hfree => hs.shown_ne id slot hslot (.inl hfree) hshown, ?_⟩
  by_contra hw
  exact hs.shown_ne id slot hslot (.inr hw) hshown

/-- Where nothing waits no creation is noted. -/
theorem id_ne_of_created {id : UInt32} (hs : s.Steady queue) (hslot : s.at? id = some slot)
    (hidle : slot.waiting = none) (hm : .created h ∈ queue) : h.id ≠ id := by
  intro hid
  obtain ⟨other, hother, hw⟩ := hs.of_created h hm
  rw [hid, hslot] at hother
  obtain rfl := Option.some.inj hother
  rw [hidle] at hw
  cases hw

/-- Of the identity of a visible record that is current nothing is noted but that it changed. -/
theorem changed_of_current (hs : s.Steady queue) (hslot : s.at? h.id = some slot)
    (hcur : h = slot.current h.id) (hshown : slot.shown = some h) {c : Change} (hm : c ∈ queue)
    (hid : c.handle.id = h.id) : ∃ h', c = .changed h' := by
  cases c with
  | changed h' => exact ⟨h', rfl⟩
  | created h' =>
      obtain ⟨-, hidle⟩ := hs.of_shown_current hslot (hshown.trans (congrArg some hcur))
      exact absurd hid (hs.id_ne_of_created hslot hidle hm)
  | destroyed h' =>
      obtain ⟨other, hother, hsh, hne⟩ := hs.of_destroyed h' hm
      have hid : h'.id = h.id := hid
      rw [hid, hslot] at hother
      obtain rfl := Option.some.inj hother
      obtain rfl := Option.some.inj (hsh.symm.trans hshown)
      exact absurd hcur hne

theorem roamed (hs : s.Steady s.changes.toList) : s.Roamed where
  kept := hs.toKept
  uncreated := fun _ _ hslot _ hw _ hm => hs.id_ne_of_created hslot hw hm

/-- Of an identity that is released or new nothing waits and nothing current is shown. -/
theorem of_takes (hs : s.Steady queue) (ht : s.Takes h.id s') :
    (s.slotOrFresh h.id).waiting = none ∧
      (s.slotOrFresh h.id).shown ≠ some ((s.slotOrFresh h.id).current h.id) := by
  cases hslot : s.at? h.id with
  | none =>
      rw [slotOrFresh, hslot]
      exact ⟨rfl, (Option.some_ne_none _).symm⟩
  | some slot =>
      have hfree : h.id ∈ s.free := by
        cases ht with
        | reused hfree _ =>
            rw [hfree]
            exact List.mem_cons_self
        | grown _ _ hid _ _ =>
            have hlt := lt_size_of_at? hslot
            omega
      rw [slotOrFresh_of_at? hslot]
      exact ⟨(hs.slot h.id slot hslot).of_free hfree, hs.shown_ne h.id slot hslot (.inl hfree)⟩

theorem shown_slotOrFresh {id : UInt32} (hs : (s.slotOrFresh id).shown = some h) :
    ∃ slot, s.at? id = some slot ∧ s.slotOrFresh id = slot := by
  cases hslot : s.at? id with
  | none =>
      rw [slotOrFresh, hslot] at hs
      cases hs
  | some slot => exact ⟨slot, rfl, slotOrFresh_of_at? hslot⟩

/-! ## Creating -/

theorem create [Component C] {cs : List C} (hs : s.Steady s.changes.toList)
    (hc : s.Creates cs h s') (ht : s.Takes h.id s') : s'.Steady s'.changes.toList := by
  have hkept := (hs.roamed.create hc ht).kept
  obtain ⟨hidle, hnext⟩ := hs.of_takes ht
  have hcur : h = (s.slotOrFresh h.id).current h.id :=
    Slot.eq_current_iff.mpr ⟨rfl, hc.generation_eq⟩
  have hat : s'.at? h.id = some ((s.slotOrFresh h.id).await (.ofComponents h cs)) := by
    rw [hc.at?_eq, if_pos rfl]
  have hnoted : ∀ {c}, c ∈ s'.changes.toList ↔ c ∈ s.changes.toList ∨ c = .created h := by
    intro c
    rw [hc.changes_eq, Array.toList_push, List.mem_append, List.mem_singleton]
  -- nothing is created twice of one identity
  have huncreated : ∀ h', .created h' ∈ s.changes.toList → h'.id ≠ h.id := by
    intro h' hm hid
    obtain ⟨slot, hslot, -⟩ := hs.of_created h' hm
    rw [hid] at hslot
    rw [slotOrFresh_of_at? hslot] at hidle
    exact hs.id_ne_of_created hslot hidle hm hid
  -- what was shown at the identity that is taken is shown there still
  have hforth : ∀ {h' : Handle} {slot : Slot C}, s.at? h'.id = some slot →
      ∃ slot', s'.at? h'.id = some slot' ∧ slot'.shown = slot.shown ∧
        slot'.current h'.id = slot.current h'.id := by
    intro h' slot hslot
    by_cases hid : h'.id = h.id
    · rw [hid] at hslot ⊢
      refine ⟨_, hat, ?_, ?_⟩
      · rw [slotOrFresh_of_at? hslot]
        rfl
      · rw [slotOrFresh_of_at? hslot]
        rfl
    · exact ⟨slot, by rw [hc.at?_eq, if_neg hid, hslot], rfl, rfl⟩
  refine ⟨hkept, ?_, ?_, ?_, ?_, ?_, ?_, ?_, ?_⟩
  · intro id slot hslot hor
    rcases at?_cases (hc.at?_eq id) hslot with ⟨rfl, heq⟩ | ⟨hid, hslot⟩
    · obtain rfl := Option.some.inj heq
      exact hnext
    · refine hs.shown_ne id slot hslot (hor.imp_left fun hfree => ?_)
      exact ((ht.mem_free_iff hs.free_nodup).mp hfree).1
  · intro id slot h' hslot hw
    rcases at?_cases (hc.at?_eq id) hslot with ⟨rfl, heq⟩ | ⟨-, hslot⟩
    · obtain rfl := Option.some.inj heq
      rw [Slot.waiting_await, Entity.handle_ofComponents] at hw
      exact Option.some.inj hw ▸ hnoted.mpr (.inr rfl)
    · exact hnoted.mpr (.inl (hs.waiting_created id slot h' hslot hw))
  · intro id slot h' hslot hshown hne
    rcases at?_cases (hc.at?_eq id) hslot with ⟨rfl, heq⟩ | ⟨-, hslot⟩
    · obtain rfl := Option.some.inj heq
      rw [Slot.shown_await] at hshown
      obtain ⟨slot, hslot, heq⟩ := shown_slotOrFresh hshown
      rw [heq] at hshown hne
      exact hnoted.mpr (.inl (hs.doomed_destroyed h.id slot h' hslot hshown hne))
    · exact hnoted.mpr (.inl (hs.doomed_destroyed id slot h' hslot hshown hne))
  · intro h' hm
    rcases hnoted.mp hm with hm | heq
    · obtain ⟨slot, hslot, hw⟩ := hs.of_created h' hm
      exact ⟨slot, by rw [hc.at?_eq, if_neg (huncreated h' hm), hslot], hw⟩
    · cases heq
      exact ⟨_, hat, by rw [Slot.waiting_await, Entity.handle_ofComponents]⟩
  · intro h' hm
    obtain ⟨slot, hslot, hshown, hne⟩ := hs.of_destroyed h' ((hnoted.mp hm).resolve_right nofun)
    obtain ⟨slot', hslot', hsame, hgen⟩ := hforth hslot
    exact ⟨slot', hslot', hsame.trans hshown, hgen ▸ hne⟩
  · intro h' hm
    obtain ⟨slot, hslot, hshown⟩ := hs.of_changed h' ((hnoted.mp hm).resolve_right nofun)
    obtain ⟨slot', hslot', hsame, -⟩ := hforth hslot
    exact ⟨slot', hslot', hsame.trans hshown⟩
  · rw [hc.changes_eq, Array.toList_push, List.pairwise_append]
    refine ⟨hs.apart, List.pairwise_singleton _ _, ?_⟩
    intro c hm later hlater
    rw [List.mem_singleton.mp hlater]
    cases c with
    | created h' => exact .of_ne (huncreated h' hm)
    | destroyed h' => exact fun _ => trivial
    | changed h' => exact fun _ => trivial
  · intro id slot e hslot he
    rcases at?_cases (hc.at?_eq id) hslot with ⟨rfl, heq⟩ | ⟨-, hslot⟩
    · obtain rfl := Option.some.inj heq
      rcases he with hv | hp
      · have hv : (s.slotOrFresh h.id).visible = some e := hv
        obtain ⟨slot, hslot, heq⟩ := shown_slotOrFresh (Slot.shown_of_visible hv)
        exact hs.tracked h.id slot e hslot (.inl (heq ▸ hv))
      · obtain rfl := Option.some.inj hp
        exact Entity.Tracked.ofComponents h cs
    · exact hs.tracked id slot e hslot he

/-! ## Destroying -/

theorem destroy (hs : s.Steady s.changes.toList) (hslot : s.at? h.id = some slot)
    (hcur : h = slot.current h.id) (hd : s.Destroys h slot s') (hshown : slot.shown = some h) :
    s'.Steady s'.changes.toList := by
  obtain ⟨hused, hidle⟩ := hs.of_shown_current hslot (hshown.trans (congrArg some hcur))
  have hkept := (hs.roamed.destroy hslot hcur hd hused).kept
  have hchanges : s'.changes.toList = s.changes.toList ++ [.destroyed h] := by
    rw [hd.changes_eq, if_neg (by rw [hidle]; nofun), Array.toList_push]
  have hat : s'.at? h.id = some (slot.release h) := by rw [hd.at?_eq, if_pos rfl]
  have hnext : h ≠ (slot.release h).current h.id := Slot.ne_current_release hcur h
  have hnoted : ∀ {c}, c ∈ s'.changes.toList ↔ c ∈ s.changes.toList ∨ c = .destroyed h := by
    intro c
    rw [hchanges, List.mem_append, List.mem_singleton]
  refine ⟨hkept, ?_, ?_, ?_, ?_, ?_, ?_, ?_, ?_⟩
  · intro id other hother hor
    rcases at?_cases (hd.at?_eq id) hother with ⟨rfl, heq⟩ | ⟨hid, hother⟩
    · obtain rfl := Option.some.inj heq
      rw [Slot.shown_release, hshown]
      exact fun heq => hnext (Option.some.inj heq)
    · refine hs.shown_ne id other hother (hor.imp_left fun hfree => ?_)
      rw [hd.free_eq] at hfree
      exact (List.mem_cons.mp hfree).resolve_left hid
  · intro id other h' hother hw
    rcases at?_cases (hd.at?_eq id) hother with ⟨rfl, heq⟩ | ⟨-, hother⟩
    · obtain rfl := Option.some.inj heq
      rw [Slot.waiting_release, hidle] at hw
      cases hw
    · exact hnoted.mpr (.inl (hs.waiting_created id other h' hother hw))
  · intro id other h' hother hsh hne
    rcases at?_cases (hd.at?_eq id) hother with ⟨rfl, heq⟩ | ⟨-, hother⟩
    · obtain rfl := Option.some.inj heq
      rw [Slot.shown_release, hshown] at hsh
      exact hnoted.mpr (.inr (congrArg _ (Option.some.inj hsh).symm))
    · exact hnoted.mpr (.inl (hs.doomed_destroyed id other h' hother hsh hne))
  · intro h' hm
    have hm := (hnoted.mp hm).resolve_right nofun
    have hid := hs.id_ne_of_created hslot hidle hm
    obtain ⟨other, hother, hw⟩ := hs.of_created h' hm
    exact ⟨other, by rw [hd.at?_eq, if_neg hid, hother], hw⟩
  · intro h' hm
    rcases hnoted.mp hm with hm | heq
    · have hid : h'.id ≠ h.id := fun hid => by
        obtain ⟨_, heq⟩ := hs.changed_of_current hslot hcur hshown hm hid
        cases heq
      obtain ⟨other, hother, hsh, hne⟩ := hs.of_destroyed h' hm
      exact ⟨other, by rw [hd.at?_eq, if_neg hid, hother], hsh, hne⟩
    · cases heq
      exact ⟨_, hat, hshown, hnext⟩
  · intro h' hm
    obtain ⟨other, hother, hsh⟩ := hs.of_changed h' ((hnoted.mp hm).resolve_right nofun)
    by_cases hid : h'.id = h.id
    · rw [hid, hslot] at hother
      obtain rfl := Option.some.inj hother
      exact ⟨slot.release h, by rw [hid, hat], hsh⟩
    · exact ⟨other, by rw [hd.at?_eq, if_neg hid, hother], hsh⟩
  · rw [hchanges, List.pairwise_append]
    refine ⟨hs.apart, List.pairwise_singleton _ _, ?_⟩
    intro c hm later hlater hid
    rw [List.mem_singleton.mp hlater] at hid ⊢
    obtain ⟨h', rfl⟩ := hs.changed_of_current hslot hcur hshown hm hid
    trivial
  · intro id other e hother he
    rcases at?_cases (hd.at?_eq id) hother with ⟨rfl, heq⟩ | ⟨-, hother⟩
    · obtain rfl := Option.some.inj heq
      refine hs.tracked h.id slot e hslot (he.imp_right fun hp => ?_)
      have hnot : slot.waiting ≠ some h := by
        rw [hidle]
        nofun
      simpa [Slot.release, hnot] using hp
    · exact hs.tracked id other e hother he

/-! ## Rewriting -/

/-- Slots of the same outline show the same handles. -/
theorem exists_of_outline {id : UInt32}
    (hmap : (s'.at? id).map Slot.outline = (s.at? id).map Slot.outline)
    (hslot : s.at? id = some slot) : ∃ slot', s'.at? id = some slot' ∧
      slot'.current id = slot.current id ∧ slot'.shown = slot.shown ∧
        slot'.waiting = slot.waiting := by
  rw [hslot, Option.map_some, Option.map_eq_some_iff] at hmap
  obtain ⟨slot', hslot', ho⟩ := hmap
  obtain ⟨hgen, hrest⟩ := Slot.outline_eq_iff.mp ho
  exact ⟨slot', hslot', by simp [Slot.current, hgen], hrest⟩

theorem rewrite {f : Entity C → Entity C} {noted : Prop} (hs : s.Steady s.changes.toList)
    (hw : s.Rewrites h f noted s') (hf : ∀ e, (f e).handle = e.handle)
    (htracked : ∀ e, e.Tracked → (f e).Tracked)
    (hnoted : noted → ∃ slot, s.at? h.id = some slot ∧ slot.shown = some h ∧
      h = slot.current h.id) : s'.Steady s'.changes.toList := by
  have hkept := (hs.roamed.rewrite hw hf).kept
  have hback : ∀ id slot', s'.at? id = some slot' → ∃ slot, s.at? id = some slot ∧
      slot.current id = slot'.current id ∧ slot.shown = slot'.shown ∧
        slot.waiting = slot'.waiting :=
    fun id slot' hslot' => exists_of_outline (hw.map_outline hf id).symm hslot'
  have hforth : ∀ id slot, s.at? id = some slot → ∃ slot', s'.at? id = some slot' ∧
      slot'.current id = slot.current id ∧ slot'.shown = slot.shown ∧
        slot'.waiting = slot.waiting :=
    fun id slot hslot => exists_of_outline (hw.map_outline hf id) hslot
  have hold : ∀ c ∈ s'.changes.toList, c ∈ s.changes.toList ∨ noted ∧ c = .changed h := by
    intro c hm
    rcases hw.changes_eq with ⟨hn, heq⟩ | ⟨-, heq⟩
    · rw [heq, Array.toList_push, List.mem_append, List.mem_singleton] at hm
      exact hm.imp_right fun heq => ⟨hn, heq⟩
    · exact .inl (heq ▸ hm)
  have hmem : ∀ c ∈ s.changes.toList, c ∈ s'.changes.toList := by
    intro c hm
    rcases hw.changes_eq with ⟨-, heq⟩ | ⟨-, heq⟩
    · rw [heq, Array.toList_push]
      exact List.mem_append_left _ hm
    · rw [heq]
      exact hm
  refine ⟨hkept, ?_, ?_, ?_, ?_, ?_, ?_, ?_, ?_⟩
  · intro id slot' hslot' hor
    obtain ⟨slot, hslot, hcur, hsh, hwaiting⟩ := hback id slot' hslot'
    rw [hw.free_eq, ← hwaiting] at hor
    rw [← hcur, ← hsh]
    exact hs.shown_ne id slot hslot hor
  · intro id slot' h' hslot' hw'
    obtain ⟨slot, hslot, -, -, hwaiting⟩ := hback id slot' hslot'
    exact hmem _ (hs.waiting_created id slot h' hslot (hwaiting.trans hw'))
  · intro id slot' h' hslot' hshown hne
    obtain ⟨slot, hslot, hcur, hsh, -⟩ := hback id slot' hslot'
    exact hmem _ (hs.doomed_destroyed id slot h' hslot (hsh.trans hshown) (hcur ▸ hne))
  · intro h' hm
    obtain ⟨slot, hslot, hwaiting⟩ := hs.of_created h' ((hold _ hm).resolve_right nofun)
    obtain ⟨slot', hslot', -, -, hsame⟩ := hforth h'.id slot hslot
    exact ⟨slot', hslot', hsame.trans hwaiting⟩
  · intro h' hm
    obtain ⟨slot, hslot, hshown, hne⟩ := hs.of_destroyed h' ((hold _ hm).resolve_right nofun)
    obtain ⟨slot', hslot', hcur, hsame, -⟩ := hforth h'.id slot hslot
    exact ⟨slot', hslot', hsame.trans hshown, hcur ▸ hne⟩
  · intro h' hm
    obtain ⟨slot, hslot, hshown⟩ : ∃ slot, s.at? h'.id = some slot ∧ slot.shown = some h' := by
      rcases hold _ hm with hm | ⟨hn, heq⟩
      · exact hs.of_changed h' hm
      · cases heq
        obtain ⟨slot, hslot, hshown, -⟩ := hnoted hn
        exact ⟨slot, hslot, hshown⟩
    obtain ⟨slot', hslot', -, hsame, -⟩ := hforth h'.id slot hslot
    exact ⟨slot', hslot', hsame.trans hshown⟩
  · rcases hw.changes_eq with ⟨hn, heq⟩ | ⟨-, heq⟩
    · obtain ⟨slot, hslot, hshown, hcur⟩ := hnoted hn
      rw [heq, Array.toList_push, List.pairwise_append]
      refine ⟨hs.apart, List.pairwise_singleton _ _, ?_⟩
      intro c hm later hlater hid
      rw [List.mem_singleton.mp hlater] at hid ⊢
      obtain ⟨h', rfl⟩ := hs.changed_of_current hslot hcur hshown hm hid
      trivial
    · rw [heq]
      exact hs.apart
  · intro id slot' e hslot' he
    rcases at?_cases (hw.at?_eq id) hslot' with ⟨-, heq⟩ | ⟨-, hslot⟩
    · obtain ⟨slot, hslot, rfl⟩ := Option.map_eq_some_iff.mp heq
      exact tracked_modify htracked (fun e => hs.tracked id slot e hslot) e he
    · exact hs.tracked id slot' e hslot he

/-! ## Applying the changes -/

section Apply

variable {change : Change} {rest : List Change}

/-- A new record becomes visible only where none is. -/
theorem visible_eq_none (hs : s.Steady (.created h :: rest)) (hslot : s.at? h.id = some slot)
    (hw : slot.waiting = some h) : slot.visible = none := by
  cases hv : slot.visible with
  | none => rfl
  | some e =>
      have hshown : slot.shown = some e.handle := Slot.shown_of_visible hv
      have hid := (hs.slot h.id slot hslot).id_of_shown e.handle hshown
      have hwaits : slot.waiting ≠ none := by rw [hw]; nofun
      have hne : e.handle ≠ slot.current h.id := fun heq =>
        hs.shown_ne h.id slot hslot (.inr hwaits) (heq ▸ hshown)
      have hm := hs.doomed_destroyed h.id slot e.handle hslot hshown hne
      have hm : .destroyed e.handle ∈ rest := (List.mem_cons.mp hm).resolve_left nofun
      exact ((List.pairwise_cons.mp hs.apart).1 _ hm hid.symm).elim

/-- Applying the first change of a queue does one of three things. -/
theorem applies (hs : s.Steady (change :: rest)) :
    s.Applies change (s.applyChange change).1 (s.applyChange change).2 := by
  cases change with
  | created h =>
      obtain ⟨slot, hslot, hw⟩ := hs.of_created h List.mem_cons_self
      obtain ⟨e, hpending, hhandle⟩ := Option.map_eq_some_iff.mp hw
      have hm := Entity.matching_eq_some_iff.mpr ⟨hpending, hhandle⟩
      simp only [applyChange, slot?_eq, hslot, Option.bind_some, hm]
      exact .added hslot hpending hhandle (hs.visible_eq_none hslot hw)
  | destroyed h =>
      obtain ⟨slot, hslot, hshown, hne⟩ := hs.of_destroyed h List.mem_cons_self
      obtain ⟨e, hvisible, hhandle⟩ := Option.map_eq_some_iff.mp hshown
      have hm := Entity.matching_eq_some_iff.mpr ⟨hvisible, hhandle⟩
      simp only [applyChange, slot?_eq, hslot, Option.bind_some, hm]
      exact .removed hslot hvisible hhandle hne
  | changed h =>
      obtain ⟨slot, hslot, hshown⟩ := hs.of_changed h List.mem_cons_self
      obtain ⟨e, hvisible, hhandle⟩ := Option.map_eq_some_iff.mp hshown
      have hm := Entity.matching_eq_some_iff.mpr ⟨hvisible, hhandle⟩
      simp only [applyChange, slot?_eq, hslot, Option.bind_some, hm]
      exact .changed hslot hvisible hhandle

/-- A slot of a store of which one slot was written is the one that was written or an old one. -/
theorem at?_modifySlot_cases {f : Slot C → Slot C} {id : UInt32} {other : Slot C}
    (found : s.at? h.id = some slot) (hother : (s.modifySlot h f).at? id = some other) :
    id = h.id ∧ other = f slot ∨ id ≠ h.id ∧ s.at? id = some other := by
  rcases at?_cases (at?_modifySlot _ _ _ id) hother with ⟨rfl, hnew⟩ | hold
  · rw [found] at hnew
    exact .inl ⟨rfl, (Option.some.inj hnew).symm⟩
  · exact .inr hold

/-- Once a record became visible, nothing that is left concerns its slot. -/
theorem reveal (hs : s.Steady (.created h :: rest)) (found : s.at? h.id = some slot)
    (pending : slot.pending = some e) (handle : e.handle = h)
    (hkept : (s.modifySlot h (·.reveal e)).Kept rest) :
    (s.modifySlot h (·.reveal e)).Steady rest := by
  obtain ⟨hhead, htail⟩ := List.pairwise_cons.mp hs.apart
  obtain ⟨hcur, hused⟩ := hs.of_waiting found (handle ▸ Slot.waiting_of_pending pending)
  have hother : ∀ c ∈ rest, c.handle.id ≠ h.id := by
    intro c hm hid
    have hapart := hhead c hm hid.symm
    cases c <;> exact hapart
  have hout : ∀ id, id ≠ h.id → (s.modifySlot h (·.reveal e)).at? id = s.at? id := by
    intro id hid
    rw [at?_modifySlot, if_neg hid]
  refine ⟨hkept, ?_, ?_, ?_, ?_, ?_, ?_, htail, ?_⟩
  · intro id other hother' hor
    rcases at?_modifySlot_cases found hother' with ⟨rfl, rfl⟩ | ⟨-, hold⟩
    · exact (hor.elim (fun hfree => hused hfree) fun hne => hne rfl).elim
    · exact hs.shown_ne id other hold hor
  · intro id other h' hother' hw'
    rcases at?_modifySlot_cases found hother' with ⟨rfl, rfl⟩ | ⟨hid, hold⟩
    · cases hw'
    · rcases List.mem_cons.mp (hs.waiting_created id other h' hold hw') with heq | hm
      · cases heq
        exact absurd (Slot.eq_current_iff.mp (hs.of_waiting hold hw').1).1.symm hid
      · exact hm
  · intro id other h' hother' hshown hne
    rcases at?_modifySlot_cases found hother' with ⟨rfl, rfl⟩ | ⟨-, hold⟩
    · obtain rfl : e.handle = h' := Option.some.inj hshown
      exact absurd (handle.trans hcur) hne
    · exact (List.mem_cons.mp (hs.doomed_destroyed id other h' hold hshown hne)).resolve_left nofun
  · intro h' hm
    rw [hout h'.id (hother _ hm)]
    exact hs.of_created h' (List.mem_cons_of_mem _ hm)
  · intro h' hm
    rw [hout h'.id (hother _ hm)]
    exact hs.of_destroyed h' (List.mem_cons_of_mem _ hm)
  · intro h' hm
    rw [hout h'.id (hother _ hm)]
    exact hs.of_changed h' (List.mem_cons_of_mem _ hm)
  · intro id other e' hother' he
    rcases at?_modifySlot_cases found hother' with ⟨rfl, rfl⟩ | ⟨-, hold⟩
    · have heq : e = e' := by simpa [Slot.reveal] using he
      exact heq ▸ hs.tracked h.id slot e found (.inr pending)
    · exact hs.tracked id other e' hold he

/-- Once a record is gone, only creations are left that concern its slot. -/
theorem vacate (hs : s.Steady (.destroyed h :: rest)) (found : s.at? h.id = some slot)
    (hkept : (s.modifySlot h Slot.vacate).Kept rest) :
    (s.modifySlot h Slot.vacate).Steady rest := by
  obtain ⟨hhead, htail⟩ := List.pairwise_cons.mp hs.apart
  have hcreated : ∀ c ∈ rest, c.handle.id = h.id → ∃ h', c = .created h' := by
    intro c hm hid
    have hapart := hhead c hm hid.symm
    cases c with
    | created h' => exact ⟨h', rfl⟩
    | destroyed h' => exact hapart.elim
    | changed h' => exact hapart.elim
  have hout : ∀ id, id ≠ h.id → (s.modifySlot h Slot.vacate).at? id = s.at? id := by
    intro id hid
    rw [at?_modifySlot, if_neg hid]
  refine ⟨hkept, ?_, ?_, ?_, ?_, ?_, ?_, htail, ?_⟩
  · intro id other hother hor
    rcases at?_modifySlot_cases found hother with ⟨rfl, rfl⟩ | ⟨-, hold⟩
    · nofun
    · exact hs.shown_ne id other hold hor
  · intro id other h' hother hw
    have hm : .created h' ∈ Change.destroyed h :: rest := by
      rcases at?_modifySlot_cases found hother with ⟨rfl, rfl⟩ | ⟨-, hold⟩
      · exact hs.waiting_created h.id slot h' found hw
      · exact hs.waiting_created id other h' hold hw
    exact (List.mem_cons.mp hm).resolve_left nofun
  · intro id other h' hother hshown hne
    rcases at?_modifySlot_cases found hother with ⟨rfl, rfl⟩ | ⟨hid, hold⟩
    · cases hshown
    · rcases List.mem_cons.mp (hs.doomed_destroyed id other h' hold hshown hne) with heq | hm
      · cases heq
        exact absurd ((hs.slot id other hold).id_of_shown _ hshown).symm hid
      · exact hm
  · intro h' hm
    obtain ⟨other, hother, hw⟩ := hs.of_created h' (List.mem_cons_of_mem _ hm)
    by_cases hid : h'.id = h.id
    · rw [hid, found] at hother
      obtain rfl := Option.some.inj hother
      exact ⟨slot.vacate, by rw [hid, at?_modifySlot, if_pos rfl, found]; rfl, hw⟩
    · exact ⟨other, by rw [hout _ hid, hother], hw⟩
  · intro h' hm
    have hid : h'.id ≠ h.id := fun hid => by
      obtain ⟨_, heq⟩ := hcreated _ hm hid
      cases heq
    rw [hout _ hid]
    exact hs.of_destroyed h' (List.mem_cons_of_mem _ hm)
  · intro h' hm
    have hid : h'.id ≠ h.id := fun hid => by
      obtain ⟨_, heq⟩ := hcreated _ hm hid
      cases heq
    rw [hout _ hid]
    exact hs.of_changed h' (List.mem_cons_of_mem _ hm)
  · intro id other e' hother he
    rcases at?_modifySlot_cases found hother with ⟨rfl, rfl⟩ | ⟨-, hold⟩
    · have hpending : slot.pending = some e' := by simpa [Slot.vacate] using he
      exact hs.tracked h.id slot e' found (.inr hpending)
    · exact hs.tracked id other e' hold he

/-- What is left in the queue says about the new slots what the queue said about the old ones. -/
theorem applyChange (hs : s.Steady (change :: rest)) : (s.applyChange change).2.Steady rest := by
  have hkept := hs.toKept.applyChange
  have ha := hs.applies
  cases hresult : s.applyChange change with
  | mk transition s' =>
      rw [hresult] at hkept ha
      cases ha with
      | @skipped h dropped =>
          obtain ⟨slot, hslot, hw⟩ := hs.of_created h List.mem_cons_self
          exact absurd hw (dropped slot hslot)
      | added found pending handle _ => exact hs.reveal found pending handle hkept
      | removed found _ _ _ => exact hs.vacate found hkept
      | changed found _ _ =>
          refine ⟨hkept, hs.shown_ne, ?_, ?_,
            fun h hm => hs.of_created h (List.mem_cons_of_mem _ hm),
            fun h hm => hs.of_destroyed h (List.mem_cons_of_mem _ hm),
            fun h hm => hs.of_changed h (List.mem_cons_of_mem _ hm),
            (List.pairwise_cons.mp hs.apart).2, hs.tracked⟩
          · intro id slot h hslot hw
            exact (List.mem_cons.mp (hs.waiting_created id slot h hslot hw)).resolve_left nofun
          · intro id slot h hslot hshown hne
            exact (List.mem_cons.mp (hs.doomed_destroyed id slot h hslot hshown hne)).resolve_left
              nofun

theorem applyChanges (hs : s.Steady queue) : (s.applyChanges queue).2.Steady [] := by
  induction queue generalizing s with
  | nil => exact hs
  | cons change rest ih =>
      rw [applyChanges_cons]
      exact ih hs.applyChange

theorem map_settle_applyChanges (hs : s.Steady queue) (id : UInt32) :
    ((s.applyChanges queue).2.at? id).map Slot.settle = (s.at? id).map Slot.settle := by
  induction queue generalizing s with
  | nil => rfl
  | cons change rest ih =>
      have hcurrent : ∀ id slot h, s.at? id = some slot → slot.waiting = some h →
          h = slot.current id := fun id slot h hslot hw => (hs.of_waiting hslot hw).1
      rw [applyChanges_cons]
      exact (ih hs.applyChange).trans (hs.applies.map_settle hcurrent id)

theorem with_changes (hs : s.Steady queue) (changes : Array Change) :
    ({ s with changes } : Store C).Steady queue :=
  ⟨⟨⟨hs.size_le, hs.free_lt⟩, hs.free_nodup, hs.slot, hs.undestroyed, hs.ordered⟩, hs.shown_ne,
    hs.waiting_created, hs.doomed_destroyed, hs.of_created, hs.of_destroyed, hs.of_changed, hs.apart,
    hs.tracked⟩

/-- Where nothing is noted nothing waits, and what is shown is current. -/
theorem settle_eq {id : UInt32} (hs : s.Steady []) (hslot : s.at? id = some slot) :
    slot.settle = slot := by
  have hpending : slot.pending = none := by
    cases hp : slot.pending with
    | none => rfl
    | some e => cases hs.waiting_created id slot e.handle hslot (Slot.waiting_of_pending hp)
  have hvisible : slot.visible.filter (fun e => e.handle.generation = slot.generation) =
      slot.visible := by
    cases hv : slot.visible with
    | none => rfl
    | some e =>
        by_cases hcur : e.handle = slot.current id
        · simp [hcur]
        · cases hs.doomed_destroyed id slot e.handle hslot (Slot.shown_of_visible hv) hcur
  rw [Slot.settle, hpending, hvisible, Option.none_or, ← hpending]

theorem changes_apply (s : Store C) : s.apply.2.changes = #[] := changes_applyChanges _ _

theorem apply (hs : s.Steady s.changes.toList) : s.apply.2.Steady s.apply.2.changes.toList := by
  rw [changes_apply]
  exact (hs.with_changes #[]).applyChanges

/-- After applying everything that is noted, every slot is settled. -/
theorem at?_apply (hs : s.Steady s.changes.toList) (id : UInt32) :
    s.apply.2.at? id = (s.at? id).map Slot.settle := by
  have hsteady := hs.apply
  rw [changes_apply] at hsteady
  have hmap : (s.apply.2.at? id).map Slot.settle = (s.at? id).map Slot.settle :=
    (hs.with_changes #[]).map_settle_applyChanges id
  rw [← hmap]
  cases hslot : s.apply.2.at? id with
  | none => rfl
  | some slot => rw [Option.map_some, hsteady.settle_eq hslot]

end Apply

end Steady

end Store

end Realm
