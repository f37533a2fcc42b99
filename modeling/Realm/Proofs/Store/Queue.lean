import Realm.Proofs.Store.Tidy

/-!
# The noted changes

The changes that wait for the next `apply` say everything about how the visible records differ from
the living entities, and the order in which they were noted is the order in which they can be
applied: what concerns the visible record of an identity stands before what creates the next one.
-/

namespace Realm

variable {C : Type}

def Change.handle : Change → Handle
  | .created h => h
  | .destroyed h => h
  | .changed h => h

/-- Whether one change may be noted before another. For one identity the visible record changes,
then is destroyed, then later generations are created. -/
def Change.Precedes (first later : Change) : Prop :=
  first.handle.id = later.handle.id →
    match first, later with
    | .changed _, _ => True
    | .destroyed _, .created _ => True
    | .created h, .created h' => h.generation.toNat < h'.generation.toNat
    | _, _ => False

namespace Store

/-- What the changes in a queue have to do with the slots. -/
structure Queued (s : Store C) (queue : List Change) : Prop where
  waiting_created : ∀ id slot h, s.at? id = some slot → slot.waiting = some h → .created h ∈ queue
  doomed_destroyed : ∀ id slot h, s.at? id = some slot → slot.shown = some h →
    h ≠ slot.current id → .destroyed h ∈ queue
  of_created : ∀ h, .created h ∈ queue → ∃ slot, s.at? h.id = some slot ∧
    slot.shown ≠ some (slot.current h.id) ∧
    (slot.waiting = some h ∨ h.generation.toNat < slot.generation.toNat)
  of_destroyed : ∀ h, .destroyed h ∈ queue → ∃ slot, s.at? h.id = some slot ∧
    slot.shown = some h ∧ h ≠ slot.current h.id
  of_changed : ∀ h, .changed h ∈ queue → ∃ slot, s.at? h.id = some slot ∧ slot.shown = some h
  ordered : queue.Pairwise Change.Precedes

theorem Queued.empty (capacity : UInt32) : (Store.empty capacity : Store C).Queued [] where
  waiting_created := by intro id slot h hs; simp [at?, Store.empty] at hs
  doomed_destroyed := by intro id slot h hs; simp [at?, Store.empty] at hs
  of_created := by intro h hm; cases hm
  of_destroyed := by intro h hm; cases hm
  of_changed := by intro h hm; cases hm
  ordered := .nil

/-- The queue depends only on the outlines of the slots. -/
theorem Queued.congr {s s' : Store C} {queue : List Change} (hq : s.Queued queue)
    (hout : ∀ id, (s'.at? id).map Slot.outline = (s.at? id).map Slot.outline) :
    s'.Queued queue := by
  have hback : ∀ id slot', s'.at? id = some slot' → ∃ slot, s.at? id = some slot ∧
      slot'.generation = slot.generation ∧ slot'.shown = slot.shown ∧
      slot'.waiting = slot.waiting := by
    intro id slot' hs
    have := hout id
    rw [hs, Option.map_some, eq_comm, Option.map_eq_some_iff] at this
    obtain ⟨slot, hslot, heq⟩ := this
    exact ⟨slot, hslot, Slot.outline_eq_iff.mp heq.symm⟩
  have hforth : ∀ id slot, s.at? id = some slot → ∃ slot', s'.at? id = some slot' ∧
      slot'.generation = slot.generation ∧ slot'.shown = slot.shown ∧
      slot'.waiting = slot.waiting := by
    intro id slot hs
    have := hout id
    rw [hs, Option.map_some, Option.map_eq_some_iff] at this
    obtain ⟨slot', hslot, heq⟩ := this
    exact ⟨slot', hslot, Slot.outline_eq_iff.mp heq⟩
  refine ⟨?_, ?_, ?_, ?_, ?_, hq.ordered⟩
  · intro id slot' h hs hw
    obtain ⟨slot, hslot, -, -, hwaiting⟩ := hback id slot' hs
    exact hq.waiting_created id slot h hslot (hwaiting ▸ hw)
  · intro id slot' h hs hshown hne
    obtain ⟨slot, hslot, hgen, hsh, -⟩ := hback id slot' hs
    have hcur : slot'.current id = slot.current id := by simp [Slot.current, hgen]
    exact hq.doomed_destroyed id slot h hslot (hsh ▸ hshown) (hcur ▸ hne)
  · intro h hm
    obtain ⟨slot, hslot, hshown, hor⟩ := hq.of_created h hm
    obtain ⟨slot', hs', hgen, hsh, hw⟩ := hforth h.id slot hslot
    refine ⟨slot', hs', ?_, ?_⟩
    · simpa [Slot.current, hgen, hsh] using hshown
    · rwa [hw, hgen]
  · intro h hm
    obtain ⟨slot, hslot, hshown, hne⟩ := hq.of_destroyed h hm
    obtain ⟨slot', hs', hgen, hsh, -⟩ := hforth h.id slot hslot
    exact ⟨slot', hs', hsh.trans hshown, by simpa [Slot.current, hgen] using hne⟩
  · intro h hm
    obtain ⟨slot, hslot, hshown⟩ := hq.of_changed h hm
    obtain ⟨slot', hs', -, hsh, -⟩ := hforth h.id slot hslot
    exact ⟨slot', hs', hsh.trans hshown⟩

/-! ## Noting a change -/

theorem pairwise_push {queue : List Change} {change : Change}
    (ho : queue.Pairwise Change.Precedes) (hlast : ∀ c ∈ queue, c.Precedes change) :
    (queue ++ [change]).Pairwise Change.Precedes := by
  rw [List.pairwise_append]
  refine ⟨ho, List.pairwise_singleton _ _, ?_⟩
  intro c hc other hother
  rw [List.mem_singleton.mp hother]
  exact hlast c hc

/-- Of an identity whose visible record is current only changes of that record are noted. -/
theorem Queued.eq_changed_of_current {s : Store C} {queue : List Change} {h : Handle}
    {slot : Slot C} {change : Change} (hq : s.Queued queue) (hslot : s.at? h.id = some slot)
    (hcur : h = slot.current h.id) (hshown : slot.shown = some h) (hm : change ∈ queue)
    (hid : change.handle.id = h.id) : ∃ h', change = .changed h' := by
  cases change with
  | changed h' => exact ⟨h', rfl⟩
  | destroyed h' =>
      obtain ⟨other, hother, hsh, hne⟩ := hq.of_destroyed h' hm
      have hid : h'.id = h.id := hid
      rw [hid, hslot] at hother
      obtain rfl := Option.some.inj hother
      obtain rfl := Option.some.inj (hsh.symm.trans hshown)
      exact absurd hcur hne
  | created h' =>
      obtain ⟨other, hother, hne, -⟩ := hq.of_created h' hm
      have hid : h'.id = h.id := hid
      rw [hid, hslot] at hother
      obtain rfl := Option.some.inj hother
      rw [hid] at hne
      exact absurd (hcur ▸ hshown) hne

/-- A change of a living visible record can follow anything that is noted. -/
theorem Queued.push_changed {s : Store C} {queue : List Change} {h : Handle} {slot : Slot C}
    (hq : s.Queued queue) (hslot : s.at? h.id = some slot) (hcur : h = slot.current h.id)
    (hshown : slot.shown = some h) : s.Queued (queue ++ [.changed h]) := by
  refine ⟨?_, ?_, ?_, ?_, ?_, pairwise_push hq.ordered ?_⟩
  · intro id other h' hs hw
    exact List.mem_append_left _ (hq.waiting_created id other h' hs hw)
  · intro id other h' hs hsh hne
    exact List.mem_append_left _ (hq.doomed_destroyed id other h' hs hsh hne)
  · intro h' hm
    exact hq.of_created h' (by simpa using hm)
  · intro h' hm
    exact hq.of_destroyed h' (by simpa using hm)
  · intro h' hm
    rcases List.mem_append.mp hm with hm | hm
    · exact hq.of_changed h' hm
    · obtain rfl : h' = h := by simpa using hm
      exact ⟨slot, hslot, hshown⟩
  · intro c hc hid
    obtain ⟨h', rfl⟩ := hq.eq_changed_of_current hslot hcur hshown hc hid
    trivial

theorem Queued.rewrite {s s' : Store C} {h : Handle} {f : Entity C → Entity C} {noted : Prop}
    (hq : s.Queued s.changes.toList) (hr : s.Rewrites h f noted s')
    (hhandle : ∀ e, (f e).handle = e.handle)
    (hnoted : noted → ∃ slot, s.at? h.id = some slot ∧ h = slot.current h.id ∧
      slot.shown = some h) : s'.Queued s'.changes.toList := by
  have hout := hr.map_outline hhandle
  rcases hr.changes_eq with ⟨hn, hchanges⟩ | ⟨-, hchanges⟩
  · obtain ⟨slot, hslot, hcur, hshown⟩ := hnoted hn
    rw [hchanges, Array.toList_push]
    exact (hq.push_changed hslot hcur hshown).congr hout
  · rw [hchanges]
    exact hq.congr hout

/-- What is noted of a taken identity was noted before and is of an earlier generation. -/
theorem Queued.of_created_of_takes {s s' : Store C} {queue : List Change} {taken : UInt32}
    {h : Handle} (hq : s.Queued queue) (ht : s.Tidy) (htake : s.Takes taken s')
    (hm : .created h ∈ queue) (hid : h.id = taken) :
    s.at? h.id = some (s.slotOrFresh taken) ∧
      h.generation.toNat < (s.slotOrFresh taken).generation.toNat := by
  subst hid
  obtain ⟨slot, hslot, -, hor⟩ := hq.of_created h hm
  have hw := ((ht.slotOrFresh_of_takes htake).of_free trivial).1
  rw [slotOrFresh_of_at? hslot] at hw ⊢
  refine ⟨hslot, hor.resolve_left ?_⟩
  simp [hw]

theorem Queued.create [Component C] {s s' : Store C} {cs : List C} {h : Handle}
    (hq : s.Queued s.changes.toList) (ht : s.Tidy) (hc : s.Creates cs h s')
    (htake : s.Takes h.id s') : s'.Queued s'.changes.toList := by
  have htaken := ht.slotOrFresh_of_takes htake
  have hgen := hc.generation_eq
  -- the slot that was written shows what it showed before
  have hnew : ∀ h' : Handle, h'.id = h.id → ∀ slot, s.at? h'.id = some slot →
      ∃ slot', s'.at? h'.id = some slot' ∧ slot'.generation = slot.generation ∧
        slot'.shown = slot.shown := by
    intro h' hid slot hslot
    rw [hid] at hslot ⊢
    exact ⟨_, by rw [hc.at?_eq, if_pos rfl], by rw [slotOrFresh_of_at? hslot]; rfl,
      by rw [slotOrFresh_of_at? hslot]; rfl⟩
  rw [hc.changes_eq, Array.toList_push]
  refine ⟨?_, ?_, ?_, ?_, ?_, pairwise_push hq.ordered ?_⟩
  · intro id slot h' hs hw
    rcases at?_cases (hc.at?_eq id) hs with ⟨rfl, hslot⟩ | ⟨-, hs⟩
    · obtain rfl := Option.some.inj hslot
      have : h = h' := by simpa using hw
      simp [this]
    · exact List.mem_append_left _ (hq.waiting_created id slot h' hs hw)
  · intro id slot h' hs hshown hne
    rcases at?_cases (hc.at?_eq id) hs with ⟨rfl, hslot⟩ | ⟨-, hs⟩
    · obtain rfl := Option.some.inj hslot
      cases hold : s.at? h.id with
      | none => simp [slotOrFresh, hold, Slot.fresh, Slot.shown, Slot.await] at hshown
      | some old =>
          rw [slotOrFresh_of_at? hold] at hshown hne
          exact List.mem_append_left _ (hq.doomed_destroyed h.id old h' hold hshown hne)
    · exact List.mem_append_left _ (hq.doomed_destroyed id slot h' hs hshown hne)
  · intro h' hm
    rcases List.mem_append.mp hm with hm | hm
    · by_cases hid : h'.id = h.id
      · obtain ⟨hslot, hlt⟩ := hq.of_created_of_takes ht htake hm hid
        refine ⟨_, (hc.at?_eq _).trans (if_pos hid), ?_, .inr hlt⟩
        rw [hid]
        exact (htaken.of_free trivial).2
      · rw [hc.at?_eq, if_neg hid]
        exact hq.of_created h' hm
    · obtain rfl : h' = h := by simpa using hm
      exact ⟨_, (hc.at?_eq _).trans (if_pos rfl), (htaken.of_free trivial).2, .inl (by simp)⟩
  · intro h' hm
    obtain ⟨slot, hslot, hshown, hne⟩ := hq.of_destroyed h' (by simpa using hm)
    by_cases hid : h'.id = h.id
    · obtain ⟨slot', hs', hg, hsh⟩ := hnew h' hid slot hslot
      exact ⟨slot', hs', hsh.trans hshown, by simpa [Slot.current, hg] using hne⟩
    · exact ⟨slot, by rw [hc.at?_eq, if_neg hid, hslot], hshown, hne⟩
  · intro h' hm
    obtain ⟨slot, hslot, hshown⟩ := hq.of_changed h' (by simpa using hm)
    by_cases hid : h'.id = h.id
    · obtain ⟨slot', hs', -, hsh⟩ := hnew h' hid slot hslot
      exact ⟨slot', hs', hsh.trans hshown⟩
    · exact ⟨slot, by rw [hc.at?_eq, if_neg hid, hslot], hshown⟩
  · intro c hm hid
    cases c with
    | changed h' => trivial
    | destroyed h' => trivial
    | created h' =>
        obtain ⟨-, hlt⟩ := hq.of_created_of_takes ht htake hm hid
        show h'.generation.toNat < h.generation.toNat
        rw [hgen]
        exact hlt

section Destroy

variable {s s' : Store C} {h : Handle} {slot : Slot C}

/-- Destroying drops the record that waits, or else notes that the visible one is gone. -/
theorem Destroys.changes_cases (hd : s.Destroys h slot s')
    (ht : slot.Tidy h.id (h.id ∈ s.free)) (hcur : h = slot.current h.id) (hused : h.id ∉ s.free) :
    slot.waiting = some h ∧ s'.changes.toList = s.changes.toList ∨
      slot.shown = some h ∧ s'.changes.toList = s.changes.toList ++ [.destroyed h] := by
  rw [hd.changes_eq]
  by_cases hw : slot.waiting = some h
  · exact .inl ⟨hw, by rw [if_pos hw]⟩
  · refine .inr ⟨?_, by rw [if_neg hw, Array.toList_push]⟩
    rcases ht.of_used hused with ⟨hwaiting, -⟩ | ⟨-, hshown⟩
    · exact absurd (hcur ▸ hwaiting) hw
    · exact hcur ▸ hshown

/-- What was created in a slot is behind it once the slot is released. -/
theorem Queued.of_created_of_destroys {queue : List Change} {h' : Handle} (hq : s.Queued queue)
    (ht : slot.Tidy h.id (h.id ∈ s.free)) (hreleased : (slot.release h).Tidy h.id True)
    (hslot : s.at? h.id = some slot) (hd : s.Destroys h slot s')
    (hg : slot.generation.toNat + 1 < 2 ^ 32) (hm : .created h' ∈ queue) :
    ∃ slot', s'.at? h'.id = some slot' ∧ slot'.shown ≠ some (slot'.current h'.id) ∧
      (slot'.waiting = some h' ∨ h'.generation.toNat < slot'.generation.toNat) := by
  obtain ⟨other, hother, hshown, hor⟩ := hq.of_created h' hm
  by_cases hid : h'.id = h.id
  · rw [hid, hslot] at hother
    obtain rfl := Option.some.inj hother
    have hat : s'.at? h'.id = some (slot.release h) := by rw [hd.at?_eq, if_pos hid]
    have hshown_ne := (hreleased.of_free trivial).2
    refine ⟨slot.release h, hat, hid ▸ hshown_ne, .inr ?_⟩
    rw [Slot.toNat_generation_release h hg]
    rcases hor with hw | hlt
    · rw [(ht.of_waiting hw).1, Slot.generation_current]
      omega
    · omega
  · exact ⟨other, by rw [hd.at?_eq, if_neg hid, hother], hshown, hor⟩

theorem Queued.destroy (hq : s.Queued s.changes.toList) (ht : s.Tidy)
    (hslot : s.at? h.id = some slot) (hcur : h = slot.current h.id) (hd : s.Destroys h slot s')
    (hused : h.id ∉ s.free) (hg : slot.generation.toNat + 1 < 2 ^ 32) :
    s'.Queued s'.changes.toList := by
  have htidy := ht.slot h.id slot hslot
  have hreleased := htidy.release hused hcur hg
  have hshown_ne : slot.shown ≠ some ((slot.release h).current h.id) :=
    (hreleased.of_free trivial).2
  have hat : s'.at? h.id = some (slot.release h) := by rw [hd.at?_eq, if_pos rfl]
  have hqueue := hd.changes_cases htidy hcur hused
  have hkept : ∀ c ∈ s.changes.toList, c ∈ s'.changes.toList := by
    intro c hc
    rcases hqueue with ⟨-, heq⟩ | ⟨-, heq⟩
    · exact heq ▸ hc
    · rw [heq]
      exact List.mem_append_left _ hc
  have hold : ∀ c ∈ s'.changes.toList,
      c ∈ s.changes.toList ∨ c = .destroyed h ∧ slot.shown = some h := by
    intro c hc
    rcases hqueue with ⟨-, heq⟩ | ⟨hsh, heq⟩
    · exact .inl (heq ▸ hc)
    · rw [heq] at hc
      exact (List.mem_append.mp hc).imp_right fun hc => ⟨List.mem_singleton.mp hc, hsh⟩
  refine ⟨?_, ?_, ?_, ?_, ?_, ?_⟩
  · intro id other h' hs hw
    rcases at?_cases (hd.at?_eq id) hs with ⟨rfl, hnew⟩ | ⟨-, hs⟩
    · obtain rfl := Option.some.inj hnew
      rw [(hreleased.of_free trivial).1] at hw
      cases hw
    · exact hkept _ (hq.waiting_created id other h' hs hw)
  · intro id other h' hs hshown hne
    rcases at?_cases (hd.at?_eq id) hs with ⟨rfl, hnew⟩ | ⟨-, hs⟩
    · obtain rfl := Option.some.inj hnew
      rw [Slot.shown_release] at hshown
      rcases hqueue with ⟨hw, -⟩ | ⟨hsh, heq⟩
      · have hdoomed : h' ≠ slot.current h.id := by
          rintro rfl
          exact (htidy.of_waiting hw).2.2 hshown
        exact hkept _ (hq.doomed_destroyed h.id slot h' hslot hshown hdoomed)
      · obtain rfl := Option.some.inj (hshown.symm.trans hsh)
        rw [heq]
        exact List.mem_append_right _ (List.mem_singleton_self _)
    · exact hkept _ (hq.doomed_destroyed id other h' hs hshown hne)
  · intro h' hm
    have hm := (hold _ hm).resolve_right fun hand => by cases hand.1
    exact hq.of_created_of_destroys htidy hreleased hslot hd hg hm
  · intro h' hm
    -- the record that is noted now is current before and behind its slot after
    have hvisible : ∃ other, s.at? h'.id = some other ∧ other.shown = some h' ∧
        (h'.id ≠ h.id → h' ≠ other.current h'.id) := by
      rcases hold _ hm with hm | ⟨heq, hsh⟩
      · obtain ⟨other, hother, hsh, hne⟩ := hq.of_destroyed h' hm
        exact ⟨other, hother, hsh, fun _ => hne⟩
      · obtain rfl : h' = h := by simpa using heq
        exact ⟨slot, hslot, hsh, fun hne => absurd rfl hne⟩
    obtain ⟨other, hother, hsh, hne⟩ := hvisible
    by_cases hid : h'.id = h.id
    · rw [hid, hslot] at hother
      obtain rfl := Option.some.inj hother
      refine ⟨slot.release h, by rw [hid, hat], hsh, ?_⟩
      intro heq
      rw [hid] at heq
      exact hshown_ne (heq ▸ hsh)
    · exact ⟨other, by rw [hd.at?_eq, if_neg hid, hother], hsh, hne hid⟩
  · intro h' hm
    have hm := (hold _ hm).resolve_right fun hand => by cases hand.1
    obtain ⟨other, hother, hshown⟩ := hq.of_changed h' hm
    by_cases hid : h'.id = h.id
    · rw [hid, hslot] at hother
      obtain rfl := Option.some.inj hother
      exact ⟨slot.release h, by rw [hid, hat], hshown⟩
    · exact ⟨other, by rw [hd.at?_eq, if_neg hid, hother], hshown⟩
  · rcases hqueue with ⟨-, heq⟩ | ⟨hsh, heq⟩
    · rw [heq]
      exact hq.ordered
    · rw [heq]
      refine pairwise_push hq.ordered ?_
      intro c hc hid
      obtain ⟨h', rfl⟩ := hq.eq_changed_of_current hslot hcur hsh hc hid
      trivial

end Destroy

end Store

end Realm
