import Realm.Proofs.Store.Effect

/-!
# Slots in order

A slot of a store that only ever saw its own handles is in one of three conditions: its identity is
free, or it is used by an entity that waits, or by one that is visible. In the first two a record
of an earlier generation may still be visible beside it. Every operation keeps the slots in one of
these conditions as long as no generation starts over from zero.
-/

namespace Realm

variable {C : Type}

/-- The condition of a slot whose identity is `id`, given whether the identity is free. -/
structure Slot.Tidy (slot : Slot C) (id : UInt32) (free : Prop) : Prop where
  shown_le : ∀ h, slot.shown = some h → h.id = id ∧ h.generation.toNat ≤ slot.generation.toNat
  of_free : free → slot.waiting = none ∧ slot.shown ≠ some (slot.current id)
  of_used : ¬ free →
    slot.waiting = some (slot.current id) ∧ slot.shown ≠ some (slot.current id) ∨
      slot.waiting = none ∧ slot.shown = some (slot.current id)

namespace Slot.Tidy

variable {slot : Slot C} {id : UInt32} {free : Prop} {h : Handle}

theorem of_waiting (ht : slot.Tidy id free) (hw : slot.waiting = some h) :
    h = slot.current id ∧ ¬ free ∧ slot.shown ≠ some (slot.current id) := by
  have hused : ¬ free := fun hf => by simp [(ht.of_free hf).1] at hw
  rcases ht.of_used hused with ⟨hcur, hshown⟩ | ⟨hnone, -⟩
  · exact ⟨Option.some.inj (hw.symm.trans hcur), hused, hshown⟩
  · simp [hnone] at hw

theorem of_shown_current (ht : slot.Tidy id free) (hs : slot.shown = some (slot.current id)) :
    ¬ free ∧ slot.waiting = none := by
  have hused : ¬ free := fun hf => (ht.of_free hf).2 hs
  rcases ht.of_used hused with ⟨-, hshown⟩ | ⟨hnone, -⟩
  · exact absurd hs hshown
  · exact ⟨hused, hnone⟩

/-- A condition depends only on the generation and the handles. -/
theorem congr {other : Slot C} (ht : slot.Tidy id free) (hg : other.generation = slot.generation)
    (hs : other.shown = slot.shown) (hw : other.waiting = slot.waiting) : other.Tidy id free := by
  have hcur : other.current id = slot.current id := by simp [current, hg]
  constructor
  · rw [hs, hg]; exact ht.shown_le
  · rw [hs, hw, hcur]; exact ht.of_free
  · rw [hs, hw, hcur]; exact ht.of_used

theorem fresh (id : UInt32) : (Slot.fresh : Slot C).Tidy id True where
  shown_le := by intro h hs; cases hs
  of_free := fun _ => ⟨rfl, by intro hs; cases hs⟩
  of_used := fun hnot => absurd trivial hnot

theorem release (ht : slot.Tidy id free) (hused : ¬ free) (hcur : h = slot.current id)
    (hg : slot.generation.toNat + 1 < 2 ^ 32) : (slot.release h).Tidy id True := by
  have hnext := toNat_generation_release h hg
  constructor
  · intro other hs
    rw [shown_release] at hs
    obtain ⟨hid, hle⟩ := ht.shown_le other hs
    exact ⟨hid, by rw [hnext]; omega⟩
  · intro _
    rw [waiting_release, shown_release]
    refine ⟨?_, ?_⟩
    · rcases ht.of_used hused with ⟨hw, -⟩ | ⟨hw, -⟩
      · simp [hw, hcur]
      · simp [hw]
    · intro hs
      obtain ⟨-, hle⟩ := ht.shown_le _ hs
      rw [generation_current, hnext] at hle
      omega
  · intro hnot
    exact absurd trivial hnot

end Slot.Tidy

namespace Store

/-- Every slot is in order, no identity is free twice, and every mask lists the kinds of its
record. -/
structure Tidy (s : Store C) : Prop extends s.Bounded where
  free_nodup : s.free.Nodup
  slot : ∀ id slot, s.at? id = some slot → slot.Tidy id (id ∈ s.free)
  tracked : ∀ id slot e, s.at? id = some slot →
    slot.visible = some e ∨ slot.pending = some e → e.Tracked

theorem Tidy.empty (capacity : UInt32) : (Store.empty capacity : Store C).Tidy where
  size_le := Nat.zero_le _
  free_lt := by intro id hid; cases hid
  free_nodup := List.nodup_nil
  slot := by intro id slot hs; simp [at?, Store.empty] at hs
  tracked := by intro id slot e hs; simp [at?, Store.empty] at hs

section Create

variable {s s' : Store C} {cs : List C} {h : Handle}

theorem Takes.mem_free_iff {taken id : UInt32} (hn : s.free.Nodup) (ht : s.Takes taken s') :
    id ∈ s'.free ↔ id ∈ s.free ∧ id ≠ taken := by
  cases ht with
  | reused hfree hsize =>
      rw [hfree] at hn ⊢
      have hnot := (List.nodup_cons.mp hn).1
      constructor
      · intro hid
        exact ⟨List.mem_cons_of_mem _ hid, fun heq => hnot (heq ▸ hid)⟩
      · rintro ⟨hid, hne⟩
        exact (List.mem_cons.mp hid).resolve_left hne
  | grown hfree hfree' hid hlt hsize => simp [hfree, hfree']

/-- The slot that is taken holds at most a record of an earlier generation. -/
theorem Tidy.slotOrFresh_of_takes (ht : s.Tidy) {taken : UInt32} (htake : s.Takes taken s') :
    (s.slotOrFresh taken).Tidy taken True := by
  cases htake with
  | reused hfree hsize =>
      have hmem : taken ∈ s.free := by rw [hfree]; exact List.mem_cons_self
      obtain ⟨slot, hslot⟩ := at?_of_lt_size (ht.free_lt taken hmem)
      have htidy := ht.slot taken slot hslot
      rw [slotOrFresh_of_at? hslot]
      exact ⟨htidy.shown_le, fun _ => htidy.of_free hmem, fun hnot => absurd trivial hnot⟩
  | grown hfree hfree' hid hlt hsize =>
      have hnone : s.at? taken = none := by simp [at?, hid]
      have hfresh : s.slotOrFresh taken = .fresh := by simp [slotOrFresh, hnone]
      rw [hfresh]
      exact Slot.Tidy.fresh taken

theorem Tidy.create [Component C] (ht : s.Tidy) (hc : s.Creates cs h s') (htake : s.Takes h.id s') :
    s'.Tidy := by
  have hfree : ∀ id, id ∈ s'.free ↔ id ∈ s.free ∧ id ≠ h.id := fun id =>
    htake.mem_free_iff ht.free_nodup
  have htaken := ht.slotOrFresh_of_takes htake
  have hcur : h = (s.slotOrFresh h.id).current h.id :=
    Slot.eq_current_iff.mpr ⟨rfl, hc.generation_eq⟩
  refine ⟨⟨?_, ?_⟩, ?_, ?_, ?_⟩
  · rw [hc.capacity_eq]
    cases htake with
    | reused _ hsize => rw [hsize]; exact ht.size_le
    | grown _ _ _ hlt hsize => omega
  · intro id hid
    have hlt := ht.free_lt id ((hfree id).mp hid).1
    cases htake with
    | reused _ hsize => omega
    | grown _ _ _ _ hsize => omega
  · cases htake with
    | reused hold _ =>
        have := ht.free_nodup
        rw [hold] at this
        exact (List.nodup_cons.mp this).2
    | grown _ hnew _ _ _ => rw [hnew]; exact List.nodup_nil
  · intro id slot hs
    rcases at?_cases (hc.at?_eq id) hs with ⟨rfl, hnew⟩ | ⟨hid, hs⟩
    · obtain rfl := Option.some.inj hnew
      refine ⟨htaken.shown_le, ?_, ?_⟩
      · intro hmem
        exact absurd rfl ((hfree h.id).mp hmem).2
      · intro _
        left
        refine ⟨?_, (htaken.of_free trivial).2⟩
        rw [Slot.waiting_await, Entity.handle_ofComponents]
        exact congrArg some hcur
    · have hslot := ht.slot id slot hs
      have hiff : id ∈ s'.free ↔ id ∈ s.free := by simp [hfree id, hid]
      exact ⟨hslot.shown_le, fun hf => hslot.of_free (hiff.mp hf),
        fun hf => hslot.of_used (fun hmem => hf (hiff.mpr hmem))⟩
  · intro id slot e hs he
    rcases at?_cases (hc.at?_eq id) hs with ⟨rfl, hnew⟩ | ⟨hid, hs⟩
    · obtain rfl := Option.some.inj hnew
      rcases he with hvisible | hpending
      · cases hslot : s.at? h.id with
        | none => simp [slotOrFresh, hslot, Slot.fresh, Slot.await] at hvisible
        | some old =>
            rw [Slot.await, slotOrFresh_of_at? hslot] at hvisible
            exact ht.tracked h.id old e hslot (.inl hvisible)
      · obtain rfl := Option.some.inj hpending
        exact Entity.Tracked.ofComponents h cs
    · exact ht.tracked id slot e hs he

end Create

theorem Tidy.destroy {s s' : Store C} {h : Handle} {slot : Slot C} (ht : s.Tidy)
    (hslot : s.at? h.id = some slot) (hcur : h = slot.current h.id) (hd : s.Destroys h slot s')
    (hused : h.id ∉ s.free) (hg : slot.generation.toNat + 1 < 2 ^ 32) : s'.Tidy := by
  refine ⟨⟨?_, ?_⟩, ?_, ?_, ?_⟩
  · rw [hd.capacity_eq, hd.size_eq]
    exact ht.size_le
  · intro id hid
    rw [hd.size_eq]
    rw [hd.free_eq] at hid
    rcases List.mem_cons.mp hid with rfl | hid
    · exact lt_size_of_at? hslot
    · exact ht.free_lt id hid
  · rw [hd.free_eq]
    exact List.nodup_cons.mpr ⟨hused, ht.free_nodup⟩
  · intro id other hs
    rw [hd.free_eq]
    rcases at?_cases (hd.at?_eq id) hs with ⟨rfl, hnew⟩ | ⟨hid, hs⟩
    · obtain rfl := Option.some.inj hnew
      have htidy := (ht.slot h.id slot hslot).release hused hcur hg
      exact ⟨htidy.shown_le, fun _ => htidy.of_free trivial,
        fun hnot => absurd List.mem_cons_self hnot⟩
    · have htidy := ht.slot id other hs
      have hiff : id ∈ h.id :: s.free ↔ id ∈ s.free := by simp [hid]
      exact ⟨htidy.shown_le, fun hf => htidy.of_free (hiff.mp hf),
        fun hf => htidy.of_used (fun hmem => hf (hiff.mpr hmem))⟩
  · intro id other e hs he
    rcases at?_cases (hd.at?_eq id) hs with ⟨rfl, hnew⟩ | ⟨hid, hs⟩
    · obtain rfl := Option.some.inj hnew
      refine ht.tracked h.id slot e hslot (he.imp_right ?_)
      intro hpending
      by_cases hw : slot.waiting = some h
      · simp [Slot.release, hw] at hpending
      · simpa [Slot.release, hw] using hpending
    · exact ht.tracked id other e hs he

/-- The records after a rewrite are old ones or the rewritten one. -/
theorem tracked_modify {slot : Slot C} {h : Handle} {f : Entity C → Entity C}
    (hf : ∀ e, e.Tracked → (f e).Tracked)
    (ht : ∀ e, slot.visible = some e ∨ slot.pending = some e → e.Tracked) (e : Entity C)
    (he : (slot.modify h f).visible = some e ∨ (slot.modify h f).pending = some e) :
    e.Tracked := by
  rw [Slot.modify_eq] at he
  split at he
  · rcases he with he | he
    · obtain ⟨old, hold, rfl⟩ := Option.map_eq_some_iff.mp he
      exact hf old (ht old (.inl hold))
    · exact ht e (.inr he)
  · split at he
    · rcases he with he | he
      · exact ht e (.inl he)
      · obtain ⟨old, hold, rfl⟩ := Option.map_eq_some_iff.mp he
        exact hf old (ht old (.inr hold))
    · exact ht e he

theorem Tidy.rewrite {s s' : Store C} {h : Handle} {f : Entity C → Entity C} {noted : Prop}
    (ht : s.Tidy) (hr : s.Rewrites h f noted s') (hhandle : ∀ e, (f e).handle = e.handle)
    (htracked : ∀ e, e.Tracked → (f e).Tracked) : s'.Tidy := by
  refine ⟨⟨?_, ?_⟩, ?_, ?_, ?_⟩
  · rw [hr.capacity_eq, hr.size_eq]
    exact ht.size_le
  · rw [hr.free_eq, hr.size_eq]
    exact ht.free_lt
  · rw [hr.free_eq]
    exact ht.free_nodup
  · intro id slot hs
    rw [hr.free_eq]
    rcases at?_cases (hr.at?_eq id) hs with ⟨-, hnew⟩ | ⟨-, hs⟩
    · obtain ⟨old, hold, rfl⟩ := Option.map_eq_some_iff.mp hnew
      exact (ht.slot id old hold).congr (Slot.generation_modify old h f)
        (Slot.shown_modify hhandle old h) (Slot.waiting_modify hhandle old h)
    · exact ht.slot id slot hs
  · intro id slot e hs he
    rcases at?_cases (hr.at?_eq id) hs with ⟨-, hnew⟩ | ⟨-, hs⟩
    · obtain ⟨old, hold, rfl⟩ := Option.map_eq_some_iff.mp hnew
      exact tracked_modify htracked (fun e => ht.tracked id old e hold) e he
    · exact ht.tracked id slot e hs he

end Store

end Realm
