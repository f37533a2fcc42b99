import Realm.Proofs.Store.History

/-!
# What a store remembers of its past

The generation of an identity counts how often it was destroyed. So a handle that was given out
names a living entity as long as it was not destroyed, and is behind its slot from then on. The
released identities are in the order of their last destruction.
-/

namespace Realm

variable {C : Type}

/-- The released identities, the one released last first, after the entities with these handles
were destroyed, the last one first, and some identities were taken again in between. -/
inductive Released : List UInt32 → List Handle → Prop
  | nil (destroyed : List Handle) : Released [] destroyed
  | kept {free : List UInt32} {destroyed : List Handle} {h : Handle}
      (before : Released free destroyed) (fresh : h.id ∉ free) :
      Released (h.id :: free) (h :: destroyed)
  | taken {free : List UInt32} {destroyed : List Handle} {h : Handle}
      (before : Released free destroyed) (gone : h.id ∉ free) : Released free (h :: destroyed)

namespace Released

variable {free : List UInt32} {destroyed : List Handle}

theorem mem (hr : Released free destroyed) {id : UInt32} (hid : id ∈ free) :
    ∃ h ∈ destroyed, h.id = id := by
  induction hr with
  | nil => cases hid
  | @kept free destroyed h before fresh ih =>
      rcases List.mem_cons.mp hid with rfl | hid
      · exact ⟨h, List.mem_cons_self, rfl⟩
      · obtain ⟨other, hother, heq⟩ := ih hid
        exact ⟨other, List.mem_cons_of_mem _ hother, heq⟩
  | taken before gone ih =>
      obtain ⟨other, hother, heq⟩ := ih hid
      exact ⟨other, List.mem_cons_of_mem _ hother, heq⟩

/-- Taking the first identity leaves the others in order. -/
theorem tail {id : UInt32} (hr : Released (id :: free) destroyed) (hn : id ∉ free) :
    Released free destroyed := by
  generalize hall : id :: free = all at hr
  induction hr with
  | nil => cases hall
  | kept before fresh ih =>
      cases hall
      exact .taken before fresh
  | taken before gone ih =>
      subst hall
      exact .taken (ih rfl) fun hmem => gone (List.mem_cons_of_mem _ hmem)

/-- The first released identity is the free one that was destroyed last. -/
theorem head?_eq (hr : Released free destroyed) :
    free.head? = (destroyed.find? fun h => h.id ∈ free).map (·.id) := by
  induction hr with
  | nil destroyed =>
      have hnone : destroyed.find? (fun h => h.id ∈ ([] : List UInt32)) = none :=
        List.find?_eq_none.mpr (by simp)
      rw [hnone]
      rfl
  | kept before fresh ih => simp
  | @taken free destroyed h before gone ih =>
      rw [List.find?_cons_of_neg (by simpa using gone)]
      exact ih

end Released

namespace History

/-- What the past of a store has to do with its slots. -/
structure Recorded (t : History C) : Prop where
  issued_nodup : t.issued.Nodup
  destroyed_nodup : t.destroyed.Nodup
  issued_of_destroyed : ∀ h ∈ t.destroyed, h ∈ t.issued
  slot_of_issued : ∀ h ∈ t.issued, ∃ slot, t.store.at? h.id = some slot ∧
    (h ∈ t.destroyed ∧ h.generation.toNat < slot.generation.toNat ∨
      h ∉ t.destroyed ∧ h = slot.current h.id ∧ h.id ∉ t.store.free)
  issued_of_used : ∀ id slot, t.store.at? id = some slot → id ∉ t.store.free →
    slot.current id ∈ t.issued
  issued_of_shown : ∀ id slot h, t.store.at? id = some slot → slot.shown = some h → h ∈ t.issued
  generation_eq : ∀ id slot, t.store.at? id = some slot →
    slot.generation.toNat = t.destroyed.countP fun h => h.id = id
  released : Released t.store.free t.destroyed

/-- Everything that holds of a store that only saw its own handles. -/
structure Sound (t : History C) : Prop where
  tidy : t.store.Tidy
  queued : t.store.Queued t.store.changes.toList
  recorded : t.Recorded

theorem Recorded.start (capacity : UInt32) : (History.start capacity : History C).Recorded where
  issued_nodup := List.nodup_nil
  destroyed_nodup := List.nodup_nil
  issued_of_destroyed := by intro h hm; cases hm
  slot_of_issued := by intro h hm; cases hm
  issued_of_used := by intro id slot hs; simp [History.start, Store.at?, Store.empty] at hs
  issued_of_shown := by intro id slot h hs; simp [History.start, Store.at?, Store.empty] at hs
  generation_eq := by intro id slot hs; simp [History.start, Store.at?, Store.empty] at hs
  released := .nil []

theorem Sound.start (capacity : UInt32) : (History.start capacity : History C).Sound :=
  ⟨.empty capacity, .empty capacity, .start capacity⟩

section Steps

variable {t : History C} {s : Store C} {h : Handle}

/-- Other records in the slots make no difference as long as no new handle is shown. -/
theorem Recorded.withStore (hr : t.Recorded) (hfree : s.free = t.store.free)
    (hat : ∀ id, (s.at? id).map (·.generation) = (t.store.at? id).map (·.generation))
    (hshown : ∀ id slot h, s.at? id = some slot → slot.shown = some h → h ∈ t.issued) :
    (t.withStore s).Recorded := by
  have hback : ∀ id slot', s.at? id = some slot' → ∃ slot, t.store.at? id = some slot ∧
      slot.generation = slot'.generation := by
    intro id slot' hs
    have := hat id
    rw [hs, Option.map_some, eq_comm, Option.map_eq_some_iff] at this
    exact this
  refine ⟨hr.issued_nodup, hr.destroyed_nodup, hr.issued_of_destroyed, ?_, ?_, hshown, ?_, ?_⟩
  · intro h hm
    obtain ⟨slot, hslot, hor⟩ := hr.slot_of_issued h hm
    have := hat h.id
    rw [hslot, Option.map_some, Option.map_eq_some_iff] at this
    obtain ⟨slot', hslot', hgen⟩ := this
    have hcur : slot'.current h.id = slot.current h.id := by simp [Slot.current, hgen]
    refine ⟨slot', hslot', ?_⟩
    rw [hgen, hcur]
    change _ ∨ h ∉ t.destroyed ∧ _ ∧ h.id ∉ s.free
    rw [hfree]
    exact hor
  · intro id slot' hs hused
    obtain ⟨slot, hslot, hgen⟩ := hback id slot' hs
    have hcur : slot'.current id = slot.current id := by simp [Slot.current, hgen]
    rw [hcur]
    exact hr.issued_of_used id slot hslot (hfree ▸ hused)
  · intro id slot' hs
    obtain ⟨slot, hslot, hgen⟩ := hback id slot' hs
    rw [← hgen]
    exact hr.generation_eq id slot hslot
  · change Released s.free t.destroyed
    rw [hfree]
    exact hr.released

theorem Sound.rewrite {f : Entity C → Entity C} {noted : Prop} (ht : t.Sound)
    (hr : t.store.Rewrites h f noted s) (hhandle : ∀ e, (f e).handle = e.handle)
    (htracked : ∀ e, e.Tracked → (f e).Tracked)
    (hnoted : noted → ∃ slot, t.store.at? h.id = some slot ∧ h = slot.current h.id ∧
      slot.shown = some h) : (t.withStore s).Sound := by
  refine ⟨ht.tidy.rewrite hr hhandle htracked, ht.queued.rewrite hr hhandle hnoted, ?_⟩
  have hback : ∀ id slot', s.at? id = some slot' → ∃ slot, t.store.at? id = some slot ∧
      slot.outline = slot'.outline := by
    intro id slot' hs
    have hmap := hr.map_outline hhandle id
    rw [hs, Option.map_some, eq_comm, Option.map_eq_some_iff] at hmap
    exact hmap
  refine ht.recorded.withStore hr.free_eq ?_ ?_
  · intro id
    have hmap := congrArg (Option.map Prod.fst) (hr.map_outline hhandle id)
    rw [Option.map_map, Option.map_map] at hmap
    exact hmap
  · intro id slot' h' hs hshown
    obtain ⟨slot, hslot, hout⟩ := hback id slot' hs
    have hsame : slot'.shown = slot.shown := (Slot.outline_eq_iff.mp hout.symm).2.1
    exact ht.recorded.issued_of_shown id slot h' hslot (hsame ▸ hshown)

theorem Sound.apply (ht : t.Sound) : t.apply.Sound := by
  have hsettles := Store.apply_settles ht.tidy ht.queued
  refine ⟨hsettles.tidy, Store.queued_apply ht.tidy ht.queued, ?_⟩
  refine ht.recorded.withStore hsettles.free_eq ?_ ?_
  · intro id
    rw [Store.at?_apply ht.tidy ht.queued, Option.map_map]
    rfl
  · intro id slot' h hs hshown
    rw [Store.at?_apply ht.tidy ht.queued] at hs
    obtain ⟨slot, hslot, rfl⟩ := Option.map_eq_some_iff.mp hs
    obtain ⟨e, hvisible, rfl⟩ := Option.map_eq_some_iff.mp hshown
    rcases Option.or_eq_some_iff.mp hvisible with hpending | ⟨-, hold⟩
    · have hw : slot.waiting = some e.handle := Slot.waiting_of_pending hpending
      obtain ⟨hcur, hused, -⟩ := (ht.tidy.slot id slot hslot).of_waiting hw
      rw [hcur]
      exact ht.recorded.issued_of_used id slot hslot hused
    · have hv : slot.visible = some e := (Option.filter_eq_some_iff.mp hold).1
      exact ht.recorded.issued_of_shown id slot e.handle hslot (Slot.shown_of_visible hv)

/-- A handle that was given out and is current was never destroyed, and its identity is used. -/
theorem Recorded.used_of_current (hr : t.Recorded) {slot : Slot C} (hm : h ∈ t.issued)
    (hslot : t.store.at? h.id = some slot) (hcur : h = slot.current h.id) :
    h ∉ t.destroyed ∧ h.id ∉ t.store.free := by
  obtain ⟨other, hother, hor⟩ := hr.slot_of_issued h hm
  rw [hslot] at hother
  obtain rfl := Option.some.inj hother
  rcases hor with ⟨-, hlt⟩ | ⟨hliving, -, hused⟩
  · have hgen : h.generation = slot.generation := (Slot.eq_current_iff.mp hcur).2
    rw [hgen] at hlt
    omega
  · exact ⟨hliving, hused⟩

theorem Recorded.isAlive_iff (hr : t.Recorded) (hm : h ∈ t.issued) :
    t.store.isAlive h = true ↔ h ∉ t.destroyed := by
  rw [Store.isAlive_iff]
  constructor
  · rintro ⟨slot, hslot, hcur⟩
    exact (hr.used_of_current hm hslot hcur).1
  · intro hliving
    obtain ⟨slot, hslot, hor⟩ := hr.slot_of_issued h hm
    rcases hor with ⟨hdead, -⟩ | ⟨-, hcur, -⟩
    · exact absurd hdead hliving
    · exact ⟨slot, hslot, hcur⟩

theorem Recorded.isAlive_of_destroyed (hr : t.Recorded) (hd : h ∈ t.destroyed) :
    t.store.isAlive h = false := by
  have hiff := hr.isAlive_iff (hr.issued_of_destroyed h hd)
  rw [← Bool.not_eq_true, hiff, not_not]
  exact hd

/-- An identity that is taken has a slot only if it is free. -/
theorem free_of_takes {taken : UInt32} {slot : Slot C} (htake : t.store.Takes taken s)
    (hslot : t.store.at? taken = some slot) : taken ∈ t.store.free := by
  cases htake with
  | reused hfree _ =>
      rw [hfree]
      exact List.mem_cons_self
  | grown _ _ hid _ _ =>
      have hlt := Store.lt_size_of_at? hslot
      omega

/-- The handle of a new entity was never given out before. -/
theorem Recorded.not_issued_of_creates [Component C] {cs : List C} (hr : t.Recorded)
    (hc : t.store.Creates cs h s) (htake : t.store.Takes h.id s) : h ∉ t.issued := by
  intro hm
  obtain ⟨slot, hslot, -⟩ := hr.slot_of_issued h hm
  have hcur : h = slot.current h.id := by
    refine Slot.eq_current_iff.mpr ⟨rfl, ?_⟩
    rw [hc.generation_eq, Store.slotOrFresh_of_at? hslot]
  exact (hr.used_of_current hm hslot hcur).2 (free_of_takes htake hslot)

/-- No entity of an identity without a slot was ever destroyed. -/
theorem Recorded.countP_eq_zero (hr : t.Recorded) {id : UInt32} (hnone : t.store.at? id = none) :
    (t.destroyed.countP fun h => h.id = id) = 0 := by
  refine List.countP_eq_zero.mpr ?_
  intro h hm hid
  obtain ⟨slot, hslot, -⟩ := hr.slot_of_issued h (hr.issued_of_destroyed h hm)
  rw [of_decide_eq_true hid, hnone] at hslot
  cases hslot

theorem Recorded.create [Component C] {cs : List C} (hr : t.Recorded) (ht : t.store.Tidy)
    (hc : t.store.Creates cs h s) (htake : t.store.Takes h.id s) :
    (⟨s, h :: t.issued, t.destroyed⟩ : History C).Recorded := by
  have hnew := hr.not_issued_of_creates hc htake
  have hfree : ∀ id, id ∈ s.free ↔ id ∈ t.store.free ∧ id ≠ h.id := fun id =>
    htake.mem_free_iff ht.free_nodup
  have hat : s.at? h.id = some ((t.store.slotOrFresh h.id).await (.ofComponents h cs)) := by
    rw [hc.at?_eq, if_pos rfl]
  refine ⟨List.nodup_cons.mpr ⟨hnew, hr.issued_nodup⟩, hr.destroyed_nodup, ?_, ?_, ?_, ?_, ?_, ?_⟩
  · intro h' hm
    exact List.mem_cons_of_mem _ (hr.issued_of_destroyed h' hm)
  · intro h' hm
    rcases List.mem_cons.mp hm with rfl | hm
    · refine ⟨_, hat, .inr ⟨fun hd => hnew (hr.issued_of_destroyed _ hd), ?_, ?_⟩⟩
      · exact Slot.eq_current_iff.mpr ⟨rfl, hc.generation_eq⟩
      · intro hmem
        exact ((hfree _).mp hmem).2 rfl
    · obtain ⟨slot, hslot, hor⟩ := hr.slot_of_issued h' hm
      by_cases hid : h'.id = h.id
      · rw [hid] at hslot
        refine ⟨_, by rw [hid, hat], .inl ?_⟩
        rw [Slot.generation_await, Store.slotOrFresh_of_at? hslot]
        rcases hor with hdead | ⟨-, -, hused⟩
        · exact hdead
        · exact absurd (free_of_takes htake hslot) (hid ▸ hused)
      · refine ⟨slot, by rw [hc.at?_eq, if_neg hid, hslot], hor.imp_right ?_⟩
        rintro ⟨hliving, hcur, hused⟩
        exact ⟨hliving, hcur, fun hmem => hused ((hfree _).mp hmem).1⟩
  · intro id slot hs hused
    rcases Store.at?_cases (hc.at?_eq id) hs with ⟨rfl, hslot⟩ | ⟨hid, hs⟩
    · obtain rfl := Option.some.inj hslot
      have hcur : (t.store.slotOrFresh h.id).current h.id = h :=
        (Slot.eq_current_iff.mpr ⟨rfl, hc.generation_eq⟩).symm
      exact List.mem_cons.mpr (.inl hcur)
    · refine List.mem_cons_of_mem _ (hr.issued_of_used id slot hs ?_)
      exact fun hmem => hused ((hfree id).mpr ⟨hmem, hid⟩)
  · intro id slot h' hs hshown
    rcases Store.at?_cases (hc.at?_eq id) hs with ⟨rfl, hslot⟩ | ⟨-, hs⟩
    · obtain rfl := Option.some.inj hslot
      cases hold : t.store.at? h.id with
      | none => simp [Store.slotOrFresh, hold, Slot.fresh, Slot.shown, Slot.await] at hshown
      | some old =>
          rw [Store.slotOrFresh_of_at? hold] at hshown
          exact List.mem_cons_of_mem _ (hr.issued_of_shown h.id old h' hold hshown)
    · exact List.mem_cons_of_mem _ (hr.issued_of_shown id slot h' hs hshown)
  · intro id slot hs
    rcases Store.at?_cases (hc.at?_eq id) hs with ⟨rfl, hslot⟩ | ⟨-, hs⟩
    · obtain rfl := Option.some.inj hslot
      cases hold : t.store.at? h.id with
      | none =>
          rw [hr.countP_eq_zero hold, Slot.generation_await, Store.slotOrFresh, hold]
          rfl
      | some old =>
          rw [Slot.generation_await, Store.slotOrFresh_of_at? hold]
          exact hr.generation_eq h.id old hold
    · exact hr.generation_eq id slot hs
  · cases htake with
    | reused hold _ =>
        have hall := hr.released
        have hnodup := ht.free_nodup
        rw [hold] at hall hnodup
        exact hall.tail (List.nodup_cons.mp hnodup).1
    | grown _ hnone _ _ _ =>
        change Released s.free t.destroyed
        rw [hnone]
        exact .nil _

theorem Sound.create [Component C] {cs : List C} (ht : t.Sound) (hc : t.store.Creates cs h s)
    (htake : t.store.Takes h.id s) : (⟨s, h :: t.issued, t.destroyed⟩ : History C).Sound :=
  ⟨ht.tidy.create hc htake, ht.queued.create ht.tidy hc htake, ht.recorded.create ht.tidy hc htake⟩

theorem Recorded.destroy {slot : Slot C} (hr : t.Recorded) (hm : h ∈ t.issued)
    (hslot : t.store.at? h.id = some slot) (hcur : h = slot.current h.id)
    (hd : t.store.Destroys h slot s) (hg : slot.generation.toNat + 1 < 2 ^ 32) :
    (⟨s, t.issued, h :: t.destroyed⟩ : History C).Recorded := by
  obtain ⟨hliving, hused⟩ := hr.used_of_current hm hslot hcur
  have hcount := hr.generation_eq h.id slot hslot
  have hnext := Slot.toNat_generation_release h hg
  have hat : s.at? h.id = some (slot.release h) := by rw [hd.at?_eq, if_pos rfl]
  refine ⟨hr.issued_nodup, List.nodup_cons.mpr ⟨hliving, hr.destroyed_nodup⟩, ?_, ?_, ?_, ?_, ?_,
    ?_⟩
  · intro h' hm'
    rcases List.mem_cons.mp hm' with rfl | hm'
    · exact hm
    · exact hr.issued_of_destroyed h' hm'
  · intro h' hm'
    by_cases hid : h'.id = h.id
    · refine ⟨slot.release h, by rw [hid, hat], .inl ?_⟩
      obtain ⟨other, hother, hor⟩ := hr.slot_of_issued h' hm'
      rw [hid, hslot] at hother
      obtain rfl := Option.some.inj hother
      rw [hnext]
      rcases hor with ⟨hdead, hlt⟩ | ⟨-, hcur', -⟩
      · exact ⟨List.mem_cons_of_mem _ hdead, by omega⟩
      · have heq : h' = h := by rw [hcur', hid, ← hcur]
        rw [heq, (Slot.eq_current_iff.mp hcur).2]
        exact ⟨List.mem_cons_self, Nat.lt_succ_self _⟩
    · obtain ⟨other, hother, hor⟩ := hr.slot_of_issued h' hm'
      refine ⟨other, by rw [hd.at?_eq, if_neg hid, hother], ?_⟩
      have hne : h' ≠ h := fun heq => hid (heq ▸ rfl)
      have hmem : h'.id ∈ s.free ↔ h'.id ∈ t.store.free := by
        rw [hd.free_eq, List.mem_cons]
        exact or_iff_right hid
      change h' ∈ h :: t.destroyed ∧ _ ∨ h' ∉ h :: t.destroyed ∧ _ ∧ h'.id ∉ s.free
      rw [List.mem_cons, or_iff_right hne, hmem]
      exact hor
  · intro id other hs hfree
    have hfree : id ∉ s.free := hfree
    rw [hd.free_eq, List.mem_cons, not_or] at hfree
    rcases Store.at?_cases (hd.at?_eq id) hs with ⟨rfl, -⟩ | ⟨-, hs⟩
    · exact absurd rfl hfree.1
    · exact hr.issued_of_used id other hs hfree.2
  · intro id other h' hs hshown
    rcases Store.at?_cases (hd.at?_eq id) hs with ⟨rfl, hnew⟩ | ⟨-, hs⟩
    · obtain rfl := Option.some.inj hnew
      exact hr.issued_of_shown h.id slot h' hslot hshown
    · exact hr.issued_of_shown id other h' hs hshown
  · intro id other hs
    rcases Store.at?_cases (hd.at?_eq id) hs with ⟨rfl, hnew⟩ | ⟨hid, hs⟩
    · obtain rfl := Option.some.inj hnew
      rw [hnext, hcount]
      simp
    · rw [hr.generation_eq id other hs]
      simp [Ne.symm hid]
  · change Released s.free (h :: t.destroyed)
    rw [hd.free_eq]
    exact .kept hr.released hused

theorem Sound.destroy {slot : Slot C} (ht : t.Sound) (hm : h ∈ t.issued)
    (hslot : t.store.at? h.id = some slot) (hcur : h = slot.current h.id)
    (hd : t.store.Destroys h slot s)
    (hw : (⟨s, t.issued, h :: t.destroyed⟩ : History C).Unworn) :
    (⟨s, t.issued, h :: t.destroyed⟩ : History C).Sound := by
  have hused := (ht.recorded.used_of_current hm hslot hcur).2
  have hg : slot.generation.toNat + 1 < 2 ^ 32 := by
    have hcount := hw h.id
    simpa [ht.recorded.generation_eq h.id slot hslot] using hcount
  exact ⟨ht.tidy.destroy hslot hcur hd hused hg, ht.queued.destroy ht.tidy hslot hcur hd hused hg,
    ht.recorded.destroy hm hslot hcur hd hg⟩

end Steps

/-! ## Along a run -/

theorem unworn_of_length_lt {t : History C} (h : t.destroyed.length < 2 ^ 32) : t.Unworn :=
  fun _ => Nat.lt_of_le_of_lt List.countP_le_length h

theorem Unworn.of_suffix {t u : History C} (hw : u.Unworn) (hs : t.destroyed <:+ u.destroyed) :
    t.Unworn := by
  intro id
  have hle := hs.sublist.countP_le (p := fun h => h.id = id)
  exact Nat.lt_of_le_of_lt hle (hw id)

section Runs

variable [Component C] {t u v : History C}

theorem suffix_destroyed_edit (t : History C) (e : Edit C) :
    t.destroyed <:+ (t.edit e).destroyed := by
  cases e with
  | create cs =>
      simp only [edit]
      split <;> exact List.suffix_refl _
  | destroy h =>
      simp only [edit]
      split
      · exact List.suffix_cons h t.destroyed
      · exact List.suffix_refl _
  | add h c =>
      simp only [edit]
      split <;> exact List.suffix_refl _
  | remove h k =>
      simp only [edit]
      split <;> exact List.suffix_refl _
  | modify h k f => exact List.suffix_refl _

/-- What was destroyed stays so. -/
theorem Reaches.suffix_destroyed (hr : t.Reaches u) : t.destroyed <:+ u.destroyed := by
  induction hr with
  | refl => exact List.suffix_refl _
  | edit before e admits ih => exact ih.trans (suffix_destroyed_edit _ e)
  | apply before ih => exact ih

theorem Moves.capacity_eq (hm : t.Moves u) :
    u.store.capacity = t.store.capacity := by
  cases hm with
  | refused => rfl
  | created creates _ => exact creates.capacity_eq
  | destroyed _ _ _ destroys => exact destroys.capacity_eq
  | rewritten rewrites _ _ _ _ => exact rewrites.capacity_eq

theorem Moves.sound (hm : t.Moves u) (ht : t.Sound) (hw : u.Unworn) : u.Sound := by
  cases hm with
  | refused => exact ht
  | created creates takes => exact ht.create creates takes
  | destroyed genuine found current destroys =>
      exact ht.destroy genuine found current destroys hw
  | rewritten rewrites handle tracked current _ =>
      exact ht.rewrite rewrites handle tracked current

theorem Reaches.sound (hr : t.Reaches u) (ht : t.Sound) (hw : u.Unworn) : u.Sound := by
  induction hr with
  | refl => exact ht
  | edit before e admits ih =>
      have hsound := ih (hw.of_suffix (suffix_destroyed_edit _ e))
      exact (moves hsound.tidy admits).sound hsound hw
  | apply before ih => exact (ih hw).apply

theorem Reaches.trans (hr : t.Reaches u) (hs : u.Reaches v) : t.Reaches v := by
  induction hs with
  | refl => exact hr
  | edit before e admits ih => exact ih.edit e admits
  | apply before ih => exact ih.apply

theorem Edits.reaches (he : t.Edits u) : t.Reaches u := by
  induction he with
  | refl => exact .refl
  | edit before e admits ih => exact ih.edit e admits

end Runs

end History

end Realm
