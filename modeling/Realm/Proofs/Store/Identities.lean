import Realm.Proofs.Store.Ledger
import Realm.World.Script

/-!
# Identities are never shared, lost or resurrected

Main statement: in a store that only saw its own handles, each identity is either free or held by
one living entity, which has one record. A destroyed handle is refused from then on, and creating
fails only when the living entities are as many as the capacity.
-/

namespace Realm

variable {C : Type}

namespace Store

/-- The handles of all records, visible ones and waiting ones. -/
def recorded (s : Store C) : List Handle :=
  s.slots.toList.flatMap fun slot => slot.shown.toList ++ slot.waiting.toList

end Store

namespace History

variable {t : History C} {h : Handle}

/-! ## Living entities -/

/-- The identity of a living entity is not free. -/
theorem Recorded.not_free_of_isAlive (hr : t.Recorded) (hm : h ∈ t.issued)
    (ha : t.store.isAlive h = true) : h.id ∉ t.store.free := by
  obtain ⟨slot, hslot, hcur⟩ := Store.isAlive_iff.mp ha
  exact (hr.used_of_current hm hslot hcur).2

/-- Living entities with one identity have one handle. -/
theorem eq_of_isAlive {s : Store C} {h h' : Handle} (ha : s.isAlive h = true)
    (ha' : s.isAlive h' = true) (hid : h.id = h'.id) : h = h' := by
  obtain ⟨slot, hslot, hcur⟩ := Store.isAlive_iff.mp ha
  obtain ⟨other, hother, hcur'⟩ := Store.isAlive_iff.mp ha'
  rw [hid, hother] at hslot
  obtain rfl := Option.some.inj hslot
  rw [hcur, hcur', hid]

/-- An identity that is not free is held by a living entity. -/
theorem Sound.exists_living (ht : t.Sound) {id : UInt32} (hid : id.toNat < t.store.slots.size)
    (hused : id ∉ t.store.free) : ∃ h ∈ t.issued, h.id = id ∧ t.store.isAlive h = true := by
  obtain ⟨slot, hslot⟩ := Store.at?_of_lt_size hid
  exact ⟨slot.current id, ht.recorded.issued_of_used id slot hslot hused, rfl,
    Store.isAlive_iff.mpr ⟨slot, hslot, rfl⟩⟩

/-- The identities are exactly those of the handles that were given out. -/
theorem Sound.lt_size_iff (ht : t.Sound) (id : UInt32) :
    id.toNat < t.store.slots.size ↔ ∃ h ∈ t.issued, h.id = id := by
  constructor
  · intro hid
    by_cases hfree : id ∈ t.store.free
    · obtain ⟨h, hd, heq⟩ := ht.recorded.released.mem hfree
      exact ⟨h, ht.recorded.issued_of_destroyed h hd, heq⟩
    · obtain ⟨h, hm, heq, -⟩ := ht.exists_living hid hfree
      exact ⟨h, hm, heq⟩
  · rintro ⟨h, hm, rfl⟩
    obtain ⟨slot, hslot, -⟩ := ht.recorded.slot_of_issued h hm
    exact Store.lt_size_of_at? hslot

/-- The identities of the living entities and the free ones are all identities, each once. -/
theorem Sound.perm_range (ht : t.Sound) :
    ((t.issued.filter t.store.isAlive).map (fun h => h.id.toNat) ++
      t.store.free.map UInt32.toNat).Perm (List.range t.store.slots.size) := by
  have hliving : ∀ h, h ∈ t.issued.filter t.store.isAlive ↔
      h ∈ t.issued ∧ t.store.isAlive h = true := fun h => List.mem_filter
  refine (List.perm_ext_iff_of_nodup ?_ List.nodup_range).mpr ?_
  · refine List.nodup_append.mpr ⟨?_, ?_, ?_⟩
    · refine List.Nodup.map_on ?_ (ht.recorded.issued_nodup.filter _)
      intro h hm h' hm' heq
      exact eq_of_isAlive ((hliving h).mp hm).2 ((hliving h').mp hm').2 (UInt32.toNat_inj.mp heq)
    · exact ht.tidy.free_nodup.map (fun _ _ heq => UInt32.toNat_inj.mp heq)
    · intro a ha b hb heq
      obtain ⟨h, hm, rfl⟩ := List.mem_map.mp ha
      obtain ⟨id, hid, rfl⟩ := List.mem_map.mp hb
      obtain ⟨hm, halive⟩ := (hliving h).mp hm
      have : h.id = id := UInt32.toNat_inj.mp heq
      exact ht.recorded.not_free_of_isAlive hm halive (this ▸ hid)
  · intro n
    rw [List.mem_append, List.mem_range, List.mem_map, List.mem_map]
    constructor
    · rintro (⟨h, hm, rfl⟩ | ⟨id, hid, rfl⟩)
      · exact (ht.lt_size_iff h.id).mpr ⟨h, ((hliving h).mp hm).1, rfl⟩
      · exact ht.tidy.free_lt id hid
    · intro hn
      have hto := ht.tidy.toNat_ofNat (Nat.le_of_lt hn)
      by_cases hfree : UInt32.ofNat n ∈ t.store.free
      · exact .inr ⟨_, hfree, hto⟩
      · obtain ⟨h, hm, hid, halive⟩ := ht.exists_living (by omega) hfree
        exact .inl ⟨h, (hliving h).mpr ⟨hm, halive⟩, by rw [hid, hto]⟩

/-- The identities that are reserved are those of the living entities. -/
theorem Sound.countP_isAlive (ht : t.Sound) :
    t.issued.countP t.store.isAlive + t.store.free.length = t.store.slots.size := by
  have hlength := ht.perm_range.length_eq
  rw [List.length_append, List.length_map, List.length_map, List.length_range] at hlength
  rw [List.countP_eq_length_filter]
  exact hlength

theorem Sound.reserved_eq (ht : t.Sound) :
    t.store.reserved = .ok (t.issued.countP t.store.isAlive) := by
  have hcount := ht.countP_isAlive
  have hle : t.store.free.length ≤ t.store.slots.size := by omega
  rw [Store.reserved, if_pos hle]
  congr 1
  omega

/-! ## One record for each living entity -/

theorem count_flatMap_of_only {α β : Type} [DecidableEq β] {l : List α} {f : α → List β} {b : β}
    {i : Nat} (hi : i < l.length) (honly : ∀ j (hj : j < l.length), j ≠ i → b ∉ f l[j]) :
    (l.flatMap f).count b = (f l[i]).count b := by
  induction l generalizing i with
  | nil => cases hi
  | cons a l ih =>
      rw [List.flatMap_cons, List.count_append]
      cases i with
      | zero =>
          have hrest : b ∉ l.flatMap f := by
            intro hmem
            obtain ⟨x, hx, hb⟩ := List.mem_flatMap.mp hmem
            obtain ⟨j, hj, rfl⟩ := List.mem_iff_getElem.mp hx
            exact honly (j + 1) (Nat.succ_lt_succ hj) (Nat.succ_ne_zero j) hb
          rw [List.count_eq_zero.mpr hrest]
          rfl
      | succ i =>
          have hhead : b ∉ f a := honly 0 (Nat.succ_pos _) (Nat.succ_ne_zero i).symm
          rw [List.count_eq_zero.mpr hhead, Nat.zero_add]
          refine ih (Nat.lt_of_succ_lt_succ hi) ?_
          intro j hj hne
          exact honly (j + 1) (Nat.succ_lt_succ hj) (fun heq => hne (Nat.succ.inj heq))

theorem Sound.count_recorded (ht : t.Sound) (hm : h ∈ t.issued)
    (halive : t.store.isAlive h = true) : t.store.recorded.count h = 1 := by
  obtain ⟨slot, hslot, hcur⟩ := Store.isAlive_iff.mp halive
  have hused := ht.recorded.not_free_of_isAlive hm halive
  obtain ⟨hlt, hget⟩ := Array.getElem?_eq_some_iff.mp hslot
  have hlt' : h.id.toNat < t.store.slots.toList.length := by simpa using hlt
  unfold Store.recorded
  rw [count_flatMap_of_only hlt' ?_]
  · rw [Array.getElem_toList, hget]
    rcases (ht.tidy.slot h.id slot hslot).of_used hused with ⟨hw, hshown⟩ | ⟨hw, hshown⟩
    · rw [← hcur] at hw hshown
      rw [hw, List.count_append, List.count_eq_zero.mpr (by simpa using hshown)]
      simp
    · rw [← hcur] at hshown
      simp [hw, hshown]
  · intro j hj hne hmem
    have hto := ht.tidy.toNat_ofNat (Nat.le_of_lt (by simpa using hj))
    have htidy := ht.tidy.slot _ _ (ht.tidy.at?_ofNat hj)
    have hid : h.id = UInt32.ofNat j := by
      rcases List.mem_append.mp hmem with hshown | hw
      · exact (htidy.shown_le h (by simpa using hshown)).1
      · exact (Slot.eq_current_iff.mp (htidy.of_waiting (by simpa using hw)).1).1
    rw [hid, hto] at hne
    exact hne rfl

/-! ## The main statement -/

/-- The store refuses a handle, and the refusals change nothing. -/
structure Refuses [Component C] (t : History C) (h : Handle) : Prop where
  isAlive_eq : t.store.isAlive h = false
  destroy_eq : t.store.destroy h = .error (.stale h)
  add_eq : ∀ c, t.store.add h c = .error (.stale h)
  remove_eq : ∀ k, t.store.remove h k = .error (.stale h)
  unchanged : t.edit (.destroy h) = t ∧ (∀ c, t.edit (.add h c) = t) ∧ ∀ k, t.edit (.remove h k) = t

structure Accounted [Component C] (t : History C) (capacity : UInt32) : Prop where
  /-- The identities in use are those of the handles that were given out. -/
  lt_size_iff : ∀ id : UInt32, id.toNat < t.store.slots.size ↔ ∃ h ∈ t.issued, h.id = id
  /-- An identity is free once, or held by one living entity with one record. -/
  held : ∀ id : UInt32, id.toNat < t.store.slots.size →
    t.store.free.count id = 1 ∧ (∀ h ∈ t.issued, h.id = id → t.store.isAlive h = false) ∨
    t.store.free.count id = 0 ∧ ∃ h ∈ t.issued, h.id = id ∧ t.store.isAlive h = true ∧
      (∀ h' ∈ t.issued, h'.id = id → t.store.isAlive h' = true → h' = h) ∧
      h = t.store.handleOf id ∧ t.store.recorded.count h = 1
  eq_of_id_eq : ∀ h ∈ t.issued, ∀ h' ∈ t.issued, t.store.isAlive h = true →
    t.store.isAlive h' = true → h.id = h'.id → h = h'
  reserved : ∃ n, t.store.reserved = .ok n ∧ n = t.issued.countP t.store.isAlive ∧
    n ≤ capacity.toNat
  create_eq_error_iff : ∀ cs e, t.store.create cs = .error e ↔
    t.store.reserved = .ok capacity.toNat ∧ e = .capacity capacity
  unchanged : ∀ cs e, t.store.create cs = .error e → t.edit (.create cs) = t
  /-- The free identity that was destroyed last is taken, or else a new one. -/
  taken : ∀ cs h s, t.store.create cs = .ok (h, s) → h ∉ t.issued ∧
    match t.destroyed.find? fun d => d.id ∈ t.store.free with
    | some d => h.id = d.id ∧ s.slots.size = t.store.slots.size
    | none => h.id.toNat = t.store.slots.size ∧ s.slots.size = t.store.slots.size + 1

theorem Sound.held (ht : t.Sound) {id : UInt32} (hid : id.toNat < t.store.slots.size) :
    t.store.free.count id = 1 ∧ (∀ h ∈ t.issued, h.id = id → t.store.isAlive h = false) ∨
    t.store.free.count id = 0 ∧ ∃ h ∈ t.issued, h.id = id ∧ t.store.isAlive h = true ∧
      (∀ h' ∈ t.issued, h'.id = id → t.store.isAlive h' = true → h' = h) ∧
      h = t.store.handleOf id ∧ t.store.recorded.count h = 1 := by
  by_cases hfree : id ∈ t.store.free
  · left
    refine ⟨List.count_eq_one_of_mem ht.tidy.free_nodup hfree, ?_⟩
    intro h hm hh
    rw [← Bool.not_eq_true]
    intro halive
    exact ht.recorded.not_free_of_isAlive hm halive (hh ▸ hfree)
  · right
    obtain ⟨h, hm, rfl, halive⟩ := ht.exists_living hid hfree
    refine ⟨List.count_eq_zero.mpr hfree, h, hm, rfl, halive, ?_, ?_,
      ht.count_recorded hm halive⟩
    · intro h' _ hid' halive'
      exact eq_of_isAlive halive' halive hid'
    · obtain ⟨slot, hslot, hcur⟩ := Store.isAlive_iff.mp halive
      have hget : t.store.slots[h.id.toNat]? = some slot := hslot
      rw [hcur]
      simp [Store.handleOf, hget, Slot.current]

section Main

variable [Component C]

theorem refuses_of_not_alive (ha : t.store.isAlive h = false) : t.Refuses h := by
  have hdestroy := Store.destroy_of_not_alive ha
  have hadd : ∀ c, t.store.add h c = .error (.stale h) := by
    intro c
    rw [Store.add, Store.change_of_not_alive ha]
    rfl
  have hremove : ∀ k, t.store.remove h k = .error (.stale h) := by
    intro k
    rw [Store.remove, Store.change_of_not_alive ha]
    rfl
  refine ⟨ha, hdestroy, hadd, hremove, by simp only [edit, hdestroy], ?_, ?_⟩
  · intro c
    simp only [edit, hadd]
  · intro k
    simp only [edit, hremove]

theorem Sound.create_eq_error_iff (ht : t.Sound) {cs : List C} {e : WorldError} :
    t.store.create cs = .error e ↔
      t.store.reserved = .ok t.store.capacity.toNat ∧ e = .capacity t.store.capacity := by
  have hcount := ht.countP_isAlive
  have hle := ht.tidy.size_le
  rw [Store.create_eq_error_iff ht.tidy.toBounded, ht.reserved_eq, Except.ok.injEq,
    ← List.length_eq_zero_iff]
  constructor
  · rintro ⟨hfree, hsize, he⟩
    exact ⟨by omega, he⟩
  · rintro ⟨hfull, he⟩
    exact ⟨by omega, by omega, he⟩

theorem Sound.taken (ht : t.Sound) {cs : List C} {s : Store C}
    (hc : t.store.create cs = .ok (h, s)) : h ∉ t.issued ∧
      match t.destroyed.find? fun d => d.id ∈ t.store.free with
      | some d => h.id = d.id ∧ s.slots.size = t.store.slots.size
      | none => h.id.toNat = t.store.slots.size ∧ s.slots.size = t.store.slots.size + 1 := by
  obtain ⟨hcreates, htakes⟩ := Store.creates_of_ok ht.tidy.toBounded hc
  refine ⟨ht.recorded.not_issued_of_creates hcreates htakes, ?_⟩
  have hhead := ht.recorded.released.head?_eq
  cases htakes with
  | reused hfree hsize =>
      rw [hfree, List.head?_cons, ← hfree, eq_comm, Option.map_eq_some_iff] at hhead
      obtain ⟨d, hfind, hid⟩ := hhead
      rw [hfind]
      exact ⟨hid.symm, hsize⟩
  | grown hfree _ hid _ hsize =>
      rw [hfree, List.head?_nil, ← hfree, eq_comm, Option.map_eq_none_iff] at hhead
      rw [hhead]
      exact ⟨hid, hsize⟩

theorem Reaches.capacity_eq {u : History C} (hr : t.Reaches u) (ht : t.Sound) (hw : u.Unworn) :
    u.store.capacity = t.store.capacity := by
  induction hr with
  | refl => rfl
  | edit before e admits ih =>
      have hw := hw.of_suffix (suffix_destroyed_edit _ e)
      exact (moves (before.sound ht hw).tidy admits).capacity_eq.trans (ih hw)
  | apply before ih =>
      have hsound := before.sound ht hw
      exact (Store.apply_settles hsound.tidy hsound.queued).capacity_eq.trans (ih hw)

/-- However a store was used, its identities are accounted for, and it refuses every handle that
was destroyed before. -/
theorem accounted_of_reaches {capacity : UInt32} {t u : History C}
    (ht : (History.start capacity).Reaches t) (hu : t.Reaches u) (hw : u.Unworn) :
    u.Accounted capacity ∧ ∀ h ∈ t.destroyed, u.Refuses h := by
  have hsound : u.Sound := (ht.trans hu).sound (.start capacity) hw
  have hcapacity : u.store.capacity = capacity := (ht.trans hu).capacity_eq (.start capacity) hw
  subst hcapacity
  constructor
  · refine ⟨hsound.lt_size_iff, fun id hid => hsound.held hid, ?_, ?_, ?_, ?_, ?_⟩
    · intro h _ h' _ ha ha' hid
      exact eq_of_isAlive ha ha' hid
    · refine ⟨_, hsound.reserved_eq, rfl, ?_⟩
      have hcount := hsound.countP_isAlive
      have hle := hsound.tidy.size_le
      omega
    · intro cs e
      exact hsound.create_eq_error_iff
    · intro cs e he
      simp only [edit, he]
    · intro cs h s hc
      exact hsound.taken hc
  · intro h hd
    have hd : h ∈ u.destroyed := hu.suffix_destroyed.subset hd
    exact refuses_of_not_alive (hsound.recorded.isAlive_of_destroyed hd)

/-- A full store, an identity released and taken again, and the changes applied. -/
theorem accounted_of_reused :
    let t := (((start 2 : History Counter).edit (.create [])).edit (.create [])).edit
      (.destroy ⟨0, 0⟩)
    let u := (t.edit (.create [⟨⟨⟨3, by decide⟩⟩, 7⟩])).apply
    (start 2).Reaches t ∧ t.Reaches u ∧ u.Unworn ∧
      u.Accounted 2 ∧ ∀ h ∈ t.destroyed, u.Refuses h := by
  intro t u
  have ht : (start 2).Reaches t := by
    refine .edit (.edit (.edit .refl _ ?_) _ ?_) _ ?_
    · intro h hh
      cases hh
    · intro h hh
      cases hh
    · intro h hh
      cases hh
      decide +kernel
  have hu : t.Reaches u := by
    refine .apply (.edit .refl _ ?_)
    intro h hh
    cases hh
  have hw : u.Unworn := unworn_of_length_lt (by decide +kernel)
  exact ⟨ht, hu, hw, accounted_of_reaches ht hu hw⟩

end Main

end History

end Realm
