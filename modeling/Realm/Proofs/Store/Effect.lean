import Realm.Proofs.Entity.Record
import Realm.Entity.Store

/-!
# What an operation does to the slots

Each operation of the store touches one slot. Its effect is stated slot by slot, together with what
it does to the released identities and to the noted changes, so that later modules never unfold an
operation. A failed operation gives no store at all.
-/

namespace Realm

variable {C : Type}

/-! ## Matching a record against a handle -/

namespace Entity

@[simp] theorem matching_none (h : Handle) : matching h (none : Option (Entity C)) = none := rfl

theorem matching_some (h : Handle) (e : Entity C) :
    matching h (some e) = if e.handle = h then some e else none := by
  by_cases he : e.handle = h <;> simp [matching, Option.filter_some, he]

theorem matching_of_ne {h : Handle} {e : Entity C} (he : e.handle ≠ h) :
    matching h (some e) = none := by
  rw [matching_some, if_neg he]

theorem matching_eq_some_iff {h : Handle} {record : Option (Entity C)} {e : Entity C} :
    matching h record = some e ↔ record = some e ∧ e.handle = h := by
  simp [matching, Option.filter_eq_some_iff]

theorem matching_eq_none_iff {h : Handle} {record : Option (Entity C)} :
    matching h record = none ↔ record.map (·.handle) ≠ some h := by
  cases record with
  | none => simp [matching]
  | some e => by_cases he : e.handle = h <;> simp [matching, he]

theorem isSome_matching {h : Handle} {record : Option (Entity C)} :
    (matching h record).isSome = true ↔ record.map (·.handle) = some h := by
  rw [← Option.ne_none_iff_isSome, ne_eq, matching_eq_none_iff, not_not]

end Entity

/-! ## The handles in a slot -/

namespace Slot

def shown (slot : Slot C) : Option Handle := slot.visible.map (·.handle)

def waiting (slot : Slot C) : Option Handle := slot.pending.map (·.handle)

/-- The handle that a living entity of the identity carries. -/
def current (slot : Slot C) (id : UInt32) : Handle := ⟨id, slot.generation⟩

def release (slot : Slot C) (h : Handle) : Slot C :=
  { slot with
    generation := slot.generation + 1
    pending := if slot.waiting = some h then none else slot.pending }

def await (slot : Slot C) (e : Entity C) : Slot C := { slot with pending := some e }

theorem shown_of_visible {slot : Slot C} {e : Entity C} (hv : slot.visible = some e) :
    slot.shown = some e.handle := by
  rw [shown, hv, Option.map_some]

theorem waiting_of_pending {slot : Slot C} {e : Entity C} (hp : slot.pending = some e) :
    slot.waiting = some e.handle := by
  rw [waiting, hp, Option.map_some]

@[simp] theorem id_current (slot : Slot C) (id : UInt32) : (slot.current id).id = id := rfl

@[simp] theorem generation_current (slot : Slot C) (id : UInt32) :
    (slot.current id).generation = slot.generation := rfl

/-- All that a slot shows of its records without their components. -/
def outline (slot : Slot C) : UInt32 × Option Handle × Option Handle :=
  (slot.generation, slot.shown, slot.waiting)

theorem eq_current_iff {slot : Slot C} {id : UInt32} {h : Handle} :
    h = slot.current id ↔ h.id = id ∧ h.generation = slot.generation := by
  cases h
  simp [current]

@[simp] theorem shown_await (slot : Slot C) (e : Entity C) : (slot.await e).shown = slot.shown :=
  rfl

@[simp] theorem waiting_await (slot : Slot C) (e : Entity C) :
    (slot.await e).waiting = some e.handle := rfl

@[simp] theorem generation_await (slot : Slot C) (e : Entity C) :
    (slot.await e).generation = slot.generation := rfl

@[simp] theorem shown_release (slot : Slot C) (h : Handle) : (slot.release h).shown = slot.shown :=
  rfl

@[simp] theorem waiting_release (slot : Slot C) (h : Handle) :
    (slot.release h).waiting = if slot.waiting = some h then none else slot.waiting := by
  have hmap : (slot.release h).waiting =
      (if slot.waiting = some h then none else slot.pending).map (·.handle) := rfl
  rw [hmap]
  split <;> rfl

@[simp] theorem generation_release (slot : Slot C) (h : Handle) :
    (slot.release h).generation = slot.generation + 1 := rfl

/-- The current handle of an identity is not current once the identity is released. -/
theorem ne_current_release {slot : Slot C} {id : UInt32} {h : Handle} (hcur : h = slot.current id)
    (g : Handle) : h ≠ (slot.release g).current id := by
  intro heq
  have hsucc := hcur.symm.trans heq
  have : slot.generation = slot.generation + 1 := congrArg Handle.generation hsucc
  simp at this

/-- Short of the last generation a release leads to a later one. -/
theorem toNat_generation_release {slot : Slot C} (h : Handle)
    (hg : slot.generation.toNat + 1 < 2 ^ 32) :
    (slot.release h).generation.toNat = slot.generation.toNat + 1 := by
  rw [generation_release, UInt32.toNat_add]
  exact Nat.mod_eq_of_lt hg

/-- The record that `modify` rewrites is the visible one first, else the waiting one. -/
theorem modify_eq (slot : Slot C) (h : Handle) (f : Entity C → Entity C) :
    slot.modify h f =
      if slot.shown = some h then { slot with visible := slot.visible.map f }
      else if slot.waiting = some h then { slot with pending := slot.pending.map f }
      else slot := by
  simp only [modify, Entity.isSome_matching]
  rfl

theorem find?_eq_some_iff {slot : Slot C} {h : Handle} {e : Entity C} :
    slot.find? h = some e ↔
      slot.visible = some e ∧ e.handle = h ∨
        slot.shown ≠ some h ∧ slot.pending = some e ∧ e.handle = h := by
  rw [find?, Option.or_eq_some_iff, Entity.matching_eq_some_iff, Entity.matching_eq_none_iff,
    Entity.matching_eq_some_iff]
  rfl

theorem find?_eq_none_iff {slot : Slot C} {h : Handle} :
    slot.find? h = none ↔ slot.shown ≠ some h ∧ slot.waiting ≠ some h := by
  rw [find?, Option.or_eq_none_iff, Entity.matching_eq_none_iff, Entity.matching_eq_none_iff]
  rfl

section Modify

variable {f : Entity C → Entity C}

theorem map_handle_map (hf : ∀ e, (f e).handle = e.handle) (record : Option (Entity C)) :
    (record.map f).map (·.handle) = record.map (·.handle) := by
  cases record with
  | none => rfl
  | some e => simp [hf]

theorem shown_modify (hf : ∀ e, (f e).handle = e.handle) (slot : Slot C) (h : Handle) :
    (slot.modify h f).shown = slot.shown := by
  rw [modify_eq]
  split
  · exact map_handle_map hf slot.visible
  · split <;> rfl

theorem waiting_modify (hf : ∀ e, (f e).handle = e.handle) (slot : Slot C) (h : Handle) :
    (slot.modify h f).waiting = slot.waiting := by
  rw [modify_eq]
  split
  · rfl
  · split
    · exact map_handle_map hf slot.pending
    · rfl

@[simp] theorem generation_modify (slot : Slot C) (h : Handle) (f : Entity C → Entity C) :
    (slot.modify h f).generation = slot.generation := by
  rw [modify_eq]
  split
  · rfl
  · split <;> rfl

theorem outline_modify (hf : ∀ e, (f e).handle = e.handle) (slot : Slot C) (h : Handle) :
    (slot.modify h f).outline = slot.outline := by
  simp only [outline, generation_modify, shown_modify hf, waiting_modify hf]

end Modify

theorem outline_eq_iff {slot other : Slot C} :
    other.outline = slot.outline ↔ other.generation = slot.generation ∧
      other.shown = slot.shown ∧ other.waiting = slot.waiting := by
  simp [outline]

end Slot

namespace Store

/-! ## Looking up slots -/

def at? (s : Store C) (id : UInt32) : Option (Slot C) := s.slots[id.toNat]?

theorem slot?_eq (s : Store C) (h : Handle) : s.slot? h = s.at? h.id := rfl

theorem lt_size_of_at? {s : Store C} {id : UInt32} {slot : Slot C} (h : s.at? id = some slot) :
    id.toNat < s.slots.size := (Array.getElem?_eq_some_iff.mp h).1

theorem at?_of_lt_size {s : Store C} {id : UInt32} (h : id.toNat < s.slots.size) :
    ∃ slot, s.at? id = some slot := ⟨s.slots[id.toNat], Array.getElem?_eq_getElem h⟩

@[simp] theorem at?_note (s : Store C) (change : Change) (id : UInt32) :
    (s.note change).at? id = s.at? id := rfl

@[simp] theorem at?_modifySlot (s : Store C) (h : Handle) (f : Slot C → Slot C) (id : UInt32) :
    (s.modifySlot h f).at? id = if id = h.id then (s.at? id).map f else s.at? id := by
  unfold at? modifySlot
  rw [Array.getElem?_modify]
  by_cases hid : id = h.id
  · simp [hid]
  · have : ¬ h.id.toNat = id.toNat := fun heq => hid (UInt32.toNat_inj.mp heq).symm
    simp [hid, this]

@[simp] theorem size_modifySlot (s : Store C) (h : Handle) (f : Slot C → Slot C) :
    (s.modifySlot h f).slots.size = s.slots.size := by
  simp [modifySlot]

theorem isAlive_iff {s : Store C} {h : Handle} :
    s.isAlive h = true ↔ ∃ slot, s.at? h.id = some slot ∧ h = slot.current h.id := by
  unfold isAlive
  rw [slot?_eq]
  cases hslot : s.at? h.id with
  | none => simp
  | some slot => simp [Slot.eq_current_iff, eq_comm]

theorem find?_of_at? {s : Store C} {h : Handle} {slot : Slot C} (hs : s.at? h.id = some slot) :
    s.find? h = slot.find? h := by
  simp [find?, slot?_eq, hs]

/-- A slot found after one slot was written is that one or an old one. -/
theorem at?_cases {s s' : Store C} {id written : UInt32} {new : Option (Slot C)} {slot : Slot C}
    (heq : s'.at? id = if id = written then new else s.at? id) (hs : s'.at? id = some slot) :
    id = written ∧ new = some slot ∨ id ≠ written ∧ s.at? id = some slot := by
  by_cases hid : id = written
  · exact .inl ⟨hid, by rw [← hs, heq, if_pos hid]⟩
  · exact .inr ⟨hid, by rw [← hs, heq, if_neg hid]⟩

/-! ## Destroying -/

structure Destroys (s : Store C) (h : Handle) (slot : Slot C) (s' : Store C) : Prop where
  capacity_eq : s'.capacity = s.capacity
  size_eq : s'.slots.size = s.slots.size
  free_eq : s'.free = h.id :: s.free
  at?_eq : ∀ id, s'.at? id = if id = h.id then some (slot.release h) else s.at? id
  changes_eq : s'.changes =
    if slot.waiting = some h then s.changes else s.changes.push (.destroyed h)

theorem destroys_of_ok {s s' : Store C} {h : Handle} (hd : s.destroy h = .ok s') :
    ∃ slot, s.at? h.id = some slot ∧ h = slot.current h.id ∧ s.Destroys h slot s' := by
  unfold destroy at hd
  cases halive : s.isAlive h with
  | false => simp [halive] at hd
  | true =>
      obtain ⟨slot, hslot, hcur⟩ := isAlive_iff.mp halive
      have hwaiting : slot.pending.map (·.handle) = slot.waiting := rfl
      simp only [halive, if_true, slot?_eq, hslot, Option.bind_some, Entity.isSome_matching,
        hwaiting, Except.ok.injEq] at hd
      subst hd
      refine ⟨slot, hslot, hcur, ?_⟩
      by_cases hw : slot.waiting = some h
      · rw [if_pos hw]
        refine ⟨rfl, by simp [modifySlot], rfl, ?_, by rw [if_pos hw]; rfl⟩
        intro id
        rw [at?_modifySlot]
        change (if id = h.id then ((s.modifySlot h _).at? id).map _
          else (s.modifySlot h _).at? id) = _
        by_cases hid : id = h.id
        · simp [hid, hslot, Slot.release, hw]
        · simp [hid]
      · rw [if_neg hw]
        refine ⟨rfl, size_modifySlot s h _, rfl, ?_, by rw [if_neg hw]; rfl⟩
        intro id
        change (s.modifySlot h _).at? id = _
        by_cases hid : id = h.id
        · simp [hid, hslot, Slot.release, hw]
        · simp [hid]

theorem destroy_of_not_alive {s : Store C} {h : Handle} (hs : s.isAlive h = false) :
    s.destroy h = .error (.stale h) := by
  simp [destroy, hs]

theorem destroy_of_alive {s : Store C} {h : Handle} (hs : s.isAlive h = true) :
    ∃ s', s.destroy h = .ok s' := by
  simp [destroy, hs]

/-! ## Creating -/

/-- The slot of an identity, or a fresh one if the identity was never issued. -/
def slotOrFresh (s : Store C) (id : UInt32) : Slot C := (s.at? id).getD .fresh

theorem slotOrFresh_of_at? {s : Store C} {id : UInt32} {slot : Slot C} (hs : s.at? id = some slot) :
    s.slotOrFresh id = slot := by
  simp [slotOrFresh, hs]

/-- The slots do not exceed the capacity, and only issued identities are free. -/
structure Bounded (s : Store C) : Prop where
  size_le : s.slots.size ≤ s.capacity.toNat
  free_lt : ∀ id ∈ s.free, id.toNat < s.slots.size

/-- What creating an entity does, apart from the identity that is taken. -/
structure Creates [Component C] (s : Store C) (cs : List C) (h : Handle) (s' : Store C) : Prop where
  generation_eq : h.generation = (s.slotOrFresh h.id).generation
  capacity_eq : s'.capacity = s.capacity
  at?_eq : ∀ id, s'.at? id =
    if id = h.id then some ((s.slotOrFresh h.id).await (.ofComponents h cs)) else s.at? id
  changes_eq : s'.changes = s.changes.push (.created h)

/-- The identity that is taken: the one released last, else the next new one. -/
inductive Takes (s : Store C) (id : UInt32) (s' : Store C) : Prop
  | reused : s.free = id :: s'.free → s'.slots.size = s.slots.size → Takes s id s'
  | grown : s.free = [] → s'.free = [] → id.toNat = s.slots.size →
      s.slots.size < s.capacity.toNat → s'.slots.size = s.slots.size + 1 → Takes s id s'

/-- Every position of a slot is an identity. -/
theorem Bounded.toNat_ofNat {s : Store C} (hb : s.Bounded) {i : Nat} (hi : i ≤ s.slots.size) :
    (UInt32.ofNat i).toNat = i := by
  have hle := hb.size_le
  have hcap : s.capacity.toNat < UInt32.size := s.capacity.toNat_lt_size
  exact UInt32.toNat_ofNat_of_lt' (by omega)

theorem Bounded.at?_ofNat {s : Store C} (hb : s.Bounded) {i : Nat}
    (hi : i < s.slots.toList.length) : s.at? (UInt32.ofNat i) = some s.slots.toList[i] := by
  have hi' : i < s.slots.size := by simpa using hi
  rw [at?, hb.toNat_ofNat (Nat.le_of_lt hi'), Array.getElem_toList]
  exact Array.getElem?_eq_getElem hi'

theorem creates_of_ok [Component C] {s s' : Store C} {cs : List C} {h : Handle}
    (hb : s.Bounded) (hc : s.create cs = .ok (h, s')) : s.Creates cs h s' ∧ s.Takes h.id s' := by
  unfold create reserve at hc
  cases hfree : s.free with
  | cons id free =>
      have hmem : id ∈ s.free := by
        rw [hfree]
        exact List.mem_cons_self
      obtain ⟨slot, hslot⟩ := at?_of_lt_size (hb.free_lt id hmem)
      have hhandle : ({ s with free } : Store C).handleOf id = ⟨id, slot.generation⟩ := by
        have : s.slots[id.toNat]? = some slot := hslot
        simp [handleOf, this]
      simp only [hfree, hhandle, Except.ok.injEq, Prod.mk.injEq] at hc
      obtain ⟨rfl, rfl⟩ := hc
      refine ⟨⟨by simp [slotOrFresh, hslot], rfl, ?_, rfl⟩,
        .reused hfree (size_modifySlot _ _ _)⟩
      intro other
      rw [at?_note, at?_modifySlot]
      change (if other = id then (s.at? other).map _ else s.at? other) = _
      by_cases hid : other = id
      · simp [hid, hslot, slotOrFresh, Slot.await]
      · simp [hid]
  | nil =>
      have hnext := hb.toNat_ofNat (Nat.le_refl s.slots.size)
      have hle := hb.size_le
      by_cases hfull : s.capacity ≤ UInt32.ofNat s.slots.size
      · simp [hfree, hfull] at hc
      have hlt : s.slots.size < s.capacity.toNat := by
        simpa [UInt32.le_iff_toNat_le, hnext] using hfull
      have hhandle : ({ s with slots := s.slots.push .fresh, free := [] } : Store C).handleOf
          (UInt32.ofNat s.slots.size) = ⟨UInt32.ofNat s.slots.size, 0⟩ := by
        simp [handleOf, hnext, Slot.fresh]
      have hnone : s.at? (UInt32.ofNat s.slots.size) = none := by
        simp [at?, hnext]
      simp only [hfree, hfull, if_false, hhandle, Except.ok.injEq, Prod.mk.injEq] at hc
      obtain ⟨rfl, rfl⟩ := hc
      refine ⟨⟨by simp [slotOrFresh, hnone, Slot.fresh], rfl, ?_, rfl⟩,
        .grown hfree rfl hnext hlt (by simp [note])⟩
      intro other
      rw [at?_note, at?_modifySlot]
      change (if other = UInt32.ofNat s.slots.size then ((s.slots.push .fresh)[other.toNat]?).map _
        else (s.slots.push .fresh)[other.toNat]?) = _
      rw [Array.getElem?_push]
      by_cases hid : other = UInt32.ofNat s.slots.size
      · simp [hid, hnext, slotOrFresh, hnone, Slot.await]
      · have : ¬ other.toNat = s.slots.size := by
          intro heq
          exact hid (UInt32.toNat_inj.mp (heq.trans hnext.symm))
        simp [hid, this, at?]

/-- Creating fails only for want of an identity. -/
theorem create_eq_error_iff [Component C] {s : Store C} {cs : List C} {e : WorldError}
    (hb : s.Bounded) : s.create cs = .error e ↔
      s.free = [] ∧ s.slots.size = s.capacity.toNat ∧ e = .capacity s.capacity := by
  have hnext := hb.toNat_ofNat (Nat.le_refl s.slots.size)
  have hle := hb.size_le
  unfold create reserve
  cases hfree : s.free with
  | cons id free => simp
  | nil =>
      simp only [true_and, UInt32.le_iff_toNat_le, hnext]
      by_cases hfull : s.capacity.toNat ≤ s.slots.size
      · have : s.slots.size = s.capacity.toNat := by omega
        simp [this, eq_comm]
      · have : s.slots.size ≠ s.capacity.toNat := by omega
        simp [hfull, this]

/-! ## Rewriting a record -/

structure Rewrites (s : Store C) (h : Handle) (f : Entity C → Entity C) (noted : Prop)
    (s' : Store C) : Prop where
  capacity_eq : s'.capacity = s.capacity
  size_eq : s'.slots.size = s.slots.size
  free_eq : s'.free = s.free
  at?_eq : ∀ id, s'.at? id = if id = h.id then (s.at? id).map (·.modify h f) else s.at? id
  changes_eq : noted ∧ s'.changes = s.changes.push (.changed h) ∨ ¬ noted ∧ s'.changes = s.changes

theorem rewrites_modify (s : Store C) (h : Handle) (k : Kind) (f : C → C) :
    s.Rewrites h (·.modify k f) False (s.modify h k f) :=
  ⟨rfl, size_modifySlot _ _ _, rfl, at?_modifySlot _ _ _, .inr ⟨id, rfl⟩⟩

/-- A rewrite that keeps handles changes no outline. -/
theorem Rewrites.map_outline {s s' : Store C} {h : Handle} {f : Entity C → Entity C}
    {noted : Prop} (hr : s.Rewrites h f noted s') (hf : ∀ e, (f e).handle = e.handle)
    (id : UInt32) : (s'.at? id).map Slot.outline = (s.at? id).map Slot.outline := by
  rw [hr.at?_eq]
  by_cases hid : id = h.id
  · rw [if_pos hid, Option.map_map]
    congr 1
    funext slot
    exact Slot.outline_modify hf slot h
  · rw [if_neg hid]

section Change

variable {s s' : Store C} {h : Handle} {f : Entity C → Entity C} {matters : Entity C → Bool}
  {e : Entity C}

theorem change_of_not_alive (hs : s.isAlive h = false) :
    s.change h f matters = .error (.stale h) := by
  simp [change, hs]

theorem change_of_find? (f : Entity C → Entity C) (matters : Entity C → Bool) {slot : Slot C}
    (hslot : s.at? h.id = some slot)
    (halive : h = slot.current h.id) (hfind : slot.find? h = some e) :
    ∃ s', s.change h f matters = .ok (e, s') ∧
      s.Rewrites h f (slot.shown = some h ∧ matters e = true) s' := by
  have hs : s.isAlive h = true := isAlive_iff.mpr ⟨slot, hslot, halive⟩
  unfold change
  simp only [hs, if_true, slot?_eq, hslot]
  rcases Slot.find?_eq_some_iff.mp hfind with ⟨hvisible, hhandle⟩ | ⟨hshown, hpending, hhandle⟩
  · have hshown : slot.shown = some h := hhandle ▸ Slot.shown_of_visible hvisible
    rw [Entity.matching_eq_some_iff.mpr ⟨hvisible, hhandle⟩]
    cases hm : matters e with
    | true =>
        simp only [hm, if_true]
        exact ⟨_, rfl, rfl, size_modifySlot _ _ _, rfl, at?_modifySlot _ _ _,
          .inl ⟨⟨hshown, trivial⟩, rfl⟩⟩
    | false =>
        simp only [hm, Bool.false_eq_true, if_false]
        exact ⟨_, rfl, rfl, size_modifySlot _ _ _, rfl, at?_modifySlot _ _ _,
          .inr ⟨fun hand => hand.2, rfl⟩⟩
  · rw [Entity.matching_eq_none_iff.mpr hshown,
      Entity.matching_eq_some_iff.mpr ⟨hpending, hhandle⟩]
    exact ⟨_, rfl, rfl, size_modifySlot _ _ _, rfl, at?_modifySlot _ _ _,
      .inr ⟨fun hand => hshown hand.1, rfl⟩⟩

/-- A rewrite succeeds only on the record of a living entity. -/
theorem rewrites_of_ok (hc : s.change h f matters = .ok (e, s')) :
    ∃ slot, s.at? h.id = some slot ∧ h = slot.current h.id ∧ slot.find? h = some e ∧
      s.Rewrites h f (slot.shown = some h ∧ matters e = true) s' := by
  cases hs : s.isAlive h with
  | false =>
      rw [change_of_not_alive hs] at hc
      cases hc
  | true =>
      obtain ⟨slot, hslot, halive⟩ := isAlive_iff.mp hs
      cases hfind : slot.find? h with
      | none =>
          obtain ⟨hshown, hwaiting⟩ := Slot.find?_eq_none_iff.mp hfind
          simp [change, hs, slot?_eq, hslot, Entity.matching_eq_none_iff.mpr hshown,
            Entity.matching_eq_none_iff.mpr hwaiting] at hc
      | some found =>
          obtain ⟨after, hok, hrewrites⟩ := change_of_find? f matters hslot halive hfind
          rw [hc] at hok
          cases hok
          exact ⟨slot, hslot, halive, hfind, hrewrites⟩

end Change

end Store

end Realm
