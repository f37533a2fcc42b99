import Realm.Proofs.Store.Replay

/-!
# What a visible entity goes through

Main statement: until the next `apply` a store tells of a visible entity what the operations that
name its handle make of it, and nothing else. Destroying it ends its life but leaves its record,
and a new entity on its identity has a handle and a record of its own.
-/

namespace Realm

variable {C : Type}

/-- An entity by itself: whether it lives, and its record. -/
structure Tenant (C : Type) where
  lives : Bool
  record : Entity C

namespace Tenant

variable [Component C]

/-- What an operation means to the entity with a handle. Only a living entity gains or loses
components, while those it has can be rewritten until it is gone. -/
def edit (h : Handle) (x : Tenant C) : Edit C → Tenant C
  | .create _ => x
  | .destroy g => if g = h then { x with lives := false } else x
  | .add g c => if g = h ∧ x.lives then { x with record := x.record.insert c } else x
  | .remove g k => if g = h ∧ x.lives then { x with record := x.record.erase k } else x
  | .modify g k f => if g = h then { x with record := x.record.modify k f } else x

def editAll (h : Handle) (x : Tenant C) (ops : List (Edit C)) : Tenant C := ops.foldl (edit h) x

theorem lives_edit (h : Handle) (x : Tenant C) (op : Edit C) : (x.edit h op).lives =
    match op with
    | .destroy g => if g = h then false else x.lives
    | _ => x.lives := by
  cases op <;> simp only [edit] <;> split <;> rfl

end Tenant

namespace Store

variable {s s' : Store C} {h g : Handle} {e : Entity C} {x : Tenant C}

/-- The visible record of a handle and its life are those of an entity. -/
structure Houses (s : Store C) (h : Handle) (x : Tenant C) : Prop where
  seen?_eq : s.seen? h = some x.record
  isAlive_eq : s.isAlive h = x.lives

/-- A store tells of a handle what there is to tell of an entity. -/
structure Resolves [Component C] (s : Store C) (h : Handle) (x : Tenant C) : Prop where
  handle_eq : x.record.handle = h
  find?_eq : s.find? h = some x.record
  mask?_eq : s.mask? h = some x.record.mask
  get?_eq : ∀ k, s.get? h k = x.record.get? k
  isAlive_eq : s.isAlive h = x.lives
  add_eq : ∀ c, (s.add h c).map (·.1) =
    if x.lives then .ok (x.record.get? (Component.kind c)) else .error (.stale h)
  remove_eq : ∀ k, (s.remove h k).map (·.1) =
    if x.lives then .ok (x.record.get? k) else .error (.stale h)
  destroy_eq : (s.destroy h).map (fun _ => ()) =
    if x.lives then .ok () else .error (.stale h)

section Change

variable {f : Entity C → Entity C} {matters : Entity C → Bool}

/-- Of a visible entity that lives the record is found and can be changed. -/
theorem change_of_seen? (f : Entity C → Entity C) (matters : Entity C → Bool)
    (hs : s.seen? h = some e) (ha : s.isAlive h = true) :
    ∃ s', s.change h f matters = .ok (e, s') := by
  obtain ⟨slot, hslot, hv, hh⟩ := seen?_eq_some_iff.mp hs
  obtain ⟨other, hother, hcur⟩ := isAlive_iff.mp ha
  obtain rfl := Option.some.inj (hslot.symm.trans hother)
  have hfind : slot.find? h = some e := Slot.find?_eq_some_iff.mpr (.inl ⟨hv, hh⟩)
  obtain ⟨s', hok, -⟩ := change_of_find? f matters hslot hcur hfind
  exact ⟨s', hok⟩

def changed (s : Store C) (g : Handle) (f : Entity C → Entity C) (matters : Entity C → Bool) :
    Store C :=
  match s.change g f matters with
  | .ok (_, s') => s'
  | .error _ => s

/-- A change is seen on the visible record of a handle if it names the handle of a living entity. -/
theorem seen?_changed (matters : Entity C → Bool) (hf : ∀ e, (f e).handle = e.handle)
    (hs : s.seen? h = some e) :
    (s.changed g f matters).seen? h = some (if g = h ∧ s.isAlive h then f e else e) := by
  unfold changed
  cases hc : s.change g f matters with
  | error why =>
      have hrefused : ¬ (g = h ∧ s.isAlive h = true) := by
        rintro ⟨rfl, ha⟩
        obtain ⟨s', hok⟩ := change_of_seen? f matters hs ha
        cases hc.symm.trans hok
      rw [if_neg hrefused]
      exact hs
  | ok result =>
      obtain ⟨slot, hslot, hcur, -, hr⟩ := rewrites_of_ok hc
      have ha : s.isAlive g = true := isAlive_iff.mpr ⟨slot, hslot, hcur⟩
      show result.2.seen? h = _
      rw [hr.seen?_eq hf]
      by_cases hg : g = h
      · subst hg
        simp [hs, ha]
      · simp [hs, hg, Ne.symm hg]

end Change

theorem Houses.map_change (hx : s.Houses h x) (f : Entity C → Entity C)
    (matters : Entity C → Bool) : (s.change h f matters).map (·.1) =
      if x.lives then .ok x.record else .error (.stale h) := by
  cases hl : x.lives with
  | false =>
      rw [change_of_not_alive (hx.isAlive_eq.trans hl)]
      rfl
  | true =>
      obtain ⟨s', hok⟩ := change_of_seen? f matters hx.seen?_eq (hx.isAlive_eq.trans hl)
      rw [hok]
      rfl

theorem Houses.map_destroy (hx : s.Houses h x) : (s.destroy h).map (fun _ => ()) =
    if x.lives then .ok () else .error (.stale h) := by
  cases hl : x.lives with
  | false =>
      rw [destroy_of_not_alive (hx.isAlive_eq.trans hl)]
      rfl
  | true =>
      obtain ⟨s', hok⟩ := destroy_of_alive (hx.isAlive_eq.trans hl)
      rw [hok]
      rfl

theorem map_add [Component C] (s : Store C) (h : Handle) (c : C) : (s.add h c).map (·.1) =
    ((s.change h (·.insert c) fun _ => true).map (·.1)).map (·.get? (Component.kind c)) := by
  unfold add
  cases s.change h (·.insert c) fun _ => true <;> rfl

theorem map_remove (s : Store C) (h : Handle) (k : Kind) : (s.remove h k).map (·.1) =
    ((s.change h (·.erase k) fun e => (e.get? k).isSome).map (·.1)).map (·.get? k) := by
  unfold remove
  cases s.change h (·.erase k) fun e => (e.get? k).isSome <;> rfl

theorem Houses.resolves [Component C] (hx : s.Houses h x) : s.Resolves h x := by
  obtain ⟨slot, hslot, hv, hh⟩ := seen?_eq_some_iff.mp hx.seen?_eq
  have hfind : s.find? h = some x.record := by
    rw [find?_of_at? hslot]
    exact Slot.find?_eq_some_iff.mpr (.inl ⟨hv, hh⟩)
  refine ⟨hh, hfind, ?_, ?_, hx.isAlive_eq, ?_, ?_, hx.map_destroy⟩
  · rw [mask?, hfind]
    rfl
  · intro k
    rw [get?, hfind]
    rfl
  · intro c
    rw [map_add, hx.map_change]
    split <;> rfl
  · intro k
    rw [map_remove, hx.map_change]
    split <;> rfl

end Store

namespace History

variable {t : History C} {h : Handle} {x : Tenant C} {op : Edit C} {ops later : List (Edit C)}

/-- Whatever is visible was given out. -/
theorem Sound.issued_of_seen (ht : t.Sound) (hs : h ∈ t.store.seen) : h ∈ t.issued := by
  obtain ⟨slot, hslot, hshown⟩ := ht.tidy.mem_handles_iff.mp (List.mem_toFinset.mp hs)
  exact ht.recorded.issued_of_shown h.id slot h hslot hshown

/-- After a pass every visible entity lives. -/
theorem Sound.houses_apply (ht : t.Sound) {e : Entity C} (he : e ∈ t.apply.store.visible) :
    t.apply.store.Houses e.handle ⟨true, e⟩ := by
  have hseen : e.handle ∈ t.apply.store.seen :=
    List.mem_toFinset.mpr (List.mem_map_of_mem he)
  obtain ⟨-, ha⟩ := ht.mem_seen_apply.mp hseen
  exact ⟨ht.apply.tidy.placed.seen?_eq_some_iff.mpr ⟨he, rfl⟩, (ht.isAlive_apply _).trans ha⟩

section Edits

variable [Component C]

/-! ## One operation -/

theorem issued_subset_edit (t : History C) (op : Edit C) : t.issued ⊆ (t.edit op).issued := by
  cases op with
  | create cs =>
      simp only [edit]
      split
      · exact List.subset_cons_self _ _
      · exact List.Subset.refl _
  | modify h k f => exact List.Subset.refl _
  | _ =>
      simp only [edit]
      split <;> exact List.Subset.refl _

theorem destroyed_edit (t : History C) (op : Edit C) : (t.edit op).destroyed =
    match op with
    | .destroy g => if t.store.isAlive g then g :: t.destroyed else t.destroyed
    | _ => t.destroyed := by
  cases op with
  | destroy g =>
      cases ha : t.store.isAlive g with
      | false => simp [edit, Store.destroy_of_not_alive ha, ha]
      | true =>
          obtain ⟨s, hok⟩ := Store.destroy_of_alive ha
          simp [edit, hok, ha]
  | modify g k f => rfl
  | _ =>
      simp only [edit]
      split <;> rfl

/-- An entity lives as long as it is not destroyed. -/
theorem Sound.isAlive_edit (ht : t.Sound) (hm : h ∈ t.issued) (ha : t.Admits op)
    (hw : (t.edit op).Unworn) (hx : t.store.isAlive h = x.lives) :
    (t.edit op).store.isAlive h = (x.edit h op).lives := by
  have hsound := (moves ht.tidy ha).sound ht hw
  -- Of a handle that was given out, life is told from what was destroyed, on either side.
  have hlives : h ∉ t.destroyed ↔ x.lives = true := by rw [← hx, ht.recorded.isAlive_iff hm]
  rw [Bool.eq_iff_iff, hsound.recorded.isAlive_iff (issued_subset_edit t op hm), destroyed_edit,
    Tenant.lives_edit]
  cases op with
  | destroy g =>
      by_cases hg : g = h
      · subst hg
        cases hl : x.lives <;> simp_all
      · cases hl : t.store.isAlive g <;> simp [hl, hg, Ne.symm hg, hlives]
  | _ => exact hlives

theorem store_edit_add (t : History C) (g : Handle) (c : C) :
    (t.edit (.add g c)).store = t.store.changed g (·.insert c) fun _ => true := by
  cases hc : t.store.change g (·.insert c) fun _ => true <;>
    simp [edit, Store.add, Store.changed, hc, Except.map, withStore]

theorem store_edit_remove (t : History C) (g : Handle) (k : Kind) :
    (t.edit (.remove g k)).store =
      t.store.changed g (·.erase k) fun e => (e.get? k).isSome := by
  cases hc : t.store.change g (·.erase k) fun e => (e.get? k).isSome <;>
    simp [edit, Store.remove, Store.changed, hc, Except.map, withStore]

/-- The record of a visible entity is what the operations on it make. -/
theorem Sound.seen?_edit (ht : t.Sound) (hx : t.store.Houses h x) :
    (t.edit op).store.seen? h = some (x.edit h op).record := by
  cases op with
  | create cs =>
      simp only [edit, Tenant.edit]
      cases hc : t.store.create cs with
      | error why => exact hx.seen?_eq
      | ok result =>
          obtain ⟨hcreates, -⟩ := Store.creates_of_ok ht.tidy.toBounded hc
          exact (hcreates.seen?_eq h).trans hx.seen?_eq
  | destroy g =>
      have hrecord : (x.edit h (.destroy g)).record = x.record := by
        simp only [Tenant.edit]
        split <;> rfl
      rw [hrecord, ← hx.seen?_eq]
      simp only [edit]
      cases hd : t.store.destroy g with
      | error why => rfl
      | ok s =>
          obtain ⟨slot, hslot, -, hdestroys⟩ := Store.destroys_of_ok hd
          exact hdestroys.seen?_eq hslot h
  | add g c =>
      rw [store_edit_add, Store.seen?_changed _ (fun e => e.handle_insert c) hx.seen?_eq,
        hx.isAlive_eq]
      simp only [Tenant.edit]
      split <;> rfl
  | remove g k =>
      rw [store_edit_remove, Store.seen?_changed _ (fun e => e.handle_erase k) hx.seen?_eq,
        hx.isAlive_eq]
      simp only [Tenant.edit]
      split <;> rfl
  | modify g k f =>
      have hrewrites := Store.rewrites_modify t.store g k f
      show (t.store.modify g k f).seen? h = _
      rw [hrewrites.seen?_eq fun _ => rfl]
      by_cases hg : g = h
      · simp [Tenant.edit, hg, hx.seen?_eq]
      · simp [Tenant.edit, hg, Ne.symm hg, hx.seen?_eq]

theorem Sound.houses_edit (ht : t.Sound) (hm : h ∈ t.issued) (hx : t.store.Houses h x)
    (ha : t.Admits op) (hw : (t.edit op).Unworn) : (t.edit op).store.Houses h (x.edit h op) :=
  ⟨ht.seen?_edit hx, ht.isAlive_edit hm ha hw hx.isAlive_eq⟩

/-! ## Many operations -/

def editAll (t : History C) (ops : List (Edit C)) : History C := ops.foldl edit t

/-- Each of many operations names a handle that the store gave out before, or none. -/
def AdmitsAll (t : History C) : List (Edit C) → Prop
  | [] => True
  | op :: ops => t.Admits op ∧ (t.edit op).AdmitsAll ops

theorem editAll_append (t : History C) (ops later : List (Edit C)) :
    t.editAll (ops ++ later) = (t.editAll ops).editAll later := List.foldl_append

theorem admitsAll_append :
    t.AdmitsAll (ops ++ later) ↔ t.AdmitsAll ops ∧ (t.editAll ops).AdmitsAll later := by
  induction ops generalizing t with
  | nil => simp [AdmitsAll, editAll]
  | cons op ops ih => simp [AdmitsAll, ih, editAll, and_assoc]

theorem AdmitsAll.edits (ha : t.AdmitsAll ops) : t.Edits (t.editAll ops) := by
  induction ops using List.reverseRecOn with
  | nil => exact .refl
  | append_singleton ops op ih =>
      obtain ⟨hbefore, hlast, -⟩ := admitsAll_append.mp ha
      rw [editAll_append]
      exact (ih hbefore).edit op hlast

theorem suffix_destroyed_editAll (t : History C) (ops : List (Edit C)) :
    t.destroyed <:+ (t.editAll ops).destroyed := by
  induction ops generalizing t with
  | nil => exact List.suffix_refl _
  | cons op ops ih => exact (suffix_destroyed_edit t op).trans (ih _)

theorem issued_subset_editAll (t : History C) (ops : List (Edit C)) :
    t.issued ⊆ (t.editAll ops).issued := by
  induction ops generalizing t with
  | nil => exact List.Subset.refl _
  | cons op ops ih => exact fun h hm => ih _ (issued_subset_edit t op hm)

theorem Unworn.of_editAll (hw : (t.editAll (ops ++ later)).Unworn) : (t.editAll ops).Unworn := by
  rw [editAll_append] at hw
  exact hw.of_suffix (suffix_destroyed_editAll _ later)

/-- Until the next pass a store tells of a visible entity what the operations on it make. -/
theorem Sound.houses_editAll (ht : t.Sound) (hm : h ∈ t.issued) (hx : t.store.Houses h x)
    (ha : t.AdmitsAll ops) (hw : (t.editAll ops).Unworn) :
    (t.editAll ops).store.Houses h (x.editAll h ops) := by
  induction ops generalizing t x with
  | nil => exact hx
  | cons op ops ih =>
      obtain ⟨hfirst, hrest⟩ := ha
      have hw' : (t.edit op).Unworn := hw.of_suffix (suffix_destroyed_editAll _ ops)
      have hsound := (moves ht.tidy hfirst).sound ht hw'
      exact ih hsound (issued_subset_edit t op hm) (ht.houses_edit hm hx hfirst hw') hrest hw

/-- The main statement: what the store tells of an entity that is visible after a pass. -/
theorem Sound.resolves_editAll (ht : t.Sound) {e : Entity C} (he : e ∈ t.apply.store.visible)
    (ha : t.apply.AdmitsAll ops) (hw : (t.apply.editAll ops).Unworn) :
    (t.apply.editAll ops).store.Resolves e.handle (Tenant.editAll e.handle ⟨true, e⟩ ops) := by
  have hm : e.handle ∈ t.apply.issued :=
    ht.apply.issued_of_seen (List.mem_toFinset.mpr (List.mem_map_of_mem he))
  exact (ht.apply.houses_editAll hm (ht.houses_apply he) ha hw).resolves

/-- The handle of an entity that is created after some operations was not visible before them. -/
theorem Sound.not_seen_of_create (ht : t.Sound) (ha : t.AdmitsAll ops)
    (hw : (t.editAll ops).Unworn) {cs : List C} {s : Store C}
    (hc : (t.editAll ops).store.create cs = .ok (h, s)) : h ∉ t.store.seen := by
  have hsound := ha.edits.reaches.sound ht hw
  obtain ⟨hcreates, htakes⟩ := Store.creates_of_ok hsound.tidy.toBounded hc
  have hnew := hsound.recorded.not_issued_of_creates hcreates htakes
  exact fun hseen => hnew (issued_subset_editAll t ops (ht.issued_of_seen hseen))

end Edits

end History

end Realm
