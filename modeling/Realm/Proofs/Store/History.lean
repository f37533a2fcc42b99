import Realm.Proofs.Store.Apply

/-!
# Histories of a store

A store is followed together with the handles it gave out and the handles of the entities that were
destroyed. The owner of a store may do anything with it, but names only handles that the store gave
out. A failed operation leaves the store as it was.
-/

namespace Realm

variable {C : Type}

/-- An operation on a store other than `apply`. -/
inductive Edit (C : Type) where
  | create (components : List C)
  | destroy (h : Handle)
  | add (h : Handle) (c : C)
  | remove (h : Handle) (k : Kind)
  | modify (h : Handle) (k : Kind) (f : C → C)

def Edit.handle? : Edit C → Option Handle
  | .create _ => none
  | .destroy h => some h
  | .add h _ => some h
  | .remove h _ => some h
  | .modify h _ _ => some h

/-- A store with the handles it gave out and those of destroyed entities, the last ones first. -/
structure History (C : Type) where
  store : Store C
  issued : List Handle
  destroyed : List Handle

namespace History

def start (capacity : UInt32) : History C := ⟨.empty capacity, [], []⟩

/-- The handle that an operation names was given out by the store. -/
def Admits (t : History C) (e : Edit C) : Prop := ∀ h, e.handle? = some h → h ∈ t.issued

def withStore (t : History C) (store : Store C) : History C := { t with store }

def edit [Component C] (t : History C) : Edit C → History C
  | .create cs =>
    match t.store.create cs with
    | .ok (h, s) => ⟨s, h :: t.issued, t.destroyed⟩
    | .error _ => t
  | .destroy h =>
    match t.store.destroy h with
    | .ok s => ⟨s, t.issued, h :: t.destroyed⟩
    | .error _ => t
  | .add h c =>
    match t.store.add h c with
    | .ok (_, s) => t.withStore s
    | .error _ => t
  | .remove h k =>
    match t.store.remove h k with
    | .ok (_, s) => t.withStore s
    | .error _ => t
  | .modify h k f => t.withStore (t.store.modify h k f)

/-- The history after everything that was noted is applied. -/
def apply (t : History C) : History C := t.withStore t.store.apply.2

/-- One history comes from another by operations without `apply`. -/
inductive Edits [Component C] (t : History C) : History C → Prop
  | refl : Edits t t
  | edit {u : History C} (before : Edits t u) (e : Edit C) (admits : u.Admits e) :
      Edits t (u.edit e)

inductive Reaches [Component C] (t : History C) : History C → Prop
  | refl : Reaches t t
  | edit {u : History C} (before : Reaches t u) (e : Edit C) (admits : u.Admits e) :
      Reaches t (u.edit e)
  | apply {u : History C} (before : Reaches t u) : Reaches t u.apply

/-- No identity was destroyed so often that its generations started over. -/
def Unworn (t : History C) : Prop := ∀ id, (t.destroyed.countP fun h => h.id = id) < 2 ^ 32

/-! ## What an operation can do -/

/-- What an operation other than `apply` can do to a history. -/
inductive Moves [Component C] (t : History C) : History C → Prop
  | refused : Moves t t
  | created {cs : List C} {h : Handle} {s : Store C} (creates : t.store.Creates cs h s)
      (takes : t.store.Takes h.id s) : Moves t ⟨s, h :: t.issued, t.destroyed⟩
  | destroyed {h : Handle} {slot : Slot C} {s : Store C} (genuine : h ∈ t.issued)
      (found : t.store.at? h.id = some slot) (current : h = slot.current h.id)
      (destroys : t.store.Destroys h slot s) : Moves t ⟨s, t.issued, h :: t.destroyed⟩
  | rewritten {h : Handle} {f : Entity C → Entity C} {noted : Prop} {s : Store C}
      (rewrites : t.store.Rewrites h f noted s) (handle : ∀ e, (f e).handle = e.handle)
      (tracked : ∀ e, e.Tracked → (f e).Tracked)
      (current : noted → ∃ slot, t.store.at? h.id = some slot ∧ h = slot.current h.id ∧
        slot.shown = some h)
      (quiet : ¬ noted → ∀ slot e, t.store.at? h.id = some slot → slot.visible = some e →
        e.handle = h → (f e).mask = e.mask) : Moves t (t.withStore s)

theorem moves_change [Component C] {t : History C} {h : Handle} {f : Entity C → Entity C}
    {matters : Entity C → Bool} {e : Entity C} {s : Store C}
    (hc : t.store.change h f matters = .ok (e, s)) (handle : ∀ e, (f e).handle = e.handle)
    (tracked : ∀ e, e.Tracked → (f e).Tracked) (quiet : matters e = false → (f e).mask = e.mask) :
    t.Moves (t.withStore s) := by
  obtain ⟨slot, hslot, hcur, hfind, hr⟩ := Store.rewrites_of_ok hc
  refine .rewritten hr handle tracked ?_ ?_
  · intro hnoted
    exact ⟨slot, hslot, hcur, hnoted.1⟩
  · intro hquiet other e' hother hvisible hhandle
    rw [hslot] at hother
    obtain rfl := Option.some.inj hother
    have hshown : slot.shown = some h := hhandle ▸ Slot.shown_of_visible hvisible
    have heq : e' = e := by
      rcases Slot.find?_eq_some_iff.mp hfind with ⟨hv, -⟩ | ⟨hne, -⟩
      · exact Option.some.inj (hvisible.symm.trans hv)
      · exact absurd hshown hne
    rw [heq]
    refine quiet ?_
    cases hm : matters e with
    | false => rfl
    | true => exact absurd ⟨hshown, hm⟩ hquiet

/-- An operation on a handle that was given out does one of the four things. -/
theorem moves [Component C] {t : History C} {e : Edit C} (ht : t.store.Tidy) (ha : t.Admits e) :
    t.Moves (t.edit e) := by
  cases e with
  | create cs =>
      unfold edit
      cases hc : t.store.create cs with
      | error e => simpa [hc] using Moves.refused
      | ok result =>
          obtain ⟨h, s⟩ := result
          obtain ⟨hcreates, htakes⟩ := Store.creates_of_ok ht.toBounded hc
          simpa [hc] using Moves.created hcreates htakes
  | destroy h =>
      unfold edit
      cases hd : t.store.destroy h with
      | error e => simpa [hd] using Moves.refused
      | ok s =>
          obtain ⟨slot, hslot, hcur, hdestroys⟩ := Store.destroys_of_ok hd
          simpa [hd] using Moves.destroyed (ha h rfl) hslot hcur hdestroys
  | add h c =>
      unfold edit Store.add
      cases hc : t.store.change h (·.insert c) (fun _ => true) with
      | error e => simpa [hc, Except.map] using Moves.refused
      | ok result =>
          obtain ⟨e, s⟩ := result
          simpa [hc, Except.map] using moves_change hc (fun _ => rfl)
            (fun _ he => he.insert c) (by simp)
  | remove h k =>
      unfold edit Store.remove
      cases hc : t.store.change h (·.erase k) (fun e => (e.get? k).isSome) with
      | error e => simpa [hc, Except.map] using Moves.refused
      | ok result =>
          obtain ⟨e, s⟩ := result
          obtain ⟨slot, hslot, -, hfind, -⟩ := Store.rewrites_of_ok hc
          have htracked : e.Tracked := by
            rcases Slot.find?_eq_some_iff.mp hfind with ⟨hv, -⟩ | ⟨-, hp, -⟩
            · exact ht.tracked h.id slot e hslot (.inl hv)
            · exact ht.tracked h.id slot e hslot (.inr hp)
          simpa [hc, Except.map] using moves_change hc (fun _ => rfl) (fun _ he => he.erase k)
            (fun hnone => htracked.mask_erase_of_none (by simpa using hnone))
  | modify h k f =>
      exact .rewritten (Store.rewrites_modify t.store h k f) (fun _ => rfl)
        (fun _ he => he.modify k f) (fun hnoted => hnoted.elim) (fun _ _ _ _ _ _ => rfl)

end History

end Realm
