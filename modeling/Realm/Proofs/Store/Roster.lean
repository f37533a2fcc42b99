import Realm.Proofs.Store.Ledger

/-!
# The roster of a store

A roster is the plain account of a store: for each handle that was given out at most one entry, with
where the entity stands and the component of each kind. It knows nothing of slots, generations,
masks and noted changes. Reading the roster off a store commutes with every operation.
-/

namespace Realm

variable {C : Type}

/-- Where an entity stands: created and not yet seen, seen, or destroyed and still seen. -/
inductive Standing where
  | pending
  | visible
  | doomed
  deriving DecidableEq, Repr

structure Entry (C : Type) where
  standing : Standing
  components : Kind → Option C

/-- A plain account of the entities of a store. -/
structure Roster (C : Type) where
  issued : List Handle
  listed? : Handle → Option (Entry C)

namespace Entry

def write (e : Entry C) (k : Kind) (c : Option C) : Entry C :=
  { e with components := fun other => if other = k then c else e.components other }

def doom (e : Entry C) : Option (Entry C) :=
  match e.standing with
  | .pending => none
  | _ => some { e with standing := .doomed }

def settle (e : Entry C) : Option (Entry C) :=
  match e.standing with
  | .doomed => none
  | _ => some { e with standing := .visible }

def mask (e : Entry C) : Mask := Mask.ofList (Kind.all.filter fun k => (e.components k).isSome)

end Entry

namespace Roster

def empty : Roster C := ⟨[], fun _ => none⟩

def put (r : Roster C) (h : Handle) (entry : Option (Entry C)) : Roster C :=
  { r with listed? := fun other => if other = h then entry else r.listed? other }

def living? (r : Roster C) (h : Handle) : Option (Entry C) :=
  (r.listed? h).filter fun e => e.standing ≠ .doomed

/-! ### Looking -/

def get? (r : Roster C) (h : Handle) (k : Kind) : Option C :=
  (r.listed? h).bind fun e => e.components k

def mask? (r : Roster C) (h : Handle) : Option Mask := (r.listed? h).map Entry.mask

def isAlive (r : Roster C) (h : Handle) : Bool := (r.living? h).isSome

def seen (r : Roster C) (h : Handle) : Bool :=
  (r.listed? h).any fun e => e.standing ≠ .pending

/-- What systems see, in the order of the identities. -/
def visible (r : Roster C) : List (Handle × Mask × (Kind → Option C)) :=
  ((r.issued.filter r.seen).mergeSort fun a b => a.id ≤ b.id).filterMap fun h =>
    (r.listed? h).map fun e => (h, e.mask, e.components)

/-! ### Changing -/

/-- Enters a new handle, with the last one of the components of each kind. -/
def create [Component C] (r : Roster C) (h : Handle) (cs : List C) : Roster C :=
  let entry : Entry C := ⟨.pending, fun k => (cs.filter fun c => Component.kind c = k).getLast?⟩
  { r.put h (some entry) with issued := h :: r.issued }

/-- Strikes a pending entry, and dooms a visible one. -/
def destroy (r : Roster C) (h : Handle) : Except WorldError (Roster C) :=
  match r.living? h with
  | some e => .ok (r.put h e.doom)
  | none => .error (.stale h)

def add [Component C] (r : Roster C) (h : Handle) (c : C) :
    Except WorldError (Option C × Roster C) :=
  match r.living? h with
  | some e =>
    .ok (e.components (Component.kind c), r.put h (some (e.write (Component.kind c) (some c))))
  | none => .error (.stale h)

def remove (r : Roster C) (h : Handle) (k : Kind) : Except WorldError (Option C × Roster C) :=
  match r.living? h with
  | some e => .ok (e.components k, r.put h (some (e.write k none)))
  | none => .error (.stale h)

/-- Rewrites a component in place, also that of a doomed entity. -/
def modify (r : Roster C) (h : Handle) (k : Kind) (f : C → C) : Roster C :=
  r.put h ((r.listed? h).map fun e => e.write k ((e.components k).map f))

/-- Strikes the doomed entries and makes the pending ones visible. -/
def apply (r : Roster C) : Roster C :=
  { r with listed? := fun h => (r.listed? h).bind Entry.settle }

/-- The roster after an operation; a new entity is entered under the handle that was given. -/
def edit [Component C] (r : Roster C) (given : Option Handle) : Edit C → Roster C
  | .create cs => (given.map fun h => r.create h cs).getD r
  | .destroy h => ((r.destroy h).toOption).getD r
  | .add h c => ((r.add h c).toOption.map (·.2)).getD r
  | .remove h k => ((r.remove h k).toOption.map (·.2)).getD r
  | .modify h k f => r.modify h k f

end Roster

/-! ## Reading the roster off a store -/

namespace Slot

def listed? (slot : Slot C) (h : Handle) : Option (Entry C) :=
  match Entity.matching h slot.visible, Entity.matching h slot.pending with
  | some e, _ =>
    some ⟨if h.generation = slot.generation then .visible else .doomed, e.get?⟩
  | none, some e => some ⟨.pending, e.get?⟩
  | none, none => none

section Entry

variable {slot : Slot C} {h other : Handle} {e : Entity C} {id : UInt32} {free : Prop}

theorem listed?_of_visible (hv : slot.visible = some e) (hh : e.handle = h) :
    slot.listed? h =
      some ⟨if h.generation = slot.generation then .visible else .doomed, e.get?⟩ := by
  rw [listed?, Entity.matching_eq_some_iff.mpr ⟨hv, hh⟩]

theorem listed?_of_pending (hs : slot.shown ≠ some h) (hp : slot.pending = some e)
    (hh : e.handle = h) : slot.listed? h = some ⟨.pending, e.get?⟩ := by
  rw [listed?, Entity.matching_eq_none_iff.mpr hs, Entity.matching_eq_some_iff.mpr ⟨hp, hh⟩]

theorem listed?_of_absent (hs : slot.shown ≠ some h) (hw : slot.waiting ≠ some h) :
    slot.listed? h = none := by
  rw [listed?, Entity.matching_eq_none_iff.mpr hs, Entity.matching_eq_none_iff.mpr hw]

/-- A handle is that of the visible record, else that of the waiting one, else of none. -/
theorem handle_cases (slot : Slot C) (h : Handle) :
    (∃ e, slot.visible = some e ∧ e.handle = h) ∨
      (slot.shown ≠ some h ∧ ∃ e, slot.pending = some e ∧ e.handle = h) ∨
      (slot.shown ≠ some h ∧ slot.waiting ≠ some h) := by
  by_cases hs : slot.shown = some h
  · exact .inl (Option.map_eq_some_iff.mp hs)
  · by_cases hw : slot.waiting = some h
    · exact .inr (.inl ⟨hs, Option.map_eq_some_iff.mp hw⟩)
    · exact .inr (.inr ⟨hs, hw⟩)

theorem listed?_await (hw : slot.waiting = none) (hs : slot.shown ≠ some e.handle) :
    (slot.await e).listed? h =
      if h = e.handle then some ⟨.pending, e.get?⟩ else slot.listed? h := by
  by_cases hh : h = e.handle
  · rw [if_pos hh]
    exact listed?_of_pending (hh ▸ hs) rfl hh.symm
  · rw [if_neg hh]
    rcases slot.handle_cases h with ⟨old, hv, ho⟩ | ⟨-, old, hp, -⟩ | ⟨hs', hw'⟩
    · rw [listed?_of_visible hv ho]
      exact listed?_of_visible hv ho
    · simp [waiting, hp] at hw
    · rw [listed?_of_absent hs' hw']
      refine listed?_of_absent hs' ?_
      intro heq
      exact hh (Option.some.inj heq).symm

theorem listed?_release (ht : slot.Tidy id free) (hcur : h = slot.current id)
    (hg : slot.generation.toNat + 1 < 2 ^ 32) :
    (slot.release h).listed? other =
      if other = h then (slot.listed? h).bind Entry.doom else slot.listed? other := by
  have hnext := toNat_generation_release h hg
  have hgone : ∀ e, slot.visible = some e →
      ¬ e.handle.generation = (slot.release h).generation := by
    intro e hv heq
    have hle := (ht.shown_le e.handle (shown_of_visible hv)).2
    rw [heq, hnext] at hle
    omega
  by_cases hh : other = h
  · rw [if_pos hh, hh]
    rcases slot.handle_cases h with ⟨e, hv, he⟩ | ⟨hs, e, hp, he⟩ | ⟨hs, hw⟩
    · have hgen : h.generation = slot.generation := (eq_current_iff.mp hcur).2
      have hnew : (slot.release h).listed? h = some ⟨_, e.get?⟩ := listed?_of_visible hv he
      rw [listed?_of_visible hv he, hnew, if_neg (he ▸ hgone e hv), if_pos hgen]
      rfl
    · rw [listed?_of_pending hs hp he]
      have hw : slot.waiting = some h := he ▸ waiting_of_pending hp
      refine listed?_of_absent hs ?_
      simp [hw]
    · rw [listed?_of_absent hs hw]
      refine listed?_of_absent hs ?_
      simp [hw]
  · rw [if_neg hh]
    rcases slot.handle_cases other with ⟨e, hv, he⟩ | ⟨hs, e, hp, he⟩ | ⟨hs, hw⟩
    · have hold : ¬ other.generation = slot.generation := by
        intro heq
        have hid := (ht.shown_le other (he ▸ shown_of_visible hv)).1
        exact hh (hcur ▸ eq_current_iff.mpr ⟨hid, heq⟩)
      have hnew : (slot.release h).listed? other = some ⟨_, e.get?⟩ := listed?_of_visible hv he
      rw [listed?_of_visible hv he, hnew, if_neg (he ▸ hgone e hv), if_neg hold]
    · have hw : slot.waiting = some other := he ▸ waiting_of_pending hp
      exact absurd ((ht.of_waiting hw).1.trans hcur.symm) hh
    · rw [listed?_of_absent hs hw]
      refine listed?_of_absent hs ?_
      rw [waiting_release]
      split
      · simp
      · exact hw

theorem listed?_modify {f : Entity C → Entity C} {g : Entry C → Entry C}
    (hf : ∀ e, (f e).handle = e.handle)
    (hg : ∀ (e : Entity C) standing, g ⟨standing, e.get?⟩ = ⟨standing, (f e).get?⟩) :
    (slot.modify h f).listed? other =
      if other = h then (slot.listed? h).map g else slot.listed? other := by
  have hshown := shown_modify hf slot h
  rcases slot.handle_cases h with ⟨e, hv, he⟩ | ⟨hs, e, hp, he⟩ | ⟨hs, hw⟩
  · have hs : slot.shown = some h := he ▸ shown_of_visible hv
    have hnew : slot.modify h f = { slot with visible := some (f e) } := by
      rw [modify_eq, if_pos hs, hv]
      rfl
    by_cases hh : other = h
    · rw [if_pos hh, hh, listed?_of_visible hv he, Option.map_some, hg,
        listed?_of_visible (by rw [hnew]) ((hf e).trans he), hnew]
    · have hne : e.handle ≠ other := fun heq => hh (heq.symm.trans he)
      have hne' : (f e).handle ≠ other := (hf e).trans_ne hne
      rw [if_neg hh, listed?, listed?, hnew, hv, Entity.matching_of_ne hne,
        Entity.matching_of_ne hne']
  · have hnew : slot.modify h f = { slot with pending := some (f e) } := by
      have hw : slot.waiting = some h := he ▸ waiting_of_pending hp
      rw [modify_eq, if_neg hs, if_pos hw, hp]
      rfl
    by_cases hh : other = h
    · rw [if_pos hh, hh, listed?_of_pending hs hp he, Option.map_some, hg,
        listed?_of_pending (hshown ▸ hs) (by rw [hnew]) ((hf e).trans he)]
    · have hne : e.handle ≠ other := fun heq => hh (heq.symm.trans he)
      have hne' : (f e).handle ≠ other := (hf e).trans_ne hne
      rw [if_neg hh, listed?, listed?, hnew, hp, Entity.matching_of_ne hne,
        Entity.matching_of_ne hne']
  · have hnew : slot.modify h f = slot := by rw [modify_eq, if_neg hs, if_neg hw]
    rw [hnew]
    by_cases hh : other = h
    · rw [if_pos hh, hh, listed?_of_absent hs hw]
      rfl
    · rw [if_neg hh]

theorem listed?_settle (ht : slot.Tidy id free) :
    slot.settle.listed? h = (slot.listed? h).bind Entry.settle := by
  rcases slot.handle_cases h with ⟨e, hv, he⟩ | ⟨hs, e, hp, he⟩ | ⟨hs, hw⟩
  · have hshown : slot.shown = some h := he ▸ shown_of_visible hv
    rw [listed?_of_visible hv he]
    by_cases hgen : h.generation = slot.generation
    · have hcur : h = slot.current id := eq_current_iff.mpr ⟨(ht.shown_le h hshown).1, hgen⟩
      have hw := (ht.of_shown_current (hcur ▸ hshown)).2
      have hkept : slot.settle.visible = some e := by
        have hp : slot.pending = none := Option.map_eq_none_iff.mp hw
        simp [settle, hp, hv, he, hgen]
      rw [listed?_of_visible hkept he, generation_settle, if_pos hgen]
      rfl
    · have hw : slot.waiting ≠ some h := by
        intro hw
        exact hgen (eq_current_iff.mp (ht.of_waiting hw).1).2
      rw [if_neg hgen, listed?_of_absent ?_ (by simp)]
      · rfl
      · rw [shown_settle, hshown]
        simpa [Option.filter_some, hgen] using hw
  · have hw : slot.waiting = some h := he ▸ waiting_of_pending hp
    have hgen : h.generation = slot.generation := (eq_current_iff.mp (ht.of_waiting hw).1).2
    have hnew : slot.settle.visible = some e := by simp [settle, hp]
    rw [listed?_of_pending hs hp he, listed?_of_visible hnew he, generation_settle, if_pos hgen]
    rfl
  · rw [listed?_of_absent hs hw, listed?_of_absent ?_ (by simp)]
    · rfl
    · rw [shown_settle, ne_eq, Option.or_eq_some_iff, not_or]
      refine ⟨hw, ?_⟩
      rintro ⟨-, hkept⟩
      exact hs (Option.filter_eq_some_iff.mp hkept).1

end Entry

end Slot

namespace Store

def listed? (s : Store C) (h : Handle) : Option (Entry C) := (s.at? h.id).bind (·.listed? h)

section Squares

variable {s s' : Store C} {h : Handle}

theorem listed?_of_at? {slot : Slot C} (hs : s.at? h.id = some slot) :
    s.listed? h = slot.listed? h := by
  simp [listed?, hs]

/-- An operation on one slot that changes the entry of one handle of the slot. -/
theorem listed?_eq_of_at?_eq {entry : Option (Entry C)}
    (hout : ∀ id, id ≠ h.id → s'.at? id = s.at? id)
    (hnew : ∀ other, other.id = h.id →
      s'.listed? other = if other = h then entry else s.listed? other) :
    s'.listed? = fun other => if other = h then entry else s.listed? other := by
  funext other
  by_cases hid : other.id = h.id
  · exact hnew other hid
  · have hne : other ≠ h := fun heq => hid (heq ▸ rfl)
    rw [if_neg hne, Store.listed?, Store.listed?, hout other.id hid]

theorem Creates.listed?_eq [Component C] {cs : List C} (hc : s.Creates cs h s') (ht : s.Tidy)
    (htake : s.Takes h.id s') :
    s'.listed? = fun other =>
      if other = h then some ⟨.pending, (Entity.ofComponents h cs).get?⟩ else s.listed? other := by
  have htaken := ht.slotOrFresh_of_takes htake
  have hcur : h = (s.slotOrFresh h.id).current h.id :=
    Slot.eq_current_iff.mpr ⟨rfl, hc.generation_eq⟩
  refine listed?_eq_of_at?_eq (fun id hid => by rw [hc.at?_eq, if_neg hid]) ?_
  intro other hid
  have hhandle : (Entity.ofComponents h cs).handle = h := Entity.handle_ofComponents h cs
  have hold : s.listed? other = (s.slotOrFresh h.id).listed? other := by
    rw [Store.listed?, hid]
    cases hslot : s.at? h.id with
    | none => simp [slotOrFresh, hslot, Slot.fresh, Slot.listed?, Entity.matching]
    | some slot => simp [slotOrFresh, hslot]
  have hat : s'.at? other.id = some ((s.slotOrFresh h.id).await (.ofComponents h cs)) := by
    rw [hc.at?_eq, if_pos hid]
  rw [listed?_of_at? hat, Slot.listed?_await (htaken.of_free trivial).1, hhandle, hold]
  rw [hhandle, hcur]
  exact (htaken.of_free trivial).2

theorem Destroys.listed?_eq {slot : Slot C} (hd : s.Destroys h slot s') (ht : s.Tidy)
    (hslot : s.at? h.id = some slot) (hcur : h = slot.current h.id)
    (hg : slot.generation.toNat + 1 < 2 ^ 32) :
    s'.listed? = fun other =>
      if other = h then (s.listed? h).bind Entry.doom else s.listed? other := by
  refine listed?_eq_of_at?_eq (fun id hid => by rw [hd.at?_eq, if_neg hid]) ?_
  intro other hid
  have hat : s'.at? other.id = some (slot.release h) := by rw [hd.at?_eq, if_pos hid]
  have hold : s.at? other.id = some slot := hid ▸ hslot
  rw [listed?_of_at? hat, listed?_of_at? hslot, listed?_of_at? hold]
  exact Slot.listed?_release (ht.slot h.id slot hslot) hcur hg

theorem Rewrites.listed?_eq {f : Entity C → Entity C} {g : Entry C → Entry C} {noted : Prop}
    (hr : s.Rewrites h f noted s') (hf : ∀ e, (f e).handle = e.handle)
    (hg : ∀ (e : Entity C) standing, g ⟨standing, e.get?⟩ = ⟨standing, (f e).get?⟩) :
    s'.listed? = fun other => if other = h then (s.listed? h).map g else s.listed? other := by
  refine listed?_eq_of_at?_eq (fun id hid => by rw [hr.at?_eq, if_neg hid]) ?_
  intro other hid
  rw [Store.listed?, Store.listed?, Store.listed?, hr.at?_eq, if_pos hid, hid]
  cases hslot : s.at? h.id with
  | none => simp
  | some slot => exact Slot.listed?_modify hf hg

theorem listed?_apply (ht : s.Tidy) (hq : s.Queued s.changes.toList) :
    s.apply.2.listed? = fun h => (s.listed? h).bind Entry.settle := by
  funext h
  rw [Store.listed?, Store.listed?, at?_apply ht hq]
  cases hslot : s.at? h.id with
  | none => rfl
  | some slot => exact Slot.listed?_settle (ht.slot h.id slot hslot)

end Squares

end Store

namespace History

def roster (t : History C) : Roster C := ⟨t.issued, t.store.listed?⟩

end History

end Realm
