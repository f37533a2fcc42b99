import Mathlib.Data.Finset.Card
import Realm.Proofs.Entity.Record

/-!
# Masks as finite sets

A mask stands for the finite set of the kinds in it. Each operation on masks is the operation on
sets of the same name, each test of masks is a test of the sets, and different masks stand for
different sets.

Main statement: a mask that is built in any number of steps is faithful to the set that the same
steps build, whatever the order in which kinds are named and however often; and components announce
the mask of the entity that is made of them.
-/

namespace Realm.Mask

variable {k : Kind} {a b m : Mask}

def kinds (m : Mask) : Finset Kind := m.toList.toFinset

@[simp] theorem mem_kinds : k ∈ m.kinds ↔ m.contains k = true := by
  simp [kinds, toList, Kind.mem_all]

/-! ## Operations -/

@[simp] theorem kinds_single (k : Kind) : (single k).kinds = {k} := by
  ext other
  simp

@[simp] theorem kinds_insert (m : Mask) (k : Kind) :
    (m.insert k).kinds = Insert.insert k m.kinds := by
  ext other
  simp [or_comm]

@[simp] theorem kinds_erase (m : Mask) (k : Kind) : (m.erase k).kinds = m.kinds.erase k := by
  ext other
  simp [and_comm]

@[simp] theorem kinds_union (a b : Mask) : (a.union b).kinds = a.kinds ∪ b.kinds := by
  ext other
  simp

/-- Of kinds that are put in one after the other only the set matters. -/
theorem kinds_insertAll (m : Mask) (kinds : List Kind) :
    (kinds.foldl insert m).kinds = m.kinds ∪ kinds.toFinset := by
  ext other
  simp [contains_insertAll]

@[simp] theorem kinds_ofList (kinds : List Kind) : (ofList kinds).kinds = kinds.toFinset := by
  ext other
  simp [contains_ofList]

/-! ## Tests -/

theorem kinds_inj : a.kinds = b.kinds ↔ a = b := by
  constructor
  · intro h
    apply eq_of_contains_eq
    intro k
    rw [Bool.eq_iff_iff, ← mem_kinds, h, mem_kinds]
  · intro h
    rw [h]

theorem isEmpty_iff_kinds (m : Mask) : m.isEmpty = true ↔ m.kinds = ∅ := by
  rw [isEmpty_iff, Finset.eq_empty_iff_forall_notMem]
  simp only [mem_kinds, Bool.not_eq_true]

theorem card_kinds (m : Mask) : m.kinds.card = m.size := by
  have hnodup : m.toList.Nodup := Kind.nodup_all.filter _
  rw [kinds, List.toFinset_card_of_nodup hnodup, length_toList]

/-- The last position counts as the others do, and a repetition does not. -/
example : (ofList ([0, 63, 0].filterMap Kind.ofNat?)).size = 2 := by cbv

/-- Two chains of insertions end in the same mask when they name the same new kinds. -/
theorem insertAll_eq_iff (m : Mask) (kinds others : List Kind) :
    kinds.foldl insert m = others.foldl insert m ↔
      ∀ k, k ∉ m.kinds → (k ∈ kinds ↔ k ∈ others) := by
  rw [← kinds_inj, kinds_insertAll, kinds_insertAll, Finset.ext_iff]
  apply forall_congr'
  intro k
  rw [Finset.mem_union, Finset.mem_union, List.mem_toFinset, List.mem_toFinset]
  tauto

theorem ofList_eq_iff (kinds others : List Kind) :
    ofList kinds = ofList others ↔ ∀ k, k ∈ kinds ↔ k ∈ others := by
  rw [ofList, ofList, insertAll_eq_iff]
  simp

/-! ## Masks built in steps -/

/-- A way to build a mask. A sequence of steps is a term that starts from a list, and what is united
with it is built in the same way. -/
inductive Term where
  | ofList (kinds : List Kind)
  | single (k : Kind)
  | insert (t : Term) (k : Kind)
  | erase (t : Term) (k : Kind)
  | union (t u : Term)

namespace Term

def mask : Term → Mask
  | ofList kinds => .ofList kinds
  | single k => .single k
  | insert t k => t.mask.insert k
  | erase t k => t.mask.erase k
  | union t u => t.mask.union u.mask

/-- The set that the same steps end in, done with sets. -/
def kinds : Term → Finset Kind
  | ofList kinds => kinds.toFinset
  | single k => {k}
  | insert t k => Insert.insert k t.kinds
  | erase t k => t.kinds.erase k
  | union t u => t.kinds ∪ u.kinds

@[simp] theorem kinds_mask (t : Term) : t.mask.kinds = t.kinds := by
  induction t with
  | ofList kinds => exact kinds_ofList kinds
  | single k => exact kinds_single k
  | insert t k ih => rw [mask, kinds_insert, ih, kinds]
  | erase t k ih => rw [mask, kinds_erase, ih, kinds]
  | union t u iht ihu => rw [mask, kinds_union, iht, ihu, kinds]

/-- Masks behave as the sets that the same steps build. -/
structure Faithful (t u : Term) : Prop where
  contains_iff : ∀ k, t.mask.contains k = true ↔ k ∈ t.kinds
  /-- The word has its bits at the positions of the kinds, and nowhere else. -/
  testBit_iff : ∀ i, t.mask.bits.toNat.testBit i = true ↔ ∃ k ∈ t.kinds, k.index = i
  intersects_iff : t.mask.intersects u.mask = true ↔ ∃ k, k ∈ t.kinds ∧ k ∈ u.kinds
  isEmpty_iff : t.mask.isEmpty = true ↔ t.kinds = ∅
  size_eq : t.mask.size = t.kinds.card
  eq_iff : t.mask = u.mask ↔ ∀ k, t.mask.contains k = u.mask.contains k
  /-- A list counts by what is in it, and neither by its order nor by repetitions. -/
  ofList_eq_iff : ∀ kinds others : List Kind,
    Mask.ofList kinds = Mask.ofList others ↔ ∀ k, k ∈ kinds ↔ k ∈ others
  /-- The same holds of kinds that are inserted one after the other. -/
  insertAll_eq_iff : ∀ kinds others : List Kind,
    kinds.foldl Mask.insert t.mask = others.foldl Mask.insert t.mask ↔
      ∀ k, k ∉ t.kinds → (k ∈ kinds ↔ k ∈ others)

/-- Masks are faithful to sets, and components announce the mask of their entity. -/
theorem stands_for_kinds (t u : Term) {C : Type} [Component C] (h : Handle) (components : List C) :
    t.Faithful u ∧
      Entity.maskOf components = (Entity.ofComponents h components).mask ∧
      Entity.maskOf components = (Term.ofList (components.map Component.kind)).mask := by
  refine ⟨?_, (Entity.mask_ofComponents h components).symm, Entity.maskOf_eq_ofList components⟩
  have hcontains : ∀ (s : Term) (k : Kind), s.mask.contains k = true ↔ k ∈ s.kinds := by
    intro s k
    rw [← mem_kinds, kinds_mask]
  exact
    { contains_iff := hcontains t
      testBit_iff := fun i => by
        rw [testBit_bits]
        simp only [hcontains]
      intersects_iff := by
        rw [Mask.intersects_iff]
        simp only [hcontains]
      isEmpty_iff := by rw [isEmpty_iff_kinds, kinds_mask]
      size_eq := by rw [← card_kinds, kinds_mask]
      eq_iff := ⟨fun heq k => by rw [heq], eq_of_contains_eq⟩
      ofList_eq_iff := Mask.ofList_eq_iff
      insertAll_eq_iff := fun kinds others => by
        rw [Mask.insertAll_eq_iff, kinds_mask] }

end Term

end Realm.Mask
