import Mathlib.Algebra.Order.Ring.Nat
import Mathlib.Data.List.Nodup
import Realm.Entity.Mask

/-!
# Masks as sets of kinds

Membership in a mask is one bit of its word. Every operation on masks is described by what it does
to membership, and a mask is determined by its members, so nothing after this module looks at
words again.
-/

namespace Realm

theorem Kind.index_eq_iff {a b : Kind} : a.index = b.index ↔ a = b := by
  cases a
  cases b
  simp [index, Fin.val_inj]

theorem Kind.nodup_all : Kind.all.Nodup := by
  have hinj : Function.Injective Kind.mk := fun a b h => Kind.mk.inj h
  exact (List.nodup_finRange Kind.count).map hinj

namespace Mask

/-- The word of a single kind has just the bit at the position of the kind. -/
theorem getLsbD_single (k : Kind) (i : Nat) :
    (single k).bits.toBitVec.getLsbD i = decide (i = k.index) := by
  have hk : k.index < 64 := k.index_lt
  have hshift : (single k).bits.toBitVec = 1#64 <<< k.index := by
    simp [single, Nat.mod_eq_of_lt hk]
  rw [hshift, BitVec.getLsbD_shiftLeft, BitVec.getLsbD_one]
  by_cases hi : i = k.index
  · subst hi
    simp [hk]
  · have : ¬ (k.index ≤ i ∧ i - k.index = 0) := by omega
    simp only [hi, decide_false]
    grind

/-! ## Membership -/

/-- A kind is in a mask when its bit is set. -/
theorem contains_eq_getLsbD (m : Mask) (k : Kind) :
    m.contains k = m.bits.toBitVec.getLsbD k.index := by
  have hk : k.index < 64 := k.index_lt
  have hand : ∀ i, (m.bits &&& (single k).bits).toBitVec.getLsbD i =
      (m.bits.toBitVec.getLsbD i && decide (i = k.index)) := by
    intro i
    rw [UInt64.toBitVec_and, BitVec.getLsbD_and, getLsbD_single]
  cases hbit : m.bits.toBitVec.getLsbD k.index with
  | true =>
      have hne : m.bits &&& (single k).bits ≠ 0 := by
        intro hzero
        have := hand k.index
        simp [hzero, hbit] at this
      simpa [contains] using hne
  | false =>
      have hzero : m.bits &&& (single k).bits = 0 := by
        apply UInt64.eq_of_toBitVec_eq
        apply BitVec.eq_of_getLsbD_eq
        intro i _
        rw [hand i]
        by_cases hi : i = k.index <;> simp [hi, hbit]
      simp [contains, hzero]

@[simp] theorem contains_empty (k : Kind) : Mask.empty.contains k = false := by
  simp [contains_eq_getLsbD, Mask.empty]

@[simp] theorem contains_single (k other : Kind) :
    (single k).contains other = decide (other = k) := by
  rw [contains_eq_getLsbD, getLsbD_single]
  simp only [Kind.index_eq_iff]

@[simp] theorem contains_union (a b : Mask) (k : Kind) :
    (a.union b).contains k = (a.contains k || b.contains k) := by
  simp only [contains_eq_getLsbD, union, UInt64.toBitVec_or, BitVec.getLsbD_or]

@[simp] theorem contains_insert (m : Mask) (k other : Kind) :
    (m.insert k).contains other = (m.contains other || decide (other = k)) := by
  have hunion : m.insert k = m.union (single k) := rfl
  rw [hunion, contains_union, contains_single]

@[simp] theorem contains_erase (m : Mask) (k other : Kind) :
    (m.erase k).contains other = (m.contains other && !decide (other = k)) := by
  have hother : other.index < 64 := other.index_lt
  rw [contains_eq_getLsbD, contains_eq_getLsbD, erase, UInt64.toBitVec_and, BitVec.getLsbD_and,
    UInt64.toBitVec_not, BitVec.getLsbD_not, getLsbD_single]
  simp [hother, Kind.index_eq_iff]

/-- A mask is determined by the kinds in it. -/
theorem eq_of_contains_eq {a b : Mask} (h : ∀ k, a.contains k = b.contains k) : a = b := by
  have hbits : a.bits = b.bits := by
    apply UInt64.eq_of_toBitVec_eq
    apply BitVec.eq_of_getLsbD_eq
    intro i hi
    simpa [contains_eq_getLsbD, Kind.index] using h ⟨⟨i, hi⟩⟩
  cases a
  cases b
  simpa using hbits

/-- Taking away a kind that is not there changes nothing. -/
theorem erase_of_not_contains {m : Mask} {k : Kind} (h : m.contains k = false) :
    m.erase k = m := by
  apply eq_of_contains_eq
  intro other
  rw [contains_erase]
  by_cases hk : other = k
  · simp [hk, h]
  · simp [hk]

/-- Kinds put in one after the other join the kinds that were there. -/
theorem contains_insertAll (m : Mask) (kinds : List Kind) (k : Kind) :
    (kinds.foldl insert m).contains k = (m.contains k || decide (k ∈ kinds)) := by
  induction kinds generalizing m with
  | nil => simp
  | cons other rest ih =>
      rw [List.foldl_cons, ih, contains_insert, Bool.or_assoc]
      simp [List.mem_cons]

/-- The mask of a list has just the listed kinds. -/
theorem contains_ofList (kinds : List Kind) (k : Kind) :
    (ofList kinds).contains k = decide (k ∈ kinds) := by
  rw [ofList, contains_insertAll, contains_empty, Bool.false_or]

/-- The bits of the word are at the positions of the kinds in it, and nowhere else. -/
theorem testBit_bits (m : Mask) (i : Nat) :
    m.bits.toNat.testBit i = true ↔ ∃ k, m.contains k = true ∧ k.index = i := by
  constructor
  · intro h
    have hi : i < Kind.count := by
      have hword : m.bits.toNat < 2 ^ Kind.count := m.bits.toNat_lt
      exact (Nat.pow_lt_pow_iff_right (by decide)).mp
        ((Nat.ge_two_pow_of_testBit h).trans_lt hword)
    exact ⟨⟨⟨i, hi⟩⟩, (contains_eq_getLsbD m _).trans h, rfl⟩
  · rintro ⟨k, hk, rfl⟩
    exact (contains_eq_getLsbD m k).symm.trans hk

/-! ## Tests of whole masks -/

theorem isEmpty_iff (m : Mask) : m.isEmpty = true ↔ ∀ k, m.contains k = false := by
  have hempty : m.isEmpty = true ↔ m = empty := by
    cases m
    simp [isEmpty, empty]
  rw [hempty]
  constructor
  · rintro rfl
    exact contains_empty
  · intro h
    exact eq_of_contains_eq fun k => (h k).trans (contains_empty k).symm

/-- The word that is tested is the mask of what the two have in common. -/
theorem intersects_iff (a b : Mask) :
    a.intersects b = true ↔ ∃ k, a.contains k = true ∧ b.contains k = true := by
  have hcommon : ∀ k, (mk (a.bits &&& b.bits)).contains k = (a.contains k && b.contains k) := by
    intro k
    simp only [contains_eq_getLsbD, UInt64.toBitVec_and, BitVec.getLsbD_and]
  have hempty : a.intersects b = !(mk (a.bits &&& b.bits)).isEmpty := rfl
  rw [hempty, Bool.not_eq_true', ← Bool.not_eq_true, isEmpty_iff]
  simp only [hcommon, not_forall, Bool.not_eq_false, Bool.and_eq_true]

theorem single_intersects (k : Kind) (m : Mask) : (single k).intersects m = m.contains k := by
  rw [intersects, contains, UInt64.and_comm]

/-! ## Counting the kinds -/

theorem ones_eq (n : Nat) : ones n = n % 2 + ones (n / 2) := by
  rw [ones]
  split
  · next h =>
      subst h
      simp [ones]
  · rfl

/-- The one bits of a number are the positions at which it has a bit. -/
theorem ones_eq_countP {n width : Nat} (h : n < 2 ^ width) :
    ones n = (List.range width).countP n.testBit := by
  induction width generalizing n with
  | zero =>
      obtain rfl : n = 0 := by omega
      simp [ones]
  | succ width ih =>
      have hhalf : n / 2 < 2 ^ width := by
        rw [Nat.pow_succ] at h
        omega
      have hshift : n.testBit ∘ Nat.succ = (n / 2).testBit := by
        funext i
        exact Nat.testBit_succ ..
      have hlow : (if n.testBit 0 = true then 1 else 0) = n % 2 := by
        rw [Nat.testBit_zero]
        have := Nat.mod_two_eq_zero_or_one n
        grind
      rw [ones_eq, ih hhalf, List.range_succ_eq_map, List.countP_cons, List.countP_map, hshift,
        hlow, Nat.add_comm]

/-- The size of a mask is the length of its list: each position is counted once. -/
theorem length_toList (m : Mask) : m.toList.length = m.size := by
  have hword : m.bits.toNat < 2 ^ Kind.count := m.bits.toNat_lt
  have hbit : m.contains ∘ Kind.mk = m.bits.toNat.testBit ∘ Fin.val := by
    funext i
    exact contains_eq_getLsbD m ⟨i⟩
  rw [size, ones_eq_countP hword, toList, Kind.all, ← List.countP_eq_length_filter,
    List.countP_map, hbit, ← List.countP_map, List.map_coe_finRange_eq_range]

end Mask

end Realm
