import Mathlib.Data.Nat.Bitwise
import Realm.Wire.Varint

/-!
# Spellings of a number

A number is spelt by its groups of seven bits, least significant first, of which all but the last
are marked as continued. The writer takes the shortest spelling. The readers accept every spelling
of at most five bytes whose number fits 32 bits, whatever follows it, and tell the bytes that only
begin a spelling from those that cannot become one.
-/

namespace Realm.Wire.Varint

inductive Spells : List UInt8 → Nat → Prop
  | last (byte : UInt8) (ends : byte.toNat < 128) : Spells [byte] byte.toNat
  | more (byte : UInt8) {bytes : List UInt8} {n : Nat} (continued : 128 ≤ byte.toNat)
      (rest : Spells bytes n) : Spells (byte :: bytes) (byte.toNat % 128 + 128 * n)

variable {byte : UInt8} {bytes rest : List UInt8} {n index used : Nat} {value v : UInt32}

/-! ## Single groups -/

theorem continues_iff : continues byte = true ↔ 128 ≤ byte.toNat := by
  have hlt := byte.toNat_lt
  have hand : (byte &&& 0x80).toNat = (byte.toNat.testBit 7).toNat * 128 := by
    rw [UInt8.toNat_and]
    exact Nat.and_two_pow byte.toNat 7
  have hbit : byte.toNat.testBit 7 = decide (128 ≤ byte.toNat) := by
    rw [Nat.testBit_eq_decide_div_mod_eq]
    exact decide_eq_decide.mpr (by omega)
  have hzero : byte &&& 0x80 = 0 ↔ (byte &&& 0x80).toNat = 0 := UInt8.toNat_inj.symm
  rw [continues, bne_iff_ne, ne_eq, hzero, hand, hbit]
  by_cases h : 128 ≤ byte.toNat <;> simp [h]

theorem toNat_payload (byte : UInt8) : (payload byte).toNat = byte.toNat % 128 := by
  rw [payload, UInt8.toNat_and]
  exact Nat.and_two_pow_sub_one_eq_mod byte.toNat 7

theorem payload_gt_iff : payload byte > 0x0f ↔ 15 < byte.toNat % 128 := by
  rw [gt_iff_lt, UInt8.lt_iff_toNat_lt, toNat_payload]
  rfl

/-- Only a fifth byte can be refused: it is the last one and has room for four bits. -/
theorem contribution_of_le (h : index = 4 → byte.toNat ≤ 15) :
    contribution index byte =
      .ok ((payload byte).toUInt32 <<< UInt32.ofNat (7 * index)) := by
  rw [contribution, if_neg]
  rintro ⟨hindex, hlarge⟩
  have hle := h (Nat.succ.inj hindex)
  rw [continues_iff, payload_gt_iff] at hlarge
  omega

theorem contribution_of_lt (h : 15 < byte.toNat) :
    contribution 4 byte = .error .malformedLength := by
  rw [contribution, if_pos]
  refine ⟨rfl, ?_⟩
  rw [continues_iff, payload_gt_iff]
  omega

/-- Bits that do not overlap add up. -/
theorem toNat_or_shiftLeft {low high : UInt32} {k : Nat} (hlow : low.toNat < 2 ^ k) (hk : k < 32)
    (hhigh : high.toNat * 2 ^ k < 2 ^ 32) :
    (low ||| high <<< UInt32.ofNat k).toNat = low.toNat + 2 ^ k * high.toNat := by
  have hshift : (UInt32.ofNat k).toNat % 32 = k := by
    rw [UInt32.toNat_ofNat']
    omega
  rw [UInt32.toNat_or, UInt32.toNat_shiftLeft, hshift, Nat.shiftLeft_eq, Nat.mod_eq_of_lt hhigh,
    Nat.mul_comm, Nat.or_comm, ← Nat.two_pow_add_eq_or_of_lt hlow, Nat.add_comm]

theorem toNat_or_contribution (hindex : index ≤ 4) (hvalue : value.toNat < 2 ^ (7 * index))
    (h : index = 4 → byte.toNat ≤ 15) :
    (value ||| (payload byte).toUInt32 <<< UInt32.ofNat (7 * index)).toNat =
      value.toNat + 2 ^ (7 * index) * (byte.toNat % 128) := by
  have hpayload : (payload byte).toUInt32.toNat = byte.toNat % 128 := by
    rw [UInt8.toNat_toUInt32, toNat_payload]
  have hfits : byte.toNat % 128 * 2 ^ (7 * index) < 2 ^ 32 := by
    have hcases : index = 0 ∨ index = 1 ∨ index = 2 ∨ index = 3 ∨ index = 4 := by omega
    rcases hcases with rfl | rfl | rfl | rfl | rfl <;> omega
  rw [toNat_or_shiftLeft hvalue (by omega) (by rwa [hpayload]), hpayload]

/-! ## Reading a spelling -/

theorem decodeFrom_cons (h : index = 4 → byte.toNat ≤ 15) :
    decodeFrom index value (byte :: rest) =
      if continues byte then
        decodeFrom (index + 1)
          (value ||| (payload byte).toUInt32 <<< UInt32.ofNat (7 * index)) rest
      else .ok (value ||| (payload byte).toUInt32 <<< UInt32.ofNat (7 * index), index + 1) := by
  rw [decodeFrom, contribution_of_le h]

theorem Spells.length_pos (h : Spells bytes n) : 0 < bytes.length := by
  cases h <;> exact Nat.succ_pos _

/-- Reading on from a group boundary; `value` holds the groups before it. -/
theorem decodeFrom_of_spells (h : Spells bytes n) (hlength : index + bytes.length ≤ 5)
    (hvalue : value.toNat < 2 ^ (7 * index)) (hfits : value.toNat + 2 ^ (7 * index) * n < 2 ^ 32) :
    decodeFrom index value (bytes ++ rest) =
      .ok (UInt32.ofNat (value.toNat + 2 ^ (7 * index) * n), index + bytes.length) := by
  induction h generalizing index value with
  | last byte ends =>
      rw [List.length_singleton] at hlength
      have hroom : index = 4 → byte.toNat ≤ 15 := by rintro rfl; omega
      have hends : ¬ continues byte = true := by rw [continues_iff]; omega
      rw [List.singleton_append, decodeFrom_cons hroom, if_neg hends]
      congr 2
      apply UInt32.toNat_inj.mp
      rw [toNat_or_contribution (by omega) hvalue hroom, Nat.mod_eq_of_lt ends,
        UInt32.toNat_ofNat', Nat.mod_eq_of_lt hfits]
  | @more byte bytes n continued spelt ih =>
      have hpos := spelt.length_pos
      rw [List.length_cons] at hlength ⊢
      have hroom : index = 4 → byte.toNat ≤ 15 := by omega
      have hadd := toNat_or_contribution (by omega) hvalue hroom
      have hpow : 2 ^ (7 * (index + 1)) = 2 ^ (7 * index) * 128 := by
        rw [Nat.mul_succ, Nat.pow_add]
      have hgroup := Nat.mul_le_mul_left (2 ^ (7 * index)) (show byte.toNat % 128 ≤ 127 by omega)
      have hsum : value.toNat + 2 ^ (7 * index) * (byte.toNat % 128) + 2 ^ (7 * (index + 1)) * n =
          value.toNat + 2 ^ (7 * index) * (byte.toNat % 128 + 128 * n) := by
        rw [hpow, Nat.mul_add, Nat.add_assoc, Nat.mul_assoc]
      rw [List.cons_append, decodeFrom_cons hroom, if_pos (continues_iff.mpr continued),
        ih (by omega) (by omega) (by rw [hadd, hsum]; exact hfits), hadd, hsum]
      congr 2
      omega

theorem decodeFrom_of_continued (h : ∀ b ∈ bytes, 128 ≤ b.toNat)
    (hlength : index + bytes.length ≤ 4) :
    decodeFrom index value bytes = .error .truncated := by
  induction bytes generalizing index value with
  | nil => rfl
  | cons byte bytes ih =>
      rw [List.length_cons] at hlength
      rw [decodeFrom_cons (by omega), if_pos (continues_iff.mpr (h byte List.mem_cons_self))]
      exact ih (fun b hb => h b (List.mem_cons_of_mem byte hb)) (by omega)

theorem decodeFrom_of_large {before : List UInt8} (h : ∀ b ∈ before, 128 ≤ b.toNat)
    (hlength : index + before.length = 4) (hlarge : 15 < byte.toNat) :
    decodeFrom index value (before ++ byte :: rest) = .error .malformedLength := by
  induction before generalizing index value with
  | nil =>
      obtain rfl : index = 4 := hlength
      rw [List.nil_append, decodeFrom, contribution_of_lt hlarge]
  | cons first before ih =>
      rw [List.length_cons] at hlength
      rw [List.cons_append, decodeFrom_cons (by omega),
        if_pos (continues_iff.mpr (h first List.mem_cons_self))]
      exact ih (fun b hb => h b (List.mem_cons_of_mem first hb)) (by omega)

/-! ## What bytes begin with -/

/-- Continued groups and a last one spell a number; the last one stands for its highest bits. -/
theorem exists_spells {before : List UInt8} (h : ∀ b ∈ before, 128 ≤ b.toNat)
    (hends : byte.toNat < 128) : ∃ low, low < 2 ^ (7 * before.length) ∧
      Spells (before ++ [byte]) (low + 2 ^ (7 * before.length) * byte.toNat) := by
  induction before with
  | nil => exact ⟨0, Nat.one_pos, by simpa using Spells.last byte hends⟩
  | cons first before ih =>
      obtain ⟨low, hlow, hspells⟩ := ih fun b hb => h b (List.mem_cons_of_mem first hb)
      have hpow : 2 ^ (7 * (first :: before).length) = 128 * 2 ^ (7 * before.length) := by
        rw [List.length_cons, Nat.mul_succ, Nat.pow_add, Nat.mul_comm]
      refine ⟨first.toNat % 128 + 128 * low, by omega, ?_⟩
      have hmore := Spells.more first (h first List.mem_cons_self) hspells
      have hsum : first.toNat % 128 + 128 * (low + 2 ^ (7 * before.length) * byte.toNat) =
          first.toNat % 128 + 128 * low + 2 ^ (7 * (first :: before).length) * byte.toNat := by
        rw [hpow, Nat.mul_add, Nat.add_assoc, Nat.mul_assoc]
      rw [← hsum]
      exact hmore

/-- Bytes begin with the spelling of a 32-bit number, or they end before there is one, or their
fifth byte has no room for what it carries. -/
inductive Begins (bytes : List UInt8) : Prop
  | number {spelt rest : List UInt8} {v : UInt32} (split : bytes = spelt ++ rest)
      (spells : Spells spelt v.toNat) (length_le : spelt.length ≤ 5)
  | unfinished (continued : ∀ b ∈ bytes, 128 ≤ b.toNat) (length_le : bytes.length ≤ 4)
  | malformed {before rest : List UInt8} {byte : UInt8} (split : bytes = before ++ byte :: rest)
      (continued : ∀ b ∈ before, 128 ≤ b.toNat) (length_eq : before.length = 4)
      (large : 15 < byte.toNat)

theorem begins_of_ends {before : List UInt8} (h : ∀ b ∈ before, 128 ≤ b.toNat)
    (hlength : before.length ≤ 4) (hends : byte.toNat < 128)
    (hroom : before.length = 4 → byte.toNat ≤ 15) : Begins (before ++ byte :: rest) := by
  obtain ⟨low, hlow, hspells⟩ := exists_spells h hends
  have hfits : low + 2 ^ (7 * before.length) * byte.toNat < 2 ^ 32 := by
    have hcases : before.length = 0 ∨ before.length = 1 ∨ before.length = 2 ∨
        before.length = 3 ∨ before.length = 4 := by omega
    rcases hcases with heq | heq | heq | heq | heq <;> rw [heq] at hlow hroom ⊢ <;> omega
  rw [← UInt32.toNat_ofNat_of_lt' hfits] at hspells
  refine .number (List.append_cons before byte rest) hspells ?_
  rw [List.length_append, List.length_singleton]
  omega

theorem begins_append {before : List UInt8} (h : ∀ b ∈ before, 128 ≤ b.toNat)
    (hlength : before.length ≤ 4) (rest : List UInt8) : Begins (before ++ rest) := by
  induction rest generalizing before with
  | nil => exact .unfinished (by simpa using h) (by simpa using hlength)
  | cons byte rest ih =>
      by_cases hends : byte.toNat < 128 ∧ (before.length = 4 → byte.toNat ≤ 15)
      · exact begins_of_ends h hlength hends.1 hends.2
      · by_cases hfour : before.length = 4
        · exact .malformed rfl h hfour (by omega)
        · have hcontinued : ∀ b ∈ before ++ [byte], 128 ≤ b.toNat := by
            intro b hb
            rcases List.mem_append.mp hb with hb | hb
            · exact h b hb
            · rw [List.mem_singleton.mp hb]
              omega
          rw [List.append_cons]
          exact ih hcontinued (by rw [List.length_append, List.length_singleton]; omega)

theorem begins (bytes : List UInt8) : Begins bytes :=
  @begins_append [] nofun (Nat.zero_le 4) bytes

/-! ## What the reader makes of bytes -/

theorem decode_of_spells (h : Spells bytes v.toNat) (hlength : bytes.length ≤ 5) :
    decode (bytes ++ rest) = .ok (v, bytes.length) := by
  have hread : decodeFrom 0 0 (bytes ++ rest) =
      .ok (UInt32.ofNat (0 + 2 ^ (7 * 0) * v.toNat), 0 + bytes.length) :=
    decodeFrom_of_spells h (by omega) Nat.one_pos (by simpa using v.toNat_lt)
  rw [decode, hread]
  simp

theorem decode_of_continued (h : ∀ b ∈ bytes, 128 ≤ b.toNat) (hlength : bytes.length ≤ 4) :
    decode bytes = .error .truncated := decodeFrom_of_continued h (by omega)

theorem decode_of_large {before : List UInt8} (h : ∀ b ∈ before, 128 ≤ b.toNat)
    (hlength : before.length = 4) (hlarge : 15 < byte.toNat) :
    decode (before ++ byte :: rest) = .error .malformedLength :=
  decodeFrom_of_large h (by omega) hlarge

/-- Exactly the spellings of at most five bytes are read, whatever follows them. -/
theorem decode_eq_ok_iff : decode bytes = .ok (v, used) ↔
    ∃ spelt rest, bytes = spelt ++ rest ∧ Spells spelt v.toNat ∧ spelt.length = used ∧
      used ≤ 5 := by
  constructor
  · intro h
    cases begins bytes with
    | number split spells length_le =>
        rw [split, decode_of_spells spells length_le] at h
        obtain ⟨rfl, rfl⟩ := Prod.mk.inj (Except.ok.inj h)
        exact ⟨_, _, split, spells, rfl, length_le⟩
    | unfinished continued length_le =>
        rw [decode_of_continued continued length_le] at h
        cases h
    | malformed split continued length_eq large =>
        rw [split, decode_of_large continued length_eq large] at h
        cases h
  · rintro ⟨spelt, rest, rfl, hspells, rfl, hlength⟩
    exact decode_of_spells hspells hlength

theorem decode_eq_truncated_iff : decode bytes = .error .truncated ↔
    (∀ b ∈ bytes, 128 ≤ b.toNat) ∧ bytes.length ≤ 4 := by
  refine ⟨fun h => ?_, fun h => decode_of_continued h.1 h.2⟩
  cases begins bytes with
  | number split spells length_le =>
      rw [split, decode_of_spells spells length_le] at h
      cases h
  | unfinished continued length_le => exact ⟨continued, length_le⟩
  | malformed split continued length_eq large =>
      rw [split, decode_of_large continued length_eq large] at h
      cases h

theorem decode_eq_malformed_iff : decode bytes = .error .malformedLength ↔
    ∃ before byte rest, bytes = before ++ byte :: rest ∧ (∀ b ∈ before, 128 ≤ b.toNat) ∧
      before.length = 4 ∧ 15 < byte.toNat := by
  constructor
  · intro h
    cases begins bytes with
    | number split spells length_le =>
        rw [split, decode_of_spells spells length_le] at h
        cases h
    | unfinished continued length_le =>
        rw [decode_of_continued continued length_le] at h
        cases h
    | malformed split continued length_eq large =>
        exact ⟨_, _, _, split, continued, length_eq, large⟩
  · rintro ⟨before, byte, rest, rfl, hcontinued, hlength, hlarge⟩
    exact decode_of_large hcontinued hlength hlarge

/-- Reading fails in two ways only. -/
theorem decode_error {e : WireError} (h : decode bytes = .error e) :
    e = .truncated ∨ e = .malformedLength := by
  cases begins bytes with
  | number split spells length_le =>
      rw [split, decode_of_spells spells length_le] at h
      cases h
  | unfinished continued length_le =>
      rw [decode_of_continued continued length_le] at h
      exact .inl (Except.error.inj h).symm
  | malformed split continued length_eq large =>
      rw [split, decode_of_large continued length_eq large] at h
      exact .inr (Except.error.inj h).symm

/-- What follows a number has no say in how it is read. -/
theorem decode_append (h : decode bytes = .ok (v, used)) (rest : List UInt8) :
    decode (bytes ++ rest) = .ok (v, used) := by
  obtain ⟨spelt, tail, rfl, hspells, rfl, hlength⟩ := decode_eq_ok_iff.mp h
  rw [List.append_assoc]
  exact decode_of_spells hspells hlength

theorem used_le_of_decode (h : decode bytes = .ok (v, used)) :
    0 < used ∧ used ≤ bytes.length := by
  obtain ⟨spelt, tail, rfl, hspells, rfl, -⟩ := decode_eq_ok_iff.mp h
  exact ⟨hspells.length_pos, by rw [List.length_append]; omega⟩

theorem decode_take (h : decode bytes = .ok (v, used)) :
    decode (bytes.take used) = .ok (v, used) := by
  obtain ⟨spelt, tail, rfl, hspells, rfl, hlength⟩ := decode_eq_ok_iff.mp h
  have hread : decode (spelt ++ []) = .ok (v, spelt.length) := decode_of_spells hspells hlength
  rw [List.take_left]
  rwa [List.append_nil] at hread

/-- A length that cannot be read is given up at its fifth byte. -/
theorem decode_take_of_malformed (h : decode bytes = .error .malformedLength) :
    decode (bytes.take maxLength) = .error .malformedLength ∧
      (bytes.take maxLength).length = maxLength := by
  obtain ⟨before, byte, rest, rfl, hcontinued, hlength, hlarge⟩ := decode_eq_malformed_iff.mp h
  have htake : (before ++ byte :: rest).take maxLength = before ++ [byte] := by
    rw [List.take_append, List.take_of_length_le (by rw [hlength, maxLength]; omega), hlength]
    rfl
  rw [htake]
  exact ⟨decode_of_large hcontinued hlength hlarge, by simp [hlength, maxLength]⟩

theorem decode_append_of_malformed (h : decode bytes = .error .malformedLength)
    (rest : List UInt8) : decode (bytes ++ rest) = .error .malformedLength := by
  obtain ⟨before, byte, tail, rfl, hcontinued, hlength, hlarge⟩ := decode_eq_malformed_iff.mp h
  rw [List.append_assoc]
  exact decode_of_large hcontinued hlength hlarge

/-- A spelling that is cut short is continued to its end. -/
theorem Spells.continued_take (h : Spells bytes n) {m : Nat} (hm : m < bytes.length) :
    ∀ b ∈ bytes.take m, 128 ≤ b.toNat := by
  induction h generalizing m with
  | last byte ends =>
      obtain rfl : m = 0 := by simpa using hm
      exact nofun
  | more byte continued spelt ih =>
      cases m with
      | zero => exact nofun
      | succ m =>
          intro b hb
          rcases List.mem_cons.mp hb with rfl | hb
          · exact continued
          · exact ih (Nat.lt_of_succ_lt_succ hm) b hb

/-- A number that is cut short cannot be read. -/
theorem decode_take_of_lt (h : decode bytes = .ok (v, used)) {m : Nat} (hm : m < used) :
    decode (bytes.take m) = .error .truncated := by
  obtain ⟨spelt, tail, rfl, hspells, rfl, hlength⟩ := decode_eq_ok_iff.mp h
  rw [List.take_append_of_le_length (Nat.le_of_lt hm)]
  exact decode_of_continued (hspells.continued_take hm) (by rw [List.length_take]; omega)

/-! ## The writer -/

theorem spells_groups (n : Nat) : Spells (groups n) n := by
  fun_induction groups n with
  | case1 n hlt =>
      have hbyte : (UInt8.ofNat n).toNat = n := by
        rw [UInt8.toNat_ofNat']
        omega
      have hlast := Spells.last (UInt8.ofNat n) (by omega)
      rw [hbyte] at hlast
      exact hlast
  | case2 n hge ih =>
      have hbyte : (UInt8.ofNat (n % 128 + 128)).toNat = n % 128 + 128 := by
        rw [UInt8.toNat_ofNat']
        omega
      have hmore := Spells.more (UInt8.ofNat (n % 128 + 128)) (by omega) ih
      have hsum : (n % 128 + 128) % 128 + 128 * (n / 128) = n := by omega
      rw [hbyte, hsum] at hmore
      exact hmore

/-- The writer takes the shortest spelling. -/
theorem Spells.length_groups_le (h : Spells bytes n) : (groups n).length ≤ bytes.length := by
  induction h with
  | last byte ends =>
      rw [groups, if_pos ends]
      exact Nat.le_refl _
  | @more byte bytes n continued spelt ih =>
      rw [groups]
      split
      · simp
      · have hrest : (byte.toNat % 128 + 128 * n) / 128 = n := by omega
        rw [hrest, List.length_cons, List.length_cons]
        omega

/-- There are as many groups as the number has digits to the base 128. -/
theorem length_groups {k : Nat} (hlow : 128 ^ k ≤ n ∨ k = 0) (hhigh : n < 128 ^ (k + 1)) :
    (groups n).length = k + 1 := by
  induction k generalizing n with
  | zero =>
      rw [groups, if_pos (by simpa using hhigh)]
      rfl
  | succ k ih =>
      rw [Nat.pow_succ] at hlow hhigh
      have hpos : 0 < 128 ^ k := Nat.pow_pos (by decide)
      have hle : 128 ≤ n := by omega
      rw [groups, if_neg (by omega), List.length_cons, ih]
      · exact .inl ((Nat.le_div_iff_mul_le (by decide)).mpr (by omega))
      · exact (Nat.div_lt_iff_lt_mul (by decide)).mpr hhigh

/-- The size of an encoding is known without writing it. -/
theorem length_encode (v : UInt32) : (encode v).length = encodedLength v := by
  have hlt := v.toNat_lt
  have hgroups : ∀ k, (128 ^ k ≤ v.toNat ∨ k = 0) → v.toNat < 128 ^ (k + 1) →
      (encode v).length = k + 1 := fun k => length_groups
  unfold encodedLength
  simp only [UInt32.le_iff_toNat_le, UInt32.reduceToNat]
  split
  · exact hgroups 0 (.inr rfl) (by omega)
  · split
    · exact hgroups 1 (.inl (by omega)) (by omega)
    · split
      · exact hgroups 2 (.inl (by omega)) (by omega)
      · split
        · exact hgroups 3 (.inl (by omega)) (by omega)
        · exact hgroups 4 (.inl (by omega)) (by omega)

theorem encodedLength_le (v : UInt32) : encodedLength v ≤ 5 := by
  unfold encodedLength
  split
  · omega
  · split
    · omega
    · split
      · omega
      · split <;> omega

/-- What was written is read back, whatever follows it. -/
theorem decode_encode_append (v : UInt32) (rest : List UInt8) :
    decode (encode v ++ rest) = .ok (v, (encode v).length) :=
  decode_of_spells (spells_groups v.toNat) ((length_encode v).trans_le (encodedLength_le v))

/-- No encoding of a number is shorter than the one that is written. -/
theorem encodedLength_le_of_decode (h : decode bytes = .ok (v, used)) :
    encodedLength v ≤ used := by
  obtain ⟨spelt, tail, -, hspells, rfl, -⟩ := decode_eq_ok_iff.mp h
  rw [← length_encode]
  exact hspells.length_groups_le

end Realm.Wire.Varint
