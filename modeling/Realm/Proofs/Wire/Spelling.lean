import Mathlib.Data.Nat.Digits.Lemmas
import Realm.Proofs.Wire.Varint

/-!
# Reading a number exactly

Where the bytes of a number end, what they add up to, and by how much each group is shifted into its
place. Main statement: what is written is read back, whatever follows it; and every byte string is
read as the number its groups add up to, no bit lost, or refused for one of two reasons that the
bytes show. Of all spellings of a number the one that is written is the only shortest.
-/

namespace Realm.Wire.Varint

variable {byte : UInt8} {bytes before : List UInt8} {n index used : Nat} {value v : UInt32}

/-! ## What groups add up to -/

/-- The number that groups add up to, the least significant one first. -/
def total (bytes : List UInt8) : Nat :=
  ((bytes.map fun byte => byte.toNat % 128).mapIdx fun i group => group * 128 ^ i).sum

theorem total_cons (byte : UInt8) (bytes : List UInt8) :
    total (byte :: bytes) = byte.toNat % 128 + 128 * total bytes := by
  rw [total, total, ← Nat.ofDigits_eq_sum_mapIdx, ← Nat.ofDigits_eq_sum_mapIdx, List.map_cons,
    Nat.ofDigits_cons]

theorem Spells.eq_total (h : Spells bytes n) : n = total bytes := by
  induction h with
  | last byte ends =>
      rw [total_cons, Nat.mod_eq_of_lt ends]
      rfl
  | more byte continued spelt ih => rw [total_cons, ← ih]

theorem spells_total (h : ∀ b ∈ before, 128 ≤ b.toNat) (hends : byte.toNat < 128) :
    Spells (before ++ [byte]) (total (before ++ [byte])) := by
  obtain ⟨low, -, hspells⟩ := exists_spells h hends
  rwa [hspells.eq_total] at hspells

/-- Only one spelling of a number is as short as the one that is written. -/
theorem Spells.eq_groups (h : Spells bytes n) (hlength : bytes.length = (groups n).length) :
    bytes = groups n := by
  induction h with
  | last byte ends => rw [groups, if_pos ends, UInt8.ofNat_toNat]
  | @more byte bytes n continued spelt ih =>
      have hpos := spelt.length_pos
      have hbyte : UInt8.ofNat (byte.toNat % 128 + 128) = byte := by
        apply UInt8.toNat_inj.mp
        have hlt := byte.toNat_lt
        rw [UInt8.toNat_ofNat']
        omega
      rw [groups] at hlength ⊢
      split at hlength
      · rw [List.length_cons, List.length_singleton] at hlength
        omega
      · next hge =>
          have hgroup : (byte.toNat % 128 + 128 * n) % 128 = byte.toNat % 128 := by omega
          have hrest : (byte.toNat % 128 + 128 * n) / 128 = n := by omega
          rw [hrest, List.length_cons, List.length_cons] at hlength
          rw [if_neg hge, hgroup, hrest, hbyte, ← ih (Nat.succ.inj hlength)]

/-! ## Where a number ends -/

/-- A number ends with byte `n`, counted from one: this is the first byte that is not continued, and
a fifth byte has room for four bits only. -/
def EndsAt (bytes : List UInt8) (n : Nat) : Prop :=
  ∃ before last rest, bytes = before ++ last :: rest ∧ (∀ b ∈ before, 128 ≤ b.toNat) ∧
    last.toNat < 128 ∧ before.length + 1 = n ∧ n ≤ 5 ∧ (n = 5 → last.toNat ≤ 0x0f)

theorem EndsAt.length_take (h : EndsAt bytes n) : (bytes.take n).length = n := by
  obtain ⟨before, last, rest, rfl, -, -, hcount, -, -⟩ := h
  rw [List.length_take, List.length_append, List.length_cons]
  omega

/-- The bytes of a number spell what they add up to, and it fits. -/
theorem EndsAt.spells (h : EndsAt bytes n) :
    Spells (bytes.take n) (total (bytes.take n)) ∧ total (bytes.take n) < 2 ^ 32 := by
  obtain ⟨before, last, rest, rfl, hcontinued, hends, hcount, hle, hroom⟩ := h
  have htake : (before ++ last :: rest).take n = before ++ [last] := by
    rw [List.append_cons, List.take_left']
    simpa using hcount
  obtain ⟨low, hlow, hspells⟩ := exists_spells hcontinued hends
  rw [htake]
  refine ⟨spells_total hcontinued hends, ?_⟩
  rw [← hspells.eq_total]
  have hcases : before.length = 0 ∨ before.length = 1 ∨ before.length = 2 ∨
      before.length = 3 ∨ before.length = 4 := by omega
  rcases hcases with heq | heq | heq | heq | heq <;> rw [heq] at hlow hcount ⊢ <;> omega

/-- Reading succeeds where a number ends. -/
theorem decode_of_endsAt (h : EndsAt bytes n) :
    decode bytes = .ok (UInt32.ofNat (total (bytes.take n)), n) := by
  obtain ⟨hspells, hlt⟩ := h.spells
  have hlength := h.length_take
  obtain ⟨-, -, -, -, -, -, -, hle, -⟩ := h
  refine decode_eq_ok_iff.mpr ⟨bytes.take n, bytes.drop n, (List.take_append_drop n bytes).symm, ?_,
    hlength, hle⟩
  rwa [UInt32.toNat_ofNat_of_lt' hlt]

theorem Spells.exists_last (h : Spells bytes n) : ∃ before last, bytes = before ++ [last] ∧
    (∀ b ∈ before, 128 ≤ b.toNat) ∧ last.toNat < 128 := by
  induction h with
  | last byte ends => exact ⟨[], byte, rfl, nofun, ends⟩
  | more byte continued spelt ih =>
      obtain ⟨before, last, rfl, hcontinued, hends⟩ := ih
      exact ⟨byte :: before, last, rfl, List.forall_mem_cons.mpr ⟨continued, hcontinued⟩, hends⟩

/-- A number is read only where one ends. -/
theorem endsAt_of_decode (h : decode bytes = .ok (v, n)) : EndsAt bytes n := by
  obtain ⟨spelt, rest, rfl, hspells, rfl, hle⟩ := decode_eq_ok_iff.mp h
  obtain ⟨before, last, rfl, hcontinued, hends⟩ := hspells.exists_last
  refine ⟨before, last, rest, (List.append_cons before last rest).symm, hcontinued, hends, by simp,
    hle, fun hfive => ?_⟩
  obtain ⟨low, hlow, hlowSpells⟩ := exists_spells hcontinued hends
  have hvalue := hspells.eq_total.trans hlowSpells.eq_total.symm
  have hfour : before.length = 4 := by simpa using hfive
  have hlt := v.toNat_lt
  rw [hfour] at hvalue hlow
  omega

/-! ## How far groups are shifted -/

/-- Reads on like `decodeFrom`, and keeps the amounts by which groups are shifted into place. -/
def traceFrom (index : Nat) (value : UInt32) :
    List UInt8 → Except WireError (UInt32 × Nat) × List Nat
  | [] => (.error .truncated, [])
  | byte :: rest =>
    match contribution index byte with
    | .error e => (.error e, [])
    | .ok part =>
      if continues byte then
        let (result, amounts) := traceFrom (index + 1) (value ||| part) rest
        (result, 7 * index :: amounts)
      else (.ok (value ||| part, index + 1), [7 * index])

theorem traceFrom_fst (index : Nat) (value : UInt32) (bytes : List UInt8) :
    (traceFrom index value bytes).1 = decodeFrom index value bytes := by
  induction bytes generalizing index value with
  | nil => rfl
  | cons byte rest ih =>
      rw [traceFrom, decodeFrom]
      cases contribution index byte with
      | error e => rfl
      | ok part =>
          dsimp only
          split
          · exact ih (index + 1) (value ||| part)
          · rfl

/-- A continued fifth byte is refused, so what is read and continued stands before it. -/
theorem index_lt_of_continues {part : UInt32} (hindex : index ≤ 4)
    (h : contribution index byte = .ok part) (hcontinued : continues byte = true) : index < 4 := by
  refine Nat.lt_of_le_of_ne hindex ?_
  rintro rfl
  rw [contribution, if_pos ⟨rfl, .inl hcontinued⟩] at h
  cases h

theorem traceFrom_snd_lt (hindex : index ≤ 4) (value : UInt32) (bytes : List UInt8) :
    ∀ amount ∈ (traceFrom index value bytes).2, amount < 32 := by
  induction bytes generalizing index value with
  | nil => nofun
  | cons byte rest ih =>
      have hhere : 7 * index < 32 := by omega
      rw [traceFrom]
      cases hpart : contribution index byte with
      | error e => nofun
      | ok part =>
          dsimp only
          split
          · next hcontinued =>
              have hlt := index_lt_of_continues hindex hpart hcontinued
              exact List.forall_mem_cons.mpr ⟨hhere, ih hlt (value ||| part)⟩
          · exact List.forall_mem_cons.mpr ⟨hhere, nofun⟩

/-- A group that is read keeps all its bits in its place. -/
theorem EndsAt.toNat_shiftLeft (h : EndsAt bytes n) (hindex : index < n)
    (hbyte : bytes[index]? = some byte) :
    ((payload byte).toUInt32 <<< UInt32.ofNat (7 * index)).toNat =
      byte.toNat % 128 * 128 ^ index := by
  obtain ⟨before, last, rest, rfl, -, -, hcount, hle, hlast⟩ := h
  have hroom : index = 4 → byte.toNat ≤ 15 := by
    intro hfour
    have hlength : before.length = index := by omega
    rw [← hlength, List.getElem?_append_right (Nat.le_refl _), Nat.sub_self] at hbyte
    cases hbyte
    exact hlast (by omega)
  have hzero : (0 : UInt32).toNat < 2 ^ (7 * index) := Nat.two_pow_pos _
  have hadd := toNat_or_contribution (show index ≤ 4 by omega) hzero hroom
  rw [UInt32.zero_or, UInt32.toNat_zero, Nat.zero_add, Nat.pow_mul,
    Nat.mul_comm (_ ^ index)] at hadd
  exact hadd

/-! ## The main statement -/

structure ReadsExactly (bytes : List UInt8) : Prop where
  /-- Reading succeeds where a number ends, -/
  ok_iff : ∀ n, (∃ v, decode bytes = .ok (v, n)) ↔ EndsAt bytes n
  /-- and gives what its groups add up to, -/
  total_eq : ∀ v n, decode bytes = .ok (v, n) → v.toNat = total (bytes.take n)
  /-- of which no group has lost a bit. -/
  kept : ∀ v n, decode bytes = .ok (v, n) → ∀ (index : Nat) (byte : UInt8), index < n →
    bytes[index]? = some byte →
      ((payload byte).toUInt32 <<< UInt32.ofNat (7 * index)).toNat =
        byte.toNat % 128 * 128 ^ index
  /-- No spelling is shorter than the one that is written, and no other one is as short. -/
  shortest : ∀ v n, decode bytes = .ok (v, n) → encodedLength v ≤ n ∧
    (n = encodedLength v → bytes.take n = encode v)
  malformed_iff : decode bytes = .error .malformedLength ↔
    ∃ before byte rest, bytes = before ++ byte :: rest ∧ (∀ b ∈ before, 128 ≤ b.toNat) ∧
      before.length = 4 ∧ 0x0f < byte.toNat
  truncated_iff : decode bytes = .error .truncated ↔
    bytes.length < 5 ∧ ∀ b ∈ bytes, 128 ≤ b.toNat
  /-- There is no other error. -/
  error : ∀ e, decode bytes = .error e → e = .malformedLength ∨ e = .truncated
  /-- Nothing is ever shifted by as much as the width. -/
  shifts_lt : (traceFrom 0 0 bytes).1 = decode bytes ∧
    ∀ amount ∈ (traceFrom 0 0 bytes).2, amount < 32

theorem readsExactly (bytes : List UInt8) : ReadsExactly bytes := by
  have htotal : ∀ v n, decode bytes = .ok (v, n) → v.toNat = total (bytes.take n) := by
    intro v n h
    have hends := endsAt_of_decode h
    rw [decode_of_endsAt hends] at h
    cases h
    exact UInt32.toNat_ofNat_of_lt' hends.spells.2
  refine ⟨fun n => ⟨fun ⟨v, h⟩ => endsAt_of_decode h, fun h => ⟨_, decode_of_endsAt h⟩⟩, htotal,
    ?_, ?_, decode_eq_malformed_iff, ?_, fun e h => (decode_error h).symm,
    traceFrom_fst 0 0 bytes, traceFrom_snd_lt (Nat.zero_le 4) 0 bytes⟩
  · intro v n h index byte hindex hbyte
    exact (endsAt_of_decode h).toNat_shiftLeft hindex hbyte
  · intro v n h
    refine ⟨encodedLength_le_of_decode h, fun hlength => ?_⟩
    have hends := endsAt_of_decode h
    have hspells := hends.spells.1
    rw [← htotal v n h] at hspells
    refine hspells.eq_groups ?_
    rw [hends.length_take, hlength, ← length_encode]
    rfl
  · rw [decode_eq_truncated_iff, and_comm, Nat.lt_succ_iff]

/-- Numbers are written in their shortest form and read back, and every byte string is read
exactly. -/
theorem decode_exact :
    (∀ (v : UInt32) (rest : List UInt8),
      decode (encode v ++ rest) = .ok (v, encodedLength v) ∧
        (encode v).length = encodedLength v ∧ encodedLength v ≤ 5) ∧
    ∀ bytes : List UInt8, ReadsExactly bytes := by
  refine ⟨fun v rest => ⟨?_, length_encode v, encodedLength_le v⟩, readsExactly⟩
  rw [← length_encode]
  exact decode_encode_append v rest

end Realm.Wire.Varint
