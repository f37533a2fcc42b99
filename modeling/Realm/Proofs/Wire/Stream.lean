import Realm.Proofs.Wire.Varint

/-!
# Numbers from a stream

A stream is followed by the bytes still to come, whatever pieces they come in. Main statement:
reading a number from a stream says what decoding the bytes to come says, and takes just the bytes
of the number.
-/

namespace Realm.Wire

namespace Shortfall

variable {fault : Fault}

theorem inside_of_eq (h : fault.kind = .unexpectedEof) : (broke fault).inside = .truncated := by
  simp [inside, h]

theorem inside_of_ne (h : fault.kind ≠ .unexpectedEof) :
    (broke fault).inside = .stream fault.reason := by
  cases hkind : fault.kind with
  | unexpectedEof => exact absurd hkind h
  | other => simp [inside, hkind]

end Shortfall

namespace Stream

variable {s s' s'' : Stream} {n m : Nat}

/-- What becomes of a stream of which `n` bytes are taken, or all if it holds fewer. -/
structure Drops (s : Stream) (n : Nat) (s' : Stream) : Prop where
  remaining_eq : s'.remaining = s.remaining.drop n
  fault_eq : s'.fault = s.fault

theorem Drops.trans (h : s.Drops n s') (h' : s'.Drops m s'') : s.Drops (n + m) s'' :=
  ⟨by rw [h'.remaining_eq, h.remaining_eq, List.drop_drop], h'.fault_eq.trans h.fault_eq⟩

theorem Drops.of_length_le (h : s.Drops n s') (hn : s.remaining.length ≤ n)
    (hm : s.remaining.length ≤ m) : s.Drops m s' :=
  ⟨by rw [h.remaining_eq, List.drop_of_length_le hn, List.drop_of_length_le hm], h.fault_eq⟩

theorem exists_take_of_le (h : n ≤ s.remaining.length) :
    ∃ s', s.take n = (.ok (s.remaining.take n), s') ∧ s.Drops n s' := by
  obtain ⟨hbytes, hremaining, hfault⟩ := take_of_le h
  exact ⟨(s.take n).2, Prod.ext hbytes rfl, hremaining, hfault⟩

theorem exists_take_of_lt (h : s.remaining.length < n) :
    ∃ s', s.take n = (.error s.shortfall, s') ∧ s.Drops n s' := by
  obtain ⟨hbytes, hremaining, hfault⟩ := take_of_lt h
  refine ⟨(s.take n).2, Prod.ext hbytes rfl, ?_, hfault⟩
  rw [hremaining, List.drop_of_length_le (Nat.le_of_lt h)]

/-- What a reader says if the stream is used up inside what it reads. -/
def cause (s : Stream) : WireError := s.shortfall.inside

theorem cause_of_none (h : s.fault = none) : s.cause = .truncated := by
  rw [cause, shortfall, h, Shortfall.inside]

theorem cause_of_some {fault : Fault} (h : s.fault = some fault) :
    s.cause = (Shortfall.broke fault).inside := by
  rw [cause, shortfall, h]

theorem exists_fault_of_cause {reason : String} (h : s.cause = .stream reason) :
    ∃ fault, s.fault = some fault ∧ fault.kind ≠ .unexpectedEof ∧ fault.reason = reason := by
  cases hfault : s.fault with
  | none => simp [cause_of_none hfault] at h
  | some fault =>
      rw [cause_of_some hfault] at h
      by_cases hkind : fault.kind = .unexpectedEof
      · simp [Shortfall.inside_of_eq hkind] at h
      · rw [Shortfall.inside_of_ne hkind, WireError.stream.injEq] at h
        exact ⟨fault, rfl, hkind, h⟩

theorem Drops.cause_eq (h : s.Drops n s') : s'.cause = s.cause := by
  rw [cause, cause, shortfall, shortfall, h.fault_eq]

end Stream

namespace Varint

variable {s s' : Stream} {index left n used : Nat} {value v : UInt32}

/-- What the stream reader answers after `index` bytes where the reader of byte lists says
`result`. -/
inductive Answers (s : Stream) (index : Nat) :
    Except WireError (UInt32 × Nat) → Except WireError UInt32 × Stream → Prop
  | ok {v : UInt32} {n : Nat} {s' : Stream} (drops : s.Drops n s') :
      Answers s index (.ok (v, index + n)) (.ok v, s')
  | truncated {s' : Stream} (drops : s.Drops (maxLength - index) s') :
      Answers s index (.error .truncated) (.error s.cause, s')
  | malformed {s' : Stream} (drops : s.Drops (maxLength - index) s') :
      Answers s index (.error .malformedLength) (.error .malformedLength, s')

theorem Answers.of_drops {result : Except WireError (UInt32 × Nat)}
    {answer : Except WireError UInt32 × Stream} (h : s.Drops 1 s') (hindex : index < maxLength)
    (ha : Answers s' (index + 1) result answer) : Answers s index result answer := by
  have hleft : 1 + (maxLength - (index + 1)) = maxLength - index := by omega
  cases ha with
  | @ok v n _ drops =>
      have hcount : index + 1 + n = index + (1 + n) := by omega
      rw [hcount]
      exact .ok (h.trans drops)
  | truncated drops =>
      rw [h.cause_eq]
      exact .truncated (hleft ▸ h.trans drops)
  | malformed drops => exact .malformed (hleft ▸ h.trans drops)

theorem readFrom_of_nil (h : s.remaining = []) (left : Nat) (value : UInt32) :
    ∃ s', readFrom (left + 1) value s = (.error s.cause, s') ∧ ∀ m, s.Drops m s' := by
  obtain ⟨s', htake, hdrops⟩ := Stream.exists_take_of_lt (s := s) (n := 1) (by simp [h])
  refine ⟨s', ?_, fun m => hdrops.of_length_le (by simp [h]) (by simp [h])⟩
  rw [readFrom, htake]
  rfl

theorem readFrom_of_cons {byte : UInt8} {rest : List UInt8} (h : s.remaining = byte :: rest)
    (left : Nat) (value : UInt32) : ∃ s', s.Drops 1 s' ∧ s'.remaining = rest ∧
      readFrom (left + 1) value s =
        match contribution (4 - left) byte with
        | .error e => (.error e, s')
        | .ok part =>
          if continues byte then readFrom left (value ||| part) s'
          else (.ok (value ||| part), s') := by
  obtain ⟨s', htake, hdrops⟩ := Stream.exists_take_of_le (s := s) (n := 1) (by simp [h])
  refine ⟨s', hdrops, by rw [hdrops.remaining_eq, h]; rfl, ?_⟩
  have hindex : maxLength - (left + 1) = 4 - left := by rw [maxLength]; omega
  have hbyte : (s.remaining.take 1).headD 0 = byte := by rw [h]; rfl
  rw [readFrom, htake]
  exact hbyte ▸ hindex ▸ rfl

/-- One byte from both readers. A fifth byte that is continued is refused, so there is always a byte
left to read on with. -/
theorem answers_step (hleft : left ≤ 4) (value : UInt32) (s : Stream)
    (hnext : 0 < left → ∀ value s', Answers s' (4 - left + 1)
      (decodeFrom (4 - left + 1) value s'.remaining) (readFrom left value s')) :
    Answers s (4 - left) (decodeFrom (4 - left) value s.remaining)
      (readFrom (left + 1) value s) := by
  cases hbytes : s.remaining with
  | nil =>
      obtain ⟨s', hread, hdrops⟩ := readFrom_of_nil hbytes left value
      rw [hread]
      exact .truncated (hdrops _)
  | cons byte rest =>
      obtain ⟨s', hdrops, hrest, hread⟩ := readFrom_of_cons hbytes left value
      rw [hread]
      by_cases hroom : 4 - left = 4 → byte.toNat ≤ 15
      · rw [decodeFrom_cons hroom, contribution_of_le hroom]
        by_cases hcontinues : continues byte = true
        · have hlarge := continues_iff.mp hcontinues
          simp only [if_pos hcontinues, ← hrest]
          exact (hnext (by omega) _ s').of_drops hdrops (by rw [maxLength]; omega)
        · simp only [if_neg hcontinues]
          exact .ok hdrops
      · obtain ⟨hlast, hlarge⟩ := Classical.not_imp.mp hroom
        rw [decodeFrom, hlast, contribution_of_lt (Nat.not_le.mp hlarge)]
        exact .malformed hdrops

theorem answers_readFrom (hleft : left ≤ 4) (value : UInt32) (s : Stream) :
    Answers s (4 - left) (decodeFrom (4 - left) value s.remaining)
      (readFrom (left + 1) value s) := by
  induction left generalizing value s with
  | zero => exact answers_step hleft value s nofun
  | succ left ih =>
      refine answers_step hleft value s fun _ value s' => ?_
      have hindex : 4 - (left + 1) + 1 = 4 - left := by omega
      rw [hindex]
      exact ih (by omega) value s'

/-- Reading a number from a stream says what decoding the bytes to come says. -/
theorem answers_read (s : Stream) : Answers s 0 (decode s.remaining) (read s) :=
  answers_readFrom (Nat.le_refl 4) 0 s

theorem exists_read_of_decode (h : decode s.remaining = .ok (v, used)) :
    ∃ s', read s = (.ok v, s') ∧ s.Drops used s' := by
  have ha := answers_read s
  rw [h] at ha
  generalize read s = answer at ha ⊢
  cases ha with
  | @ok v n s' drops =>
      rw [← Nat.zero_add n] at drops
      exact ⟨_, rfl, drops⟩

theorem exists_read_of_truncated (h : decode s.remaining = .error .truncated) :
    ∃ s', read s = (.error s.cause, s') ∧ s.Drops maxLength s' := by
  have ha := answers_read s
  rw [h] at ha
  generalize read s = answer at ha ⊢
  cases ha with
  | truncated drops => exact ⟨_, rfl, drops⟩

theorem exists_read_of_malformed (h : decode s.remaining = .error .malformedLength) :
    ∃ s', read s = (.error .malformedLength, s') ∧ s.Drops maxLength s' := by
  have ha := answers_read s
  rw [h] at ha
  generalize read s = answer at ha ⊢
  cases ha with
  | malformed drops => exact ⟨_, rfl, drops⟩

end Varint

end Realm.Wire
