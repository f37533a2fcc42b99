import Realm.Proofs.Wire.Stream

/-!
# Two readers of numbers

One reader of numbers runs over a byte list to its end; the other asks a stream for a byte at most
five times. Main statement: in whatever pieces a stream hands out its bytes, reading from it says
what decoding the bytes says and takes just the bytes of the answer, for one number and for one
after the other. A stream that fails inside a number gives its failure instead, unless the failure
is of the kind that says that the bytes are over: this one is not told from their end. What the
second reader would say after five bytes is never said.
-/

namespace Realm.Wire.Varint

variable {s s' : Stream} {bytes : List UInt8} {value v : UInt32} {left used : Nat} {e : WireError}

/-! ## The end of the loop -/

/-- Reads like `readFrom`, but answers `spent` once no further byte may be asked for. -/
def readOr (spent : Except WireError UInt32) (left : Nat) (value : UInt32) (s : Stream) :
    Except WireError UInt32 × Stream :=
  match left with
  | 0 => (spent, s)
  | left + 1 =>
    match s.take 1 with
    | (.error shortfall, s) => (.error shortfall.inside, s)
    | (.ok bytes, s) =>
      let byte := bytes.headD 0
      match contribution (maxLength - (left + 1)) byte with
      | .error e => (.error e, s)
      | .ok part =>
        if continues byte then readOr spent left (value ||| part) s
        else (.ok (value ||| part), s)

/-- Both say the same if they do after a continued byte that is not refused. -/
theorem readOr_succ {spent : Except WireError UInt32} (h : ∀ byte part s',
      contribution (maxLength - (left + 1)) byte = .ok part → continues byte = true →
        readOr spent left (value ||| part) s' = readFrom left (value ||| part) s') :
    readOr spent (left + 1) value s = readFrom (left + 1) value s := by
  rw [readOr, readFrom]
  cases s.take 1 with
  | mk answer s' =>
      cases answer with
      | error shortfall => rfl
      | ok bytes =>
          dsimp only
          cases hpart : contribution (maxLength - (left + 1)) (bytes.headD 0) with
          | error e => rfl
          | ok part =>
              dsimp only
              split
              · next hcontinues => exact h _ part s' hpart hcontinues
              · rfl

theorem readOr_malformed (left : Nat) (value : UInt32) (s : Stream) :
    readOr (.error .malformedLength) left value s = readFrom left value s := by
  induction left generalizing value s with
  | zero => rfl
  | succ left ih => exact readOr_succ fun _ part s' _ _ => ih (value ||| part) s'

theorem contribution_of_continues {byte : UInt8} (h : continues byte = true) :
    contribution 4 byte = .error .malformedLength := by
  simp [contribution, maxLength, h]

/-- A reader that may ask for five bytes has an answer after the fifth. -/
theorem readOr_eq_readFrom (spent : Except WireError UInt32) (hleft : left ≤ 4) (value : UInt32)
    (s : Stream) : readOr spent (left + 1) value s = readFrom (left + 1) value s := by
  induction left generalizing value s with
  | zero =>
      -- only a fifth byte that is continued leads to the end of the loop
      refine readOr_succ fun byte part s' hpart hcontinues => ?_
      have hrefused : contribution (maxLength - (0 + 1)) byte = .error .malformedLength :=
        contribution_of_continues hcontinues
      simp [hrefused] at hpart
  | succ left ih => exact readOr_succ fun _ part s' _ _ => ih (by omega) (value ||| part) s'

/-! ## One number after the other -/

theorem length_sub_lt_of_decode (h : decode bytes = .ok (v, used)) :
    bytes.length - used < bytes.length := by
  have hused := used_le_of_decode h
  omega

/-- Decodes numbers until none can be decoded: the numbers in order, why there is no further one,
and the bytes after the last number. -/
def decodeAll (bytes : List UInt8) : List UInt32 × WireError × List UInt8 :=
  match h : decode bytes with
  | .error e => ([], e, bytes)
  | .ok (n, used) =>
    have : bytes.length - used < bytes.length := length_sub_lt_of_decode h
    let (ns, e, left) := decodeAll (bytes.drop used)
    (n :: ns, e, left)
termination_by bytes.length

theorem readAll_of_error (h : read s = (.error e, s')) : readAll s = ([], e, s') := by
  rw [readAll]
  split <;> simp_all

theorem readAll_of_ok (h : read s = (.ok v, s')) :
    readAll s = (v :: (readAll s').1, (readAll s').2) := by
  rw [readAll]
  split <;> simp_all

/-- What becomes of a stream where decoding its bytes stops for `e` with `left` not decoded. -/
inductive Stops (s : Stream) : WireError → List UInt8 → WireError × Stream → Prop
  | truncated {left : List UInt8} {s' : Stream} (used_up : s'.remaining = []) :
      Stops s .truncated left (s.cause, s')
  | malformed {left : List UInt8} {s' : Stream} (five : maxLength ≤ left.length)
      (remaining_eq : s'.remaining = left.drop maxLength) :
      Stops s .malformedLength left (.malformedLength, s')

theorem Stops.congr {left : List UInt8} {answer : WireError × Stream} (h : s'.cause = s.cause)
    (hs : Stops s' e left answer) : Stops s e left answer := by
  cases hs with
  | truncated used_up =>
      rw [h]
      exact .truncated used_up
  | malformed five remaining_eq => exact .malformed five remaining_eq

theorem length_of_malformed (h : decode bytes = .error .malformedLength) :
    maxLength ≤ bytes.length := by
  have hlength := (decode_take_of_malformed h).2
  rw [List.length_take] at hlength
  omega

/-- A number without an end has fewer bytes than the longest number, so none of them is left. -/
theorem exists_read_cause (h : decode s.remaining = .error .truncated) :
    ∃ s', read s = (.error s.cause, s') ∧ s'.remaining = [] := by
  obtain ⟨s', hread, hdrops⟩ := exists_read_of_truncated h
  have hshort := (decode_eq_truncated_iff.mp h).2
  refine ⟨s', hread, ?_⟩
  rw [hdrops.remaining_eq, List.drop_of_length_le (by rw [maxLength]; omega)]

theorem stops_of_decode (h : decode s.remaining = .error e) :
    ∃ e' s', read s = (.error e', s') ∧ Stops s e s.remaining (e', s') := by
  rcases decode_error h with rfl | rfl
  · obtain ⟨s', hread, hused⟩ := exists_read_cause h
    exact ⟨s.cause, s', hread, .truncated hused⟩
  · obtain ⟨s', hread, hdrops⟩ := exists_read_of_malformed h
    exact ⟨_, s', hread, .malformed (length_of_malformed h) hdrops.remaining_eq⟩

/-- Reading numbers one after the other gives the numbers that decoding gives, and stops with it. -/
theorem readAll_eq_decodeAll (s : Stream) : (readAll s).1 = (decodeAll s.remaining).1 ∧
    Stops s (decodeAll s.remaining).2.1 (decodeAll s.remaining).2.2 (readAll s).2 := by
  generalize hbytes : s.remaining = bytes
  fun_induction decodeAll bytes generalizing s with
  | case1 bytes e h =>
      subst hbytes
      obtain ⟨e', s', hread, hstops⟩ := stops_of_decode h
      rw [readAll_of_error hread]
      exact ⟨rfl, hstops⟩
  | case2 bytes n used h _ ns e left hrest ih =>
      subst hbytes
      obtain ⟨s', hread, hdrops⟩ := exists_read_of_decode h
      have hnext := ih s' hdrops.remaining_eq
      rw [hrest] at hnext
      rw [readAll_of_ok hread]
      exact ⟨congrArg (n :: ·) hnext.1, hnext.2.congr hdrops.cause_eq⟩

/-! ## The main statement -/

/-- How a number is read from a stream, beside how the bytes of the stream are decoded. -/
structure Agrees (s : Stream) : Prop where
  /-- The number that is decoded is read, and the bytes that it takes are gone, -/
  ok : ∀ v used, decode s.remaining = .ok (v, used) → used ≤ s.remaining.length ∧
    ∃ s', read s = (.ok v, s') ∧ s.Drops used s'
  /-- a number without an end uses the stream up, -/
  truncated : s.fault = none → decode s.remaining = .error .truncated →
    ∃ s', read s = (.error .truncated, s') ∧ s'.remaining = []
  /-- and one that is too long takes five bytes. -/
  malformed : decode s.remaining = .error .malformedLength → 5 ≤ s.remaining.length ∧
    ∃ s', read s = (.error .malformedLength, s') ∧ s.Drops 5 s'
  /-- Decoding fails in no other way. -/
  error : ∀ e, decode s.remaining = .error e → e = .truncated ∨ e = .malformedLength
  /-- A stream that fails before the number is complete, and not because its bytes are over, gives
  its failure, -/
  broken : ∀ fault, s.fault = some fault → fault.kind ≠ .unexpectedEof →
    decode s.remaining = .error .truncated →
      ∃ s', read s = (.error (.stream fault.reason), s') ∧ s'.remaining = []
  /-- which is given in no other case. -/
  broken_only : ∀ reason, (read s).1 = .error (.stream reason) →
    ∃ fault, s.fault = some fault ∧ fault.kind ≠ .unexpectedEof ∧ fault.reason = reason ∧
      decode s.remaining = .error .truncated
  /-- A failure that says that the bytes are over is taken for their end. -/
  early : ∀ fault, s.fault = some fault → fault.kind = .unexpectedEof →
    decode s.remaining = .error .truncated →
      ∃ s', read s = (.error .truncated, s') ∧ s'.remaining = []
  /-- The reader of streams runs a loop with an answer after the fifth byte, -/
  loop : ∀ left value s', readOr (.error .malformedLength) left value s' = readFrom left value s'
  /-- but with any other answer there it would read the same. -/
  unspent : ∀ spent, readOr spent maxLength 0 s = read s
  /-- One number after the other, the same ones are read and decoded, -/
  values : (readAll s).1 = (decodeAll s.remaining).1
  /-- and the last attempt ends as above. -/
  stops : Stops s (decodeAll s.remaining).2.1 (decodeAll s.remaining).2.2 (readAll s).2

/-- A failure of the stream is read only where the bytes before it begin a number. -/
theorem broken_of_read {reason : String} (h : (read s).1 = .error (.stream reason)) :
    s.cause = .stream reason ∧ decode s.remaining = .error .truncated := by
  cases hdecode : decode s.remaining with
  | ok found =>
      obtain ⟨s', hread, -⟩ := exists_read_of_decode hdecode
      simp [hread] at h
  | error e =>
      obtain ⟨e', s', hread, hstops⟩ := stops_of_decode hdecode
      rw [hread, Except.error.injEq] at h
      cases hstops with
      | truncated used_up => exact ⟨h, rfl⟩
      | malformed five remaining_eq => cases h

/-- However a stream hands out its bytes, reading numbers from it agrees with decoding them. -/
theorem agrees_of_stream (s : Stream) : Agrees s where
  ok v used h := ⟨(used_le_of_decode h).2, exists_read_of_decode h⟩
  truncated hfault h := by
    rw [← Stream.cause_of_none hfault]
    exact exists_read_cause h
  malformed h := ⟨length_of_malformed h, exists_read_of_malformed h⟩
  error e h := decode_error h
  broken fault hfault hkind h := by
    rw [← Shortfall.inside_of_ne hkind, ← Stream.cause_of_some hfault]
    exact exists_read_cause h
  broken_only reason h := by
    obtain ⟨hcause, hdecode⟩ := broken_of_read h
    obtain ⟨fault, hfault, hkind, hreason⟩ := Stream.exists_fault_of_cause hcause
    exact ⟨fault, hfault, hkind, hreason, hdecode⟩
  early fault hfault hkind h := by
    rw [← Shortfall.inside_of_eq hkind, ← Stream.cause_of_some hfault]
    exact exists_read_cause h
  loop := readOr_malformed
  unspent spent := readOr_eq_readFrom spent (Nat.le_refl 4) 0 s
  values := (readAll_eq_decodeAll s).1
  stops := (readAll_eq_decodeAll s).2

/-- A read that fails inside a number gives no failure if it only says that the bytes are over. -/
theorem truncated_of_unexpectedEof :
    decode [0x80] = .error .truncated ∧
      (read ⟨[[0x80]], some ⟨.unexpectedEof, "early eof"⟩⟩).1 = .error .truncated ∧
      ∀ reason, (read ⟨[[0x80]], some ⟨.unexpectedEof, "early eof"⟩⟩).1 ≠
        .error (.stream reason) :=
  ⟨rfl, rfl, nofun⟩

/-- A piece may end inside a number. -/
example : (read ⟨[[0xac], [0x02, 0xff]], none⟩).1 = .ok 300 := rfl

end Realm.Wire.Varint
