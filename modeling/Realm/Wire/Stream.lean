import Realm.Wire.Error

/-!
# Byte streams

A stream hands its bytes out in pieces whose sizes the reader does not choose, and afterwards
either ends or fails. Readers ask for an exact number of bytes; what they get depends on the
concatenation of the pieces only (`Stream.take_of_le`), not on where they are cut. A failure has a
kind, and one kind says no more than that the bytes are over: a reader in the middle of something
does not tell it from the end.
-/

namespace Realm.Wire

/-- What kind of failure a stream reports, as far as readers tell kinds apart. -/
inductive FaultKind where
  | unexpectedEof
  | other
  deriving DecidableEq, Repr

structure Fault where
  kind : FaultKind
  reason : String
  deriving DecidableEq, Repr

/-- A byte stream: the pieces still to come, and how it behaves after them. -/
structure Stream where
  /-- The pieces that successive reads hand out. -/
  chunks : List (List UInt8)
  /-- What a read reports after the last piece; without it the stream just ends. -/
  fault : Option Fault
  deriving Repr

/-- Why a stream could not hand out as many bytes as asked for. -/
inductive Shortfall where
  | ended
  | broke (fault : Fault)
  deriving DecidableEq, Repr

/-- What a reader says that is short of bytes inside of what it reads. -/
def Shortfall.inside : Shortfall → WireError
  | .ended => .truncated
  | .broke fault =>
    match fault.kind with
    | .unexpectedEof => .truncated
    | .other => .stream fault.reason

namespace Stream

/-- Cuts `bytes` into pieces of `size` bytes, the last one possibly shorter. Pieces of no size
make no progress, so size zero leaves the bytes in one piece. -/
def cut (size : Nat) (bytes : List UInt8) : List (List UInt8) :=
  if size = 0 ∨ bytes.length ≤ size then [bytes]
  else bytes.take size :: cut size (bytes.drop size)
termination_by bytes.length
decreasing_by simp only [List.length_drop]; omega

/-- The stream over `bytes` that hands out at most `chunk` bytes at once (any number if `none`). -/
def ofBytes (bytes : List UInt8) (chunk : Option Nat) (fault : Option Fault) : Stream :=
  ⟨cut (chunk.getD 0) bytes, fault⟩

def remaining (s : Stream) : List UInt8 := s.chunks.flatten

def shortfall (s : Stream) : Shortfall :=
  match s.fault with
  | none => .ended
  | some fault => .broke fault

/-- The first `n` bytes of a list of pieces with the pieces left over, or `none` if the pieces
hold fewer. -/
def takeChunks (n : Nat) : List (List UInt8) → Option (List UInt8 × List (List UInt8))
  | [] => if n = 0 then some ([], []) else none
  | chunk :: chunks =>
    if n ≤ chunk.length then some (chunk.take n, chunk.drop n :: chunks)
    else (takeChunks (n - chunk.length) chunks).map fun (bytes, left) => (chunk ++ bytes, left)

/-- Takes exactly `n` bytes. A stream that holds fewer loses them all to the failed attempt. -/
def take (n : Nat) (s : Stream) : Except Shortfall (List UInt8) × Stream :=
  match takeChunks n s.chunks with
  | some (bytes, left) => (.ok bytes, { s with chunks := left })
  | none => (.error s.shortfall, { s with chunks := [] })

theorem flatten_cut (size : Nat) (bytes : List UInt8) : (cut size bytes).flatten = bytes := by
  fun_induction cut size bytes with
  | case1 => simp
  | case2 bytes _ ih => simp [ih]

@[simp] theorem remaining_ofBytes (bytes : List UInt8) (chunk : Option Nat)
    (fault : Option Fault) : (ofBytes bytes chunk fault).remaining = bytes :=
  flatten_cut _ _

/-- Pieces that hold `n` bytes give the first `n` of their concatenation and keep the others. -/
theorem takeChunks_of_le {n : Nat} {chunks : List (List UInt8)} (h : n ≤ chunks.flatten.length) :
    ∃ left, takeChunks n chunks = some (chunks.flatten.take n, left) ∧
      left.flatten = chunks.flatten.drop n := by
  induction chunks generalizing n with
  | nil => exact ⟨[], by simp_all [takeChunks]⟩
  | cons chunk chunks ih =>
    rw [List.flatten_cons, List.length_append] at h
    by_cases hn : n ≤ chunk.length
    · exact ⟨chunk.drop n :: chunks, by
        simp [takeChunks, hn, List.take_append_of_le_length, List.drop_append_of_le_length]⟩
    · obtain ⟨left, hsome, hleft⟩ := ih (n := n - chunk.length) (by omega)
      refine ⟨left, ?_, ?_⟩
      · have := List.take_of_length_le (l := chunk) (i := n) (by omega)
        simp [takeChunks, hn, hsome, List.take_append, this]
      · have := List.drop_of_length_le (l := chunk) (i := n) (by omega)
        simp [hleft, List.drop_append, this]

/-- Pieces that hold fewer than `n` bytes give none. -/
theorem takeChunks_of_lt {n : Nat} {chunks : List (List UInt8)} (h : chunks.flatten.length < n) :
    takeChunks n chunks = none := by
  induction chunks generalizing n with
  | nil => simp at h; simp [takeChunks]; omega
  | cons chunk chunks ih =>
    rw [List.flatten_cons, List.length_append] at h
    have hn : ¬ n ≤ chunk.length := by omega
    simp [takeChunks, hn, ih (n := n - chunk.length) (by omega)]

/-- A stream that holds `n` bytes hands out the first `n`, wherever its pieces are cut. -/
theorem take_of_le {n : Nat} {s : Stream} (h : n ≤ s.remaining.length) :
    (s.take n).1 = .ok (s.remaining.take n) ∧ (s.take n).2.remaining = s.remaining.drop n ∧
      (s.take n).2.fault = s.fault := by
  obtain ⟨left, hsome, hleft⟩ := takeChunks_of_le h
  simp [take, hsome, remaining, hleft]

/-- A stream that holds fewer than `n` bytes fails and is used up. -/
theorem take_of_lt {n : Nat} {s : Stream} (h : s.remaining.length < n) :
    (s.take n).1 = .error s.shortfall ∧ (s.take n).2.remaining = [] ∧
      (s.take n).2.fault = s.fault := by
  simp [take, takeChunks_of_lt h, remaining]

/-- Taking bytes never makes a stream longer. -/
theorem remaining_take_le (n : Nat) (s : Stream) :
    (s.take n).2.remaining.length ≤ s.remaining.length := by
  by_cases h : n ≤ s.remaining.length
  · rw [(take_of_le h).2.1]; simp
  · rw [(take_of_lt (Nat.not_le.1 h)).2.1]; simp

/-- A stream that gave a byte is shorter by it. -/
theorem remaining_take_lt {s s' : Stream} {bytes : List UInt8}
    (h : s.take 1 = (.ok bytes, s')) : s'.remaining.length < s.remaining.length := by
  by_cases hle : 1 ≤ s.remaining.length
  · have hs : (s.take 1).2.remaining = s.remaining.drop 1 := (take_of_le hle).2.1
    rw [h] at hs
    simp only [hs, List.length_drop]
    omega
  · have := (take_of_lt (Nat.not_le.1 hle)).1
    rw [h] at this
    cases this

end Stream

end Realm.Wire
