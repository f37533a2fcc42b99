import Realm.Wire.Stream

/-!
# Variable-length integers

A 32-bit number is written in groups of seven bits, least significant group first; the high bit
of a byte says that another group follows. The writer emits the shortest form, at most five
bytes. The readers also accept longer forms, but never a sixth byte and never a fifth one that
carries bits beyond the thirty-second. There is one reader for byte lists and one for streams.
-/

namespace Realm.Wire.Varint

/-- The greatest number of bytes of an encoding. -/
def maxLength : Nat := 5

/-- The groups of `n`, each but the last marked as continued. -/
def groups (n : Nat) : List UInt8 :=
  if n < 128 then [UInt8.ofNat n] else UInt8.ofNat (n % 128 + 128) :: groups (n / 128)
termination_by n
decreasing_by omega

def encode (value : UInt32) : List UInt8 := groups value.toNat

def encodedLength (value : UInt32) : Nat :=
  if value ≤ 0x7f then 1
  else if value ≤ 0x3fff then 2
  else if value ≤ 0x1fffff then 3
  else if value ≤ 0xfffffff then 4
  else 5

/-- Whether another group follows the one in `byte`. -/
def continues (byte : UInt8) : Bool := byte &&& 0x80 != 0

/-- The seven value bits of `byte`. -/
def payload (byte : UInt8) : UInt8 := byte &&& 0x7f

/-- The contribution of the byte at position `index`. The fifth byte must be the last one and
has room for four bits only. -/
def contribution (index : Nat) (byte : UInt8) : Except WireError UInt32 :=
  if index + 1 = maxLength ∧ (continues byte ∨ payload byte > 0x0f) then
    .error .malformedLength
  else .ok ((payload byte).toUInt32 <<< UInt32.ofNat (7 * index))

/-- Reads on at position `index`, `value` holding the groups before it. -/
def decodeFrom (index : Nat) (value : UInt32) : List UInt8 → Except WireError (UInt32 × Nat)
  | [] => .error .truncated
  | byte :: rest =>
    match contribution index byte with
    | .error e => .error e
    | .ok part =>
      if continues byte then decodeFrom (index + 1) (value ||| part) rest
      else .ok (value ||| part, index + 1)

/-- The number at the start of `bytes`, with the number of bytes it takes. -/
def decode (bytes : List UInt8) : Except WireError (UInt32 × Nat) := decodeFrom 0 0 bytes

/-- Reads at most `left` further bytes from a stream, `value` holding the groups before them. -/
def readFrom (left : Nat) (value : UInt32) (s : Stream) : Except WireError UInt32 × Stream :=
  match left with
  | 0 => (.error .malformedLength, s)
  | left + 1 =>
    match s.take 1 with
    | (.error shortfall, s) => (.error shortfall.inside, s)
    | (.ok bytes, s) =>
      let byte := bytes.headD 0
      match contribution (maxLength - (left + 1)) byte with
      | .error e => (.error e, s)
      | .ok part =>
        if continues byte then readFrom left (value ||| part) s
        else (.ok (value ||| part), s)

def read (s : Stream) : Except WireError UInt32 × Stream := readFrom maxLength 0 s

/-- Reading a number never makes a stream longer. -/
theorem remaining_readFrom_le (left : Nat) (value : UInt32) (s : Stream) :
    (readFrom left value s).2.remaining.length ≤ s.remaining.length := by
  induction left generalizing value s with
  | zero => simp [readFrom]
  | succ left ih =>
    have hs := Stream.remaining_take_le 1 s
    unfold readFrom
    split
    next h => rw [h] at hs; exact hs
    next bytes s' h =>
      rw [h] at hs
      dsimp only at hs ⊢
      split
      · exact hs
      · split
        · exact Nat.le_trans (ih _ _) hs
        · exact hs

/-- A stream that held a number is shorter by it. -/
theorem remaining_readFrom_lt {left : Nat} {value n : UInt32} {s s' : Stream}
    (h : readFrom left value s = (.ok n, s')) : s'.remaining.length < s.remaining.length := by
  cases left with
  | zero => simp [readFrom] at h
  | succ left =>
    unfold readFrom at h
    split at h
    next => cases h
    next bytes s₁ ht =>
      have hlt : s₁.remaining.length < s.remaining.length := Stream.remaining_take_lt ht
      dsimp only at h
      split at h
      next => cases h
      next part _ =>
        split at h
        · have := remaining_readFrom_le left (value ||| part) s₁
          rw [h] at this
          exact Nat.lt_of_le_of_lt this hlt
        · cases h; exact hlt

/-- Reads numbers until the stream gives no further one: the numbers in order, what ended the
reading, and the stream left. -/
def readAll (s : Stream) : List UInt32 × WireError × Stream :=
  match h : read s with
  | (.error e, s') => ([], e, s')
  | (.ok n, s') =>
    have : s'.remaining.length < s.remaining.length := remaining_readFrom_lt h
    let (ns, e, left) := readAll s'
    (n :: ns, e, left)
termination_by s.remaining.length

end Realm.Wire.Varint
