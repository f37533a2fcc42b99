import Realm.Wire.Varint

/-!
# Packets

A packet travels as one kind byte, the length of its payload, and the payload. A stream may end
between two frames; ending inside one is an error. A payload longer than the reader accepts is
refused before any of it is read.
-/

namespace Realm.Wire

structure Packet where
  kind : UInt8
  payload : List UInt8
  deriving DecidableEq, Repr

namespace Packet

def announced (p : Packet) : UInt32 := UInt32.ofNat p.payload.length

def toBytes (p : Packet) : List UInt8 := p.kind :: (Varint.encode p.announced ++ p.payload)

/-- The size of the frame, known without building it. -/
def framedLength (p : Packet) : Nat := 1 + Varint.encodedLength p.announced + p.payload.length

/-- Reads one packet with a payload of at most `limit` bytes; `none` if the stream ended before
it began. Before the kind byte a failure of any kind is a failure. -/
def read (limit : Nat) (s : Stream) : Except WireError (Option Packet) × Stream :=
  match s.take 1 with
  | (.error .ended, s) => (.ok none, s)
  | (.error (.broke fault), s) => (.error (.stream fault.reason), s)
  | (.ok head, s) =>
    match Varint.read s with
    | (.error e, s) => (.error e, s)
    | (.ok length, s) =>
      if length.toNat > limit then (.error (.payloadTooLarge length.toNat limit), s)
      else
        match s.take length.toNat with
        | (.error shortfall, s) => (.error shortfall.inside, s)
        | (.ok payload, s) => (.ok (some ⟨head.headD 0, payload⟩), s)

/-- A stream that held a packet is shorter by it. -/
theorem remaining_read_lt {limit : Nat} {p : Packet} {s s' : Stream}
    (h : read limit s = (.ok (some p), s')) : s'.remaining.length < s.remaining.length := by
  unfold read at h
  split at h
  next => cases h
  next => cases h
  next head s₁ h₁ =>
    have hlt := Stream.remaining_take_lt h₁
    split at h
    next => cases h
    next length s₂ h₂ =>
      have hle := Varint.remaining_readFrom_lt h₂
      split at h
      next => cases h
      next =>
        have ht := Stream.remaining_take_le length.toNat s₂
        split at h
        next => cases h
        next payload s₃ h₃ =>
          cases h
          rw [h₃] at ht
          dsimp only at ht
          omega

/-- Reads packets until the stream gives no further one: the packets in order, what ended the
reading (`none` for a clean end), and the stream left. -/
def readAll (limit : Nat) (s : Stream) : List Packet × Option WireError × Stream :=
  match h : read limit s with
  | (.error e, s') => ([], some e, s')
  | (.ok none, s') => ([], none, s')
  | (.ok (some p), s') =>
    have : s'.remaining.length < s.remaining.length := remaining_read_lt h
    let (ps, e, left) := readAll limit s'
    (p :: ps, e, left)
termination_by s.remaining.length

end Packet

/-- A byte sink: what was written to it, or the reason why every write fails. -/
structure Sink where
  written : List UInt8
  fault : Option String
  deriving Repr

def Sink.write (p : Packet) (sink : Sink) : Except WireError Sink :=
  match sink.fault with
  | some reason => .error (.stream reason)
  | none => .ok { sink with written := sink.written ++ p.toBytes }

end Realm.Wire
