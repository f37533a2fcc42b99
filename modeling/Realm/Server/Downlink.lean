import Realm.Net.Connection

/-!
# The downlink

The writer of a connection takes items from its queue, collects the bytes of packets in a buffer
and pushes the buffer to the socket when it is told to, or when the next packet does not fit. At a
close it pushes what it has, ends the stream and stops.
-/

namespace Realm

structure Downlink where
  /-- Bytes that were not pushed yet. -/
  buffered : List UInt8
  /-- Bytes that were pushed to the socket. -/
  pushed : List UInt8
  /-- Whether the writer has stopped and ended the stream. -/
  finished : Bool
  deriving DecidableEq, Repr

namespace Downlink

def bufferSize : Nat := 8192

def fresh : Downlink := ⟨[], [], false⟩

def push (d : Downlink) : Downlink := { d with buffered := [], pushed := d.pushed ++ d.buffered }

/-- Writes bytes into the buffer, which is pushed first if they do not fit. What is as long as the
whole buffer goes past it. -/
def writeBytes (d : Downlink) (bytes : List UInt8) : Downlink :=
  let d := if bufferSize < d.buffered.length + bytes.length then d.push else d
  if bufferSize ≤ bytes.length then { d with pushed := d.pushed ++ bytes }
  else { d with buffered := d.buffered ++ bytes }

/-- Handles one item. A writer that has stopped handles nothing. -/
def handle (d : Downlink) (item : Outbound) : Downlink :=
  if d.finished then d
  else match item with
    | .packet p => d.writeBytes p.toBytes
    | .flush => d.push
    | .close => { d.push with finished := true }

def handleAll (d : Downlink) (items : List Outbound) : Downlink := items.foldl handle d

/-- Takes everything from the queue of a connection. A writer that has stopped is gone. -/
def drain (d : Downlink) (c : Connection) : Downlink × Connection :=
  match c.drain none with
  | (none, c) => (d, c)
  | (some items, c) =>
    let d := d.handleAll items
    (d, if d.finished then c.dropWriter else c)

def written (d : Downlink) : List UInt8 := d.pushed ++ d.buffered

@[simp] theorem written_push (d : Downlink) : d.push.written = d.written := by
  simp [push, written]

/-- Writing never loses or reorders bytes, wherever they are kept. -/
theorem written_writeBytes (d : Downlink) (bytes : List UInt8) :
    (d.writeBytes bytes).written = d.written ++ bytes := by
  unfold writeBytes
  by_cases hfit : bufferSize < d.buffered.length + bytes.length <;>
    by_cases hlong : bufferSize ≤ bytes.length
  · simp [hfit, hlong, written, push]
  · simp [hfit, hlong, written, push]
  · have : d.buffered = [] := List.eq_nil_of_length_eq_zero (by omega)
    rw [if_neg hfit, if_pos hlong]
    simp [written, this]
  · simp [hfit, hlong, written]

end Downlink

end Realm
