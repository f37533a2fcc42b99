import Realm.Proofs.Wire.Stream
import Realm.Wire.Packet

/-!
# Frames

A frame is a kind byte, bytes that a length is read from, and as many bytes of payload. The length
of a frame may be written in any way that can be read; a packet is written with the shortest one.
Bytes are frames one after the other and then something that is no frame, and a reader of packets
gets through the frames and stops at what is none.
-/

namespace Realm.Wire

structure Frame where
  kind : UInt8
  /-- The bytes that the length is read from. -/
  header : List UInt8
  length : UInt32
  payload : List UInt8
  header_eq : Varint.decode header = .ok (length, header.length)
  length_eq : payload.length = length.toNat

namespace Frame

def bytes (f : Frame) : List UInt8 := f.kind :: (f.header ++ f.payload)

def packet (f : Frame) : Packet := ⟨f.kind, f.payload⟩

def join (fs : List Frame) : List UInt8 := fs.flatMap bytes

/-- The frame of the same packet that a writer makes. -/
def shortest (f : Frame) : Frame where
  kind := f.kind
  header := Varint.encode f.length
  length := f.length
  payload := f.payload
  header_eq := by
    have hread := Varint.decode_encode_append f.length []
    rwa [List.append_nil] at hread
  length_eq := f.length_eq

variable (f : Frame)

theorem announced_packet : f.packet.announced = f.length := by
  rw [Packet.announced, packet, f.length_eq, UInt32.ofNat_toNat]

theorem bytes_shortest : f.shortest.bytes = f.packet.toBytes := by
  rw [Packet.toBytes, announced_packet]
  rfl

theorem length_bytes_shortest_le : f.shortest.bytes.length ≤ f.bytes.length := by
  have hheader := Varint.encodedLength_le_of_decode f.header_eq
  rw [← Varint.length_encode] at hheader
  simp only [bytes, shortest, List.length_cons, List.length_append]
  omega

theorem two_le_length_bytes : 2 ≤ f.bytes.length := by
  have hheader := (Varint.used_le_of_decode f.header_eq).1
  rw [bytes, List.length_cons, List.length_append]
  omega

end Frame

/-- The frame of a packet, as a writer makes it. -/
theorem Packet.exists_frame {p : Packet} (h : p.payload.length < 2 ^ 32) :
    ∃ f : Frame, f.packet = p ∧ f.bytes = p.toBytes := by
  have hread := Varint.decode_encode_append p.announced []
  rw [List.append_nil] at hread
  have hlength : p.payload.length = p.announced.toNat := (UInt32.toNat_ofNat_of_lt' h).symm
  exact ⟨⟨p.kind, Varint.encode p.announced, p.announced, p.payload, hread, hlength⟩, rfl, rfl⟩

/-! ## Where reading ends -/

/-- How reading ends at bytes that do not begin with a frame of at most `limit` bytes of payload:
the bytes that are taken, those that are left, and what the reader says. -/
inductive Ending (limit : Nat) : List UInt8 → List UInt8 → Option WireError → Prop
  | clean : Ending limit [] [] none
  | tooLarge {kind : UInt8} {header : List UInt8} {length : UInt32} (left : List UInt8)
      (header_eq : Varint.decode header = .ok (length, header.length))
      (large : limit < length.toNat) :
      Ending limit (kind :: header) left (some (.payloadTooLarge length.toNat limit))
  | malformed {kind : UInt8} {header : List UInt8} (left : List UInt8)
      (header_eq : Varint.decode header = .error .malformedLength)
      (header_length : header.length = Varint.maxLength) :
      Ending limit (kind :: header) left (some .malformedLength)
  | insideHeader {kind : UInt8} {header : List UInt8}
      (header_eq : Varint.decode header = .error .truncated) :
      Ending limit (kind :: header) [] (some .truncated)
  | insidePayload {kind : UInt8} {header payload : List UInt8} {length : UInt32}
      (header_eq : Varint.decode header = .ok (length, header.length))
      (fits : length.toNat ≤ limit) (short : payload.length < length.toNat) :
      Ending limit (kind :: (header ++ payload)) [] (some .truncated)

def Frame.AllFit (limit : Nat) (fs : List Frame) : Prop := ∀ f ∈ fs, f.payload.length ≤ limit

variable {limit n : Nat} {bytes : List UInt8}

/-- Bytes begin with a frame that is accepted, or reading ends at them. -/
inductive Frame.Begins (limit : Nat) : List UInt8 → Prop
  | frame {f : Frame} (rest : List UInt8) (fits : f.payload.length ≤ limit) :
      Begins limit (f.bytes ++ rest)
  | ending {taken left : List UInt8} {e : Option WireError} (ends : Ending limit taken left e) :
      Begins limit (taken ++ left)

theorem Frame.begins_of_length {kind : UInt8} {header tail : List UInt8} {length : UInt32}
    (hheader : Varint.decode header = .ok (length, header.length)) :
    Begins limit (kind :: (header ++ tail)) := by
  by_cases hlarge : limit < length.toNat
  · exact .ending (.tooLarge tail hheader hlarge)
  · by_cases hshort : tail.length < length.toNat
    · have hends : Ending limit (kind :: (header ++ tail)) [] _ :=
        .insidePayload hheader (Nat.not_lt.mp hlarge) hshort
      have hbegins := Begins.ending hends
      rwa [List.append_nil] at hbegins
    · have hlength := List.length_take_of_le (Nat.not_lt.mp hshort)
      let f : Frame := ⟨kind, header, length, tail.take length.toNat, hheader, hlength⟩
      have hbegins : Begins limit (f.bytes ++ tail.drop length.toNat) :=
        .frame _ (hlength.trans_le (Nat.not_lt.mp hlarge))
      rwa [Frame.bytes, List.cons_append, List.append_assoc, List.take_append_drop] at hbegins

theorem Frame.begins (limit : Nat) (bytes : List UInt8) : Begins limit bytes := by
  cases bytes with
  | nil => exact .ending .clean
  | cons kind tail =>
      cases hread : Varint.decode tail with
      | error why =>
          rcases Varint.decode_error hread with rfl | rfl
          · have hends : Ending limit (kind :: tail) [] _ := .insideHeader hread
            have hbegins := Begins.ending hends
            rwa [List.append_nil] at hbegins
          · obtain ⟨htake, hlength⟩ := Varint.decode_take_of_malformed hread
            have hends : Ending limit (kind :: tail.take Varint.maxLength) _ _ :=
              .malformed (tail.drop Varint.maxLength) htake hlength
            have hbegins := Begins.ending hends
            rwa [List.cons_append, List.take_append_drop] at hbegins
      | ok result =>
          obtain ⟨length, used⟩ := result
          have hlength := List.length_take_of_le (Varint.used_le_of_decode hread).2
          have hheader :
              Varint.decode (tail.take used) = .ok (length, (tail.take used).length) := by
            rw [hlength]
            exact Varint.decode_take hread
          rw [← List.take_append_drop used tail]
          exact begins_of_length hheader

/-- All bytes are frames that are accepted, and an ending. -/
theorem Frame.exists_join (limit : Nat) (bytes : List UInt8) :
    ∃ fs taken left e, AllFit limit fs ∧ bytes = join fs ++ (taken ++ left) ∧
      Ending limit taken left e := by
  induction hlength : bytes.length using Nat.strongRecOn generalizing bytes with
  | ind size ih =>
      cases Frame.begins limit bytes with
      | ending ends => exact ⟨[], _, _, _, nofun, rfl, ends⟩
      | @frame f rest fits =>
          have hpos := f.two_le_length_bytes
          rw [List.length_append] at hlength
          obtain ⟨fs, taken, left, e, hall, rfl, ends⟩ := ih rest.length (by omega) rest rfl
          refine ⟨f :: fs, taken, left, e, List.forall_mem_cons.mpr ⟨fits, hall⟩, ?_, ends⟩
          rw [join, join, List.flatMap_cons, List.append_assoc]

/-! ## Cuts -/

/-- Reading ends inside a frame that is cut short, unless nothing of it is there. -/
theorem Frame.ending_take {f : Frame} (hfits : f.payload.length ≤ limit)
    (hn : n < f.bytes.length) :
    Ending limit (f.bytes.take n) [] (if n = 0 then none else some .truncated) := by
  cases n with
  | zero => exact .clean
  | succ n =>
      rw [if_neg (Nat.succ_ne_zero n), bytes, List.take_succ_cons, List.take_append]
      rw [bytes, List.length_cons, List.length_append] at hn
      by_cases hheader : n < f.header.length
      · have hnone : n - f.header.length = 0 := by omega
        rw [hnone, List.take_zero, List.append_nil]
        exact .insideHeader (Varint.decode_take_of_lt f.header_eq hheader)
      · have hlength := f.length_eq
        rw [List.take_of_length_le (Nat.not_lt.mp hheader)]
        refine .insidePayload f.header_eq (by omega) ?_
        rw [List.length_take]
        omega

/-- How frames are cut after `n` bytes: `k` of them are whole, and of the next one there is less
than all. -/
structure Frame.Cut (limit : Nat) (fs : List Frame) (n k : Nat) (taken : List UInt8) : Prop where
  le : k ≤ fs.length
  take_eq : (join fs).take n = join (fs.take k) ++ taken
  length_eq : (join (fs.take k)).length + taken.length = n
  next : k < fs.length → n < (join (fs.take (k + 1))).length
  ending : Ending limit taken [] (if taken = [] then none else some .truncated)

theorem Frame.exists_cut {fs : List Frame} (hall : AllFit limit fs) (hn : n ≤ (join fs).length) :
    ∃ k taken, Cut limit fs n k taken := by
  induction fs generalizing n with
  | nil =>
      obtain rfl : n = 0 := Nat.le_zero.mp hn
      exact ⟨0, [], Nat.le_refl 0, rfl, rfl, nofun, .clean⟩
  | cons f fs ih =>
      obtain ⟨hfits, hall⟩ := List.forall_mem_cons.mp hall
      have hjoin : ∀ gs, join (f :: gs) = f.bytes ++ join gs := fun _ => rfl
      rw [hjoin, List.length_append] at hn
      by_cases hinside : n < f.bytes.length
      · refine ⟨0, f.bytes.take n, Nat.zero_le _, ?_, ?_, fun _ => ?_, ?_⟩
        · rw [hjoin, List.take_append_of_le_length (Nat.le_of_lt hinside)]
          rfl
        · rw [List.length_take_of_le (Nat.le_of_lt hinside)]
          exact Nat.zero_add n
        · rw [List.take_succ_cons, hjoin, List.length_append]
          omega
        · have hnil : f.bytes.take n = [] ↔ n = 0 := by
            rw [← List.length_eq_zero_iff, List.length_take_of_le (Nat.le_of_lt hinside)]
          simp only [hnil]
          exact ending_take hfits hinside
      · obtain ⟨k, taken, cut⟩ := ih (n := n - f.bytes.length) hall (by omega)
        have hlength := cut.length_eq
        refine ⟨k + 1, taken, Nat.succ_le_succ cut.le, ?_, ?_, fun hk => ?_, cut.ending⟩
        · rw [List.take_succ_cons, hjoin, hjoin, List.take_append,
            List.take_of_length_le (Nat.not_lt.mp hinside), cut.take_eq, List.append_assoc]
        · rw [List.take_succ_cons, hjoin, List.length_append]
          omega
        · have hnext := cut.next (Nat.lt_of_succ_lt_succ hk)
          rw [List.take_succ_cons, hjoin, List.length_append]
          omega

theorem Frame.length_join_take_le {i j : Nat} (fs : List Frame) (h : i ≤ j) :
    (join (fs.take i)).length ≤ (join (fs.take j)).length := by
  have hsplit : fs.take i ++ (fs.take j).drop i = fs.take j := by
    have htake := List.take_append_drop i (fs.take j)
    rwa [List.take_take, Nat.min_eq_left h] at htake
  rw [← hsplit, join, join, List.flatMap_append, List.length_append]
  exact Nat.le_add_right _ _

section

variable {fs : List Frame} {k : Nat} {taken : List UInt8} (cut : Frame.Cut limit fs n k taken)
include cut

/-- A frame is whole if the bytes up to its end are there. -/
theorem Frame.Cut.lt_iff {i : Nat} (hi : i < fs.length) :
    i < k ↔ (join (fs.take (i + 1))).length ≤ n := by
  have hlength := cut.length_eq
  constructor
  · intro hlt
    have hle := length_join_take_le fs (show i + 1 ≤ k from hlt)
    omega
  · intro hle
    refine Nat.not_le.mp fun hk => ?_
    have hnext := cut.next (Nat.lt_of_le_of_lt hk hi)
    have hmono := length_join_take_le fs (show k + 1 ≤ i + 1 by omega)
    omega

/-- Nothing of a frame is there if the cut is where frames meet. -/
theorem Frame.Cut.taken_eq_nil_iff : taken = [] ↔ ∃ j, (join (fs.take j)).length = n := by
  have hlength := cut.length_eq
  constructor
  · rintro rfl
    exact ⟨k, hlength⟩
  · rintro ⟨j, hj⟩
    rw [← List.length_eq_zero_iff]
    by_cases hjk : j ≤ k
    · have hmono := length_join_take_le fs hjk
      omega
    · by_cases hk : k < fs.length
      · have hnext := cut.next hk
        have hmono := length_join_take_le fs (show k + 1 ≤ j by omega)
        omega
      · rw [List.take_of_length_le (by omega)] at hj hlength
        omega

end

end Realm.Wire
