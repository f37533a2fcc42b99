import Realm.Proofs.Wire.Frame

/-!
# Packets from a stream

Asking for packets again and again goes through the frames of a stream one by one and stops at the
first bytes that are no frame, wherever the pieces of the stream are cut. Main statements: what is
read of packets that were written one after the other and cut short somewhere, and what is read of
any bytes.
-/

namespace Realm.Wire

variable {limit n : Nat} {s s' s'' : Stream}

namespace Packet

def stopped : Option WireError → Except WireError (Option Packet)
  | none => .ok none
  | some e => .error e

/-! ## One packet -/

theorem read_of_nil (limit : Nat) (h : s.remaining = []) (hfault : s.fault = none) :
    ∃ s', read limit s = (.ok none, s') ∧ s'.remaining = [] ∧ s'.fault = none := by
  obtain ⟨s', htake, hdrops⟩ := Stream.exists_take_of_lt (s := s) (n := 1) (by simp [h])
  refine ⟨s', ?_, by rw [hdrops.remaining_eq, h]; rfl, hdrops.fault_eq.trans hfault⟩
  rw [read, htake, Stream.shortfall, hfault]

/-- Reading goes on with the length once there is a kind byte. -/
theorem read_of_cons (limit : Nat) {kind : UInt8} {tail : List UInt8}
    (h : s.remaining = kind :: tail) :
    ∃ s', s'.remaining = tail ∧ s'.fault = s.fault ∧ read limit s =
      match Varint.read s' with
      | (.error e, s) => (.error e, s)
      | (.ok length, s) =>
        if length.toNat > limit then (.error (.payloadTooLarge length.toNat limit), s)
        else
          match s.take length.toNat with
          | (.error shortfall, s) => (.error shortfall.inside, s)
          | (.ok payload, s) => (.ok (some ⟨kind, payload⟩), s) := by
  obtain ⟨s', htake, hdrops⟩ := Stream.exists_take_of_le (s := s) (n := 1) (by simp [h])
  refine ⟨s', by rw [hdrops.remaining_eq, h]; rfl, hdrops.fault_eq, ?_⟩
  have hkind : (s.remaining.take 1).headD 0 = kind := by rw [h]; rfl
  rw [read, htake]
  exact hkind ▸ rfl

/-- Reading goes on with the payload once the length is accepted. -/
theorem read_of_length (limit : Nat) {kind : UInt8} {header tail : List UInt8}
    {length : UInt32} (h : s.remaining = kind :: (header ++ tail))
    (hheader : Varint.decode header = .ok (length, header.length)) :
    ∃ s', s'.remaining = tail ∧ s'.fault = s.fault ∧ read limit s =
      if length.toNat > limit then (.error (.payloadTooLarge length.toNat limit), s')
      else
        match s'.take length.toNat with
        | (.error shortfall, s) => (.error shortfall.inside, s)
        | (.ok payload, s) => (.ok (some ⟨kind, payload⟩), s) := by
  obtain ⟨s₁, hremaining, hfault, hread⟩ := read_of_cons limit h
  have hdecode : Varint.decode s₁.remaining = .ok (length, header.length) := by
    rw [hremaining]
    exact Varint.decode_append hheader tail
  obtain ⟨s₂, hlength, hdrops⟩ := Varint.exists_read_of_decode hdecode
  refine ⟨s₂, ?_, hdrops.fault_eq.trans hfault, ?_⟩
  · rw [hdrops.remaining_eq, hremaining, List.drop_left]
  · rw [hread, hlength]

theorem read_of_frame {f : Frame} {rest : List UInt8} (h : s.remaining = f.bytes ++ rest)
    (hfits : f.payload.length ≤ limit) :
    ∃ s', read limit s = (.ok (some f.packet), s') ∧ s'.remaining = rest ∧
      s'.fault = s.fault := by
  rw [Frame.bytes, List.cons_append, List.append_assoc] at h
  have hlength := f.length_eq
  obtain ⟨s₁, hremaining, hfault, hread⟩ := read_of_length limit h f.header_eq
  obtain ⟨s₂, htake, hdrops⟩ := Stream.exists_take_of_le (s := s₁) (n := f.length.toNat)
    (by rw [hremaining, List.length_append]; omega)
  refine ⟨s₂, ?_, ?_, hdrops.fault_eq.trans hfault⟩
  · rw [hread, if_neg (by omega), htake, hremaining, ← hlength, List.take_left]
    rfl
  · rw [hdrops.remaining_eq, hremaining, ← hlength, List.drop_left]

theorem read_of_ending {taken left : List UInt8} {e : Option WireError}
    (he : Ending limit taken left e) (h : s.remaining = taken ++ left) (hfault : s.fault = none) :
    ∃ s', read limit s = (stopped e, s') ∧ s'.remaining = left ∧ s'.fault = none := by
  cases he with
  | clean => exact read_of_nil limit h hfault
  | tooLarge left header_eq large =>
      obtain ⟨s', hremaining, hfault', hread⟩ := read_of_length limit h header_eq
      exact ⟨s', by rw [hread, if_pos large]; rfl, hremaining, hfault'.trans hfault⟩
  | malformed left header_eq header_length =>
      obtain ⟨s₁, hremaining, hfault', hread⟩ := read_of_cons limit h
      obtain ⟨s₂, hlength, hdrops⟩ := Varint.exists_read_of_malformed (s := s₁)
        (by rw [hremaining]; exact Varint.decode_append_of_malformed header_eq left)
      refine ⟨s₂, by rw [hread, hlength]; rfl, ?_, (hdrops.fault_eq.trans hfault').trans hfault⟩
      rw [hdrops.remaining_eq, hremaining]
      exact List.drop_left' header_length
  | @insideHeader kind header header_eq =>
      rw [List.append_nil] at h
      obtain ⟨s₁, hremaining, hfault', hread⟩ := read_of_cons limit h
      have hnone : s₁.fault = none := hfault'.trans hfault
      obtain ⟨s₂, hlength, hdrops⟩ := Varint.exists_read_of_truncated (s := s₁)
        (by rw [hremaining]; exact header_eq)
      have hshort : header.length ≤ 4 := (Varint.decode_eq_truncated_iff.mp header_eq).2
      refine ⟨s₂, ?_, ?_, hdrops.fault_eq.trans hnone⟩
      · rw [hread, hlength, Stream.cause_of_none hnone]
        rfl
      · rw [hdrops.remaining_eq, hremaining]
        exact List.drop_of_length_le (by rw [Varint.maxLength]; omega)
  | @insidePayload kind header payload length header_eq fits short =>
      rw [List.append_nil] at h
      obtain ⟨s₁, hremaining, hfault', hread⟩ := read_of_length limit h header_eq
      have hnone : s₁.fault = none := hfault'.trans hfault
      obtain ⟨s₂, htake, hdrops⟩ := Stream.exists_take_of_lt (s := s₁) (n := length.toNat)
        (by rw [hremaining]; exact short)
      refine ⟨s₂, ?_, ?_, hdrops.fault_eq.trans hnone⟩
      · rw [hread, if_neg (by omega), htake, Stream.shortfall, hnone]
        rfl
      · rw [hdrops.remaining_eq, hremaining]
        exact List.drop_of_length_le (Nat.le_of_lt short)

/-! ## One packet after the other -/

/-- The answer to the request for a packet that follows `n` others. -/
def answer (limit : Nat) : Nat → Stream → Except WireError (Option Packet)
  | 0, s => (read limit s).1
  | n + 1, s => answer limit n (read limit s).2

/-- Requests for packets are granted with these ones and leave the stream `s'`. -/
inductive Reads (limit : Nat) : Stream → List Packet → Stream → Prop
  | nil (s : Stream) : Reads limit s [] s
  | cons {s s' s'' : Stream} {p : Packet} {ps : List Packet}
      (head : read limit s = (.ok (some p), s')) (tail : Reads limit s' ps s'') :
      Reads limit s (p :: ps) s''

theorem reads_join {fs : List Frame} {rest : List UInt8} (hall : Frame.AllFit limit fs)
    (h : s.remaining = Frame.join fs ++ rest) :
    ∃ s', Reads limit s (fs.map Frame.packet) s' ∧ s'.remaining = rest ∧ s'.fault = s.fault := by
  induction fs generalizing s with
  | nil => exact ⟨s, .nil s, h, rfl⟩
  | cons f fs ih =>
      obtain ⟨hfits, hall⟩ := List.forall_mem_cons.mp hall
      rw [Frame.join, List.flatMap_cons, List.append_assoc] at h
      obtain ⟨s₁, hread, hremaining, hfault⟩ := read_of_frame h hfits
      obtain ⟨s₂, hreads, hrest, hfault'⟩ := ih hall hremaining
      exact ⟨s₂, .cons hread hreads, hrest, hfault'.trans hfault⟩

theorem Reads.answer_lt {ps : List Packet} (h : Reads limit s ps s') (hn : n < ps.length) :
    answer limit n s = .ok ps[n]? := by
  induction h generalizing n with
  | nil s => exact absurd hn (Nat.not_lt_zero n)
  | cons head tail ih =>
      cases n with
      | zero => rw [answer, head]; rfl
      | succ n =>
          rw [answer, head, List.getElem?_cons_succ]
          exact ih (Nat.lt_of_succ_lt_succ hn)

theorem Reads.answer_add {ps : List Packet} (h : Reads limit s ps s') (n : Nat) :
    answer limit (ps.length + n) s = answer limit n s' := by
  induction h with
  | nil s => rw [List.length_nil, Nat.zero_add]
  | cons head tail ih => rw [List.length_cons, Nat.succ_add, answer, head, ih]

theorem readAll_of_stopped {e : Option WireError} (h : read limit s = (stopped e, s')) :
    readAll limit s = ([], e, s') := by
  cases e with
  | none => rw [readAll]; split <;> simp_all [stopped]
  | some e => rw [readAll]; split <;> simp_all [stopped]

theorem Reads.readAll_eq {ps : List Packet} {e : Option WireError} (h : Reads limit s ps s')
    (hstop : read limit s' = (stopped e, s'')) : readAll limit s = (ps, e, s'') := by
  induction h with
  | nil s => exact readAll_of_stopped hstop
  | cons head tail ih =>
      have := ih hstop
      rw [readAll]
      split <;> simp_all

theorem answer_of_nil (h : s.remaining = []) (hfault : s.fault = none) (n : Nat) :
    answer limit n s = .ok none := by
  induction n generalizing s with
  | zero =>
      obtain ⟨s', hread, -⟩ := read_of_nil limit h hfault
      rw [answer, hread]
  | succ n ih =>
      obtain ⟨s', hread, hremaining, hfault'⟩ := read_of_nil limit h hfault
      rw [answer, hread]
      exact ih hremaining hfault'

theorem Reads.length_le {ps : List Packet} (h : Reads limit s ps s') :
    ps.length ≤ s.remaining.length := by
  induction h with
  | nil s => exact Nat.zero_le _
  | cons head tail ih =>
      have hlt := remaining_read_lt head
      rw [List.length_cons]
      omega

end Packet

/-! ## Where reading ends -/

/-- Bytes begin with a kind byte and a length that can be read, and go on with `tail`. -/
def Announces (bytes : List UInt8) (length : UInt32) (tail : List UInt8) : Prop :=
  ∃ kind header, bytes = kind :: (header ++ tail) ∧
    Varint.decode header = .ok (length, header.length)

namespace Ending

variable {taken taken' left left' : List UInt8} {e e' : Option WireError}

theorem unique (h : Ending limit taken left e) (h' : Ending limit taken' left' e')
    (heq : taken ++ left = taken' ++ left') : e = e' ∧ left = left' := by
  obtain ⟨s, hread, hleft, -⟩ :=
    Packet.read_of_ending (s := ⟨[taken ++ left], none⟩) h (List.append_nil _) rfl
  obtain ⟨s', hread', hleft', -⟩ :=
    Packet.read_of_ending (s := ⟨[taken ++ left], none⟩) h' ((List.append_nil _).trans heq) rfl
  obtain ⟨hstopped, rfl⟩ := Prod.mk.inj (hread.symm.trans hread')
  refine ⟨?_, hleft.symm.trans hleft'⟩
  cases e <;> cases e' <;> simp_all [Packet.stopped]

variable (h : Ending limit taken left e)
include h

theorem eq_nil (he : e = none) : taken ++ left = [] := by
  cases h with
  | clean => rfl
  | _ => cases he

theorem tooLarge_iff {m l : Nat} : e = some (.payloadTooLarge m l) ↔
    l = limit ∧ limit < m ∧
      ∃ length tail, Announces (taken ++ left) length tail ∧ length.toNat = m := by
  constructor
  · rintro rfl
    cases h with
    | tooLarge left header_eq large =>
        exact ⟨rfl, large, _, left, ⟨_, _, rfl, header_eq⟩, rfl⟩
  · rintro ⟨rfl, hlarge, length, tail, ⟨kind, header, hbytes, hheader⟩, rfl⟩
    exact (h.unique (.tooLarge tail hheader hlarge) hbytes).1

theorem left_of_tooLarge {length : UInt32} {tail : List UInt8}
    (hbytes : Announces (taken ++ left) length tail) (hlarge : limit < length.toNat) :
    left = tail := by
  obtain ⟨kind, header, hbytes, hheader⟩ := hbytes
  exact (h.unique (.tooLarge tail hheader hlarge) hbytes).2

theorem malformed_iff : e = some .malformedLength ↔
    ∃ kind tail, taken ++ left = kind :: tail ∧
      Varint.decode tail = .error .malformedLength := by
  constructor
  · rintro rfl
    cases h with
    | malformed left header_eq header_length =>
        exact ⟨_, _, rfl, Varint.decode_append_of_malformed header_eq left⟩
  · rintro ⟨kind, tail, hbytes, htail⟩
    obtain ⟨htake, hlength⟩ := Varint.decode_take_of_malformed htail
    have hending : Ending limit (kind :: tail.take Varint.maxLength) _ _ :=
      .malformed (tail.drop Varint.maxLength) htake hlength
    refine (h.unique hending ?_).1
    rw [hbytes, List.cons_append, List.take_append_drop]

theorem left_of_malformed (he : e = some .malformedLength) :
    left = (taken ++ left).drop (1 + Varint.maxLength) := by
  subst he
  cases h with
  | malformed left header_eq header_length =>
      rw [Nat.add_comm, List.cons_append, List.drop_succ_cons, List.drop_left' header_length]

theorem truncated_iff : e = some .truncated ↔
    (∃ kind tail, taken ++ left = kind :: tail ∧ Varint.decode tail = .error .truncated) ∨
      ∃ length tail, Announces (taken ++ left) length tail ∧ length.toNat ≤ limit ∧
        tail.length < length.toNat := by
  constructor
  · rintro rfl
    cases h with
    | insideHeader header_eq => exact .inl ⟨_, _, List.append_nil _, header_eq⟩
    | insidePayload header_eq fits short =>
        exact .inr ⟨_, _, ⟨_, _, List.append_nil _, header_eq⟩, fits, short⟩
  · rintro (⟨kind, tail, hbytes, htail⟩ |
      ⟨length, tail, ⟨kind, header, hbytes, hheader⟩, hfits, hshort⟩)
    · exact (h.unique (.insideHeader htail) (by rw [hbytes, List.append_nil])).1
    · exact (h.unique (.insidePayload hheader hfits hshort) (by rw [hbytes, List.append_nil])).1

theorem left_of_truncated (he : e = some .truncated) : left = [] := by
  subst he
  cases h <;> rfl

theorem cases_eq : e = none ∨ (∃ m, e = some (.payloadTooLarge m limit)) ∨
    e = some .malformedLength ∨ e = some .truncated := by
  cases h with
  | clean => exact .inl rfl
  | tooLarge => exact .inr (.inl ⟨_, rfl⟩)
  | malformed => exact .inr (.inr (.inl rfl))
  | insideHeader => exact .inr (.inr (.inr rfl))
  | insidePayload => exact .inr (.inr (.inr rfl))

end Ending

namespace Packet

/-! ## Any bytes -/

def join (ps : List Packet) : List UInt8 := ps.flatMap toBytes

/-- What is read of the bytes of a stream: the packets `ps` of the frames `fs` they begin with, then
the reader stops at `rest`, says `e` and leaves the stream `left`. -/
structure Framing (limit : Nat) (s : Stream) (fs : List Frame) (rest : List UInt8)
    (ps : List Packet) (e : Option WireError) (left : Stream) : Prop where
  /-- As many requests are granted as there are packets, the one after them is the last. -/
  answers : ∀ n < ps.length, answer limit n s = .ok ps[n]?
  stops : answer limit ps.length s = stopped e
  length_le : ps.length ≤ s.remaining.length
  bytes_eq : s.remaining = Frame.join fs ++ rest
  packets_eq : ps = fs.map Frame.packet
  fits : ∀ p ∈ ps, p.payload.length ≤ limit
  /-- What is missing of `rest` in `left` was taken by the last request. -/
  left_suffix : left.remaining <:+ rest
  ends : e = none ∨ (∃ m, e = some (.payloadTooLarge m limit)) ∨
    e = some .malformedLength ∨ e = some .truncated
  clean_rest : e = none → rest = []
  clean_iff : e = none ↔ ∃ gs, Frame.AllFit limit gs ∧ s.remaining = Frame.join gs
  tooLarge_iff : ∀ m l, e = some (.payloadTooLarge m l) ↔
    l = limit ∧ limit < m ∧ ∃ length tail, Announces rest length tail ∧ length.toNat = m
  tooLarge_left : ∀ length tail, Announces rest length tail → limit < length.toNat →
    left.remaining = tail
  malformed_iff : e = some .malformedLength ↔
    ∃ kind tail, rest = kind :: tail ∧ Varint.decode tail = .error .malformedLength
  malformed_left : e = some .malformedLength → left.remaining = rest.drop (1 + Varint.maxLength)
  truncated_iff : e = some .truncated ↔
    (∃ kind tail, rest = kind :: tail ∧ Varint.decode tail = .error .truncated) ∨
      ∃ length tail, Announces rest length tail ∧ length.toNat ≤ limit ∧
        tail.length < length.toNat
  truncated_left : e = some .truncated → left.remaining = []
  /-- Written again, the packets take no more bytes than before and are read back. -/
  written_le : (join ps).length ≤ (Frame.join fs).length
  reread : ∀ chunks : List (List UInt8), chunks.flatten = join ps →
    ∃ left, readAll limit ⟨chunks, none⟩ = (ps, none, left)

theorem readAll_join {fs : List Frame} (hall : Frame.AllFit limit fs)
    (h : s.remaining = Frame.join fs) (hfault : s.fault = none) :
    ∃ left, readAll limit s = (fs.map Frame.packet, none, left) := by
  obtain ⟨s₁, hreads, hremaining, hnone⟩ :=
    reads_join hall (h.trans (List.append_nil _).symm)
  obtain ⟨s₂, hstop, -⟩ := read_of_nil limit hremaining (hnone.trans hfault)
  exact ⟨s₂, hreads.readAll_eq hstop⟩

theorem join_packets (fs : List Frame) :
    join (fs.map Frame.packet) = Frame.join (fs.map Frame.shortest) := by
  rw [join, Frame.join, List.flatMap_map, List.flatMap_map]
  exact congrArg fs.flatMap (funext fun f => f.bytes_shortest.symm)

theorem length_join_packets_le (fs : List Frame) :
    (join (fs.map Frame.packet)).length ≤ (Frame.join fs).length := by
  rw [join_packets]
  induction fs with
  | nil => exact Nat.le_refl 0
  | cons f fs ih =>
      have hle := f.length_bytes_shortest_le
      simp only [Frame.join, List.map_cons, List.flatMap_cons, List.length_append] at ih ⊢
      omega

/-- Reading any bytes to the end. -/
theorem exists_framing (limit : Nat) (chunks : List (List UInt8)) :
    ∃ fs rest, Framing limit ⟨chunks, none⟩ fs rest (readAll limit ⟨chunks, none⟩).1
      (readAll limit ⟨chunks, none⟩).2.1 (readAll limit ⟨chunks, none⟩).2.2 := by
  obtain ⟨fs, taken, left, e, hall, hbytes, he⟩ := Frame.exists_join limit chunks.flatten
  obtain ⟨s₁, hreads, hremaining, hfault⟩ := reads_join (s := ⟨chunks, none⟩) hall hbytes
  obtain ⟨s₂, hstop, rfl, -⟩ := read_of_ending he hremaining hfault
  have hall' : Frame.AllFit limit (fs.map Frame.shortest) := List.forall_mem_map.mpr hall
  have hsame : (fs.map Frame.shortest).map Frame.packet = fs.map Frame.packet := by
    rw [List.map_map]
    rfl
  have hend : (readAll limit ⟨chunks, none⟩).2.1 = e := by rw [hreads.readAll_eq hstop]
  rw [hreads.readAll_eq hstop]
  refine ⟨fs, taken ++ s₂.remaining, ?_⟩
  exact {
    answers := fun n hn => hreads.answer_lt hn
    stops := by rw [← Nat.add_zero (List.length _), hreads.answer_add, answer, hstop]
    length_le := hreads.length_le
    bytes_eq := hbytes
    packets_eq := rfl
    fits := List.forall_mem_map.mpr hall
    left_suffix := List.suffix_append taken _
    ends := he.cases_eq
    clean_rest := he.eq_nil
    clean_iff := by
      constructor
      · intro hnone
        rw [he.eq_nil hnone, List.append_nil] at hbytes
        exact ⟨fs, hall, hbytes⟩
      · rintro ⟨gs, hgs, hjoin⟩
        obtain ⟨left, hclean⟩ := readAll_join hgs hjoin rfl
        rw [← hend, hclean]
    tooLarge_iff := fun m l => he.tooLarge_iff
    tooLarge_left := fun length tail => he.left_of_tooLarge
    malformed_iff := he.malformed_iff
    malformed_left := he.left_of_malformed
    truncated_iff := he.truncated_iff
    truncated_left := he.left_of_truncated
    written_le := length_join_packets_le fs
    reread := fun pieces hpieces => by
      rw [← hsame]
      exact readAll_join hall' (hpieces.trans (join_packets fs)) rfl }

/-- A length may be written with more bytes than it needs. -/
example : (read 64 ⟨[[1, 0x82, 0], [7, 8]], none⟩).1 = .ok (some ⟨1, [7, 8]⟩) := rfl

/-! ## Packets that were written -/

theorem framedLength_eq (p : Packet) : p.framedLength = p.toBytes.length := by
  rw [framedLength, toBytes, List.length_cons, List.length_append, Varint.length_encode]
  omega

/-- The frames of packets, as a writer makes them. -/
theorem exists_frames {ps : List Packet} (h : ∀ p ∈ ps, p.payload.length < 2 ^ 32) :
    ∃ fs : List Frame, fs.map Frame.packet = ps ∧ fs.map Frame.bytes = ps.map toBytes := by
  induction ps with
  | nil => exact ⟨[], rfl, rfl⟩
  | cons p ps ih =>
      obtain ⟨hp, hps⟩ := List.forall_mem_cons.mp h
      obtain ⟨f, rfl, hbytes⟩ := exists_frame hp
      obtain ⟨fs, rfl, hjoin⟩ := ih hps
      exact ⟨f :: fs, rfl, congrArg₂ List.cons hbytes hjoin⟩

theorem join_of_bytes {fs : List Frame} {ps : List Packet}
    (h : fs.map Frame.bytes = ps.map toBytes) : join ps = Frame.join fs := by
  rw [join, Frame.join, List.flatMap_def, List.flatMap_def, h]

theorem join_take {fs : List Frame} {ps : List Packet}
    (h : fs.map Frame.bytes = ps.map toBytes) (k : Nat) :
    join (ps.take k) = Frame.join (fs.take k) :=
  join_of_bytes (by rw [List.map_take, List.map_take, h])

theorem answers_of_cut {fs : List Frame} {k : Nat} {taken : List UInt8}
    (hall : Frame.AllFit limit fs) (cut : Frame.Cut limit fs n k taken)
    (h : s.remaining = (Frame.join fs).take n) (hfault : s.fault = none) :
    (∀ i < k, answer limit i s = .ok (fs.map Frame.packet)[i]?) ∧
      answer limit k s = stopped (if taken = [] then none else some .truncated) ∧
      ∀ i > k, answer limit i s = .ok none := by
  have hbytes : s.remaining = Frame.join (fs.take k) ++ (taken ++ []) := by
    rw [h, cut.take_eq, List.append_nil]
  obtain ⟨s₁, hreads, hremaining, hsame⟩ :=
    reads_join (fun f hf => hall f (List.mem_of_mem_take hf)) hbytes
  obtain ⟨s₂, hstop, hleft, hnone⟩ :=
    read_of_ending cut.ending hremaining (hsame.trans hfault)
  have hlength : ((fs.take k).map Frame.packet).length = k := by
    rw [List.length_map, List.length_take_of_le cut.le]
  have hafter := hreads.answer_add
  rw [hlength] at hafter
  refine ⟨fun i hi => ?_, ?_, fun i hi => ?_⟩
  · rw [hreads.answer_lt (by omega), List.map_take, List.getElem?_take_of_lt hi]
  · rw [← Nat.add_zero k, hafter 0, answer, hstop]
  · obtain ⟨j, rfl⟩ := Nat.exists_eq_add_of_lt hi
    rw [Nat.add_assoc, hafter, answer, hstop]
    exact answer_of_nil hleft hnone j

/-- What requests for packets are answered by a stream that holds the first `n` bytes of `ps`: the
`k` packets that are there as a whole, then whether a packet was cut. -/
structure CutShort (limit : Nat) (ps : List Packet) (n : Nat) (s : Stream) (k : Nat) : Prop where
  le : k ≤ ps.length
  whole : ∀ i < ps.length, i < k ↔ (join (ps.take (i + 1))).length ≤ n
  answers : ∀ i < k, answer limit i s = .ok ps[i]?
  clean : ∀ j, (join (ps.take j)).length = n → answer limit k s = .ok none
  inside : (∀ j, (join (ps.take j)).length ≠ n) → answer limit k s = .error .truncated
  later : ∀ i > k, answer limit i s = .ok none

/-- Packets that are written one after the other are read back as far as the bytes go. -/
theorem exists_cutShort {ps : List Packet} {chunks : List (List UInt8)} (hlimit : limit < 2 ^ 32)
    (hfits : ∀ p ∈ ps, p.payload.length ≤ limit) (hn : n ≤ (join ps).length)
    (hchunks : chunks.flatten = (join ps).take n) :
    (∃ k, CutShort limit ps n ⟨chunks, none⟩ k) ∧
      ∀ p ∈ ps, p.framedLength = p.toBytes.length := by
  refine ⟨?_, fun p _ => framedLength_eq p⟩
  obtain ⟨fs, rfl, hbytes⟩ := exists_frames fun p hp => Nat.lt_of_le_of_lt (hfits p hp) hlimit
  have hall : Frame.AllFit limit fs := List.forall_mem_map.mp hfits
  rw [join_of_bytes hbytes] at hn hchunks
  obtain ⟨k, taken, cut⟩ := Frame.exists_cut hall hn
  obtain ⟨hbefore, hlast, hafter⟩ := answers_of_cut (s := ⟨chunks, none⟩) hall cut hchunks rfl
  refine ⟨k, ?_, fun i hi => ?_, hbefore, fun j hj => ?_, fun hne => ?_, hafter⟩
  · rw [List.length_map]
    exact cut.le
  · rw [List.length_map] at hi
    rw [join_take hbytes]
    exact cut.lt_iff hi
  · rw [join_take hbytes] at hj
    rw [hlast, if_pos (cut.taken_eq_nil_iff.mpr ⟨j, hj⟩)]
    rfl
  · simp only [join_take hbytes] at hne
    rw [hlast, if_neg fun hnil => (cut.taken_eq_nil_iff.mp hnil).elim hne]
    rfl

/-- The second of two packets is cut after its kind byte, the first comes in three pieces. -/
theorem exists_cutShort_two :
    (∃ k, CutShort 16 [⟨1, [7, 8]⟩, ⟨2, []⟩] 5 ⟨[[1], [2, 7], [], [8, 2]], none⟩ k) ∧
      ∀ p ∈ [(⟨1, [7, 8]⟩ : Packet), ⟨2, []⟩], p.framedLength = p.toBytes.length := by
  have hjoin : join [⟨1, [7, 8]⟩, ⟨2, []⟩] = [1, 2, 7, 8, 2, 0] := by
    simp [join, toBytes, announced, Varint.encode, Varint.groups]
  exact exists_cutShort (by decide) (by decide) (by rw [hjoin]; decide) (by rw [hjoin]; rfl)

end Packet

end Realm.Wire
