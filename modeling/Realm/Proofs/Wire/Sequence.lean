import Realm.Proofs.Wire.Cursor

/-!
# Sequences of fields

Main statement: fields that were written one after the other are read back, and nothing is left.
Bytes behind them are counted. If the bytes are cut anywhere, the fields before the cut are read
back all the same, and the first one that is not there as a whole is refused by its name.
-/

namespace Realm.Wire

variable {bytes rest : List UInt8} {name : String} {f : Field} {fields : List (Field × String)}
  {r : Reader} {n : Nat}

/-! ## Faults and the fields they name -/

def FieldFault.field? : FieldFault → Option String
  | .badVarint field | .tooShort field _ _ | .notUtf8 field => some field
  | .trailing _ | .velocityNotFinite => none

/-- The wording of a fault begins with the field it is about. -/
theorem FieldFault.exists_message_eq {fault : FieldFault} (h : fault.field? = some name) :
    ∃ reason, fault.message = name ++ reason := by
  cases fault with
  | badVarint field =>
      cases h
      exact ⟨": bad varint", rfl⟩
  | tooShort field needed left =>
      cases h
      exact ⟨": needs " ++ toString needed ++ " bytes, " ++ toString left ++ " left", by
        simp only [message, String.append_assoc]
        rfl⟩
  | notUtf8 field =>
      cases h
      exact ⟨": not UTF-8", rfl⟩
  | trailing extra => cases h
  | velocityNotFinite => cases h

/-! ## A field that is cut short -/

theorem Varint.decode_take_encode {v : UInt32} (hn : n < (encode v).length) :
    decode ((encode v).take n) = .error .truncated := by
  have hall := decode_encode_append v []
  rw [List.append_nil] at hall
  exact decode_take_of_lt hall hn

namespace Field

/-- Why a field cannot be read of which the first `there` bytes are left. -/
def shortage (name : String) (there : Nat) : Field → FieldFault
  | .number _ => .badVarint name
  | .single _ => .tooShort name 4 there
  | .text value =>
    let head := Varint.encodedLength (UInt32.ofNat value.utf8ByteSize)
    if there < head then .badVarint name else .tooShort name value.utf8ByteSize (there - head)

theorem field?_shortage (name : String) (there : Nat) (f : Field) :
    (f.shortage name there).field? = some name := by
  cases f with
  | number value => rfl
  | single value => rfl
  | text value =>
      rw [shortage]
      split <;> rfl

theorem find_take_number {value : UInt32} (hn : n < (encode (.number value)).length) :
    (FieldType.number.find name ((encode (.number value)).take n)).1 =
      .error (shortage name n (.number value)) := by
  rw [encode] at hn ⊢
  rw [FieldType.find, Varint.decode_take_encode hn, shortage]

theorem find_take_single {value : Single} (hn : n < (encode (.single value)).length) :
    (FieldType.single.find name ((encode (.single value)).take n)).1 =
      .error (shortage name n (.single value)) := by
  rw [encode] at hn ⊢
  have hlength : (value.toBytes.take n).length = n := List.length_take_of_le (Nat.le_of_lt hn)
  rw [Single.length_toBytes] at hn
  rw [FieldType.find_single_of_lt (hlength.trans_lt hn), hlength, shortage]

theorem find_take_text {value : String} (h : Fits (.text value))
    (hn : n < (encode (.text value)).length) :
    (FieldType.text.find name ((encode (.text value)).take n)).1 =
      .error (shortage name n (.text value)) := by
  have hsize : (UInt32.ofNat value.utf8ByteSize).toNat = value.utf8ByteSize :=
    UInt32.toNat_ofNat_of_lt' h
  have hbody : value.toUTF8.data.toList.length = value.utf8ByteSize := rfl
  rw [encode] at hn ⊢
  rw [List.length_append, hbody] at hn
  rw [shortage, ← Varint.length_encode]
  split
  · next hhead =>
      rw [List.take_append_of_le_length (Nat.le_of_lt hhead), FieldType.find,
        Varint.decode_take_encode hhead]
  · next hhead =>
      have hlength := Nat.not_lt.mp hhead
      rw [List.take_append, List.take_of_length_le hlength, FieldType.find,
        Varint.decode_encode_append]
      simp only [List.drop_left, List.length_take, hbody, hsize]
      have hmin : min (n - (Varint.encode (UInt32.ofNat value.utf8ByteSize)).length)
          value.utf8ByteSize =
            n - (Varint.encode (UInt32.ofNat value.utf8ByteSize)).length := by omega
      rw [hmin, if_pos (by omega)]

theorem find_take (h : f.Fits) (hn : n < f.encode.length) :
    (f.type.find name (f.encode.take n)).1 = .error (f.shortage name n) := by
  cases f with
  | number value => exact find_take_number hn
  | single value => exact find_take_single hn
  | text value => exact find_take_text h hn

/-! ## Fields one after the other -/

def written (fields : List (Field × String)) : List UInt8 := encodeAll (fields.map Prod.fst)

/-- What is asked for to read fields back, each by the name beside it. -/
def asks (fields : List (Field × String)) : List (FieldType × String) :=
  fields.map fun (f, name) => (f.type, name)

def answers (fields : List (Field × String)) : List (Except WireError Field) :=
  fields.map fun (f, _) => .ok f

theorem written_cons (f : Field) (name : String) (fields : List (Field × String)) :
    written ((f, name) :: fields) = f.encode ++ written fields := rfl

theorem written_append (fields more : List (Field × String)) :
    written (fields ++ more) = written fields ++ written more := by
  rw [written, List.map_append, encodeAll, List.flatMap_append]
  rfl

/-- Fields at the front of what is left are read back, and just their bytes are taken. -/
theorem readEach_asks (hfits : ∀ entry ∈ fields, entry.1.Fits)
    (h : r.unread = written fields ++ rest) :
    FieldType.readEach r (asks fields) =
      (answers fields, { r with position := r.position + (written fields).length }) := by
  induction fields generalizing r with
  | nil => rfl
  | cons entry fields ih =>
      obtain ⟨f, name⟩ := entry
      rw [List.forall_mem_cons] at hfits
      rw [written_cons, List.append_assoc] at h
      have hread := takes_read name hfits.1 r _ h
      have hrest : ({ r with position := r.position + f.encode.length } : Reader).unread =
          written fields ++ rest := by
        rw [Reader.unread_advance, h, List.drop_left]
      have htail := ih hfits.2 hrest
      change FieldType.readEach r ((f.type, name) :: asks fields) = _
      rw [FieldType.readEach, hread]
      dsimp only
      rw [htail, written_cons, List.length_append, Nat.add_assoc]
      rfl

/-- Bytes that are cut anywhere end inside one of the fields. -/
theorem exists_cut (hn : n < (written fields).length) : ∃ before f name after,
    fields = before ++ (f, name) :: after ∧ (written before).length ≤ n ∧
      n < (written before).length + f.encode.length := by
  induction fields generalizing n with
  | nil => cases hn
  | cons entry fields ih =>
      obtain ⟨f, name⟩ := entry
      by_cases hfirst : n < f.encode.length
      · exact ⟨[], f, name, fields, rfl, Nat.zero_le n, (Nat.zero_add _).symm ▸ hfirst⟩
      · rw [written_cons, List.length_append] at hn
        obtain ⟨before, g, other, after, rfl, hle, hlt⟩ :=
          ih (n := n - f.encode.length) (by omega)
        refine ⟨(f, name) :: before, g, other, after, rfl, ?_, ?_⟩ <;>
          rw [written_cons, List.length_append] <;> omega

/-- What is left of the bytes of fields that are cut inside one of them. -/
theorem take_written {before after : List (Field × String)}
    (hle : (written before).length ≤ n) (hlt : n < (written before).length + f.encode.length) :
    (written (before ++ (f, name) :: after)).take n =
      written before ++ f.encode.take (n - (written before).length) := by
  rw [written_append, written_cons, List.take_append, List.take_of_length_le hle,
    List.take_append_of_le_length (by omega)]

/-! ## The main statement -/

/-- What becomes of fields that were written one after the other, each to be read by the name beside
it. -/
structure RoundTrips (fields : List (Field × String)) : Prop where
  /-- They are read back, and nothing is left. -/
  whole : ∃ r, FieldType.readEach (.start (written fields)) (asks fields) = (answers fields, r) ∧
    r.outcome = .ok ()
  /-- Bytes behind them change nothing in this and are counted at the end. -/
  longer : ∀ rest, rest ≠ [] → ∃ r,
    FieldType.readEach (.start (written fields ++ rest)) (asks fields) = (answers fields, r) ∧
      r.outcome = .error (.invalidField (.trailing rest.length))
  /-- If only the first `n` bytes are there, the fields that are there as a whole are read back, and
  the next one is refused by its name. -/
  shorter : ∀ n, n < (written fields).length → ∃ before f name after fault others r,
    fields = before ++ (f, name) :: after ∧ (written before).length ≤ n ∧
      n < (written before).length + f.encode.length ∧
      FieldType.readEach (.start ((written fields).take n)) (asks fields) =
        (answers before ++ .error (.invalidField fault) :: others, r) ∧
      fault = f.shortage name (n - (written before).length) ∧ fault.field? = some name ∧
      ∃ reason, fault.message = name ++ reason

theorem exists_readEach (hfits : ∀ entry ∈ fields, entry.1.Fits) (rest : List UInt8) :
    ∃ r, FieldType.readEach (.start (written fields ++ rest)) (asks fields) = (answers fields, r) ∧
      r.unread = rest := by
  refine ⟨_, readEach_asks hfits rfl, ?_⟩
  rw [Reader.unread_advance]
  exact List.drop_left

/-- The field that is cut is refused after the fields before it. -/
theorem exists_readEach_cut {before after : List (Field × String)}
    (hfits : ∀ entry ∈ before ++ (f, name) :: after, entry.1.Fits) (hn : n < f.encode.length) :
    ∃ others r, FieldType.readEach (.start (written before ++ f.encode.take n))
      (asks (before ++ (f, name) :: after)) =
        (answers before ++ .error (.invalidField (f.shortage name n)) :: others, r) := by
  rw [List.forall_mem_append, List.forall_mem_cons] at hfits
  obtain ⟨r, hbefore, hunread⟩ := exists_readEach hfits.1 (f.encode.take n)
  have hanswer : FieldType.answer r (f.type, name) =
      .error (.invalidField (f.shortage name n)) := by
    rw [FieldType.answer, hunread, find_take hfits.2.1 hn]
    rfl
  have hasks : asks (before ++ (f, name) :: after) =
      asks before ++ (f.type, name) :: asks after := by
    rw [asks, List.map_append]
    rfl
  rw [hasks, FieldType.readEach_append, hbefore, FieldType.readEach_cons, hanswer]
  exact ⟨_, _, rfl⟩

/-- What was written is read back, field for field and bit for bit. -/
theorem fields_round_trip (hfits : ∀ entry ∈ fields, entry.1.Fits) : RoundTrips fields := by
  refine ⟨?_, fun rest hrest => ?_, fun n hn => ?_⟩
  · obtain ⟨r, hread, hunread⟩ := exists_readEach hfits []
    rw [List.append_nil] at hread
    exact ⟨r, hread, Reader.outcome_of_nil hunread⟩
  · obtain ⟨r, hread, rfl⟩ := exists_readEach hfits rest
    exact ⟨r, hread, Reader.outcome_of_ne_nil hrest⟩
  · obtain ⟨before, f, name, after, rfl, hle, hlt⟩ := exists_cut hn
    obtain ⟨others, r, hread⟩ := exists_readEach_cut (n := n - (written before).length) hfits
      (by omega)
    have hnamed := field?_shortage name (n - (written before).length) f
    rw [← take_written hle hlt] at hread
    exact ⟨before, f, name, after, _, others, r, rfl, hle, hlt, hread, rfl, hnamed,
      FieldFault.exists_message_eq hnamed⟩

/-- A length of two bytes, an undefined single with a payload, a negative zero, and texts whose
characters take several bytes or that are empty. -/
theorem fields_round_trip_of_bits :
    let fields : List (Field × String) := [(.number 70000, "id"), (.single ⟨0x7fc00001⟩, "dx"),
      (.text "héllo", "text"), (.single ⟨0x80000000⟩, "dy"), (.text "", "reason")]
    (∀ entry ∈ fields, entry.1.Fits) ∧ RoundTrips fields := by
  intro fields
  have hfits : ∀ entry ∈ fields, entry.1.Fits := by
    simp only [fields, List.forall_mem_cons, Fits]
    exact ⟨trivial, trivial, by decide, trivial, by decide, nofun⟩
  exact ⟨hfits, fields_round_trip hfits⟩

end Field

end Realm.Wire
