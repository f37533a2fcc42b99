import Realm.Proofs.Wire.Grammar

/-!
# The position of a reader

Fields are read one after the other, each from where the one before it stopped, also after a read
that failed. Main statement: whatever the bytes and whatever is asked for, the position moves
forward only and never beyond the end, so that no slice and no difference is out of range; what a
read answers is decided by the bytes not read yet; and each way to fail leaves the position at a
known place.
-/

namespace Realm.Wire

variable {α β : Type} {bytes : List UInt8} {name : String} {type : FieldType} {r r' : Reader}

/-! ## What a read finds -/

/-- What the bytes not read yet say to a reader that asks for a field: the field or why there is
none, and how many bytes are taken. -/
def FieldType.find (name : String) (bytes : List UInt8) :
    FieldType → Except FieldFault Field × Nat
  | .number =>
    match Varint.decode bytes with
    | .error _ => (.error (.badVarint name), 0)
    | .ok (value, used) => (.ok (.number value), used)
  | .single =>
    match bytes with
    | b₀ :: b₁ :: b₂ :: b₃ :: _ => (.ok (.single (.ofBytes b₀ b₁ b₂ b₃)), 4)
    | _ => (.error (.tooShort name 4 bytes.length), 0)
  | .text =>
    match Varint.decode bytes with
    | .error _ => (.error (.badVarint name), 0)
    | .ok (length, used) =>
      let body := bytes.drop used
      if body.length < length.toNat then
        (.error (.tooShort name length.toNat body.length), used)
      else
        match String.fromUTF8? (body.take length.toNat).toByteArray with
        | some value => (.ok (.text value), used + length.toNat)
        | none => (.error (.notUtf8 name), used + length.toNat)

def Reader.follow (r : Reader) : Except FieldFault α × Nat → EStateM.Result WireError Reader α
  | (.ok value, taken) => .ok value { r with position := r.position + taken }
  | (.error fault, taken) => .error (.invalidField fault) { r with position := r.position + taken }

theorem exists_four (h : 4 ≤ bytes.length) :
    ∃ b₀ b₁ b₂ b₃ rest, bytes = b₀ :: b₁ :: b₂ :: b₃ :: rest := by
  rcases bytes with _ | ⟨b₀, _ | ⟨b₁, _ | ⟨b₂, _ | ⟨b₃, rest⟩⟩⟩⟩
  · simp at h
  · simp at h
  · simp at h
  · simp at h
  · exact ⟨b₀, b₁, b₂, b₃, rest, rfl⟩

theorem FieldType.find_single_of_lt (h : bytes.length < 4) :
    single.find name bytes = (.error (.tooShort name 4 bytes.length), 0) := by
  unfold find
  dsimp only
  split
  · simp only [List.length_cons] at h
    omega
  · rfl

namespace Reader

theorem number_read_eq (name : String) (r : Reader) :
    FieldType.number.read name r = r.follow (FieldType.number.find name r.unread) := by
  simp only [FieldType.read, Functor.map, EStateM.map, number_eq, FieldType.find]
  cases Varint.decode r.unread with
  | error e => rfl
  | ok found => rfl

theorem single_read_eq (name : String) (r : Reader) :
    FieldType.single.read name r = r.follow (FieldType.single.find name r.unread) := by
  simp only [FieldType.read, Functor.map, EStateM.map, single, bind, EStateM.bind, take_eq]
  by_cases hshort : r.unread.length < 4
  · rw [if_pos hshort, FieldType.find_single_of_lt hshort]
    rfl
  · obtain ⟨b₀, b₁, b₂, b₃, rest, hbytes⟩ := exists_four (Nat.not_lt.mp hshort)
    rw [if_neg hshort, hbytes]
    rfl

theorem text_read_eq (name : String) (r : Reader) :
    FieldType.text.read name r = r.follow (FieldType.text.find name r.unread) := by
  simp only [FieldType.read, Functor.map, EStateM.map, text, bind, EStateM.bind, number_eq,
    take_eq, FieldType.find]
  cases Varint.decode r.unread with
  | error e => rfl
  | ok found =>
      dsimp only
      rw [unread_advance]
      by_cases hshort : (r.unread.drop found.2).length < found.1.toNat
      · simp only [if_pos hshort]
        rfl
      · simp only [if_neg hshort, Nat.add_assoc]
        cases String.fromUTF8? ((r.unread.drop found.2).take found.1.toNat).toByteArray with
        | none => rfl
        | some value => rfl

/-- Reading a field looks at nothing but the bytes not read yet. -/
theorem read_eq (type : FieldType) (name : String) (r : Reader) :
    type.read name r = r.follow (type.find name r.unread) := by
  cases type with
  | number => exact number_read_eq name r
  | single => exact single_read_eq name r
  | text => exact text_read_eq name r

end Reader

/-! ## How much is taken -/

theorem FieldType.taken_le (type : FieldType) (name : String) (bytes : List UInt8) :
    (type.find name bytes).2 ≤ bytes.length := by
  cases type with
  | number =>
      rw [find]
      split
      · exact Nat.zero_le _
      · next hdecode => exact (Varint.used_le_of_decode hdecode).2
  | single =>
      by_cases hshort : bytes.length < 4
      · rw [find_single_of_lt hshort]
        exact Nat.zero_le _
      · obtain ⟨b₀, b₁, b₂, b₃, rest, rfl⟩ := exists_four (Nat.not_lt.mp hshort)
        exact Nat.not_lt.mp hshort
  | text =>
      rw [find]
      split
      · exact Nat.zero_le _
      · next length used hdecode =>
          have hused := (Varint.used_le_of_decode hdecode).2
          dsimp only
          split
          · exact hused
          · next henough =>
              rw [List.length_drop] at henough
              split <;> dsimp only <;> omega

theorem Reader.length_unread (r : Reader) : r.unread.length = r.buffer.length - r.position :=
  List.length_drop

/-- What becomes of a reader whose position stays inside its buffer. -/
structure Reader.Moves (r r' : Reader) : Prop where
  buffer_eq : r'.buffer = r.buffer
  forward : r.position ≤ r'.position
  inside : r'.position ≤ r'.buffer.length

namespace Reader

theorem Moves.trans {r'' : Reader} (h : r.Moves r') (h' : r'.Moves r'') : r.Moves r'' :=
  ⟨h'.buffer_eq.trans h.buffer_eq, Nat.le_trans h.forward h'.forward, h'.inside⟩

def after (r : Reader) (ask : FieldType × String) : Reader :=
  { r with position := r.position + (ask.1.find ask.2 r.unread).2 }

theorem moves_after (h : r.position ≤ r.buffer.length) (ask : FieldType × String) :
    r.Moves (r.after ask) := by
  have htaken := ask.1.taken_le ask.2 r.unread
  rw [length_unread] at htaken
  refine ⟨rfl, Nat.le_add_right _ _, ?_⟩
  simp only [after]
  omega

end Reader

namespace FieldType

def answer (r : Reader) (ask : FieldType × String) : Except WireError Field :=
  (ask.1.find ask.2 r.unread).1.mapError .invalidField

theorem readEach_cons (r : Reader) (ask : FieldType × String) (asks : List (FieldType × String)) :
    readEach r (ask :: asks) =
      (answer r ask :: (readEach (r.after ask) asks).1, (readEach (r.after ask) asks).2) := by
  obtain ⟨type, name⟩ := ask
  rw [readEach, Reader.read_eq, answer, Reader.after]
  cases type.find name r.unread with
  | mk found taken => cases found <;> rfl

theorem readEach_append (r : Reader) (asks more : List (FieldType × String)) :
    readEach r (asks ++ more) =
      ((readEach r asks).1 ++ (readEach (readEach r asks).2 more).1,
        (readEach (readEach r asks).2 more).2) := by
  induction asks generalizing r with
  | nil => rfl
  | cons ask asks ih => simp only [List.cons_append, readEach_cons, ih]

theorem moves_readEach (h : r.position ≤ r.buffer.length) (asks : List (FieldType × String)) :
    r.Moves (readEach r asks).2 := by
  induction asks generalizing r with
  | nil => exact ⟨rfl, Nat.le_refl _, h⟩
  | cons ask asks ih =>
      have hfirst := Reader.moves_after h ask
      rw [readEach_cons]
      exact hfirst.trans (ih hfirst.inside)

end FieldType

/-! ## Reading with every access checked -/

/-- Reading where an access out of range is a failure of its own, `none`. -/
abbrev Checked (α : Type) := EStateM (Option WireError) Reader α

namespace Checked

def slice (bytes : List UInt8) (start stop : Nat) : Checked (List UInt8) :=
  if start ≤ stop ∧ stop ≤ bytes.length then pure ((bytes.take stop).drop start) else throw none

def byte (bytes : List UInt8) (index : Nat) : Checked UInt8 :=
  match bytes[index]? with
  | some b => pure b
  | none => throw none

def difference (a b : Nat) : Checked Nat := if b ≤ a then pure (a - b) else throw none

def refuse (fault : FieldFault) : Checked α := throw (some (.invalidField fault))

def rest : Checked (List UInt8) := do
  let r ← get
  slice r.buffer r.position r.buffer.length

def take (length : Nat) (field : String) : Checked (List UInt8) := do
  let bytes ← rest
  if bytes.length < length then
    refuse (.tooShort field length bytes.length)
  else
    modify fun r => { r with position := r.position + length }
    slice bytes 0 length

def number (field : String) : Checked UInt32 := do
  let bytes ← rest
  match Varint.decode bytes with
  | .error _ => refuse (.badVarint field)
  | .ok (value, used) =>
    modify fun r => { r with position := r.position + used }
    pure value

def single (field : String) : Checked Single := do
  let bytes ← take 4 field
  return Single.ofBytes (← byte bytes 0) (← byte bytes 1) (← byte bytes 2) (← byte bytes 3)

def text (field : String) : Checked String := do
  let length ← number field
  let bytes ← take length.toNat field
  match String.fromUTF8? bytes.toByteArray with
  | some value => pure value
  | none => refuse (.notUtf8 field)

def finish : Checked Unit := do
  let r ← get
  let extra ← difference r.buffer.length r.position
  if extra = 0 then pure () else refuse (.trailing extra)

def read (name : String) : FieldType → Checked Field
  | .number => Field.number <$> number name
  | .single => Field.single <$> single name
  | .text => Field.text <$> text name

/-- Reading without any access out of range. -/
def ofRead (m : Read α) : Checked α := fun r =>
  match m r with
  | .ok a r' => .ok a r'
  | .error e r' => .error (some e) r'

/-- Inside its buffer a reader reads the same with every access checked. -/
def Sound (c : Checked α) (m : Read α) : Prop :=
  ∀ r : Reader, r.position ≤ r.buffer.length → c r = ofRead m r

theorem rest_eq (h : r.position ≤ r.buffer.length) : rest r = .ok r.unread r := by
  have hslice : (r.buffer.take r.buffer.length).drop r.position = r.unread := by
    rw [List.take_length, Reader.unread]
  change slice r.buffer r.position r.buffer.length r = _
  rw [slice, if_pos ⟨h, Nat.le_refl _⟩, hslice]
  rfl

theorem slice_zero {n : Nat} (h : n ≤ bytes.length) (r : Reader) :
    slice bytes 0 n r = .ok (bytes.take n) r := by
  rw [slice, if_pos ⟨Nat.zero_le n, h⟩]
  rfl

theorem Sound.map {c : Checked α} {m : Read α} (g : α → β) (h : Sound c m) :
    Sound (g <$> c) (g <$> m) := by
  intro r hr
  change EStateM.map g c r = ofRead (EStateM.map g m) r
  rw [EStateM.map, h r hr, ofRead, ofRead, EStateM.map]
  cases m r <;> rfl

theorem Sound.bind {c : Checked α} {m : Read α} {g : α → Checked β} {f : α → Read β}
    (h : Sound c m) (hnext : ∀ r a r', r.position ≤ r.buffer.length → m r = .ok a r' →
      g a r' = ofRead (f a) r') : Sound (c >>= g) (m >>= f) := by
  intro r hr
  change EStateM.bind c g r = ofRead (EStateM.bind m f) r
  rw [EStateM.bind, h r hr, ofRead, ofRead, EStateM.bind]
  cases hm : m r with
  | error e r' => rfl
  | ok a r' => exact hnext r a r' hr hm

theorem sound_take (length : Nat) (name : String) :
    Sound (take length name) (Reader.take length name) := by
  intro r h
  simp only [take, bind, EStateM.bind, rest_eq h, ofRead, Reader.take_eq]
  by_cases hshort : r.unread.length < length
  · simp only [if_pos hshort]
    rfl
  · simp only [if_neg hshort]
    exact slice_zero (Nat.not_lt.mp hshort) _

theorem sound_number (name : String) : Sound (number name) (Reader.number name) := by
  intro r h
  simp only [number, bind, EStateM.bind, rest_eq h, ofRead, Reader.number_eq]
  cases Varint.decode r.unread with
  | error e => rfl
  | ok found => rfl

theorem sound_single (name : String) : Sound (single name) (Reader.single name) := by
  refine (sound_take 4 name).bind fun r taken r' _ htake => ?_
  rw [Reader.take_eq] at htake
  split at htake
  · cases htake
  · next hlength =>
      cases htake
      -- all four bytes were taken, so no index is out of range and the pattern has its one case
      obtain ⟨b₀, b₁, b₂, b₃, rest, hbytes⟩ := exists_four (Nat.not_lt.mp hlength)
      rw [hbytes]
      rfl

theorem sound_text (name : String) : Sound (text name) (Reader.text name) := by
  refine (sound_number name).bind fun r length r' hinside hnumber => ?_
  have hinside' : r'.position ≤ r'.buffer.length := by
    rw [Reader.number_eq] at hnumber
    split at hnumber
    · cases hnumber
    · next hdecode =>
        have hused := (Varint.used_le_of_decode hdecode).2
        cases hnumber
        rw [Reader.length_unread] at hused
        dsimp only
        omega
  refine (sound_take length.toNat name).bind (fun _ taken r'' _ _ => ?_) r' hinside'
  cases String.fromUTF8? taken.toByteArray with
  | none => rfl
  | some value => rfl

theorem sound_read (type : FieldType) (name : String) :
    Sound (read name type) (type.read name) := by
  cases type with
  | number => exact (sound_number name).map Field.number
  | single => exact (sound_single name).map Field.single
  | text => exact (sound_text name).map Field.text

theorem sound_finish : Sound finish Reader.finish := by
  intro r h
  have hextra : difference r.buffer.length r.position r =
      .ok (r.buffer.length - r.position) r := by
    rw [difference, if_pos h]
    rfl
  change EStateM.bind (difference r.buffer.length r.position) _ r = _
  rw [EStateM.bind, hextra, ofRead, Reader.finish, Read.get_bind]
  dsimp only
  split <;> rfl

end Checked

/-! ## The main statement -/

/-- How a text cannot be read, with the reader that is left. -/
inductive Reader.FailsText (name : String) (r : Reader) : WireError → Reader → Prop
  /-- There is no length; nothing is taken. -/
  | badLength {e : WireError} (decode : Varint.decode r.unread = .error e) :
      FailsText name r (.invalidField (.badVarint name)) r
  /-- Bytes are missing; the length is taken. -/
  | tooShort {length : UInt32} {used : Nat} (decode : Varint.decode r.unread = .ok (length, used))
      (short : (r.unread.drop used).length < length.toNat) :
      FailsText name r
        (.invalidField (.tooShort name length.toNat (r.unread.drop used).length))
        { r with position := r.position + used }
  /-- The bytes are not UTF-8; length and bytes are taken. -/
  | notUtf8 {length : UInt32} {used : Nat} (decode : Varint.decode r.unread = .ok (length, used))
      (enough : length.toNat ≤ (r.unread.drop used).length)
      (invalid : String.fromUTF8? ((r.unread.drop used).take length.toNat).toByteArray = none) :
      FailsText name r (.invalidField (.notUtf8 name))
        { r with position := r.position + (used + length.toNat) }

theorem Reader.follow_eq_error {found : Except FieldFault Field × Nat} {e : WireError}
    (h : r.follow found = .error e r') : ∃ fault, found.1 = .error fault ∧
      e = .invalidField fault ∧ r' = { r with position := r.position + found.2 } := by
  obtain ⟨answer, taken⟩ := found
  cases answer with
  | ok value => cases h
  | error fault =>
      cases h
      exact ⟨fault, rfl, rfl, rfl⟩

theorem FieldType.taken_number {fault : FieldFault}
    (h : (number.find name bytes).1 = .error fault) : (number.find name bytes).2 = 0 := by
  rw [find] at h ⊢
  cases hdecode : Varint.decode bytes with
  | error e => rfl
  | ok found => simp [hdecode] at h

theorem FieldType.taken_single {fault : FieldFault}
    (h : (single.find name bytes).1 = .error fault) : (single.find name bytes).2 = 0 := by
  by_cases hshort : bytes.length < 4
  · rw [find_single_of_lt hshort]
  · obtain ⟨b₀, b₁, b₂, b₃, rest, rfl⟩ := exists_four (Nat.not_lt.mp hshort)
    cases h

theorem Reader.failsText {e : WireError} (h : FieldType.text.read name r = .error e r') :
    FailsText name r e r' := by
  rw [read_eq] at h
  obtain ⟨fault, hfault, rfl, rfl⟩ := follow_eq_error h
  rw [FieldType.find] at hfault ⊢
  cases hdecode : Varint.decode r.unread with
  | error e =>
      simp only [hdecode, Except.error.injEq] at hfault ⊢
      subst hfault
      exact .badLength hdecode
  | ok found =>
      obtain ⟨length, used⟩ := found
      simp only [hdecode] at hfault ⊢
      split at hfault
      · next hshort =>
          simp only [Except.error.injEq] at hfault
          subst hfault
          rw [if_pos hshort]
          exact .tooShort hdecode hshort
      · next henough =>
          rw [if_neg henough]
          cases hutf8 : String.fromUTF8? ((r.unread.drop used).take length.toNat).toByteArray with
          | some value => simp [hutf8] at hfault
          | none =>
              simp only [hutf8, Except.error.injEq] at hfault
              subst hfault
              exact .notUtf8 hdecode (Nat.not_lt.mp henough) hutf8

/-- What is true of a reader of `buffer` that was asked for the fields `asks`, whether or not they
could be read. -/
structure Reader.Confined (buffer : List UInt8) (asks : List (FieldType × String)) (r : Reader) :
    Prop where
  buffer_eq : r.buffer = buffer
  position_le : r.position ≤ buffer.length
  /-- The position never moves back, -/
  forward : ∀ more, r.position ≤ (FieldType.readEach (.start buffer) (asks ++ more)).2.position
  /-- so the next read and the end have no access out of range. -/
  checked : ∀ (type : FieldType) (name : String),
    Checked.read name type r = Checked.ofRead (type.read name) r
  checked_finish : Checked.finish r = Checked.ofRead finish r
  /-- What is read next, and how much is taken for it, is decided by the bytes not read yet. -/
  decided : ∀ r' : Reader, r'.unread = r.unread → ∀ (type : FieldType) (name : String), ∃ found,
    type.read name r = r.follow found ∧ type.read name r' = r'.follow found
  /-- A number or a single that cannot be read takes nothing, -/
  number_error : ∀ name e r', FieldType.number.read name r = .error e r' → r' = r
  single_error : ∀ name e r', FieldType.single.read name r = .error e r' → r' = r
  /-- a text takes what was seen to be right up to the fault, or all of it. -/
  text_error : ∀ name e r', FieldType.text.read name r = .error e r' → FailsText name r e r'
  /-- The payload is at its end if nothing is left to read. -/
  finish_iff : r.outcome = .ok () ↔ r.unread = []
  trailing : r.unread ≠ [] → r.outcome = .error (.invalidField (.trailing r.unread.length))

theorem Reader.outcome_of_nil (h : r.unread = []) : r.outcome = .ok () := by
  rw [outcome, finish_of_nil h]

theorem Reader.outcome_of_ne_nil (h : r.unread ≠ []) :
    r.outcome = .error (.invalidField (.trailing r.unread.length)) := by
  rw [outcome, finish_of_ne_nil h]

/-- Whatever is asked for, a reader stays inside its buffer. -/
theorem Reader.confined_readEach (buffer : List UInt8) (asks : List (FieldType × String)) :
    Confined buffer asks (FieldType.readEach (.start buffer) asks).2 := by
  have hmoves : (start buffer).Moves (FieldType.readEach (.start buffer) asks).2 :=
    FieldType.moves_readEach (Nat.zero_le _) asks
  have hbuffer : (FieldType.readEach (.start buffer) asks).2.buffer = buffer := hmoves.buffer_eq
  have hinside := hmoves.inside
  have hposition : (FieldType.readEach (.start buffer) asks).2.position ≤ buffer.length := by
    rwa [hbuffer] at hinside
  refine ⟨hbuffer, hposition, fun more => ?_, fun type name => ?_, ?_,
    fun r' hunread type name => ?_, fun name e r' h => ?_, fun name e r' h => ?_,
    fun name e r' => failsText, ?_, outcome_of_ne_nil⟩
  · rw [FieldType.readEach_append]
    exact (FieldType.moves_readEach hinside more).forward
  · exact Checked.sound_read type name _ hinside
  · exact Checked.sound_finish _ hinside
  · exact ⟨_, read_eq type name _, hunread ▸ read_eq type name r'⟩
  · rw [read_eq] at h
    obtain ⟨fault, hfault, -, rfl⟩ := follow_eq_error h
    rw [FieldType.taken_number hfault, Nat.add_zero]
  · rw [read_eq] at h
    obtain ⟨fault, hfault, -, rfl⟩ := follow_eq_error h
    rw [FieldType.taken_single hfault, Nat.add_zero]
  · refine ⟨fun h => ?_, outcome_of_nil⟩
    by_cases hnil : (FieldType.readEach (.start buffer) asks).2.unread = []
    · exact hnil
    · rw [outcome_of_ne_nil hnil] at h
      cases h

end Realm.Wire
