import Realm.Proofs.Wire.Payload

/-!
# The grammar of payloads

A number may be spelt with more bytes than it needs, so the bytes of a field are not determined by
its value. The readers of fields take exactly the forms of a field, whatever follows them, and
refuse everything else for a fault of the field. The form that is written is the shortest one.
-/

namespace Realm.Wire

/-- A form of a 32-bit number: any of its spellings of at most five bytes. -/
def Varint.Denotes (bytes : List UInt8) (v : UInt32) : Prop :=
  Spells bytes v.toNat ∧ bytes.length ≤ 5

/-- The forms of a field: a number in any form, a single as its four bytes, a text as its length in
bytes, in any form, and its UTF-8 bytes. -/
inductive Field.Form : Field → List UInt8 → Prop
  | number {v : UInt32} {bytes : List UInt8} (denotes : Varint.Denotes bytes v) :
      Form (.number v) bytes
  | single (b₀ b₁ b₂ b₃ : UInt8) : Form (.single (.ofBytes b₀ b₁ b₂ b₃)) [b₀, b₁, b₂, b₃]
  | text {value : String} {length : UInt32} {head body : List UInt8}
      (denotes : Varint.Denotes head length) (length_eq : body.length = length.toNat)
      (utf8 : value.toUTF8.data.toList = body) : Form (.text value) (head ++ body)

/-- Bytes that split without remainder into forms of fields. -/
inductive Payload : List Field → List UInt8 → Prop
  | nil : Payload [] []
  | cons {f : Field} {fs : List Field} {bytes rest : List UInt8} (first : f.Form bytes)
      (others : Payload fs rest) : Payload (f :: fs) (bytes ++ rest)

variable {α β : Type} {bytes : List UInt8} {f : Field} {fs gs : List Field}

theorem payload_nil_iff : Payload [] bytes ↔ bytes = [] :=
  ⟨fun h => by cases h; rfl, fun h => h ▸ .nil⟩

theorem payload_cons_iff : Payload (f :: fs) bytes ↔
    ∃ b b', bytes = b ++ b' ∧ f.Form b ∧ Payload fs b' := by
  constructor
  · rintro ⟨⟩
    exact ⟨_, _, rfl, ‹_›, ‹_›⟩
  · rintro ⟨b, b', rfl, hf, hfs⟩
    exact .cons hf hfs

theorem payload_append_iff : Payload (fs ++ gs) bytes ↔
    ∃ b b', bytes = b ++ b' ∧ Payload fs b ∧ Payload gs b' := by
  induction fs generalizing bytes with
  | nil => simp [payload_nil_iff]
  | cons f fs ih =>
      simp only [List.cons_append, payload_cons_iff, ih]
      constructor
      · rintro ⟨b, -, rfl, hf, b', b'', rfl, hfs, hgs⟩
        exact ⟨b ++ b', b'', (List.append_assoc b b' b'').symm, ⟨b, b', rfl, hf, hfs⟩, hgs⟩
      · rintro ⟨-, b'', rfl, ⟨b, b', rfl, hf, hfs⟩, hgs⟩
        exact ⟨b, b' ++ b'', List.append_assoc b b' b'', hf, b', b'', rfl, hfs, hgs⟩

/-! ## The form that is written -/

theorem Varint.denotes_iff {v : UInt32} :
    Denotes bytes v ↔ decode bytes = .ok (v, bytes.length) := by
  rw [decode_eq_ok_iff]
  constructor
  · rintro ⟨hspells, hlength⟩
    exact ⟨bytes, [], (List.append_nil bytes).symm, hspells, rfl, hlength⟩
  · rintro ⟨spelt, rest, hbytes, hspells, hused, hlength⟩
    obtain rfl : spelt = bytes := (hbytes ▸ List.prefix_append spelt rest).eq_of_length hused
    exact ⟨hspells, hlength⟩

theorem Varint.denotes_encode (v : UInt32) : Denotes (encode v) v :=
  ⟨spells_groups v.toNat, (length_encode v).trans_le (encodedLength_le v)⟩

theorem Varint.Denotes.length_encode_le {v : UInt32} (h : Denotes bytes v) :
    (encode v).length ≤ bytes.length := h.1.length_groups_le

namespace Field

theorem form_encode (h : f.Fits) : f.Form f.encode := by
  cases f with
  | number v => exact .number (Varint.denotes_encode v)
  | single v =>
      have hform := Form.single v.bits.toUInt8 (v.bits >>> 8).toUInt8 (v.bits >>> 16).toUInt8
        (v.bits >>> 24).toUInt8
      rwa [Single.ofBytes_toBytes] at hform
  | text value =>
      refine .text (Varint.denotes_encode _) ?_ rfl
      rw [UInt32.toNat_ofNat_of_lt' h]
      rfl

/-- The size of a text is announced by a number, so it fits one. -/
theorem Form.fits (h : f.Form bytes) : f.Fits := by
  cases h with
  | number => trivial
  | single => trivial
  | text _ length_eq utf8 =>
      subst utf8
      exact length_eq.trans_lt (UInt32.toNat_lt _)

theorem Form.length_encode_le (h : f.Form bytes) : f.encode.length ≤ bytes.length := by
  cases h with
  | number denotes => exact denotes.length_encode_le
  | single => exact Nat.le_refl 4
  | @text value length head body denotes length_eq utf8 =>
      subst utf8
      have hlength : UInt32.ofNat value.utf8ByteSize = length := by
        apply UInt32.toNat_inj.mp
        rw [UInt32.toNat_ofNat_of_lt' (Form.text denotes length_eq rfl).fits]
        exact length_eq
      rw [encode, hlength, List.length_append, List.length_append]
      exact Nat.add_le_add_right denotes.length_encode_le _

end Field

theorem payload_encodeAll (h : ∀ f ∈ fs, f.Fits) : Payload fs (Field.encodeAll fs) := by
  induction fs with
  | nil => exact .nil
  | cons f fs ih =>
      rw [List.forall_mem_cons] at h
      exact .cons (Field.form_encode h.1) (ih h.2)

theorem Payload.fits (h : Payload fs bytes) : ∀ f ∈ fs, f.Fits := by
  induction h with
  | nil => exact nofun
  | cons first _ ih => exact List.forall_mem_cons.mpr ⟨first.fits, ih⟩

/-- No payload of some fields is shorter than the one that is written. -/
theorem Payload.length_encodeAll_le (h : Payload fs bytes) :
    (Field.encodeAll fs).length ≤ bytes.length := by
  induction h with
  | nil => exact Nat.le_refl 0
  | cons first _ ih =>
      rw [Field.encodeAll, List.flatMap_cons, List.length_append, List.length_append]
      exact Nat.add_le_add first.length_encode_le ih

/-! ## Readers that take a language -/

/-- A reader that takes from the front a byte list of its language and nothing else, and whatever it
fails on is a fault of a field. -/
structure Read.Parses (m : Read α) (language : α → List UInt8 → Prop) : Prop where
  ok_iff : ∀ r a r', m r = .ok a r' ↔ ∃ bytes, language a bytes ∧ bytes <+: r.unread ∧
    r' = { r with position := r.position + bytes.length }
  invalid : ∀ r e r', m r = .error e r' → ∃ fault, e = .invalidField fault

theorem Reader.unread_advance (r : Reader) (n : Nat) :
    ({ r with position := r.position + n } : Reader).unread = r.unread.drop n := by
  rw [Reader.unread, Reader.unread, List.drop_drop]

theorem Reader.finish_of_nil {r : Reader} (h : r.unread = []) : finish r = .ok () r := by
  have hlength : r.unread.length = r.buffer.length - r.position := List.length_drop
  rw [finish, Read.get_bind, ← hlength, h, List.length_nil, if_pos rfl]
  rfl

theorem Reader.finish_of_ne_nil {r : Reader} (h : r.unread ≠ []) :
    finish r = .error (.invalidField (.trailing r.unread.length)) r := by
  have hlength : r.unread.length = r.buffer.length - r.position := List.length_drop
  rw [finish, Read.get_bind, ← hlength, if_neg fun hzero => h (List.eq_nil_of_length_eq_zero hzero)]
  rfl

namespace Read

theorem bind_eq_ok_iff {m : Read α} {f : α → Read β} {r r' : Reader} {b : β} :
    (m >>= f) r = .ok b r' ↔ ∃ a mid, m r = .ok a mid ∧ f a mid = .ok b r' := by
  change EStateM.bind m f r = _ ↔ _
  rw [EStateM.bind]
  cases h : m r <;> simp

theorem bind_eq_error_iff {m : Read α} {f : α → Read β} {r r' : Reader} {e : WireError} :
    (m >>= f) r = .error e r' ↔
      m r = .error e r' ∨ ∃ a mid, m r = .ok a mid ∧ f a mid = .error e r' := by
  change EStateM.bind m f r = _ ↔ _
  rw [EStateM.bind]
  cases h : m r <;> simp

namespace Parses

variable {m : Read α} {f : α → Read β} {language : α → List UInt8 → Prop}
  {language' : α → β → List UInt8 → Prop}

theorem congr {other : α → List UInt8 → Prop} (h : Parses m language)
    (hiff : ∀ a bytes, language a bytes ↔ other a bytes) : Parses m other := by
  obtain rfl : language = other := by
    funext a bytes
    exact propext (hiff a bytes)
  exact h

theorem pure (a : α) : Parses (Pure.pure a) fun b bytes => b = a ∧ bytes = [] := by
  refine ⟨fun r b r' => ?_, nofun⟩
  change EStateM.Result.ok a r = _ ↔ _
  constructor
  · rintro ⟨⟩
    exact ⟨[], ⟨rfl, rfl⟩, List.nil_prefix, rfl⟩
  · rintro ⟨bytes, ⟨rfl, rfl⟩, -, rfl⟩
    rfl

theorem bind (h : Parses m language) (h' : ∀ a, Parses (f a) (language' a)) :
    Parses (m >>= f) fun b bytes =>
      ∃ a first second, bytes = first ++ second ∧ language a first ∧ language' a b second := by
  refine ⟨fun r b r' => ?_, fun r e r' herror => ?_⟩
  · rw [bind_eq_ok_iff]
    constructor
    · rintro ⟨a, mid, ha, hb⟩
      obtain ⟨first, hfirst, ⟨tail, htail⟩, rfl⟩ := (h.ok_iff r a mid).mp ha
      obtain ⟨second, hsecond, hprefix, rfl⟩ := ((h' a).ok_iff _ b r').mp hb
      rw [Reader.unread_advance, ← htail, List.drop_left] at hprefix
      refine ⟨first ++ second, ⟨a, first, second, rfl, hfirst, hsecond⟩, ?_, ?_⟩
      · rw [← htail]
        exact (List.prefix_append_right_inj first).mpr hprefix
      · rw [List.length_append, Nat.add_assoc]
    · rintro ⟨-, ⟨a, first, second, rfl, hfirst, hsecond⟩, ⟨tail, htail⟩, rfl⟩
      rw [List.append_assoc] at htail
      refine ⟨a, _, (h.ok_iff r a _).mpr ⟨first, hfirst, ⟨_, htail⟩, rfl⟩, ?_⟩
      refine ((h' a).ok_iff _ b _).mpr ⟨second, hsecond, ?_, ?_⟩
      · rw [Reader.unread_advance, ← htail, List.drop_left]
        exact List.prefix_append second tail
      · rw [List.length_append, Nat.add_assoc]
  · rcases bind_eq_error_iff.mp herror with ha | ⟨a, mid, -, hb⟩
    · exact h.invalid r e r' ha
    · exact (h' a).invalid mid e r' hb

/-- A payload is read if it is in the language as a whole. -/
theorem run_eq_ok_iff (h : Parses m language) {payload : List UInt8} {a : α} :
    Reader.run payload m = .ok a ↔ language a payload := by
  have hall : ∀ r, (do let value ← m; Reader.finish; Pure.pure value : Read α) (.start payload) =
      .ok a r ↔ m (.start payload) = .ok a r ∧ r.unread = [] := by
    intro r
    rw [bind_eq_ok_iff]
    constructor
    · rintro ⟨value, mid, hvalue, hrest⟩
      by_cases hend : mid.unread = []
      · rw [bind_of_ok (Reader.finish_of_nil hend)] at hrest
        cases hrest
        exact ⟨hvalue, hend⟩
      · obtain ⟨_, _, hfinish, -⟩ := bind_eq_ok_iff.mp hrest
        rw [Reader.finish_of_ne_nil hend] at hfinish
        cases hfinish
    · rintro ⟨hvalue, hend⟩
      exact ⟨a, r, hvalue, by rw [bind_of_ok (Reader.finish_of_nil hend)]; rfl⟩
  have hrun : Reader.run payload m = .ok a ↔ ∃ r, m (.start payload) = .ok a r ∧ r.unread = [] := by
    simp only [← hall, Reader.run]
    cases (do let value ← m; Reader.finish; Pure.pure value : Read α) (.start payload) <;> simp
  rw [hrun]
  constructor
  · rintro ⟨r, ha, hend⟩
    obtain ⟨bytes, hbytes, ⟨tail, htail⟩, rfl⟩ := (h.ok_iff _ a r).mp ha
    have hstart : (Reader.start payload).unread = payload := rfl
    rw [Reader.unread_advance, ← htail, List.drop_left] at hend
    rw [hstart, hend, List.append_nil] at htail
    exact htail ▸ hbytes
  · intro hpayload
    refine ⟨_, (h.ok_iff _ a _).mpr ⟨payload, hpayload, List.prefix_rfl, rfl⟩, ?_⟩
    rw [Reader.unread_advance]
    exact List.drop_length

theorem run_invalid (h : Parses m language) {payload : List UInt8} {e : WireError}
    (herror : Reader.run payload m = .error e) : ∃ fault, e = .invalidField fault := by
  have hall : ∃ r, (do let value ← m; Reader.finish; Pure.pure value : Read α) (.start payload) =
      .error e r := by
    rw [Reader.run] at herror
    split at herror
    · cases herror
    next r heq =>
      cases herror
      exact ⟨r, heq⟩
  obtain ⟨r, hr⟩ := hall
  rcases bind_eq_error_iff.mp hr with hm | ⟨a, mid, -, hrest⟩
  · exact h.invalid _ e r hm
  · rcases bind_eq_error_iff.mp hrest with hfinish | ⟨_, mid', -, hpure⟩
    · by_cases hend : mid.unread = []
      · rw [Reader.finish_of_nil hend] at hfinish
        cases hfinish
      · rw [Reader.finish_of_ne_nil hend] at hfinish
        cases hfinish
        exact ⟨_, rfl⟩
    · cases hpure

end Parses

end Read

/-! ## The readers of fields -/

namespace Reader

open Read

theorem take_eq (length : Nat) (name : String) (r : Reader) :
    take length name r = if r.unread.length < length then
      .error (.invalidField (.tooShort name length r.unread.length)) r
      else .ok (r.unread.take length) { r with position := r.position + length } := by
  rw [take, get_bind]
  split <;> rfl

theorem parses_take (length : Nat) (name : String) :
    Parses (take length name) fun taken bytes => taken = bytes ∧ bytes.length = length := by
  refine ⟨fun r taken r' => ?_, fun r e r' herror => ?_⟩
  · rw [take_eq]
    constructor
    · intro hok
      split at hok
      · cases hok
      next hlength =>
        cases hok
        have htaken : (r.unread.take length).length = length := List.length_take_of_le (by omega)
        exact ⟨_, ⟨rfl, htaken⟩, List.take_prefix _ _, by rw [htaken]⟩
    · rintro ⟨bytes, ⟨rfl, rfl⟩, ⟨tail, htail⟩, rfl⟩
      rw [← htail, List.take_left, if_neg (by rw [List.length_append]; omega)]
  · rw [take_eq] at herror
    split at herror <;> cases herror
    exact ⟨_, rfl⟩

theorem number_eq (name : String) (r : Reader) : number name r =
    match Varint.decode r.unread with
    | .error _ => .error (.invalidField (.badVarint name)) r
    | .ok (value, used) => .ok value { r with position := r.position + used } := by
  rw [number, get_bind]
  cases Varint.decode r.unread <;> rfl

theorem parses_number (name : String) :
    Parses (number name) fun v bytes => Field.Form (.number v) bytes := by
  refine ⟨fun r v r' => ?_, fun r e r' herror => ?_⟩
  · rw [number_eq]
    constructor
    · intro hok
      split at hok
      · cases hok
      next value used hdecode =>
        cases hok
        obtain ⟨spelt, rest, hunread, hspells, rfl, hlength⟩ := Varint.decode_eq_ok_iff.mp hdecode
        exact ⟨spelt, .number ⟨hspells, hlength⟩, ⟨rest, hunread.symm⟩, rfl⟩
    · rintro ⟨bytes, ⟨hspells, hlength⟩, ⟨tail, htail⟩, rfl⟩
      rw [← htail, Varint.decode_of_spells hspells hlength]
  · rw [number_eq] at herror
    split at herror <;> cases herror
    exact ⟨_, rfl⟩

theorem parses_fourBytes (name : String) (taken : List UInt8) : Parses (match taken with
    | [b₀, b₁, b₂, b₃] => Pure.pure (Single.ofBytes b₀ b₁ b₂ b₃)
    | _ => refuse (.tooShort name 4 0) : Read Single) fun v bytes =>
      (∃ b₀ b₁ b₂ b₃, taken = [b₀, b₁, b₂, b₃] ∧ v = .ofBytes b₀ b₁ b₂ b₃) ∧ bytes = [] := by
  split
  next b₀ b₁ b₂ b₃ =>
    refine (Parses.pure _).congr fun v bytes => and_congr_left' ?_
    simp
  next hother =>
    refine ⟨fun r v r' => ⟨nofun, ?_⟩, fun r e r' herror => ?_⟩
    · rintro ⟨bytes, ⟨⟨b₀, b₁, b₂, b₃, heq, -⟩, -⟩, -⟩
      exact absurd heq (hother b₀ b₁ b₂ b₃)
    · cases herror
      exact ⟨_, rfl⟩

theorem parses_single (name : String) :
    Parses (single name) fun v bytes => Field.Form (.single v) bytes := by
  refine ((parses_take 4 name).bind (parses_fourBytes name)).congr fun v bytes => ?_
  constructor
  · rintro ⟨_, _, _, rfl, ⟨rfl, -⟩, ⟨b₀, b₁, b₂, b₃, rfl, rfl⟩, rfl⟩
    exact .single b₀ b₁ b₂ b₃
  · rintro ⟨⟩
    exact ⟨_, _, [], (List.append_nil _).symm, ⟨rfl, rfl⟩, ⟨_, _, _, _, rfl, rfl⟩, rfl⟩

theorem fromUTF8?_eq_some_iff {value : String} :
    String.fromUTF8? bytes.toByteArray = some value ↔ value.toUTF8.data.toList = bytes := by
  constructor
  · intro h
    unfold String.fromUTF8? at h
    split at h
    next hvalid =>
      obtain rfl := Option.some.inj h
      exact congrArg Array.toList List.data_toByteArray
    next => cases h
  · rintro rfl
    exact fromUTF8?_toByteArray value

theorem parses_utf8 (name : String) (taken : List UInt8) :
    Parses (match String.fromUTF8? taken.toByteArray with
      | some value => Pure.pure value
      | none => refuse (.notUtf8 name) : Read String) fun v bytes =>
        v.toUTF8.data.toList = taken ∧ bytes = [] := by
  split
  next value hread =>
    refine (Parses.pure value).congr fun v bytes => and_congr_left' ?_
    rw [← fromUTF8?_eq_some_iff, hread, Option.some.injEq]
    exact eq_comm
  next hread =>
    refine ⟨fun r v r' => ⟨nofun, ?_⟩, fun r e r' herror => ?_⟩
    · rintro ⟨bytes, ⟨hutf8, -⟩, -⟩
      rw [← fromUTF8?_eq_some_iff, hread] at hutf8
      cases hutf8
    · cases herror
      exact ⟨_, rfl⟩

theorem parses_body (name : String) (length : UInt32) : Parses (do
      let taken ← take length.toNat name
      match String.fromUTF8? taken.toByteArray with
      | some value => Pure.pure value
      | none => refuse (.notUtf8 name) : Read String) fun v bytes =>
        v.toUTF8.data.toList = bytes ∧ bytes.length = length.toNat := by
  refine ((parses_take length.toNat name).bind (parses_utf8 name)).congr fun v bytes => ?_
  constructor
  · rintro ⟨_, _, _, rfl, ⟨rfl, hlength⟩, hutf8, rfl⟩
    rw [List.append_nil]
    exact ⟨hutf8, hlength⟩
  · rintro ⟨hutf8, hlength⟩
    exact ⟨bytes, bytes, [], (List.append_nil _).symm, ⟨rfl, hlength⟩, hutf8, rfl⟩

theorem parses_text (name : String) :
    Parses (text name) fun v bytes => Field.Form (.text v) bytes := by
  refine ((parses_number name).bind (parses_body name)).congr fun v bytes => ?_
  constructor
  · rintro ⟨length, head, body, rfl, hhead, hutf8, hlength⟩
    cases hhead with
    | number denotes => exact .text denotes hlength hutf8
  · rintro ⟨⟩
    exact ⟨_, _, _, rfl, .number ‹_›, ‹_›, ‹_›⟩

end Reader

/-! ## Readers of several fields -/

/-- A reader that takes the payloads of certain fields. -/
def Read.Builds (m : Read α) (of : α → List Field → Prop) : Prop :=
  m.Parses fun a bytes => ∃ fs, of a fs ∧ Payload fs bytes

namespace Read.Builds

variable {m : Read α} {f : α → Read β} {of : α → List Field → Prop}
  {of' : α → β → List Field → Prop} {mk : α → Field}

theorem congr {other : α → List Field → Prop} (h : Builds m of)
    (hiff : ∀ a fs, of a fs ↔ other a fs) : Builds m other :=
  Parses.congr h fun a _ => exists_congr fun fs => and_congr_left' (hiff a fs)

theorem pure (a : α) : Builds (Pure.pure a) fun b fs => b = a ∧ fs = [] := by
  refine (Parses.pure a).congr fun b bytes => ?_
  constructor
  · rintro ⟨rfl, rfl⟩
    exact ⟨[], ⟨rfl, rfl⟩, .nil⟩
  · rintro ⟨fs, ⟨rfl, rfl⟩, hpayload⟩
    exact ⟨rfl, payload_nil_iff.mp hpayload⟩

theorem bind (h : Builds m of) (h' : ∀ a, Builds (f a) (of' a)) :
    Builds (m >>= f) fun b fs => ∃ a gs gs', fs = gs ++ gs' ∧ of a gs ∧ of' a b gs' := by
  refine (Parses.bind h h').congr fun b bytes => ?_
  constructor
  · rintro ⟨a, first, second, rfl, ⟨gs, hgs, hfirst⟩, ⟨gs', hgs', hsecond⟩⟩
    exact ⟨gs ++ gs', ⟨a, gs, gs', rfl, hgs, hgs'⟩,
      payload_append_iff.mpr ⟨first, second, rfl, hfirst, hsecond⟩⟩
  · rintro ⟨_, ⟨a, gs, gs', rfl, hgs, hgs'⟩, hpayload⟩
    obtain ⟨first, second, rfl, hfirst, hsecond⟩ := payload_append_iff.mp hpayload
    exact ⟨a, first, second, rfl, ⟨gs, hgs, hfirst⟩, ⟨gs', hgs', hsecond⟩⟩

/-- A reader of one field. -/
theorem of_form (h : m.Parses fun a => (mk a).Form) : Builds m fun a fs => fs = [mk a] := by
  refine Parses.congr h fun a bytes => ?_
  constructor
  · intro hform
    exact ⟨_, rfl, List.append_nil bytes ▸ .cons hform .nil⟩
  · rintro ⟨_, rfl, hpayload⟩
    obtain ⟨first, rest, rfl, hform, hnil⟩ := payload_cons_iff.mp hpayload
    rw [payload_nil_iff.mp hnil, List.append_nil]
    exact hform

end Read.Builds

end Realm.Wire
