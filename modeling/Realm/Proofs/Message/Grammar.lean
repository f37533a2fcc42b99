import Realm.Proofs.Message.RoundTrip
import Realm.Proofs.Wire.Grammar

/-!
# What the readers of messages accept

Main statement: a packet is read exactly if its kind is known and its payload splits without
remainder into the fields of a message of that kind, each in any of its forms. Of what is refused
only an unknown kind is survivable. Writing what was read gives the shortest packet that is read as
the same message.
-/

namespace Realm

open Wire (Field Packet Payload Read Reader WireError payload_encodeAll)
open Wire.Read (Builds)

/-- A reader of packets that accepts what `IsFormOf` says, knows certain kinds, and has a normal form
for everything it accepts. -/
structure Accepts {α : Type} (read : Packet → Except WireError α) (kinds : List UInt8)
    (IsFormOf : Packet → α → Prop) (write : α → Packet) : Prop where
  ok_iff : ∀ p a, read p = .ok a ↔ IsFormOf p a
  unknown_iff : ∀ p, read p = .error (.unknownKind p.kind) ↔ p.kind ∉ kinds
  /-- What is refused of a known kind is an invalid field, which ends the connection. -/
  fatal : ∀ p e, p.kind ∈ kinds → read p = .error e →
    (∃ fault, e = .invalidField fault) ∧ e.isFatal = true
  /-- Nothing that is read has a shorter form than the one that is written. -/
  normal : ∀ p a, read p = .ok a → (write a).kind = p.kind ∧
    (write a).payload.length ≤ p.payload.length ∧ read (write a) = .ok a

namespace Command

/-- The bytes of a packet are a form of a command. A velocity has to be finite. -/
def IsFormOf (p : Packet) (c : Command) : Prop :=
  p.kind = c.kind ∧ Payload c.fields p.payload ∧ c.IsFinite

/-- A type of messages is read exactly from the payloads of its commands. -/
structure Typed (type : MessageType Command) : Prop where
  ok_iff : ∀ payload c, type.decode payload = .ok c ↔
    c.kind = type.kind ∧ Payload c.fields payload ∧ c.IsFinite
  invalid : ∀ payload e, type.decode payload = .error e → ∃ fault, e = .invalidField fault

theorem isFinite_of_kind_ne {c : Command} (h : c.kind ≠ 1) : c.IsFinite := by
  cases c with
  | move dx dy => exact absurd rfl h
  | _ => trivial

/-- Apart from moves, what the payload says is all there is to a command. -/
theorem Typed.of_builds {type : MessageType Command} {m : Read Command}
    (hm : Builds m fun c fs => c.kind = type.kind ∧ fs = c.fields)
    (hdecode : ∀ payload, type.decode payload = Reader.run payload m) (hmove : type.kind ≠ 1) :
    Typed type := by
  refine ⟨fun payload c => ?_, fun payload e herror => ?_⟩
  · rw [hdecode, hm.run_eq_ok_iff]
    constructor
    · rintro ⟨fs, ⟨hkind, rfl⟩, hpayload⟩
      exact ⟨hkind, hpayload, isFinite_of_kind_ne (hkind ▸ hmove)⟩
    · rintro ⟨hkind, hpayload, -⟩
      exact ⟨c.fields, ⟨hkind, rfl⟩, hpayload⟩
  · rw [hdecode] at herror
    exact hm.run_invalid herror

theorem typed_login : Typed loginType := by
  have hbuilds := (Builds.of_form (Reader.parses_text "username")).bind fun username =>
    (Builds.of_form (Reader.parses_text "password")).bind fun password =>
      .pure (login username password)
  refine .of_builds (hbuilds.congr fun c fs => ?_) (fun _ => rfl) (by decide)
  cases c <;> simp [kind, fields, loginType]

theorem typed_chat : Typed chatType := by
  have hbuilds := (Builds.of_form (Reader.parses_text "text")).bind fun text => .pure (chat text)
  refine .of_builds (hbuilds.congr fun c fs => ?_) (fun _ => rfl) (by decide)
  cases c <;> simp [kind, fields, chatType]

theorem typed_ping : Typed pingType := by
  have hbuilds := (Builds.of_form (Reader.parses_number "nonce")).bind fun nonce =>
    .pure (ping nonce)
  refine .of_builds (hbuilds.congr fun c fs => ?_) (fun _ => rfl) (by decide)
  cases c <;> simp [kind, fields, pingType]

theorem typed_logout : Typed logoutType := by
  refine .of_builds ((Builds.pure logout).congr fun c fs => ?_) (fun _ => rfl) (by decide)
  cases c <;> simp [kind, fields, logoutType]

/-- Moves are judged once more when their payload was read. -/
theorem typed_move : Typed moveType := by
  have hparts := (Builds.of_form (Reader.parses_single "dx")).bind fun dx =>
    (Builds.of_form (Reader.parses_single "dy")).bind fun dy => .pure (dx, dy)
  have hread : ∀ payload dx dy, Reader.run payload (do
      let dx ← Reader.single "dx"
      let dy ← Reader.single "dy"
      pure (dx, dy)) = .ok (dx, dy) ↔ Payload (fields (.move dx dy)) payload := by
    intro payload dx dy
    rw [hparts.run_eq_ok_iff]
    simp [fields]
  refine ⟨fun payload c => ?_, fun payload e herror => ?_⟩
  · have hmove : c.kind = 1 → ∃ dx dy, c = .move dx dy := by
      intro hkind
      cases c <;> first | exact ⟨_, _, rfl⟩ | cases hkind
    change readMove payload = .ok c ↔ c.kind = 1 ∧ _
    rw [readMove]
    constructor
    · intro hok
      split at hok
      · cases hok
      next dx dy hrun =>
        split at hok
        next hfinite =>
          cases hok
          exact ⟨rfl, (hread payload dx dy).mp hrun, Bool.and_eq_true_iff.mp hfinite⟩
        next => cases hok
    · rintro ⟨hkind, hpayload, hfinite⟩
      obtain ⟨dx, dy, rfl⟩ := hmove hkind
      rw [(hread payload dx dy).mpr hpayload]
      exact if_pos (Bool.and_eq_true_iff.mpr hfinite)
  · change readMove payload = .error e at herror
    rw [readMove] at herror
    split at herror
    next e' hrun =>
      cases herror
      exact hparts.run_invalid hrun
    next =>
      split at herror <;> cases herror
      exact ⟨_, rfl⟩

theorem types_catalog :
    catalog.types = [loginType, moveType, chatType, pingType, logoutType] := rfl

theorem find?_catalog_cases {kind : UInt8} {type : MessageType Command}
    (h : catalog.find? kind = some type) : type.kind = kind ∧ Typed type := by
  have hkind : type.kind = kind := by simpa using List.find?_some h
  have hmem := List.mem_of_find?_eq_some h
  rw [types_catalog] at hmem
  simp only [List.mem_cons, List.not_mem_nil, or_false] at hmem
  refine ⟨hkind, ?_⟩
  rcases hmem with rfl | rfl | rfl | rfl | rfl
  · exact typed_login
  · exact typed_move
  · exact typed_chat
  · exact typed_ping
  · exact typed_logout

theorem find?_catalog_eq_none_iff {kind : UInt8} :
    catalog.find? kind = none ↔ kind ∉ ([0, 1, 2, 3, 4] : List UInt8) := by
  rw [Catalog.find?, types_catalog, List.find?_eq_none]
  simp [loginType, moveType, chatType, pingType, logoutType, eq_comm]

theorem decode_eq_ok_iff {p : Packet} {topic : Topic} {c : Command} :
    catalog.decode p = .ok (topic, c) ↔ topic = c.topic ∧ IsFormOf p c := by
  rw [Catalog.decode]
  cases hfind : catalog.find? p.kind with
  | none =>
      constructor
      · rintro ⟨⟩
      · intro hform
        rw [hform.2.1, find?_kind] at hfind
        cases hfind
  | some type =>
      obtain ⟨hkind, htyped⟩ := find?_catalog_cases hfind
      have htopic : c.kind = p.kind → type.topic = c.topic := by
        intro hc
        rw [← hc, find?_kind] at hfind
        rw [← Option.some.inj hfind, topic_messageType]
      dsimp only
      constructor
      · intro hdecode
        split at hdecode
        · cases hdecode
        next message hmessage =>
          cases hdecode
          obtain ⟨hc, hform⟩ := (htyped.ok_iff p.payload c).mp hmessage
          exact ⟨htopic (hc.trans hkind), (hc.trans hkind).symm, hform⟩
      · rintro ⟨rfl, hc, hform⟩
        rw [(htyped.ok_iff p.payload c).mpr ⟨hc.symm.trans hkind.symm, hform⟩, htopic hc.symm]

/-- A packet of a known kind is refused for a field. -/
theorem invalid_of_decode {p : Packet} {e : WireError} (hknown : p.kind ∈ [0, 1, 2, 3, 4])
    (herror : catalog.decode p = .error e) : ∃ fault, e = .invalidField fault := by
  rw [Catalog.decode] at herror
  cases hfind : catalog.find? p.kind with
  | none => exact absurd hknown (find?_catalog_eq_none_iff.mp hfind)
  | some type =>
      obtain ⟨-, htyped⟩ := find?_catalog_cases hfind
      rw [hfind] at herror
      dsimp only at herror
      split at herror <;> cases herror
      next hdecode => exact htyped.invalid p.payload e hdecode

theorem accepts : Accepts catalog.decode [0, 1, 2, 3, 4]
    (fun p (topic, c) => topic = c.topic ∧ IsFormOf p c) (fun (_, c) => c.toPacket) := by
  refine ⟨?_, fun p => ?_, fun p e hknown herror => ?_, ?_⟩
  · rintro p ⟨topic, c⟩
    exact decode_eq_ok_iff
  · constructor
    · intro herror hknown
      obtain ⟨fault, hfault⟩ := invalid_of_decode hknown herror
      cases hfault
    · intro hunknown
      rw [Catalog.decode, find?_catalog_eq_none_iff.mpr hunknown]
  · obtain ⟨fault, rfl⟩ := invalid_of_decode hknown herror
    exact ⟨⟨fault, rfl⟩, rfl⟩
  · rintro p ⟨topic, c⟩ hread
    obtain ⟨htopic, hkind, hpayload, hfinite⟩ := decode_eq_ok_iff.mp hread
    refine ⟨hkind.symm, hpayload.length_encodeAll_le, decode_eq_ok_iff.mpr ?_⟩
    exact ⟨htopic, rfl, payload_encodeAll hpayload.fits, hfinite⟩

end Command

namespace Event

/-- The bytes of a packet are a form of an event, with singles of any kind. -/
def IsFormOf (p : Packet) (e : Event) : Prop := p.kind = e.kind ∧ Payload e.fields p.payload

theorem builds_readHandle : Builds readHandle fun h fs => fs = handleFields h := by
  have hbuilds := (Builds.of_form (Reader.parses_number "entity.id")).bind fun id =>
    (Builds.of_form (Reader.parses_number "entity.generation")).bind fun generation =>
      .pure (⟨id, generation⟩ : Handle)
  refine hbuilds.congr fun h fs => ?_
  obtain ⟨id, generation⟩ := h
  simp [handleFields]

/-- The reader of a kind takes the fields of the events of this kind. -/
theorem builds_of_fieldsOf? {kind : UInt8} {m : Read Event} (h : fieldsOf? kind = some m) :
    Builds m fun e fs => e.kind = kind ∧ fs = e.fields := by
  unfold fieldsOf? at h
  split_ifs at h with h₁ h₂ h₃ h₄ h₅ <;> subst kind <;> obtain rfl := Option.some.inj h
  · refine (builds_readHandle.bind fun entity => .pure (loginAccepted entity)).congr fun e fs => ?_
    cases e <;> simp [Event.kind, fields]
  · have hreason := Builds.of_form (Reader.parses_text "reason")
    refine (hreason.bind fun reason => .pure (loginRejected reason)).congr fun e fs => ?_
    cases e <;> simp [Event.kind, fields]
  · have hbuilds := builds_readHandle.bind fun entity =>
      (Builds.of_form (Reader.parses_single "x")).bind fun x =>
        (Builds.of_form (Reader.parses_single "y")).bind fun y => .pure (entityMoved entity x y)
    refine hbuilds.congr fun e fs => ?_
    cases e <;> simp [Event.kind, fields]
  · have hbuilds := builds_readHandle.bind fun entity =>
      (Builds.of_form (Reader.parses_text "text")).bind fun text => .pure (chatRelay entity text)
    refine hbuilds.congr fun e fs => ?_
    cases e <;> simp [Event.kind, fields]
  · have hnonce := Builds.of_form (Reader.parses_number "nonce")
    refine (hnonce.bind fun nonce => .pure (pong nonce)).congr fun e fs => ?_
    cases e <;> simp [Event.kind, fields]

theorem fieldsOf?_eq_none_iff {kind : UInt8} :
    fieldsOf? kind = none ↔ kind ∉ ([128, 129, 130, 131, 132] : List UInt8) := by
  unfold fieldsOf?
  split_ifs <;> simp_all

theorem ofPacket_eq_ok_iff {p : Packet} {e : Event} : ofPacket p = .ok e ↔ IsFormOf p e := by
  rw [ofPacket, IsFormOf]
  cases hfields : fieldsOf? p.kind with
  | none =>
      constructor
      · rintro ⟨⟩
      · intro hform
        rw [fieldsOf?_eq_none_iff, hform.1] at hfields
        cases e <;> simp [kind] at hfields
  | some m =>
      refine (builds_of_fieldsOf? hfields).run_eq_ok_iff.trans ?_
      constructor
      · rintro ⟨fs, ⟨hkind, rfl⟩, hpayload⟩
        exact ⟨hkind.symm, hpayload⟩
      · rintro ⟨hkind, hpayload⟩
        exact ⟨e.fields, ⟨hkind.symm, rfl⟩, hpayload⟩

theorem invalid_of_ofPacket {p : Packet} {e : WireError}
    (hknown : p.kind ∈ [128, 129, 130, 131, 132]) (herror : ofPacket p = .error e) :
    ∃ fault, e = .invalidField fault := by
  rw [ofPacket] at herror
  cases hfields : fieldsOf? p.kind with
  | none => exact absurd hknown (fieldsOf?_eq_none_iff.mp hfields)
  | some m =>
      rw [hfields] at herror
      exact (builds_of_fieldsOf? hfields).run_invalid herror

theorem accepts : Accepts ofPacket [128, 129, 130, 131, 132] IsFormOf toPacket := by
  refine ⟨fun p e => ofPacket_eq_ok_iff, fun p => ?_, fun p e hknown herror => ?_,
    fun p e hread => ?_⟩
  · constructor
    · intro herror hknown
      obtain ⟨fault, hfault⟩ := invalid_of_ofPacket hknown herror
      cases hfault
    · intro hunknown
      rw [ofPacket, fieldsOf?_eq_none_iff.mpr hunknown]
  · obtain ⟨fault, rfl⟩ := invalid_of_ofPacket hknown herror
    exact ⟨⟨fault, rfl⟩, rfl⟩
  · obtain ⟨hkind, hpayload⟩ := ofPacket_eq_ok_iff.mp hread
    refine ⟨hkind.symm, hpayload.length_encodeAll_le, ofPacket_eq_ok_iff.mpr ?_⟩
    exact ⟨rfl, payload_encodeAll hpayload.fits⟩

end Event

/-- The readers of commands and events accept exactly the forms of messages, and what they accept
has a normal form. The forms of a number are what its decoder accepts. -/
theorem messages_read_exactly :
    Accepts Command.catalog.decode [0, 1, 2, 3, 4]
      (fun p (topic, c) => topic = c.topic ∧ Command.IsFormOf p c) (fun (_, c) => c.toPacket) ∧
    Accepts Event.ofPacket [128, 129, 130, 131, 132] Event.IsFormOf Event.toPacket ∧
    ∀ bytes v, Wire.Varint.Denotes bytes v ↔ Wire.Varint.decode bytes = .ok (v, bytes.length) :=
  ⟨Command.accepts, Event.accepts, fun _ _ => Wire.Varint.denotes_iff⟩

/-- A number may be spelt with more bytes than it needs, but nothing may follow it. -/
example : Command.catalog.decode ⟨3, [0x81, 0x80, 0]⟩ = .ok (.commands, .ping 1) ∧
    Command.catalog.decode ⟨3, [1, 0]⟩ = .error (.invalidField (.trailing 1)) := by
  decide +kernel

end Realm
