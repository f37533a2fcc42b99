import Realm.Message.Command
import Realm.Message.Event
import Realm.Proofs.Wire.Payload

/-!
# Messages on the wire

The packet of a message gives the message back. Texts have to be short enough to announce their
length. A move is given back if its velocity is finite and refused otherwise; events may carry any
singles.
-/

namespace Realm

open Wire (Field Packet Read Reader WireError)

namespace Command

/-- The texts of a command are short enough to announce their lengths. -/
def Fits (c : Command) : Prop := ∀ f ∈ c.fields, f.Fits

def IsFinite : Command → Prop
  | .move dx dy => dx.isFinite = true ∧ dy.isFinite = true
  | _ => True

def messageType : Command → MessageType Command
  | .login _ _ => loginType
  | .move _ _ => moveType
  | .chat _ => chatType
  | .ping _ => pingType
  | .logout => logoutType

variable {c c' : Command}

theorem find?_kind (c : Command) : catalog.find? c.kind = some c.messageType := by
  cases c <;> rfl

theorem topic_messageType (c : Command) : c.messageType.topic = c.topic := by
  cases c <;> rfl

theorem decode_toPacket (c : Command) : catalog.decode c.toPacket =
    (c.messageType.decode (Field.encodeAll c.fields)).map fun message => (c.topic, message) := by
  rw [Catalog.decode, toPacket, find?_kind, ← topic_messageType]
  dsimp only
  cases c.messageType.decode (Field.encodeAll c.fields) <;> rfl

theorem decode_move (dx dy : Single) :
    (move dx dy).messageType.decode (Field.encodeAll (fields (.move dx dy))) =
      if dx.isFinite && dy.isFinite then .ok (.move dx dy)
      else .error (.invalidField .velocityNotFinite) := by
  have hparts : Read.Takes (do
      let dx ← Reader.single "dx"
      let dy ← Reader.single "dy"
      pure (dx, dy)) (Field.encodeAll (fields (.move dx dy))) (dx, dy) :=
    (Reader.takes_single "dx" dx).bind ((Reader.takes_single "dy" dy).bind (.pure (dx, dy)))
  have hdecode : (move dx dy).messageType.decode = readMove := rfl
  rw [hdecode, readMove, hparts.run_eq]

theorem decode_fields (hfits : c.Fits) (hfinite : c.IsFinite) :
    c.messageType.decode (Field.encodeAll c.fields) = .ok c := by
  cases c with
  | login username password =>
      obtain ⟨husername, hrest⟩ := List.forall_mem_cons.mp hfits
      obtain ⟨hpassword, -⟩ := List.forall_mem_cons.mp hrest
      change Reader.run _ _ = _
      exact Read.Takes.run_eq (.bind (Reader.takes_text "username" husername)
        (.bind (Reader.takes_text "password" hpassword) (.pure (Command.login username password))))
  | move dx dy =>
      refine (decode_move dx dy).trans (if_pos ?_)
      rw [hfinite.1, hfinite.2]
      rfl
  | chat text =>
      obtain ⟨htext, -⟩ := List.forall_mem_cons.mp hfits
      change Reader.run _ _ = _
      exact Read.Takes.run_eq (.bind (Reader.takes_text "text" htext) (.pure (Command.chat text)))
  | ping nonce =>
      change Reader.run _ _ = _
      exact Read.Takes.run_eq (.bind (Reader.takes_number "nonce" nonce)
        (.pure (Command.ping nonce)))
  | logout => exact (Read.Takes.pure Command.logout).run_eq

theorem toPacket_inj (hfits : c.Fits) (hfits' : c'.Fits) (h : c.toPacket = c'.toPacket) :
    c = c' := by
  injection h with hkind hpayload
  have htypes : c.fields.map Field.type = c'.fields.map Field.type := by
    cases c <;> cases c' <;> first | rfl | cases hkind
  have hfields := Field.encodeAll_inj htypes hfits hfits' hpayload
  cases c <;> cases c' <;> simp_all [kind, fields]

end Command

namespace Event

/-- The texts of an event are short enough to announce their lengths. -/
def Fits (e : Event) : Prop := ∀ f ∈ e.fields, f.Fits

variable {e e' : Event}

theorem fits_of_length (h : e.toPacket.payload.length < 2 ^ 32) : e.Fits := fun f hf => by
  have hpart : f.encode.length ≤ e.toPacket.payload.length :=
    (List.sublist_flatten_of_mem (List.mem_map_of_mem hf)).length_le
  exact Field.fits_of_length (by omega)

theorem takes_readHandle (h : Handle) :
    Read.Takes readHandle (Field.encodeAll (handleFields h)) h :=
  (Reader.takes_number "entity.id" h.id).bind
    ((Reader.takes_number "entity.generation" h.generation).bind (.pure h))

/-- The reader of the kind of an event takes the fields of the event. -/
theorem exists_takes (hfits : e.Fits) :
    ∃ m, fieldsOf? e.kind = some m ∧ Read.Takes m (Field.encodeAll e.fields) e := by
  cases e with
  | loginAccepted entity =>
      refine ⟨_, rfl, ?_⟩
      rw [fields, ← List.append_nil (Field.encodeAll _)]
      exact (takes_readHandle entity).bind (.pure (Event.loginAccepted entity))
  | loginRejected reason =>
      obtain ⟨hreason, -⟩ := List.forall_mem_cons.mp hfits
      exact ⟨_, rfl, (Reader.takes_text "reason" hreason).bind (.pure (loginRejected reason))⟩
  | entityMoved entity x y =>
      refine ⟨_, rfl, ?_⟩
      rw [fields, Field.encodeAll, List.flatMap_append]
      exact (takes_readHandle entity).bind ((Reader.takes_single "x" x).bind
        ((Reader.takes_single "y" y).bind (.pure (Event.entityMoved entity x y))))
  | chatRelay entity text =>
      have htext : (Field.text text).Fits := hfits _ (List.mem_append_right _ List.mem_cons_self)
      refine ⟨_, rfl, ?_⟩
      rw [fields, Field.encodeAll, List.flatMap_append]
      exact (takes_readHandle entity).bind
        ((Reader.takes_text "text" htext).bind (.pure (Event.chatRelay entity text)))
  | pong nonce =>
      exact ⟨_, rfl, (Reader.takes_number "nonce" nonce).bind (.pure (pong nonce))⟩

theorem ofPacket_toPacket (hfits : e.Fits) : ofPacket e.toPacket = .ok e := by
  obtain ⟨m, hm, htakes⟩ := exists_takes hfits
  rw [ofPacket, toPacket, hm]
  exact htakes.run_eq

theorem toPacket_inj (hfits : e.Fits) (hfits' : e'.Fits) (h : e.toPacket = e'.toPacket) :
    e = e' := by
  have hread := ofPacket_toPacket hfits
  rw [h, ofPacket_toPacket hfits'] at hread
  exact (Except.ok.inj hread).symm

end Event

/-- Messages survive the wire. -/
theorem messages_round_trip :
    (∀ c : Command, c.Fits → c.IsFinite →
      Command.catalog.decode c.toPacket = .ok (c.topic, c)) ∧
    (∀ dx dy : Single, ¬ (Command.move dx dy).IsFinite →
      Command.catalog.decode (Command.move dx dy).toPacket =
        .error (.invalidField .velocityNotFinite)) ∧
    (∀ e : Event, e.Fits → Event.ofPacket e.toPacket = .ok e) ∧
    (∀ c c' : Command, c.Fits → c'.Fits → c.toPacket = c'.toPacket → c = c') ∧
    (∀ e e' : Event, e.Fits → e'.Fits → e.toPacket = e'.toPacket → e = e') := by
  refine ⟨fun c hfits hfinite => ?_, fun dx dy hinfinite => ?_,
    fun e => Event.ofPacket_toPacket, fun c c' => Command.toPacket_inj,
    fun e e' => Event.toPacket_inj⟩
  · rw [Command.decode_toPacket, Command.decode_fields hfits hfinite]
    rfl
  · have hrefused : ¬ (dx.isFinite && dy.isFinite) = true := by
      rwa [Bool.and_eq_true]
    rw [Command.decode_toPacket, Command.decode_move, if_neg hrefused]
    rfl

/-- A login, a move with a negative zero, one that is undefined, and an undefined position. -/
theorem messages_round_trip_of_bits :
    Command.catalog.decode (Command.login "ada" "pw").toPacket =
      .ok (.login, .login "ada" "pw") ∧
    Command.catalog.decode (Command.move ⟨0x80000000⟩ .zero).toPacket =
      .ok (.commands, .move ⟨0x80000000⟩ .zero) ∧
    Command.catalog.decode (Command.move ⟨0x7fc00000⟩ .zero).toPacket =
      .error (.invalidField .velocityNotFinite) ∧
    Event.ofPacket (Event.entityMoved ⟨3, 0xffffffff⟩ ⟨0x7fc00001⟩ ⟨0x7f800000⟩).toPacket =
      .ok (.entityMoved ⟨3, 0xffffffff⟩ ⟨0x7fc00001⟩ ⟨0x7f800000⟩) ∧
    (Command.ping 1).toPacket ≠ (Command.ping 2).toPacket ∧
    (Event.pong 1).toPacket ≠ (Event.pong 2).toPacket := by
  obtain ⟨hcommand, hmove, hevent, hcommands, hevents⟩ := messages_round_trip
  refine ⟨hcommand _ ?_ trivial, hcommand _ ?_ ⟨by decide, by decide⟩, hmove _ _ ?_, hevent _ ?_,
    fun h => ?_, fun h => ?_⟩
  · simp only [Command.Fits, Command.fields, Field.Fits, List.forall_mem_cons]
    exact ⟨by decide, by decide, nofun⟩
  · simp [Command.Fits, Command.fields, Field.Fits]
  · exact fun h => absurd h.1 (by decide)
  · simp [Event.Fits, Event.fields, Event.handleFields, Field.Fits]
  · exact absurd (hcommands _ _ (by simp [Command.Fits, Command.fields, Field.Fits])
      (by simp [Command.Fits, Command.fields, Field.Fits]) h) (by decide)
  · exact absurd (hevents _ _ (by simp [Event.Fits, Event.fields, Field.Fits])
      (by simp [Event.Fits, Event.fields, Field.Fits]) h) (by decide)

end Realm
