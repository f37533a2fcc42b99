import Realm.Proofs.Session.Attendance
import Realm.Proofs.Simulation.Scene

/-!
# The footing of a player

What a tick does for a player depends on the attendance of its connection and on the slot of its
entity. Deeds that concern other entities leave both alone. Those that concern its own are told by
them, and what they do to them is too.
-/

namespace Realm

/-- What matters to a player: how its connection is attended to, and the slot of its entity. -/
structure Footing where
  attendance : Option (Bounded Command × Bool × Bool)
  slot : Option (Slot GameComponent)

namespace Bond

def footing (b : Bond) (stage : Stage GameComponent Lobby) : Footing :=
  ⟨stage.shared.attendance b.connection, stage.store.at? b.entity.id⟩

/-- Nobody else on the roll has the identity of the player's entity, or its connection. -/
structure Alone (b : Bond) (stage : Stage GameComponent Lobby) : Prop where
  entity_ne : ∀ b' ∈ stage.shared.roll, b' ≠ b → b'.entity.id ≠ b.entity.id
  connection_ne : ∀ b' ∈ stage.shared.roll, b' ≠ b → b'.connection ≠ b.connection

end Bond

variable {rules : GameRules} {stage stage' : Stage GameComponent Lobby} {b : Bond} {d : Deed}
  {ds : List Deed} {h : Handle}

namespace Store

variable {s s' : Store GameComponent}

/-! ## What a slot tells -/

theorem isAlive_congr (hat : s'.at? h.id = s.at? h.id) : s'.isAlive h = s.isAlive h := by
  unfold isAlive
  rw [slot?_eq, slot?_eq, hat]

theorem get?_congr (hat : s'.at? h.id = s.at? h.id) (k : Kind) : s'.get? h k = s.get? h k := by
  unfold get? find?
  rw [slot?_eq, slot?_eq, hat]

theorem playerOf_congr (hat : s'.at? h.id = s.at? h.id) : s'.playerOf h = s.playerOf h := by
  unfold playerOf
  rw [get?_congr hat]

end Store

namespace Bond

variable {l l' : Lobby}

theorem attendance_eq (hs : b.footing stage' = b.footing stage) :
    stage'.shared.attendance b.connection = stage.shared.attendance b.connection :=
  congrArg Footing.attendance hs

theorem slot_eq (hs : b.footing stage' = b.footing stage) :
    stage'.store.at? b.entity.id = stage.store.at? b.entity.id := congrArg Footing.slot hs

namespace Alone

theorem of_mem (hp : Peopled stage) (hb : b ∈ stage.shared.roll) : b.Alone stage where
  entity_ne := by
    intro b' hb' hne hid
    obtain ⟨e, hl, -⟩ := hp.linked b hb
    obtain ⟨e', hl', -⟩ := hp.linked b' hb'
    exact hne (hp.eq_of_entity hb' hb (Store.eq_of_living hl hl' hid))
  connection_ne := fun b' hb' hne hc => hne (hp.eq_of_connection hb' hb hc)

theorem mono (ha : b.Alone stage) (hroll : stage'.shared.roll ⊆ stage.shared.roll) :
    b.Alone stage' :=
  ⟨fun b' hb' => ha.entity_ne b' (hroll hb'), fun b' hb' => ha.connection_ne b' (hroll hb')⟩

theorem eq_of_entity (ha : b.Alone stage) {b' : Bond} (hb' : b' ∈ stage.shared.roll)
    (he : b'.entity = b.entity) : b' = b := by
  by_contra hne
  exact ha.entity_ne b' hb' hne (congrArg Handle.id he)

theorem eq_of_connection (ha : b.Alone stage) {b' : Bond} (hb' : b' ∈ stage.shared.roll)
    (hc : b'.connection = b.connection) : b' = b := by
  by_contra hne
  exact ha.connection_ne b' hb' hne hc

/-- If the connection of a player is attended to, the player is there. -/
theorem mem_roll (ha : b.Alone stage) {a : Bounded Command × Bool × Bool}
    (h : stage.shared.attendance b.connection = some a) : b ∈ stage.shared.roll := by
  obtain ⟨x, hx, -⟩ := Option.map_eq_some_iff.mp h
  obtain ⟨hm, hc⟩ := Peopled.mem_roll hx
  exact ha.eq_of_connection hm hc ▸ hm

end Alone

end Bond

/-! ## Deeds -/

namespace Deed

/-- A deed does to the attendance of a connection what the attendance tells. -/
theorem attendance_lobby_congr (d : Deed) {l l' : Lobby} {c : ConnectionId}
    (ha : l'.attendance c = l.attendance c) :
    (d.lobby l').attendance c = (d.lobby l).attendance c := by
  cases d with
  | reap h client =>
      show (l'.endSession client).attendance c = (l.endSession client).attendance c
      rw [Lobby.attendance_endSession, Lobby.attendance_endSession, ha]
  | obey h client command =>
      have htaken : (l'.takeCommand client).2.attendance c = (l.takeCommand client).2.attendance c := by
        rw [Lobby.attendance_takeCommand, Lobby.attendance_takeCommand, ha]
        by_cases hc : c = client
        · rw [if_pos hc, if_pos hc, ← hc, ha]
        · rw [if_neg hc, if_neg hc]
      cases command with
      | chat text =>
          refine (Lobby.attendance_broadcast _ _ c).trans (htaken.trans ?_)
          exact (Lobby.attendance_broadcast _ _ c).symm
      | ping nonce =>
          refine (Lobby.attendance_queueEvent _ _ _ c).trans (htaken.trans ?_)
          exact (Lobby.attendance_queueEvent _ _ _ c).symm
      | logout =>
          show ((l'.takeCommand client).2.endSession client).attendance c =
            ((l.takeCommand client).2.endSession client).attendance c
          rw [Lobby.attendance_endSession, Lobby.attendance_endSession, htaken]
      | move dx dy => exact htaken
      | login username password => exact htaken
  | advance h position =>
      exact (l'.attendance_broadcast _ c).trans (ha.trans (l.attendance_broadcast _ c).symm)
  | appear h =>
      exact (l'.attendance_broadcast _ c).trans (ha.trans (l.attendance_broadcast _ c).symm)
  | drain h client =>
      exact (l'.attendance_drainEvents client c).trans
        (ha.trans (l.attendance_drainEvents client c).symm)

/-- Answering a command of another connection leaves the attendance of a connection alone. -/
theorem attendance_answer_of_ne (l : Lobby) (h : Handle) {client c : ConnectionId}
    (command : Command) (hc : c ≠ client) :
    (answer h client command l).attendance c = l.attendance c := by
  cases command with
  | chat text => exact l.attendance_broadcast _ c
  | ping nonce => exact l.attendance_queueEvent client _ c
  | logout => exact (l.attendance_endSession client c).trans (if_neg hc)
  | move dx dy => rfl
  | login username password => rfl

/-- No deed opens or forgets a connection. -/
theorem outline_lobby (d : Deed) (l : Lobby) :
    (d.lobby l).connections.outline = l.connections.outline := by
  cases d with
  | reap h client => exact l.outline_endSession client
  | obey h client command =>
      cases command with
      | logout => exact (l.takeCommand client).2.outline_endSession client
      | _ => rfl
  | drain h client => exact l.outline_drainEvents client
  | _ => rfl

theorem Done.footing_congr (hd : d.Done stage) (hd' : d.Done stage')
    (hs : b.footing stage' = b.footing stage) :
    b.footing (d.perform stage') = b.footing (d.perform stage) := by
  have hattendance : (d.perform stage').shared.attendance b.connection =
      (d.perform stage).shared.attendance b.connection := by
    rw [hd.shared_eq, hd'.shared_eq]
    exact d.attendance_lobby_congr (Bond.attendance_eq hs)
  have hslot : (d.perform stage').store.at? b.entity.id =
      (d.perform stage).store.at? b.entity.id := by
    rw [hd.touches.at?_eq, hd'.touches.at?_eq, Bond.slot_eq hs]
  unfold Bond.footing
  rw [hattendance, hslot]

theorem Fits.footing_eq_of_ne (hf : d.Fits stage) (hr : Ready stage) (ha : b.Alone stage)
    (hne : d.entity ≠ b.entity) : b.footing (d.perform stage) = b.footing stage := by
  have hdone := hf.done hr
  have hkept : (d.lobby stage.shared).attendance b.connection =
      stage.shared.attendance b.connection →
      (d.entity.id ≠ b.entity.id ∨ d.slot = id) →
      b.footing (d.perform stage) = b.footing stage := by
    intro hattendance hslot
    have hat : (d.perform stage).store.at? b.entity.id = stage.store.at? b.entity.id := by
      rw [hdone.touches.at?_eq]
      rcases hslot with hid | hid
      · exact if_neg fun heq => hid heq.symm
      · rw [hid, Option.map_id, id_eq, ite_self]
    unfold Bond.footing
    rw [hdone.shared_eq, hattendance, hat]
  -- A deed that fits is about somebody on the roll, here about somebody else; a drain need not be,
  -- but it touches neither the slot nor the attendance.
  have hother : ∀ b' ∈ stage.shared.roll, b'.entity = d.entity →
      d.entity.id ≠ b.entity.id ∧ b'.connection ≠ b.connection := by
    intro b' hb' he
    have hb : b' ≠ b := fun heq => hne (he.symm.trans (congrArg Bond.entity heq))
    exact ⟨he ▸ ha.entity_ne b' hb' hb, ha.connection_ne b' hb' hb⟩
  cases d with
  | reap h client =>
      obtain ⟨b', hb', he, rfl⟩ := hf
      obtain ⟨hid, hc⟩ := hother b' hb' he
      exact hkept ((stage.shared.attendance_endSession _ _).trans (if_neg hc.symm)) (.inl hid)
  | obey h client command =>
      obtain ⟨x, hx, he, -⟩ := hf
      obtain ⟨hm, rfl⟩ := Peopled.mem_roll hx
      obtain ⟨hid, hc⟩ := hother x.bond hm he
      refine hkept ?_ (.inl hid)
      refine (attendance_answer_of_ne _ h command hc.symm).trans ?_
      exact (stage.shared.attendance_takeCommand _ _).trans (if_neg hc.symm)
  | advance h position =>
      obtain ⟨b', hb', he⟩ := hf
      exact hkept (stage.shared.attendance_broadcast _ _) (.inl (hother b' hb' he).1)
  | appear h =>
      obtain ⟨b', hb', he⟩ := hf
      exact hkept (stage.shared.attendance_broadcast _ _) (.inl (hother b' hb' he).1)
  | drain h client => exact hkept (stage.shared.attendance_drainEvents _ _) (.inr rfl)

namespace Course

theorem footing_congr (h : Course stage ds) (h' : Course stage' ds) (hr : Ready stage)
    (hr' : Ready stage') (hs : b.footing stage' = b.footing stage) :
    b.footing (performAll ds stage') = b.footing (performAll ds stage) := by
  induction ds generalizing stage stage' with
  | nil => exact hs
  | cons d ds ih =>
      have hd := h.1.done hr
      have hd' := h'.1.done hr'
      exact ih h.2 h'.2 hd.ready hd'.ready (hd.footing_congr hd' hs)

theorem outline_eq (h : Course stage ds) (hr : Ready stage) :
    (performAll ds stage).shared.connections.outline = stage.shared.connections.outline := by
  induction ds generalizing stage with
  | nil => rfl
  | cons d ds ih =>
      have hd := h.1.done hr
      have hfirst : (d.perform stage).shared.connections.outline =
          stage.shared.connections.outline := by
        rw [hd.shared_eq]
        exact d.outline_lobby stage.shared
      exact (ih h.2 hd.ready).trans hfirst

theorem footing_eq_of_ne (h : Course stage ds) (hr : Ready stage) (ha : b.Alone stage)
    (hne : ∀ d ∈ ds, d.entity ≠ b.entity) :
    b.footing (performAll ds stage) = b.footing stage := by
  induction ds generalizing stage with
  | nil => rfl
  | cons d ds ih =>
      have hd := h.1.done hr
      have hproper : (⟨stage, d⟩ : Scene).Proper := ⟨hr, h.1⟩
      have hrest := ih h.2 hd.ready (ha.mono hproper.roll_subset)
        fun d' hm => hne d' (List.mem_cons_of_mem d hm)
      exact hrest.trans (h.1.footing_eq_of_ne hr ha (hne d List.mem_cons_self))

end Course

end Deed

end Realm
