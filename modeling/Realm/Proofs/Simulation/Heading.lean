import Realm.Proofs.Simulation.Footing
import Realm.Proofs.Simulation.Obedience

/-!
# Where a player is heading

A deed rewrites the record of its entity and leaves all other records alone, also that of an entity
which is destroyed and still to be seen. Only the commands of its player change how an entity moves:
it has a velocity if the last move that was applied was one, and no deed takes its position or its
link away.
-/

namespace Realm

def Command.velocity? : Command → Option Velocity
  | .move dx dy => some ⟨dx, dy⟩
  | _ => none

/-- Whether a velocity is none: both parts are zero, of either sign. -/
def Velocity.isRest (v : Velocity) : Bool := v.dx.isZero && v.dy.isZero

/-- The velocity after commands: that of the last move, unless it is none. -/
def heading (commands : List Command) : Option Velocity :=
  (commands.filterMap Command.velocity?).getLast?.filter fun v => !v.isRest

def Command.steer (before : Option Velocity) (command : Command) : Option Velocity :=
  match command.velocity? with
  | none => before
  | some v => if v.isRest then none else some v

theorem heading_concat (commands : List Command) (command : Command) :
    heading (commands ++ [command]) = command.steer (heading commands) := by
  unfold heading Command.steer
  rw [List.filterMap_append, List.filterMap_cons, List.filterMap_nil]
  cases command.velocity? with
  | none => simp
  | some v => cases hrest : v.isRest <;> simp [Option.filter, hrest]

theorem heading_append (commands later : List Command) :
    heading (commands ++ later) = later.foldl Command.steer (heading commands) := by
  induction later generalizing commands with
  | nil => rw [List.append_nil, List.foldl_nil]
  | cons command later ih =>
      rw [List.append_cons, ih, heading_concat, List.foldl_cons]

/-- Of an identity of which nothing waits the records stay when it is released. -/
theorem Slot.find?_release {C : Type} {slot : Slot C} (hidle : slot.waiting = none) (g h : Handle) :
    (slot.release g).find? h = slot.find? h := by
  have hpending : (slot.release g).pending = slot.pending := if_neg (by rw [hidle]; nofun)
  unfold find?
  rw [hpending]
  rfl

namespace Deed

def record : Deed → Entity GameComponent → Entity GameComponent
  | .obey _ _ (.move dx dy), e =>
    if dx.isZero && dy.isZero then e.erase .velocity else e.insert (.velocity ⟨dx, dy⟩)
  | .advance _ p, e => e.modify .transform fun _ => .transform p
  | .appear _, e => e.insert (.transform .origin)
  | _, e => e

def command? : Deed → Option Command
  | .obey _ _ command => some command
  | _ => none

variable {stage : Stage GameComponent Lobby} {d : Deed} {ds : List Deed} {b : Bond}
  {e e' e'' : Entity GameComponent}

/-! ## Records -/

theorem handle_record (d : Deed) (e : Entity GameComponent) : (d.record e).handle = e.handle := by
  unfold record
  split
  · split <;> rfl
  · rfl
  · rfl
  · rfl

theorem slot_move (g : Handle) (c : ConnectionId) (dx dy : Single) :
    (obey g c (.move dx dy)).slot = (·.modify g (obey g c (.move dx dy)).record) := by
  by_cases hzero : (dx.isZero && dy.isZero) = true
  · have hrecord : (obey g c (.move dx dy)).record = (·.erase .velocity) :=
      funext fun _ => if_pos hzero
    rw [hrecord]
    exact if_pos hzero
  · have hrecord : (obey g c (.move dx dy)).record = (·.insert (.velocity ⟨dx, dy⟩)) :=
      funext fun _ => if_neg hzero
    rw [hrecord]
    exact if_neg hzero

theorem find?_slot (d : Deed) {slot : Slot GameComponent} (hidle : slot.waiting = none)
    (h : Handle) : (d.slot slot).find? h =
      if h = d.entity then (slot.find? h).map d.record else slot.find? h := by
  have hkept : ∀ {g : Handle} (found : Option (Entity GameComponent)),
      found = if h = g then found.map id else found := by
    intro g found
    rw [Option.map_id, id_eq, ite_self]
  have hwritten : ∀ d : Deed, (slot.modify d.entity d.record).find? h =
      if h = d.entity then (slot.find? h).map d.record else slot.find? h := by
    intro d
    rw [Store.Steady.find?_modify d.handle_record]
    by_cases hown : h = d.entity
    · rw [if_pos hown, if_pos hown, hown]
    · rw [if_neg hown, if_neg hown]
  cases d with
  | reap g c => exact (Slot.find?_release hidle g h).trans (hkept _)
  | obey g c command =>
      cases command with
      | logout => exact (Slot.find?_release hidle g h).trans (hkept _)
      | move dx dy =>
          rw [slot_move]
          exact hwritten (obey g c (.move dx dy))
      | _ => exact hkept _
  | advance g p => exact hwritten (advance g p)
  | appear g => exact hwritten (appear g)
  | drain g c => exact hkept _

/-- A deed rewrites the record of its entity and no other. -/
theorem Done.find?_eq (hd : d.Done stage) (hidle : stage.store.Idle) (h : Handle) :
    (d.perform stage).store.find? h =
      if h = d.entity then (stage.store.find? h).map d.record else stage.store.find? h := by
  have hat := hd.touches.at?_eq h.id
  cases hslot : stage.store.at? h.id with
  | none =>
      have hafter : (d.perform stage).store.at? h.id = none := by
        rw [hat, hslot]
        exact ite_self _
      simp [Store.find?, Store.slot?_eq, hslot, hafter]
  | some slot =>
      rw [hslot] at hat
      rw [Store.find?_of_at? hslot]
      by_cases hid : h.id = d.entity.id
      · rw [if_pos hid] at hat
        rw [Store.find?_of_at? hat]
        exact d.find?_slot (hidle h.id slot hslot) h
      · rw [if_neg hid] at hat
        rw [Store.find?_of_at? hat, if_neg fun heq => hid (congrArg Handle.id heq)]

/-! ## Components -/

/-- Commands were applied to the player with a record: its velocity was set by the moves among them,
it is still linked to its client, and it still has a position. -/
structure Driven (commands : List Command) (e e' : Entity GameComponent) : Prop where
  velocity : ∀ v : Option Velocity, e.get? .velocity = v.map .velocity →
    e'.get? .velocity = (commands.foldl Command.steer v).map .velocity
  player : e'.get? .player = e.get? .player
  transform : (e.get? .transform).isSome → (e'.get? .transform).isSome

namespace Driven

theorem refl (e : Entity GameComponent) : Driven [] e e := ⟨fun _ h => h, rfl, fun h => h⟩

theorem trans {commands later : List Command} (h : Driven commands e e')
    (h' : Driven later e' e'') : Driven (commands ++ later) e e'' where
  velocity := by
    intro v hv
    rw [List.foldl_append]
    exact h'.velocity _ (h.velocity v hv)
  player := h'.player.trans h.player
  transform := fun hp => h'.transform (h.transform hp)

end Driven

/-- A record in which the velocity is rewritten. -/
theorem driven_of_steer {command : Command} {v : Velocity} (hv : command.velocity? = some v)
    (hvelocity : e'.get? .velocity = if v.isRest then none else some (.velocity v))
    (hother : ∀ k, k ≠ Kind.velocity → e'.get? k = e.get? k) : Driven [command] e e' where
  velocity := by
    intro before _
    have hsteer : command.steer before = if v.isRest then none else some v := by
      rw [Command.steer, hv]
    rw [hvelocity, List.foldl_cons, List.foldl_nil, hsteer]
    split <;> rfl
  player := hother .player (by decide)
  transform := fun hp => hother .transform (by decide) ▸ hp

theorem driven_record (d : Deed) (e : Entity GameComponent) :
    Driven d.command?.toList e (d.record e) := by
  cases d with
  | obey h c command =>
      cases command with
      | move dx dy =>
          by_cases hzero : (dx.isZero && dy.isZero) = true
          · have hrecord : (obey h c (.move dx dy)).record e = e.erase .velocity := if_pos hzero
            rw [hrecord]
            refine driven_of_steer (v := ⟨dx, dy⟩) rfl ?_ fun k hk => ?_
            · rw [Entity.get?_erase, if_pos rfl]
              exact (if_pos hzero).symm
            · rw [Entity.get?_erase, if_neg hk]
          · have hrecord : (obey h c (.move dx dy)).record e = e.insert (.velocity ⟨dx, dy⟩) :=
              if_neg hzero
            rw [hrecord]
            refine driven_of_steer (v := ⟨dx, dy⟩) rfl ?_ fun k hk => ?_
            · exact (Entity.get?_insert ..).trans ((if_pos rfl).trans (if_neg hzero).symm)
            · exact (Entity.get?_insert ..).trans (if_neg hk)
      | _ => exact ⟨fun v hv => hv, rfl, fun hp => hp⟩
  | reap h c => exact .refl e
  | drain h c => exact .refl e
  | advance h p =>
      have hget : ∀ k, ((advance h p).record e).get? k =
          if k = .transform then (e.get? .transform).map fun _ => .transform p else e.get? k :=
        fun k => Entity.get?_modify ..
      refine ⟨fun v hv => ?_, ?_, fun hp => ?_⟩
      · rw [hget, if_neg (by decide)]
        exact hv
      · rw [hget, if_neg (by decide)]
      · rw [hget, if_pos rfl, Option.isSome_map]
        exact hp
  | appear h =>
      have hget : ∀ k, ((appear h).record e).get? k =
          if k = .transform then some (.transform .origin) else e.get? k :=
        fun k => Entity.get?_insert ..
      refine ⟨fun v hv => ?_, ?_, fun _ => ?_⟩
      · rw [hget, if_neg (by decide)]
        exact hv
      · rw [hget, if_neg (by decide)]
      · rw [hget, if_pos rfl]
        rfl

/-- No deed takes the link or the position of an entity away. -/
theorem Done.keeps (hd : d.Done stage) (hidle : stage.store.Idle) (h : Handle) :
    (d.perform stage).store.get? h .player = stage.store.get? h .player ∧
      ((stage.store.get? h .transform).isSome →
        ((d.perform stage).store.get? h .transform).isSome) := by
  have hfound := hd.find?_eq hidle h
  unfold Store.get?
  rw [hfound]
  by_cases hown : h = d.entity
  · rw [if_pos hown]
    cases stage.store.find? h with
    | none => exact ⟨rfl, fun hp => hp⟩
    | some e => exact ⟨(d.driven_record e).player, (d.driven_record e).transform⟩
  · rw [if_neg hown]
    exact ⟨rfl, fun hp => hp⟩

/-- A command that is applied for a player is applied to its entity. -/
theorem Fits.eq_of_commandOf (hf : d.Fits stage) (ha : b.Alone stage) {command : Command}
    (hd : d.commandOf b.connection = some command) : d = .obey b.entity b.connection command := by
  cases d with
  | obey h c command' =>
      obtain ⟨hc, rfl⟩ : c = b.connection ∧ command' = command := by simpa [commandOf] using hd
      obtain ⟨x, hx, rfl, -⟩ := hf
      obtain ⟨hm, hxc⟩ := Peopled.mem_roll hx
      have hsame : x.bond = b := ha.eq_of_connection hm (hxc.trans hc)
      rw [← hsame, show x.bond.connection = c from hxc]
      rfl
  | _ => cases hd

/-- A command that is applied to the entity of a player is one of the player. -/
theorem Fits.commandOf_of_entity (hf : d.Fits stage) (ha : b.Alone stage)
    (hown : d.entity = b.entity) : d.commandOf b.connection = d.command? := by
  cases d with
  | obey h c command =>
      obtain ⟨x, hx, hxe, -⟩ := hf
      obtain ⟨hm, hxc⟩ := Peopled.mem_roll hx
      have hsame : x.bond = b := ha.eq_of_entity hm (hxe.trans hown)
      exact if_pos (hxc.symm.trans (congrArg Bond.connection hsame))
  | _ => rfl

/-- A deed drives the entity of a player by the command of the player that it applies, if any. -/
theorem Fits.driven (hf : d.Fits stage) (hr : Ready stage) (ha : b.Alone stage)
    (he : stage.store.find? b.entity = some e) :
    ∃ e', (d.perform stage).store.find? b.entity = some e' ∧
      Driven (d.commandOf b.connection).toList e e' := by
  have hfound := (hf.done hr).find?_eq hr.idle b.entity
  rw [he] at hfound
  by_cases hown : b.entity = d.entity
  · rw [if_pos hown] at hfound
    refine ⟨_, hfound, ?_⟩
    rw [hf.commandOf_of_entity ha hown.symm]
    exact d.driven_record e
  · rw [if_neg hown] at hfound
    refine ⟨e, hfound, ?_⟩
    have hcommand : d.commandOf b.connection = none := by
      by_contra hsome
      obtain ⟨command, hc⟩ := Option.ne_none_iff_exists'.mp hsome
      exact hown (congrArg entity (hf.eq_of_commandOf ha hc)).symm
    rw [hcommand]
    exact .refl e

theorem Course.driven (h : Course stage ds) (hr : Ready stage) (ha : b.Alone stage)
    (he : stage.store.find? b.entity = some e) :
    ∃ e', (performAll ds stage).store.find? b.entity = some e' ∧
      Driven (ds.filterMap (·.commandOf b.connection)) e e' := by
  induction ds generalizing stage e with
  | nil => exact ⟨e, he, .refl e⟩
  | cons d ds ih =>
      have hproper : (⟨stage, d⟩ : Scene).Proper := ⟨hr, h.1⟩
      obtain ⟨e', he', hfirst⟩ := h.1.driven hr ha he
      obtain ⟨e'', he'', hrest⟩ :=
        ih h.2 hproper.done.ready (ha.mono hproper.roll_subset) he'
      refine ⟨e'', he'', ?_⟩
      have hcommands : (d :: ds).filterMap (·.commandOf b.connection) =
          (d.commandOf b.connection).toList ++ ds.filterMap (·.commandOf b.connection) := by
        rw [List.filterMap_cons]
        cases d.commandOf b.connection <;> rfl
      rw [hcommands]
      exact hfirst.trans hrest

end Deed

end Realm
