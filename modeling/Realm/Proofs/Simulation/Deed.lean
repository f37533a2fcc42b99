import Realm.Proofs.Simulation.Peopled
import Realm.Proofs.World.Keep

/-!
# Deeds

What the systems of the game do at a tick is a sequence of deeds, each about one entity and its
session. On a stage with players no deed fails; what it does to the lobby and to the slot of its
entity can be written down, and the slots of all others are left alone.
-/

namespace Realm

inductive Deed where
  /-- The player of an entity is removed. -/
  | reap (entity : Handle) (client : ConnectionId)
  /-- The first command of a session is taken and applied to its entity. -/
  | obey (entity : Handle) (client : ConnectionId) (command : Command)
  /-- A moving entity gets to its next position. -/
  | advance (entity : Handle) (position : Position)
  /-- A moving entity without a position appears at the origin. -/
  | appear (entity : Handle)
  /-- The events of the session of an entity are handed to the writer. -/
  | drain (entity : Handle) (client : ConnectionId)
  deriving DecidableEq, Repr

namespace Deed

def work : Deed → GameWork Unit
  | .reap h c => CommandSystem.reap h c
  | .obey h c command => do
    Work.modifyShared fun l => (l.takeCommand c).2
    CommandSystem.apply h c command
  | .advance h p => do
    Work.modifyStore (·.modify h .transform fun _ => .transform p)
    Work.modifyShared (·.broadcast (.entityMoved h p.x p.y))
  | .appear h => do
    discard (Work.add h (.transform .origin))
    Work.modifyShared (·.broadcast (.entityMoved h .zero .zero))
  | .drain _ c => Work.modifyShared (·.drainEvents c)

def perform (d : Deed) (stage : Stage GameComponent Lobby) : Stage GameComponent Lobby :=
  d.work.last stage

def performAll (ds : List Deed) (stage : Stage GameComponent Lobby) : Stage GameComponent Lobby :=
  ds.foldl (fun stage d => d.perform stage) stage

def entity : Deed → Handle
  | .reap h _ | .obey h _ _ | .advance h _ | .appear h | .drain h _ => h

def answer (h : Handle) (c : ConnectionId) : Command → Lobby → Lobby
  | .chat text, l => l.broadcast (.chatRelay h text)
  | .ping nonce, l => (l.queueEvent c (.pong nonce)).2
  | .logout, l => l.endSession c
  | .move _ _, l | .login _ _, l => l

def lobby : Deed → Lobby → Lobby
  | .reap _ c, l => l.endSession c
  | .obey h c command, l => answer h c command (l.takeCommand c).2
  | .advance h p, l => l.broadcast (.entityMoved h p.x p.y)
  | .appear h, l => l.broadcast (.entityMoved h .zero .zero)
  | .drain _ c, l => l.drainEvents c

def slot : Deed → Slot GameComponent → Slot GameComponent
  | .reap h _ | .obey h _ .logout => (·.release h)
  | .obey h _ (.move dx dy) =>
    if dx.isZero && dy.isZero then (·.modify h (·.erase .velocity))
    else (·.modify h (·.insert (.velocity ⟨dx, dy⟩)))
  | .advance h p => (·.modify h (·.modify .transform fun _ => .transform p))
  | .appear h => (·.modify h (·.insert (.transform .origin)))
  | .obey _ _ _ | .drain _ _ => id

/-- Whether the stage has what a deed is about: the player, and the command where one is taken. -/
def Fits (stage : Stage GameComponent Lobby) : Deed → Prop
  | .reap h c => ∃ b ∈ stage.shared.roll, b.entity = h ∧ b.connection = c
  | .obey h c command => ∃ x, stage.shared.session? c = some x ∧ x.entity = h ∧
      x.dequeueCommand.1 = some command
  | .advance h _ | .appear h => ∃ b ∈ stage.shared.roll, b.entity = h
  | .drain _ _ => True

/-- A deed is done without a failure, and with the effects that are written down. -/
structure Done (d : Deed) (stage : Stage GameComponent Lobby) : Prop where
  eq : d.work stage = .ok () (d.perform stage)
  shared_eq : (d.perform stage).shared = d.lobby stage.shared
  touches : stage.store.Touches d.entity d.slot (d.perform stage).store
  ready : Ready (d.perform stage)

variable {d : Deed} {stage : Stage GameComponent Lobby} {b : Bond} {h : Handle} {c : ConnectionId}
  {command : Command}

theorem Done.of_ok {s : Store GameComponent} (hok : d.work stage = .ok () ⟨s, d.lobby stage.shared⟩)
    (ht : stage.store.Touches d.entity d.slot s) (hr : Ready ⟨s, d.lobby stage.shared⟩) :
    d.Done stage := by
  have hperform : d.perform stage = ⟨s, d.lobby stage.shared⟩ := Work.last_of_ok hok
  refine ⟨hperform ▸ hok, congrArg Stage.shared hperform, ?_, hperform ▸ hr⟩
  rw [hperform]
  exact ht

/-- Removing a player: the session ends and the entity is destroyed, and both are there. -/
theorem reap_of_ready (hr : Ready stage) (hb : b ∈ stage.shared.roll) :
    ∃ s, CommandSystem.reap b.entity b.connection stage =
        .ok () ⟨s, stage.shared.endSession b.connection⟩ ∧
      stage.store.Touches b.entity (·.release b.entity) s ∧
      Ready ⟨s, stage.shared.endSession b.connection⟩ ∧ s.isAlive b.entity = false := by
  obtain ⟨e, hl, -⟩ := hr.linked b hb
  obtain ⟨s, hs, ht, hgone⟩ := Store.touches_destroy hr.idle hl
  have hready : Ready ⟨s, stage.shared.endSession b.connection⟩ :=
    hr.destroy hb ht hgone (Lobby.roll_endSession _ _)
  refine ⟨s, ?_, ht, hready, hgone⟩
  have hended : (Work.modifyShared (·.endSession b.connection) : GameWork Unit) stage =
      .ok () { stage with shared := stage.shared.endSession b.connection } := rfl
  rw [CommandSystem.reap, Work.bind_of_ok hended, Work.destroy]
  exact Work.onStore_of_ok (by rw [hs]; rfl)

theorem done_reap (hr : Ready stage) (hb : b ∈ stage.shared.roll) :
    (reap b.entity b.connection).Done stage := by
  obtain ⟨s, hok, ht, hready, -⟩ := reap_of_ready hr hb
  exact .of_ok hok ht hready

/-- A command is applied without a failure; if the entity lives on, so does its session. -/
theorem apply_of_ready (hr : Ready stage) (hb : b ∈ stage.shared.roll) (command : Command) :
    ∃ s, CommandSystem.apply b.entity b.connection command stage =
        .ok () ⟨s, answer b.entity b.connection command stage.shared⟩ ∧
      stage.store.Touches b.entity (obey b.entity b.connection command).slot s ∧
      Ready ⟨s, answer b.entity b.connection command stage.shared⟩ ∧
      (s.isAlive b.entity = true →
        (answer b.entity b.connection command stage.shared).roll = stage.shared.roll) := by
  obtain ⟨e, hl, -⟩ := hr.linked b hb
  cases command with
  | move dx dy =>
      simp only [CommandSystem.apply, slot]
      by_cases hzero : (dx.isZero && dy.isZero) = true
      · obtain ⟨s, hs, ht, hafter⟩ := Store.touches_remove hr.steady hl .velocity
        rw [if_pos hzero, if_pos hzero]
        have hkind : Kind.player ≠ Kind.velocity := by decide
        refine ⟨s, Work.discard_of_ok (Work.onStore_of_ok hs), ht, hr.rewrite hl ht hafter ?_ rfl,
          fun _ => rfl⟩
        rw [Entity.get?_erase, if_neg hkind]
      · have hadd := Store.touches_add hl (GameComponent.velocity ⟨dx, dy⟩)
        obtain ⟨s, hs, ht, hafter⟩ := hadd
        rw [if_neg hzero, if_neg hzero]
        have hkind : Kind.player ≠ Kind.velocity := by decide
        refine ⟨s, Work.discard_of_ok (Work.onStore_of_ok hs), ht, hr.rewrite hl ht hafter ?_ rfl,
          fun _ => rfl⟩
        exact (Entity.get?_insert _ _ _).trans (if_neg hkind)
  | chat text =>
      have hroll := stage.shared.roll_broadcast (.chatRelay b.entity text)
      exact ⟨stage.store, rfl, .spared, hr.withShared hroll, fun _ => hroll⟩
  | ping nonce =>
      have hroll := stage.shared.roll_queueEvent b.connection (.pong nonce)
      exact ⟨stage.store, rfl, .spared, hr.withShared hroll, fun _ => hroll⟩
  | logout =>
      obtain ⟨s, hok, ht, hready, hgone⟩ := reap_of_ready hr hb
      refine ⟨s, hok, ht, hready, fun ha => ?_⟩
      rw [hgone] at ha
      cases ha
  | login username password => exact ⟨stage.store, rfl, .spared, hr, fun _ => rfl⟩

theorem done_obey (hr : Ready stage) (hb : b ∈ stage.shared.roll) (command : Command) :
    (obey b.entity b.connection command).Done stage ∧
      (((obey b.entity b.connection command).perform stage).store.isAlive b.entity = true →
        b ∈ ((obey b.entity b.connection command).perform stage).shared.roll) := by
  have hroll := Lobby.roll_takeCommand stage.shared b.connection
  have htaken := hr.withShared hroll
  obtain ⟨s, hok, ht, hready, hlast⟩ := apply_of_ready htaken (hroll ▸ hb : b ∈ _) command
  have hdone : (obey b.entity b.connection command).Done stage := .of_ok hok ht hready
  have hperform : (obey b.entity b.connection command).perform stage =
      ⟨s, (obey b.entity b.connection command).lobby stage.shared⟩ := Work.last_of_ok hok
  refine ⟨hdone, fun ha => ?_⟩
  rw [hperform] at ha ⊢
  have hkept := (hlast ha).trans hroll
  exact hkept ▸ hb

theorem done_advance (hr : Ready stage) (hb : b ∈ stage.shared.roll) (p : Position) :
    (advance b.entity p).Done stage := by
  obtain ⟨e, hl, -⟩ := hr.linked b hb
  obtain ⟨ht, hafter⟩ := Store.touches_modify hl Kind.transform fun _ => GameComponent.transform p
  have hkind : Kind.player ≠ Kind.transform := by decide
  refine .of_ok rfl ht (hr.rewrite hl ht hafter ?_ (Lobby.roll_broadcast _ _))
  rw [Entity.get?_modify, if_neg hkind]

theorem done_appear (hr : Ready stage) (hb : b ∈ stage.shared.roll) :
    (appear b.entity).Done stage := by
  obtain ⟨e, hl, -⟩ := hr.linked b hb
  obtain ⟨s, hs, ht, hafter⟩ := Store.touches_add hl (GameComponent.transform .origin)
  have hkind : Kind.player ≠ Kind.transform := by decide
  have hadded : (discard (Work.add b.entity (.transform .origin)) : GameWork Unit) stage =
      .ok () { stage with store := s } := Work.discard_of_ok (Work.onStore_of_ok hs)
  have hok : (appear b.entity).work stage = .ok () ⟨s, (appear b.entity).lobby stage.shared⟩ :=
    Work.bind_of_ok hadded
  refine .of_ok hok ht (hr.rewrite hl ht hafter ?_ (Lobby.roll_broadcast _ _))
  exact (Entity.get?_insert _ _ _).trans (if_neg hkind)

theorem done_drain (hr : Ready stage) (h : Handle) (c : ConnectionId) :
    (drain h c).Done stage :=
  .of_ok rfl .spared (hr.withShared (stage.shared.roll_drainEvents c hr.nodup))

/-- Every deed that fits is done. -/
theorem Fits.done (hf : d.Fits stage) (hr : Ready stage) : d.Done stage := by
  cases d with
  | reap h c =>
      obtain ⟨b, hb, rfl, rfl⟩ := hf
      exact done_reap hr hb
  | obey h c command =>
      obtain ⟨x, hx, rfl, -⟩ := hf
      obtain ⟨hb, rfl⟩ := Peopled.mem_roll hx
      exact (done_obey hr hb command).1
  | advance h p =>
      obtain ⟨b, hb, rfl⟩ := hf
      exact done_advance hr hb p
  | appear h =>
      obtain ⟨b, hb, rfl⟩ := hf
      exact done_appear hr hb
  | drain h c => exact done_drain hr h c

end Deed

end Realm
