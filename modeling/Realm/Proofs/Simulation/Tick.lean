import Realm.Proofs.Simulation.Pairing
import Realm.Proofs.World.Work
import Realm.Simulation.Basic

/-!
# A tick keeps sessions and entities matched

None of the systems of the game fails on a world whose sessions and living entities match, and each
leaves them matched. Between the end of a session and the destruction of its entity they do not
match, but nothing else happens there.
-/

namespace Realm

open Work

/-- The sessions and the living entities of a stage match, after `n` entities were created. -/
def Matched (capacity : UInt32) (n : Nat) (stage : Stage GameComponent Lobby) : Prop :=
  ∃ t : History GameComponent, t.store = stage.store ∧ t.issued.length = n ∧
    Paired capacity t stage.shared.roll

/-- They match, and a bond is on the roll. -/
def Serving (capacity : UInt32) (n : Nat) (b : Bond) (stage : Stage GameComponent Lobby) : Prop :=
  Matched capacity n stage ∧ b ∈ stage.shared.roll

variable {capacity : UInt32} {n : Nat} {b : Bond} {stage : Stage GameComponent Lobby}

/-! ## What a stage allows -/

theorem Matched.withShared {l : Lobby} (hm : Matched capacity n stage)
    (hl : l.roll = stage.shared.roll) :
    Matched capacity n { stage with shared := l } := by
  obtain ⟨t, hstore, hn, hp⟩ := hm
  exact ⟨t, hstore, hn, hl ▸ hp⟩

theorem Serving.withShared {l : Lobby} (hs : Serving capacity n b stage)
    (hl : l.roll = stage.shared.roll) : Serving capacity n b { stage with shared := l } :=
  ⟨hs.1.withShared hl, hl ▸ hs.2⟩

theorem Matched.nodup (hm : Matched capacity n stage) :
    (stage.shared.roll.map (·.connection)).Nodup := by
  obtain ⟨t, -, -, hp⟩ := hm
  exact hp.nodup

/-- A living entity of which a component is found has its bond on the roll. -/
theorem Matched.exists_serving {h : Handle} {k : Kind} {c : GameComponent}
    (hm : Matched capacity n stage) (ha : stage.store.isAlive h = true)
    (hc : stage.store.get? h k = some c) : ∃ b, b.entity = h ∧ Serving capacity n b stage := by
  obtain ⟨t, hstore, hn, hp⟩ := hm
  rw [← hstore] at ha hc
  have hf : (t.store.find? h).isSome = true := by
    obtain ⟨e, he, -⟩ := Option.bind_eq_some_iff.mp hc
    rw [he]
    rfl
  obtain ⟨b, hb, heq⟩ := hp.exists_bond ha hf
  exact ⟨b, heq, ⟨t, hstore, hn, hp⟩, hb⟩

/-- The player of the entity of a bond is that of the bond. -/
theorem Serving.playerOf_eq (hs : Serving capacity n b stage) :
    stage.store.playerOf b.entity = some b.connection := by
  obtain ⟨⟨t, hstore, -, hp⟩, hb⟩ := hs
  obtain ⟨-, -, hlink⟩ := hp.linked b hb
  rw [← hstore, Store.playerOf, hlink]
  rfl

theorem secures_add (c : GameComponent) (hc : Kind.player ≠ Component.kind c) :
    Secures (Serving capacity n b) (Work.add b.entity c) fun _ => Serving capacity n b := by
  refine secures_onStore ?_
  rintro stage ⟨⟨t, hstore, hn, hp⟩, hb⟩
  obtain ⟨old, s, hok, hp'⟩ := hp.add hb hc
  exact ⟨old, s, hstore ▸ hok, ⟨t.withStore s, rfl, hn, hp'⟩, hb⟩

theorem secures_remove {k : Kind} (hk : Kind.player ≠ k) :
    Secures (Serving capacity n b) (Work.remove b.entity k) fun _ => Serving capacity n b := by
  refine secures_onStore ?_
  rintro stage ⟨⟨t, hstore, hn, hp⟩, hb⟩
  obtain ⟨old, s, hok, hp'⟩ := hp.remove hb hk
  exact ⟨old, s, hstore ▸ hok, ⟨t.withStore s, rfl, hn, hp'⟩, hb⟩

theorem secures_modify {k : Kind} (hk : Kind.player ≠ k) (f : GameComponent → GameComponent) :
    Secures (Serving capacity n b) (Work.modifyStore (·.modify b.entity k f))
      fun _ => Serving capacity n b := by
  refine secures_modifyStore ?_
  rintro stage ⟨⟨t, hstore, hn, hp⟩, hb⟩
  refine ⟨⟨t.withStore (t.store.modify b.entity k f), ?_, hn, hp.modify hb hk f⟩, hb⟩
  exact congrArg (·.modify b.entity k f) hstore

/-- Work on what is shared that leaves the roll alone. -/
theorem secures_roll {f : Lobby → Lobby} (hf : ∀ l, (f l).roll = l.roll) :
    Secures (Serving capacity n b) (Work.modifyShared f) fun _ => Serving capacity n b :=
  secures_modifyShared fun stage hs => hs.withShared (hf stage.shared)

/-! ## The command system -/

namespace CommandSystem

/-- Removing a player ends the session and destroys the entity, and both are there. -/
theorem secures_reap : Secures (Serving capacity n b) (reap b.entity b.connection) fun _ stage =>
    Matched capacity n stage ∧ stage.store.isAlive b.entity = false := by
  -- in between the roll lacks the bond whose entity is still alive
  let mid : Unit → Stage GameComponent Lobby → Prop := fun _ stage =>
    ∃ (t : History GameComponent) (roll : List Bond), t.store = stage.store ∧
      t.issued.length = n ∧ Paired capacity t roll ∧ b ∈ roll ∧
      stage.shared.roll = roll.filter fun b' => b'.connection ≠ b.connection
  have hend : Secures (Serving capacity n b) (Work.modifyShared (·.endSession b.connection))
      mid := by
    refine secures_modifyShared ?_
    rintro stage ⟨⟨t, hstore, hn, hp⟩, hb⟩
    exact ⟨t, stage.shared.roll, hstore, hn, hp, hb, Lobby.roll_endSession _ _⟩
  refine hend.bind fun _ => secures_onStore ?_
  rintro stage ⟨t, roll, hstore, hn, hp, hb, hroll⟩
  obtain ⟨s, hok, hp'⟩ := hp.destroy hb
  refine ⟨(), s, by rw [← hstore, hok]; rfl,
    ⟨⟨s, t.issued, b.entity :: t.destroyed⟩, rfl, hn, hroll ▸ hp'⟩, ?_⟩
  exact hp'.sound.recorded.isAlive_of_destroyed List.mem_cons_self

/-- A command is applied without a failure; if the entity lives on, so does its session. -/
theorem secures_apply (command : Command) :
    Secures (Serving capacity n b) (apply b.entity b.connection command) fun _ stage =>
      Matched capacity n stage ∧
        (stage.store.isAlive b.entity = true → Serving capacity n b stage) := by
  have hkept : ∀ {w : GameWork Unit},
      (Secures (Serving capacity n b) w fun _ => Serving capacity n b) →
      Secures (Serving capacity n b) w fun _ stage => Matched capacity n stage ∧
        (stage.store.isAlive b.entity = true → Serving capacity n b stage) := by
    intro w hw
    exact hw.imp (fun _ hs => hs) fun _ _ hs => ⟨hs.1, fun _ => hs⟩
  cases command with
  | move dx dy =>
      refine hkept (secures_ite (fun _ => ?_) fun _ => ?_)
      · exact (secures_remove (by decide)).discard
      · have hkind : Kind.player ≠ Kind.velocity := by decide
        exact (secures_add (.velocity ⟨dx, dy⟩) hkind).discard
  | chat text => exact hkept (secures_roll fun l => l.roll_broadcast _)
  | ping nonce => exact hkept (secures_roll fun l => l.roll_queueEvent _ _)
  | logout =>
      refine secures_reap.imp (fun _ hs => hs) ?_
      rintro _ stage ⟨hm, hdead⟩
      refine ⟨hm, fun ha => ?_⟩
      rw [hdead] at ha
      cases ha
  | login _ _ => exact hkept (secures_pure fun _ hs => hs)

theorem secures_obey (budget : Nat) :
    Secures (Serving capacity n b) (obey b.entity b.connection budget)
      fun _ => Matched capacity n := by
  induction budget with
  | zero => exact secures_pure fun _ hs => hs.1
  | succ budget ih =>
      refine secures_shared.bind fun l => ?_
      have hroll := l.roll_takeCommand b.connection
      cases htake : l.takeCommand b.connection with
      | mk command lobby =>
          rw [htake] at hroll
          have htaken : Secures (fun stage => Serving capacity n b stage ∧ stage.shared = l)
              (Work.modifyShared fun _ => lobby : GameWork Unit) fun _ => Serving capacity n b := by
            refine secures_modifyShared ?_
            rintro stage ⟨hs, rfl⟩
            exact hs.withShared hroll
          refine htaken.bind fun _ => ?_
          cases command with
          | none => exact secures_pure fun _ hs => hs.1
          | some command =>
              refine (secures_apply command).bind fun _ => ?_
              refine secures_store.bind fun s => ?_
              refine secures_ite (fun ha => ih.imp ?_ fun _ _ hm => hm) fun _ => ?_
              · rintro stage ⟨hm, rfl⟩
                exact hm.2 ha
              · exact secures_pure fun _ hs => hs.1.1

theorem secures_serve (budget : Nat) (entity : Handle) :
    Secures (Matched capacity n) (serve budget entity) fun _ => Matched capacity n := by
  refine secures_store.bind fun s => ?_
  refine secures_ite (fun ha => ?_) fun _ => secures_pure fun _ hs => hs.1
  cases hplayer : s.playerOf entity with
  | none => exact secures_pure fun _ hs => hs.1
  | some connection =>
      -- the entity has a link, so it has a bond, which names its connection
      have hserving : ∀ stage, Matched capacity n stage ∧ stage.store = s →
          ∃ b, (b.entity = entity ∧ b.connection = connection) ∧ Serving capacity n b stage := by
        rintro stage ⟨hm, rfl⟩
        obtain ⟨c, hc, -⟩ := Option.map_eq_some_iff.mp hplayer
        obtain ⟨c, hc, -⟩ := Option.bind_eq_some_iff.mp hc
        obtain ⟨b, rfl, hs⟩ := hm.exists_serving ha hc
        rw [hs.playerOf_eq] at hplayer
        exact ⟨b, ⟨rfl, Option.some.inj hplayer⟩, hs⟩
      intro stage hstage
      obtain ⟨b, ⟨rfl, rfl⟩, hs⟩ := hserving stage hstage
      have hreap : Secures (Serving capacity n b) (reap b.entity b.connection)
          fun _ => Matched capacity n := secures_reap.imp (fun _ hs => hs) fun _ _ hm => hm.1
      refine Secures.bind secures_shared (fun l => ?_) stage hs
      cases l.session? b.connection with
      | none => exact hreap.imp (fun _ hs => hs.1) fun _ _ hm => hm
      | some session =>
          refine secures_ite (fun _ => ?_) fun _ => ?_
          · exact hreap.imp (fun _ hs => hs.1) fun _ _ hm => hm
          · exact (secures_obey budget).imp (fun _ hs => hs.1) fun _ _ hm => hm

end CommandSystem

/-! ## The movement system -/

namespace MovementSystem

theorem secures_move (step : Duration) (entity : Handle) :
    Secures (Matched capacity n) (move step entity) fun _ => Matched capacity n := by
  refine secures_store.bind fun s => ?_
  refine secures_ite (fun ha => ?_) fun _ => secures_pure fun _ hs => hs.1
  cases hvelocity : (s.get? entity .velocity).bind (·.velocity?) with
  | none => exact secures_pure fun _ hs => hs.1
  | some velocity =>
      intro stage hstage
      obtain ⟨hm, rfl⟩ := hstage
      obtain ⟨c, hc, -⟩ := Option.bind_eq_some_iff.mp hvelocity
      obtain ⟨b, rfl, hs⟩ := hm.exists_serving ha hc
      have hbroadcast : ∀ event, Secures (Serving capacity n b)
          (Work.modifyShared (·.broadcast event)) fun _ => Matched capacity n := by
        intro event
        exact (secures_roll fun l => l.roll_broadcast event).imp (fun _ hs => hs) fun _ _ hs => hs.1
      revert hs
      generalize stage.store = s
      intro hs
      cases (s.get? b.entity .transform).bind (·.position?) with
      | some position =>
          exact (secures_modify (by decide) _).bind (fun _ => hbroadcast _) stage hs
      | none =>
          have hkind : Kind.player ≠ Component.kind (GameComponent.transform .origin) := by decide
          exact (secures_add _ hkind).discard.bind (fun _ => hbroadcast _) stage hs

end MovementSystem

/-! ## The drain system -/

namespace DrainSystem

theorem secures_drain (entity : Handle) :
    Secures (Matched capacity n) (drain entity) fun _ => Matched capacity n := by
  refine secures_store.bind fun s => ?_
  cases s.playerOf entity with
  | none => exact secures_pure fun _ hs => hs.1
  | some connection =>
      refine secures_modifyShared ?_
      rintro stage ⟨hm, -⟩
      exact hm.withShared (stage.shared.roll_drainEvents connection hm.nodup)

end DrainSystem

/-! ## The systems together -/

/-- Every system of the game keeps sessions and entities matched. -/
theorem GameSystem.secures_process (rules : GameRules) (system : GameSystem)
    (entities : List Handle) (delta : Duration) :
    Secures (Matched capacity n) (system.process rules entities delta)
      fun _ => Matched capacity n := by
  cases system with
  | commands => exact secures_forM fun h _ => CommandSystem.secures_serve _ h
  | movement => exact secures_forM fun h _ => MovementSystem.secures_move _ h
  | drain => exact secures_forM fun h _ => DrainSystem.secures_drain h

theorem Cadence.decides (cadence : Cadence) (delta : Duration) :
    ∃ fires, (Policy.decide cadence delta).1 = .ok fires := ⟨_, rfl⟩

/-- Applying the changes of a world keeps sessions and entities matched. -/
theorem Matched.applyChanges {w : GameWorld} (hm : Matched capacity n w.stage) :
    Matched capacity n w.applyChanges.stage := by
  obtain ⟨t, hstore, hn, hp⟩ := hm
  exact ⟨t.apply, congrArg (fun s : Store GameComponent => s.apply.2) hstore, hn, hp.apply⟩

end Realm
