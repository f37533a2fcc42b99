import Realm.Proofs.Simulation.Run
import Realm.Proofs.World.Keep
import Realm.Simulation.Loop

/-!
# Who is enrolled

A bond gets on the roll when mail about an authenticated client is handled, and in no other way.
Whatever else reaches the simulation, a tick that fails included, at most takes bonds off.
-/

namespace Realm

variable {P : Bond → Prop}

namespace Lobby

/-- Every bond on the roll is of some kind. -/
def Enrols (P : Bond → Prop) (l : Lobby) : Prop := ∀ b ∈ l.roll, P b

variable {l l' : Lobby}

theorem Enrols.of_eq (hl : l.Enrols P) (h : l'.roll = l.roll) : l'.Enrols P := by
  intro b hb
  rw [h] at hb
  exact hl b hb

theorem Enrols.endSession (hl : l.Enrols P) (id : ConnectionId) : (l.endSession id).Enrols P := by
  intro b hb
  rw [roll_endSession] at hb
  exact hl b (List.mem_filter.mp hb).1

/-- The session that is put back has the bond of the one that was drained. -/
theorem Enrols.drainEvents (hl : l.Enrols P) (id : ConnectionId) :
    (l.drainEvents id).Enrols P := by
  unfold Lobby.drainEvents
  split
  · next s c hs _ =>
      have hbond := s.bond_drainEvents c
      cases hdrain : s.drainEvents c with
      | mk drained c' =>
          rw [hdrain] at hbond
          intro b hb
          obtain ⟨y, hy, rfl⟩ := List.mem_map.mp hb
          obtain ⟨x, hx, rfl⟩ := List.mem_map.mp hy
          split
          · exact hbond ▸ hl s.bond (Sessions.mem_roll_of_get? hs)
          · exact hl x.bond (List.mem_map_of_mem hx)
  · exact hl

end Lobby

open Work

/-- Work on the lobby that leaves the roll alone. -/
theorem keeps_roll {f : Lobby → Lobby} (hf : ∀ l, (f l).roll = l.roll) :
    Keeps (Lobby.Enrols P) (Work.modifyShared f : GameWork Unit) :=
  keeps_modifyShared fun l hl => hl.of_eq (hf l)

/-! ## The systems of the game -/

namespace CommandSystem

theorem keeps_reap (entity : Handle) (connection : ConnectionId) :
    Keeps (Lobby.Enrols P) (reap entity connection) :=
  (keeps_modifyShared fun _ hl => hl.endSession connection).bind fun _ => keeps_onStore _

theorem keeps_apply (entity : Handle) (connection : ConnectionId) (command : Command) :
    Keeps (Lobby.Enrols P) (apply entity connection command) := by
  cases command with
  | move dx dy => exact keeps_ite (keeps_onStore _).discard (keeps_onStore _).discard
  | chat text => exact keeps_roll fun l => l.roll_broadcast _
  | ping nonce => exact keeps_roll fun l => l.roll_queueEvent _ _
  | logout => exact keeps_reap entity connection
  | login _ _ => exact keeps_pure ()

theorem keeps_obey (entity : Handle) (connection : ConnectionId) (budget : Nat) :
    Keeps (Lobby.Enrols P) (obey entity connection budget) := by
  induction budget with
  | zero => exact keeps_pure ()
  | succ budget ih =>
      refine keeps_shared_bind fun l hl => ?_
      have htaken : (l.takeCommand connection).2.Enrols P :=
        hl.of_eq (l.roll_takeCommand connection)
      cases htake : l.takeCommand connection with
      | mk command lobby =>
          rw [htake] at htaken
          refine (keeps_modifyShared fun _ _ => htaken).bind fun _ => ?_
          cases command with
          | none => exact keeps_pure ()
          | some command =>
              refine (keeps_apply entity connection command).bind fun _ => ?_
              exact keeps_store_bind fun s => keeps_ite ih (keeps_pure ())

theorem keeps_serve (budget : Nat) (entity : Handle) :
    Keeps (Lobby.Enrols P) (serve budget entity) := by
  refine keeps_store_bind fun s => keeps_ite ?_ (keeps_pure ())
  cases s.playerOf entity with
  | none => exact keeps_pure ()
  | some connection =>
      refine keeps_shared_bind fun l _ => ?_
      cases l.session? connection with
      | none => exact keeps_reap entity connection
      | some session =>
          exact keeps_ite (keeps_reap entity connection) (keeps_obey entity connection budget)

end CommandSystem

theorem MovementSystem.keeps_move (step : Duration) (entity : Handle) :
    Keeps (Lobby.Enrols P) (move step entity) := by
  have hbroadcast : ∀ event, Keeps (Lobby.Enrols P)
      (Work.modifyShared (·.broadcast event) : GameWork Unit) :=
    fun event => keeps_roll fun l => l.roll_broadcast event
  refine keeps_store_bind fun s => keeps_ite ?_ (keeps_pure ())
  cases (s.get? entity .velocity).bind (·.velocity?) with
  | none => exact keeps_pure ()
  | some velocity =>
      cases (s.get? entity .transform).bind (·.position?) with
      | some position => exact (keeps_modifyStore _).bind fun _ => hbroadcast _
      | none => exact (keeps_onStore _).discard.bind fun _ => hbroadcast _

theorem DrainSystem.keeps_drain (entity : Handle) :
    Keeps (Lobby.Enrols P) (drain entity) := by
  refine keeps_store_bind fun s => ?_
  cases s.playerOf entity with
  | none => exact keeps_pure ()
  | some connection => exact keeps_modifyShared fun _ hl => hl.drainEvents connection

theorem GameSystem.keeps_process (rules : GameRules) (system : GameSystem)
    (entities : List Handle) (delta : Duration) :
    Keeps (Lobby.Enrols P) (system.process rules entities delta) := by
  cases system with
  | commands => exact keeps_forM (CommandSystem.keeps_serve _) entities
  | movement => exact keeps_forM (MovementSystem.keeps_move _) entities
  | drain => exact keeps_forM DrainSystem.keeps_drain entities

/-! ## The simulation -/

namespace Simulation

/-- Every bond is of some kind, and the systems are those of the game. -/
structure Enrolled (P : Bond → Prop) (s : Simulation) : Prop where
  enrols : s.lobby.Enrols P
  does : s.world.Does IsGameWork

variable {s : Simulation}

theorem enrolled_new (setup : SimulationSetup) : (Simulation.new setup .empty).Enrolled P := by
  refine ⟨?_, (orderly_new setup).does⟩
  intro b hb
  cases hb

theorem Enrolled.imp {Q : Bond → Prop} (hs : s.Enrolled P) (h : ∀ b, P b → Q b) : s.Enrolled Q :=
  ⟨fun b hb => h b (hs.enrols b hb), hs.does⟩

theorem Enrolled.modifyLobby (hs : s.Enrolled P) {f : Lobby → Lobby}
    (hf : (f s.lobby).Enrols P) : (s.modifyLobby f).Enrolled P := ⟨hf, hs.does⟩

theorem Enrolled.tick (hs : s.Enrolled P) (delta : Duration) : (s.tick delta).2.Enrolled P := by
  have hkeeps : s.world.Does fun process => ∀ entities delta,
      Keeps (Lobby.Enrols P) (process entities delta) := by
    refine ⟨?_, ?_⟩
    · intro entry hm
      obtain ⟨rules, system, heq⟩ := hs.does.1 entry hm
      rw [heq]
      exact system.keeps_process rules
    · intro entry hm
      obtain ⟨rules, system, heq⟩ := hs.does.2 entry hm
      rw [heq]
      exact system.keeps_process rules
  exact ⟨World.keeps_update hkeeps delta hs.enrols, World.does_update hs.does delta⟩

/-- Mail may enrol the client it is about. -/
theorem Enrolled.join (hs : s.Enrolled P) {client : ConnectionId} {account : Account}
    (hclient : ∀ entity, P ⟨client, account.id, entity⟩) : (s.join client account).Enrolled P := by
  unfold Simulation.join
  split
  · exact hs
  · exact hs
  · next hsession =>
      split
      · exact hs.modifyLobby hs.enrols
      · exact hs.modifyLobby hs.enrols
      · next entity store _ =>
          refine ⟨?_, hs.does⟩
          intro b hb
          have hperm : (s.lobby.sessions.put
              (Session.fresh client account.id entity s.limits)).2.roll.Perm
              (⟨client, account.id, entity⟩ :: s.lobby.roll) := Sessions.perm_roll_put hsession
          rcases List.mem_cons.mp (hperm.mem_iff.mp hb) with rfl | hb
          · exact hclient entity
          · exact hs.enrols b hb

theorem Enrolled.handle (hs : s.Enrolled P) {client : ConnectionId} {payload : Inbound}
    (hmail : ∀ account, payload = .authenticated account →
      ∀ entity, P ⟨client, account.id, entity⟩) : (s.handle client payload).Enrolled P := by
  cases payload with
  | authenticated account => exact hs.join (hmail account rfl)
  | command command =>
      have hqueued : (s.lobby.queueCommand client command).2.Enrols P :=
        hs.enrols.of_eq (s.lobby.roll_queueCommand client command)
      exact ⟨hqueued, hs.does⟩

theorem Enrolled.finish (hs : s.Enrolled P) : s.finish.Enrolled P := by
  unfold Simulation.finish
  generalize s.lobby.sessions.sessions = sessions
  induction sessions generalizing s with
  | nil => exact hs
  | cons session rest ih =>
      have hended : (s.modifyLobby (·.endSession session.connection)).Enrolled P :=
        hs.modifyLobby (hs.enrols.endSession session.connection)
      rw [List.foldl_cons]
      refine ih ?_
      dsimp only
      split
      · exact ⟨hended.enrols, hended.does⟩
      · exact hended

end Simulation

/-! ## The loop -/

/-- What reaches the loop is of some kind, if it is mail. -/
def LoopEvent.Tells (P : Bond → Prop) : LoopEvent → Prop
  | .mail m => ∀ account, m.payload = .authenticated account →
      ∀ entity, P ⟨m.client, account.id, entity⟩
  | _ => True

theorem SimulationLoop.enrolled_step {l : SimulationLoop} (hl : l.simulation.Enrolled P)
    (event : LoopEvent) (he : event.Tells P) : (l.step event).simulation.Enrolled P := by
  unfold SimulationLoop.step
  split
  · exact hl
  · cases event with
    | tick now => exact hl.tick _
    | mail m =>
        dsimp only
        split
        · exact hl.handle he
        · exact hl
    | mailboxEnded => exact hl
    | ticksEnded => exact hl.finish

end Realm
