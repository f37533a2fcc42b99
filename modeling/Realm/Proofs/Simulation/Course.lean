import Realm.Proofs.Session.Lookup
import Realm.Proofs.Simulation.Deed

/-!
# The deeds of a system

Which deeds a system does can be told from the stage it starts on: the list is computed beside the
work, and on a stage with players the work is the same as doing the deeds one after the other. Each
of them fits the stage that the ones before it leave behind.
-/

namespace Realm

/-- Every deed fits the stage it is done on. -/
def Deed.Course : Stage GameComponent Lobby → List Deed → Prop
  | _, [] => True
  | stage, d :: ds => d.Fits stage ∧ Course (d.perform stage) ds

/-- The deeds of many entities, one entity after the other. -/
def Deed.inTurn (f : Handle → Stage GameComponent Lobby → List Deed) :
    List Handle → Stage GameComponent Lobby → List Deed
  | [], _ => []
  | h :: rest, stage => f h stage ++ inTurn f rest (Deed.performAll (f h stage) stage)

/-- The commands that are obeyed: at most `budget`, and none after the entity is gone. -/
def CommandSystem.obeyDeeds (entity : Handle) (client : ConnectionId) :
    (budget : Nat) → Stage GameComponent Lobby → List Deed
  | 0, _ => []
  | budget + 1, stage =>
    match (stage.shared.takeCommand client).1 with
    | none => []
    | some command =>
      let d : Deed := .obey entity client command
      d :: if (d.perform stage).store.isAlive entity then
        obeyDeeds entity client budget (d.perform stage) else []

def CommandSystem.serveDeeds (budget : Nat) (entity : Handle) (stage : Stage GameComponent Lobby) :
    List Deed :=
  if stage.store.isAlive entity then
    match stage.store.playerOf entity with
    | none => []
    | some client =>
      match stage.shared.session? client with
      | none => [.reap entity client]
      | some x =>
        if stage.shared.isFinished x then [.reap entity client]
        else obeyDeeds entity client budget stage
  else []

def MovementSystem.moveDeeds (step : Duration) (entity : Handle)
    (stage : Stage GameComponent Lobby) : List Deed :=
  if stage.store.isAlive entity then
    match (stage.store.get? entity .velocity).bind (·.velocity?) with
    | none => []
    | some velocity =>
      match (stage.store.get? entity .transform).bind (·.position?) with
      | some position => [.advance entity (advance (seconds step) velocity position)]
      | none => [.appear entity]
  else []

def DrainSystem.drainDeeds (entity : Handle) (stage : Stage GameComponent Lobby) : List Deed :=
  match stage.store.playerOf entity with
  | none => []
  | some client => [.drain entity client]

def GameSystem.deedsOf (rules : GameRules) :
    GameSystem → Handle → Stage GameComponent Lobby → List Deed
  | .commands => CommandSystem.serveDeeds rules.commandsPerTick
  | .movement => MovementSystem.moveDeeds rules.movementInterval
  | .drain => DrainSystem.drainDeeds

def GameSystem.deeds (rules : GameRules) (system : GameSystem) :
    List Handle → Stage GameComponent Lobby → List Deed := Deed.inTurn (system.deedsOf rules)

namespace Deed

variable {stage : Stage GameComponent Lobby} {ds ds' : List Deed} {w : GameWork Unit} {b : Bond}

theorem performAll_append (ds ds' : List Deed) (stage : Stage GameComponent Lobby) :
    performAll (ds ++ ds') stage = performAll ds' (performAll ds stage) := List.foldl_append

theorem Course.append (h : Course stage ds) (h' : Course (performAll ds stage) ds') :
    Course stage (ds ++ ds') := by
  induction ds generalizing stage with
  | nil => exact h'
  | cons d ds ih => exact ⟨h.1, ih h.2 h'⟩

theorem Course.ready (h : Course stage ds) (hr : Ready stage) : Ready (performAll ds stage) := by
  induction ds generalizing stage with
  | nil => exact hr
  | cons d ds ih => exact ih h.2 (h.1.done hr).ready

/-- A system stays up to date but for what is noted. -/
theorem Course.follows {σ P : Type} {y : System GameComponent σ P} (h : Course stage ds)
    (hr : Ready stage) (hy : y.Follows stage.store stage.store.changes.toList) :
    y.Follows (performAll ds stage).store (performAll ds stage).store.changes.toList := by
  induction ds generalizing stage with
  | nil => exact hy
  | cons d ds ih =>
      have hdone := h.1.done hr
      exact ih h.2 hdone.ready (hdone.touches.follows hy)

/-- Work comes to the same as the deeds, and they fit. -/
structure Realizes (w : GameWork Unit) (ds : List Deed) (stage : Stage GameComponent Lobby) :
    Prop where
  eq : w stage = .ok () (performAll ds stage)
  course : Course stage ds

namespace Realizes

theorem nothing (stage : Stage GameComponent Lobby) : Realizes (pure ()) [] stage := ⟨rfl, trivial⟩

theorem single {d : Deed} (hf : d.Fits stage) (hr : Ready stage) : Realizes d.work [d] stage :=
  ⟨(hf.done hr).eq, hf, trivial⟩

theorem bind {w' : GameWork Unit} (h : Realizes w ds stage)
    (h' : Realizes w' ds' (performAll ds stage)) :
    Realizes (w >>= fun _ => w') (ds ++ ds') stage := by
  refine ⟨?_, h.course.append h'.course⟩
  rw [Work.bind_of_ok h.eq, h'.eq, performAll_append]

theorem of_store {f : Store GameComponent → GameWork Unit} (h : Realizes (f stage.store) ds stage) :
    Realizes (Work.store >>= f) ds stage := ⟨h.eq, h.course⟩

theorem of_shared {f : Lobby → GameWork Unit} (h : Realizes (f stage.shared) ds stage) :
    Realizes (Work.shared >>= f) ds stage := ⟨h.eq, h.course⟩

theorem ite {p : Prop} [Decidable p] {w' : GameWork Unit} (ht : p → Realizes w ds stage)
    (hf : ¬ p → Realizes w' ds' stage) :
    Realizes (if p then w else w') (if p then ds else ds') stage := by
  by_cases hp : p
  · rw [if_pos hp, if_pos hp]
    exact ht hp
  · rw [if_neg hp, if_neg hp]
    exact hf hp

theorem forM {f : Handle → GameWork Unit} {g : Handle → Stage GameComponent Lobby → List Deed}
    (hfg : ∀ h stage, Ready stage → Realizes (f h) (g h stage) stage) (entities : List Handle)
    (hr : Ready stage) : Realizes (entities.forM f) (inTurn g entities stage) stage := by
  induction entities generalizing stage with
  | nil => exact .nothing stage
  | cons h rest ih =>
      have hfirst := hfg h stage hr
      exact hfirst.bind (ih (hfirst.course.ready hr))

end Realizes

end Deed

open Deed

variable {stage : Stage GameComponent Lobby} {b : Bond}

/-! ## The command system -/

namespace CommandSystem

theorem obey_succ (entity : Handle) (client : ConnectionId) (budget : Nat)
    (stage : Stage GameComponent Lobby) : obey entity client (budget + 1) stage =
      match (stage.shared.takeCommand client).1 with
      | none => .ok () { stage with shared := (stage.shared.takeCommand client).2 }
      | some command => ((Deed.obey entity client command).work >>= fun _ => do
          if (← Work.store).isAlive entity then obey entity client budget) stage := by
  have hread : obey entity client (budget + 1) stage =
      ((Work.modifyShared fun _ => (stage.shared.takeCommand client).2 : GameWork Unit) >>=
        fun _ => match (stage.shared.takeCommand client).1 with
          | none => pure ()
          | some command => do
              apply entity client command
              if (← Work.store).isAlive entity then obey entity client budget) stage := rfl
  rw [hread]
  cases (stage.shared.takeCommand client).1 <;> rfl

theorem realizes_obey (hr : Ready stage) (hb : b ∈ stage.shared.roll) (budget : Nat) :
    Realizes (obey b.entity b.connection budget)
      (obeyDeeds b.entity b.connection budget stage) stage := by
  induction budget generalizing stage with
  | zero => exact .nothing stage
  | succ budget ih =>
      unfold obeyDeeds
      cases htake : (stage.shared.takeCommand b.connection).1 with
      | none =>
          refine ⟨?_, trivial⟩
          rw [obey_succ, htake, stage.shared.takeCommand_eq_self b.connection hr.nodup htake]
          rfl
      | some command =>
          let d : Deed := .obey b.entity b.connection command
          have hfits : d.Fits stage := by
            obtain ⟨x, hx, rfl⟩ := hr.session_of_bond hb
            refine ⟨x, hx, rfl, ?_⟩
            rw [Lobby.takeCommand, hx] at htake
            exact htake
          obtain ⟨hdone, hkept⟩ := done_obey hr hb command
          have hrest : Realizes
              (do if (← Work.store).isAlive b.entity then obey b.entity b.connection budget)
              (if (d.perform stage).store.isAlive b.entity then
                obeyDeeds b.entity b.connection budget (d.perform stage) else [])
              (d.perform stage) :=
            .of_store (.ite (fun ha => ih hdone.ready (hkept ha)) fun _ => .nothing _)
          have hboth := (Realizes.single hfits hr).bind hrest
          refine ⟨?_, hboth.course⟩
          rw [obey_succ, htake]
          exact hboth.eq

theorem realizes_serve (budget : Nat) (entity : Handle) (hr : Ready stage) :
    Realizes (serve budget entity) (serveDeeds budget entity stage) stage := by
  refine .of_store (.ite (fun ha => ?_) fun _ => .nothing stage)
  cases hplayer : stage.store.playerOf entity with
  | none => exact .nothing stage
  | some client =>
      obtain ⟨b, hb, rfl, rfl⟩ := hr.exists_bond_of_player ha hplayer
      obtain ⟨x, hx, -⟩ := hr.session_of_bond hb
      have hreap : Realizes (reap b.entity b.connection) [.reap b.entity b.connection] stage :=
        .single (d := .reap b.entity b.connection) ⟨b, hb, rfl, rfl⟩ hr
      refine .of_shared ?_
      simp only [hx]
      exact .ite (fun _ => hreap) fun _ => realizes_obey hr hb budget

end CommandSystem

/-! ## The other systems -/

theorem MovementSystem.realizes_move (step : Duration) (entity : Handle) (hr : Ready stage) :
    Realizes (move step entity) (moveDeeds step entity stage) stage := by
  refine .of_store (.ite (fun ha => ?_) fun _ => .nothing stage)
  cases hvelocity : (stage.store.get? entity .velocity).bind (·.velocity?) with
  | none => exact .nothing stage
  | some velocity =>
      obtain ⟨component, hcomponent, -⟩ := Option.bind_eq_some_iff.mp hvelocity
      have hbond := hr.exists_bond ha hcomponent
      cases (stage.store.get? entity .transform).bind (·.position?) with
      | none => exact .single (d := .appear entity) hbond hr
      | some position =>
          exact .single (d := .advance entity (advance (seconds step) velocity position)) hbond hr

theorem DrainSystem.realizes_drain (entity : Handle) (hr : Ready stage) :
    Realizes (drain entity) (drainDeeds entity stage) stage := by
  refine .of_store ?_
  unfold drainDeeds
  cases stage.store.playerOf entity with
  | none => exact .nothing stage
  | some client => exact .single (d := .drain entity client) trivial hr

/-- A system does the deeds that the stage calls for. -/
theorem GameSystem.realizes_process (rules : GameRules) (system : GameSystem)
    (entities : List Handle) (delta : Duration) (hr : Ready stage) :
    Realizes (system.process rules entities delta) (system.deeds rules entities stage) stage := by
  cases system with
  | commands => exact .forM (fun h _ hr => CommandSystem.realizes_serve _ h hr) entities hr
  | movement => exact .forM (fun h _ hr => MovementSystem.realizes_move _ h hr) entities hr
  | drain => exact .forM (fun h _ hr => DrainSystem.realizes_drain h hr) entities hr

end Realm
