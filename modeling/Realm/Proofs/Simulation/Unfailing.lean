import Realm.Proofs.Simulation.Scene

/-!
# No tick fails

Main statement: whatever reached a new simulation before, and however long the next tick is, its
three systems are all reached, each of them ends without a failure, and no operation of theirs on
the store is refused. Nothing in a world catches a failure: one refused operation would end the work
of its system, and with it the tick. What keeps that away is that every deed is about a player who
is still there when the deed is done.
-/

namespace Realm

variable {C σ P : Type}

/-- The store after an operation, or why the operation is refused. -/
def Store.attempt [Component C] (s : Store C) : Edit C → Except WorldError (Store C)
  | .create cs => (s.create cs).map (·.2)
  | .destroy h => s.destroy h
  | .add h c => (s.add h c).map (·.2)
  | .remove h k => (s.remove h k).map (·.2)
  | .modify h k f => .ok (s.modify h k f)

namespace Work

/-- An operation on the store, of which only the success matters. -/
def attempt [Component C] (e : Edit C) : Work C σ Unit := fun stage =>
  match stage.store.attempt e with
  | .ok store => .ok () { stage with store }
  | .error why => .error why stage

theorem discard_add [Component C] (h : Handle) (c : C) :
    (discard (Work.add h c) : Work C σ Unit) = attempt (.add h c) := by
  funext stage
  show EStateM.map _ (onStore _) stage = _
  simp only [EStateM.map, onStore, attempt, Store.attempt]
  cases stage.store.add h c <;> rfl

theorem discard_remove [Component C] (h : Handle) (k : Kind) :
    (discard (Work.remove h k) : Work C σ Unit) = attempt (.remove h k) := by
  funext stage
  show EStateM.map _ (onStore _) stage = _
  simp only [EStateM.map, onStore, attempt, Store.attempt]
  cases stage.store.remove h k <;> rfl

theorem destroy_eq [Component C] (h : Handle) :
    (Work.destroy h : Work C σ Unit) = attempt (.destroy h) := by
  funext stage
  simp only [Work.destroy, onStore, attempt, Store.attempt]
  cases stage.store.destroy h <;> rfl

theorem modifyShared_id (w : Work C σ Unit) : (do w; modifyShared id) = w := by
  funext stage
  show EStateM.bind w _ stage = _
  unfold EStateM.bind
  cases w stage <;> rfl

end Work

/-! ## The operation of a deed -/

namespace Deed

/-- The operation on the store that a deed takes, if it takes one. -/
def edit? : Deed → Option (Edit GameComponent)
  | .reap h _ | .obey h _ .logout => some (.destroy h)
  | .obey h _ (.move dx dy) =>
    if dx.isZero && dy.isZero then some (.remove h .velocity)
    else some (.add h (.velocity ⟨dx, dy⟩))
  | .advance h p => some (.modify h .transform fun _ => .transform p)
  | .appear h => some (.add h (.transform .origin))
  | .obey _ _ _ | .drain _ _ => none

/-- What a deed does apart from its operation it does to the lobby, where nothing fails. -/
theorem work_eq (d : Deed) : ∃ first last : Lobby → Lobby, d.work = (do
    Work.modifyShared first
    d.edit?.forM Work.attempt
    Work.modifyShared last) := by
  have hlast : ∀ (first : Lobby → Lobby) (w : GameWork Unit),
      (do Work.modifyShared first; w) = (do Work.modifyShared first; w; Work.modifyShared id) :=
    fun first w => by rw [Work.modifyShared_id]
  cases d with
  | reap h c =>
      refine ⟨(·.endSession c), id, ?_⟩
      rw [work, CommandSystem.reap, Work.destroy_eq]
      exact hlast _ _
  | obey h c command =>
      cases command with
      | login username password => exact ⟨fun l => (l.takeCommand c).2, id, rfl⟩
      | move dx dy =>
          refine ⟨fun l => (l.takeCommand c).2, id, ?_⟩
          simp only [work, CommandSystem.apply, edit?]
          split
          · rw [Work.discard_remove]
            exact hlast _ _
          · rw [Work.discard_add]
            exact hlast _ _
      | chat text =>
          exact ⟨fun l => (l.takeCommand c).2, (·.broadcast (.chatRelay h text)), rfl⟩
      | ping nonce =>
          exact ⟨fun l => (l.takeCommand c).2, fun l => (l.queueEvent c (.pong nonce)).2, rfl⟩
      | logout =>
          refine ⟨fun l => (l.takeCommand c).2.endSession c, id, ?_⟩
          simp only [work, CommandSystem.apply, CommandSystem.reap, Work.destroy_eq]
          exact hlast _ _
  | advance h p => exact ⟨id, (·.broadcast (.entityMoved h p.x p.y)), rfl⟩
  | appear h =>
      refine ⟨id, (·.broadcast (.entityMoved h .zero .zero)), ?_⟩
      rw [work, Work.discard_add]
      rfl
  | drain h c => exact ⟨(·.drainEvents c), id, rfl⟩

/-- A deed that is done has its operation accepted. -/
theorem Done.attempt_eq {d : Deed} {stage : Stage GameComponent Lobby} {e : Edit GameComponent}
    (hd : d.Done stage) (he : d.edit? = some e) :
    stage.store.attempt e = .ok (d.perform stage).store := by
  obtain ⟨first, last, hwork⟩ := d.work_eq
  let entered : Stage GameComponent Lobby := ⟨stage.store, first stage.shared⟩
  have hok : ((Work.attempt e : GameWork Unit) >>= fun _ => Work.modifyShared last) entered =
      .ok () (d.perform stage) := by
    rw [← hd.eq, hwork, he]
    rfl
  cases hs : stage.store.attempt e with
  | ok s =>
      have hrun : (Work.attempt e : GameWork Unit) entered =
          .ok () { entered with store := s } := by
        rw [Work.attempt, hs]
      rw [Work.bind_of_ok hrun] at hok
      rw [← (EStateM.Result.ok.inj hok).2]
  | error why =>
      have hrun : (Work.attempt e : GameWork Unit) entered = .error why entered := by
        rw [Work.attempt, hs]
      have hbind : EStateM.bind (Work.attempt e : GameWork Unit) _ entered = _ := hok
      rw [EStateM.bind, hrun] at hbind
      cases hbind

end Deed

/-! ## The systems of a tick -/

/-- If systems run without a failure, each of them is reached and ends without one. -/
theorem World.exists_run_of_ok [Policy P] {delta : Duration} {stage : Stage C σ}
    {before after : List (SystemId × System C σ P)} {id : SystemId} {y : System C σ P}
    (h : (runSystems delta stage (before ++ (id, y) :: after)).1 = .ok ()) :
    ∃ fired, (y.run delta (runSystems delta stage before).2.2).1 = .ok fired := by
  induction before generalizing stage with
  | nil =>
      cases hrun : y.run delta stage with
      | mk result rest =>
          cases result with
          | ok fired => exact ⟨fired, by rw [runSystems, hrun]⟩
          | error why =>
              simp only [List.nil_append, runSystems, hrun] at h
              cases h
  | cons first before ih =>
      obtain ⟨id', z⟩ := first
      cases hrun : z.run delta stage with
      | mk result rest =>
          obtain ⟨z', stage'⟩ := rest
          cases result with
          | ok fired =>
              simp only [List.cons_append, runSystems, hrun] at h ⊢
              exact ih h
          | error why =>
              simp only [List.cons_append, runSystems, hrun] at h
              cases h

namespace Simulation

variable {rules : GameRules} {s : Simulation} {delta : Duration}

structure Unfailing (rules : GameRules) (s : Simulation) (delta : Duration) : Prop where
  ok : (s.world.update delta).1 = .ok ()
  /-- The systems of the tick are those of the game, in order. -/
  lineup : s.world.applyChanges.systems.map (·.2.process) =
    GameSystem.lineup.map (GameSystem.process rules)
  /-- Each system is reached, on the stage that the ones before it leave, and does not fail. -/
  reached : ∀ before id y after, s.world.applyChanges.systems = before ++ (id, y) :: after →
    ∃ fired, (y.run delta (World.runSystems delta s.world.applyChanges.stage before).2.2).1 =
      .ok fired
  /-- What the systems do together is the deeds of the tick, one after the other. -/
  stage_eq : (s.world.update delta).2.stage =
    Deed.performAll (s.deeds rules delta) s.world.applyChanges.stage
  /-- Every deed does its operation on the store as it finds it, and the store accepts it. -/
  accepted : ∀ p ∈ s.scenesOf rules (.tick delta), p.deed.work p.stage = .ok () p.after ∧
    ∀ e, p.deed.edit? = some e → p.stage.store.attempt e = .ok p.after.store

theorem Regular.unfailing (h : s.Regular rules) (delta : Duration) : s.Unfailing rules delta := by
  have ht := h.ticks delta
  have hok : (s.world.update delta).1 = .ok () := ht.ok
  refine ⟨hok, ?_, ?_, ht.stage_eq, ?_⟩
  · have hduty := congrArg (List.map Prod.fst) h.equipped_applyChanges
    rw [List.map_map, List.map_map] at hduty
    exact hduty
  · intro before id y after hsystems
    have hall : (World.runSystems delta s.world.applyChanges.stage
        (before ++ (id, y) :: after)).1 = .ok () := hsystems ▸ hok
    exact World.exists_run_of_ok hall
  · intro p hp
    have hdone := (h.proper_of_scenesOf hp).done
    exact ⟨hdone.eq, fun e he => hdone.attempt_eq he⟩

/-- Whatever reached a simulation, nothing fails in its next tick. -/
theorem unfailing_of_run (setup : SimulationSetup) (events : List SimulationEvent)
    (delta : Duration) : ((Simulation.new setup .empty).run events).Unfailing setup.rules delta :=
  ((regular_new setup).run events).unfailing delta

end Simulation

end Realm
