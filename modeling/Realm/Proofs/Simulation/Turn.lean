import Realm.Proofs.Simulation.Footing

/-!
# The turn of a player

A system serves one entity after the other. Which deeds it does for a player is told by the footing
of the player when its turn comes, and the turns of all others leave the footing alone. So on two
stages on which a player has the same footing, a tick leaves it the same footing, whatever else
there is on the stages.
-/

namespace Realm

open Deed

variable {rules : GameRules} {stage stage' : Stage GameComponent Lobby} {b : Bond} {h : Handle}
  {budget : Nat} {system : GameSystem} {entities entities' : List Handle}

/-! ## Whom deeds concern -/

theorem CommandSystem.entity_of_mem_obeyDeeds {client : ConnectionId} {d : Deed}
    (hd : d ∈ obeyDeeds h client budget stage) : d.entity = h := by
  induction budget generalizing stage with
  | zero => cases hd
  | succ budget ih =>
      unfold obeyDeeds at hd
      split at hd
      · cases hd
      · rcases List.mem_cons.mp hd with rfl | hd
        · rfl
        · split at hd
          · exact ih hd
          · cases hd

theorem CommandSystem.entity_of_mem_serveDeeds {d : Deed} (hd : d ∈ serveDeeds budget h stage) :
    d.entity = h := by
  have hreaped : ∀ {client : ConnectionId}, d ∈ [Deed.reap h client] → d.entity = h :=
    fun hm => List.mem_singleton.mp hm ▸ rfl
  unfold serveDeeds at hd
  split at hd
  · split at hd
    · cases hd
    · split at hd
      · exact hreaped hd
      · split at hd
        · exact hreaped hd
        · exact entity_of_mem_obeyDeeds hd
  · cases hd

theorem MovementSystem.entity_of_mem_moveDeeds {step : Duration} {d : Deed}
    (hd : d ∈ moveDeeds step h stage) : d.entity = h := by
  unfold moveDeeds at hd
  split at hd
  · split at hd
    · cases hd
    · split at hd <;> exact List.mem_singleton.mp hd ▸ rfl
  · cases hd

theorem DrainSystem.entity_of_mem_drainDeeds {d : Deed} (hd : d ∈ drainDeeds h stage) :
    d.entity = h := by
  unfold drainDeeds at hd
  split at hd
  · cases hd
  · exact List.mem_singleton.mp hd ▸ rfl

theorem GameSystem.entity_of_mem {d : Deed} (hd : d ∈ system.deedsOf rules h stage) :
    d.entity = h := by
  cases system with
  | commands => exact CommandSystem.entity_of_mem_serveDeeds hd
  | movement => exact MovementSystem.entity_of_mem_moveDeeds hd
  | drain => exact DrainSystem.entity_of_mem_drainDeeds hd

theorem GameSystem.entity_mem_of_deeds {d : Deed} (hd : d ∈ system.deeds rules entities stage) :
    d.entity ∈ entities := by
  induction entities generalizing stage with
  | nil => cases hd
  | cons h rest ih =>
      rcases List.mem_append.mp hd with hd | hd
      · exact List.mem_cons.mpr (.inl (GameSystem.entity_of_mem hd))
      · exact List.mem_cons_of_mem h (ih hd)

theorem GameSystem.course_deeds (rules : GameRules) (system : GameSystem) (hr : Ready stage)
    (entities : List Handle) : Course stage (system.deeds rules entities stage) :=
  (system.realizes_process rules entities .zero hr).course

theorem GameSystem.course_deedsOf (rules : GameRules) (system : GameSystem) (hr : Ready stage)
    (h : Handle) : Course stage (system.deedsOf rules h stage) := by
  have hcourse := system.course_deeds rules hr [h]
  have hone : system.deeds rules [h] stage = system.deedsOf rules h stage ++ [] := rfl
  rw [hone, List.append_nil] at hcourse
  exact hcourse

theorem Deed.inTurn_append (f : Handle → Stage GameComponent Lobby → List Deed)
    (entities rest : List Handle) (stage : Stage GameComponent Lobby) :
    inTurn f (entities ++ rest) stage =
      inTurn f entities stage ++ inTurn f rest (performAll (inTurn f entities stage) stage) := by
  induction entities generalizing stage with
  | nil => rfl
  | cons h entities ih =>
      rw [List.cons_append, inTurn, ih, inTurn, performAll_append, List.append_assoc]

/-! ## The own turn -/

theorem Lobby.takeCommand_fst (l : Lobby) (c : ConnectionId) : (l.takeCommand c).1 =
    (l.attendance c).bind fun a => if a.2.1 then none else a.1.pop.1 := by
  unfold takeCommand attendance
  cases l.session? c with
  | none => rfl
  | some x =>
      show x.dequeueCommand.1 = if x.terminated then none else x.commands.pop.1
      unfold Session.dequeueCommand
      split <;> rfl

theorem CommandSystem.obeyDeeds_congr (hr : Ready stage) (hr' : Ready stage')
    (hb : b ∈ stage.shared.roll) (hb' : b ∈ stage'.shared.roll)
    (hs : b.footing stage' = b.footing stage) (budget : Nat) :
    obeyDeeds b.entity b.connection budget stage' = obeyDeeds b.entity b.connection budget stage := by
  induction budget generalizing stage stage' with
  | zero => rfl
  | succ budget ih =>
      have htake : (stage'.shared.takeCommand b.connection).1 =
          (stage.shared.takeCommand b.connection).1 := by
        rw [Lobby.takeCommand_fst, Lobby.takeCommand_fst, Bond.attendance_eq hs]
      unfold obeyDeeds
      rw [htake]
      cases (stage.shared.takeCommand b.connection).1 with
      | none => rfl
      | some command =>
          obtain ⟨hd, hkept⟩ := done_obey hr hb command
          obtain ⟨hd', hkept'⟩ := done_obey hr' hb' command
          have hafter := hd.footing_congr hd' hs
          have halive := Store.isAlive_congr (Bond.slot_eq hafter)
          dsimp only
          rw [halive]
          by_cases ha : ((Deed.obey b.entity b.connection command).perform stage).store.isAlive
              b.entity = true
          · rw [if_pos ha, if_pos ha,
              ih hd.ready hd'.ready (hkept ha) (hkept' (halive.trans ha)) hafter]
          · rw [if_neg ha, if_neg ha]

theorem Bond.Alone.mem_of_player (ha : b.Alone stage) (hr : Ready stage)
    (halive : stage.store.isAlive b.entity = true) {client : ConnectionId}
    (hplayer : stage.store.playerOf b.entity = some client) :
    b ∈ stage.shared.roll ∧ client = b.connection := by
  obtain ⟨b', hb', he, hc⟩ := hr.exists_bond_of_player halive hplayer
  obtain rfl := ha.eq_of_entity hb' he
  exact ⟨hb', hc.symm⟩

theorem CommandSystem.serveDeeds_congr (budget : Nat) (hr : Ready stage) (hr' : Ready stage')
    (ha : b.Alone stage) (ha' : b.Alone stage') (hs : b.footing stage' = b.footing stage) :
    serveDeeds budget b.entity stage' = serveDeeds budget b.entity stage := by
  have halive := Store.isAlive_congr (Bond.slot_eq hs)
  have hplayer := Store.playerOf_congr (Bond.slot_eq hs)
  unfold serveDeeds
  rw [halive, hplayer]
  by_cases hlives : stage.store.isAlive b.entity = true
  · rw [if_pos hlives, if_pos hlives]
    cases hp : stage.store.playerOf b.entity with
    | none => rfl
    | some client =>
        obtain ⟨hb, rfl⟩ := ha.mem_of_player hr hlives hp
        obtain ⟨hb', -⟩ := ha'.mem_of_player hr' (halive.trans hlives) (hplayer.trans hp)
        obtain ⟨x, hx, hxb⟩ := hr.session_of_bond hb
        obtain ⟨x', hx', hxb'⟩ := hr'.session_of_bond hb'
        have hattendance := Bond.attendance_eq hs
        unfold Lobby.attendance at hattendance
        rw [hx, hx'] at hattendance
        have hsame := Option.some.inj hattendance
        rw [Prod.mk.injEq, Prod.mk.injEq] at hsame
        obtain ⟨-, hterminated, hclosed⟩ := hsame
        have hfinished : stage'.shared.isFinished x' = stage.shared.isFinished x := by
          have hc : x.connection = b.connection := congrArg Bond.connection hxb
          have hc' : x'.connection = b.connection := congrArg Bond.connection hxb'
          unfold Lobby.isFinished Session.isFinished
          rw [hc, hc', hterminated, hclosed]
        simp only [hx, hx', hfinished, obeyDeeds_congr hr hr' hb hb' hs budget]
  · rw [if_neg hlives, if_neg hlives]

theorem MovementSystem.moveDeeds_congr (step : Duration) (hs : b.footing stage' = b.footing stage) :
    moveDeeds step b.entity stage' = moveDeeds step b.entity stage := by
  have hcomponent := Store.get?_congr (Bond.slot_eq hs)
  unfold moveDeeds
  rw [Store.isAlive_congr (Bond.slot_eq hs), hcomponent, hcomponent]

theorem DrainSystem.drainDeeds_congr (hs : b.footing stage' = b.footing stage) :
    drainDeeds b.entity stage' = drainDeeds b.entity stage := by
  unfold drainDeeds
  rw [Store.playerOf_congr (Bond.slot_eq hs)]

/-- The footing of a player tells the deeds of its turn. -/
theorem GameSystem.deedsOf_congr (rules : GameRules) (system : GameSystem) (hr : Ready stage)
    (hr' : Ready stage') (ha : b.Alone stage) (ha' : b.Alone stage')
    (hs : b.footing stage' = b.footing stage) :
    system.deedsOf rules b.entity stage' = system.deedsOf rules b.entity stage := by
  cases system with
  | commands => exact CommandSystem.serveDeeds_congr rules.commandsPerTick hr hr' ha ha' hs
  | movement => exact MovementSystem.moveDeeds_congr rules.movementInterval hs
  | drain => exact DrainSystem.drainDeeds_congr hs

/-! ## A pass -/

/-- A pass that leaves a player out leaves it its footing. -/
theorem GameSystem.footing_deeds_of_not_mem (hr : Ready stage) (ha : b.Alone stage)
    (hm : b.entity ∉ entities) :
    b.footing (performAll (system.deeds rules entities stage) stage) = b.footing stage :=
  (system.course_deeds rules hr entities).footing_eq_of_ne hr ha
    fun _ hd heq => hm (heq ▸ GameSystem.entity_mem_of_deeds hd)

/-- The turn of a player in a pass of a system: the player comes to it with the footing it had before,
and what the system does before and after it is about others. -/
structure GameSystem.HasTurn (rules : GameRules) (system : GameSystem) (entities : List Handle)
    (b : Bond) (stage mid : Stage GameComponent Lobby) (before after : List Deed) : Prop where
  split : system.deeds rules entities stage =
    before ++ (system.deedsOf rules b.entity mid ++ after)
  mid_eq : performAll before stage = mid
  ready : Ready mid
  alone : b.Alone mid
  footing_eq : b.footing mid = b.footing stage
  course_before : Course stage before
  before_ne : ∀ d ∈ before, d.entity ≠ b.entity
  course_after : Course (performAll (system.deedsOf rules b.entity mid) mid) after
  after_ne : ∀ d ∈ after, d.entity ≠ b.entity

/-- In a pass a player has one turn. -/
theorem GameSystem.exists_turn (rules : GameRules) (system : GameSystem) (hr : Ready stage)
    (ha : b.Alone stage) (hn : entities.Nodup) (hm : b.entity ∈ entities) :
    ∃ mid before after, system.HasTurn rules entities b stage mid before after := by
  -- The pass is what comes before the turn, the turn, and what comes after it.
  obtain ⟨first, last, rfl⟩ := List.append_of_mem hm
  have hapart := List.nodup_append.mp hn
  have hfirst : b.entity ∉ first :=
    fun hmem => hapart.2.2 b.entity hmem b.entity List.mem_cons_self rfl
  have hlast : b.entity ∉ last := (List.nodup_cons.mp hapart.2.1).1
  have hbefore := system.course_deeds rules hr first
  let mid := performAll (system.deeds rules first stage) stage
  have hmid : Ready mid := hbefore.ready hr
  have hown := system.course_deedsOf rules hmid b.entity
  exact ⟨mid, system.deeds rules first stage,
    system.deeds rules last (performAll (system.deedsOf rules b.entity mid) mid),
    { split := inTurn_append _ first (b.entity :: last) stage
      mid_eq := rfl
      ready := hmid
      alone := ha.mono (hbefore.roll_subset hr)
      footing_eq := footing_deeds_of_not_mem hr ha hfirst
      course_before := hbefore
      before_ne := fun _ hd heq => hfirst (heq ▸ GameSystem.entity_mem_of_deeds hd)
      course_after := system.course_deeds rules (hown.ready hmid) last
      after_ne := fun _ hd heq => hlast (heq ▸ GameSystem.entity_mem_of_deeds hd) }⟩

/-- In a pass a player has one turn, and comes to it with the footing it had before. -/
theorem GameSystem.footing_deeds_of_mem (rules : GameRules) (system : GameSystem)
    (hr : Ready stage) (ha : b.Alone stage) (hn : entities.Nodup) (hm : b.entity ∈ entities) :
    ∃ mid, Ready mid ∧ b.Alone mid ∧ b.footing mid = b.footing stage ∧
      b.footing (performAll (system.deeds rules entities stage) stage) =
        b.footing (performAll (system.deedsOf rules b.entity mid) mid) := by
  obtain ⟨mid, before, after, ht⟩ := system.exists_turn rules hr ha hn hm
  have hown := system.course_deedsOf rules ht.ready b.entity
  refine ⟨mid, ht.ready, ht.alone, ht.footing_eq, ?_⟩
  rw [ht.split, performAll_append, performAll_append, ht.mid_eq]
  exact ht.course_after.footing_eq_of_ne (hown.ready ht.ready)
    (ht.alone.mono (hown.roll_subset ht.ready)) ht.after_ne

/-- A pass of a system keeps two stages alike for a player, if both passes have a turn for it or
neither has. -/
theorem GameSystem.footing_deeds_congr (rules : GameRules) (system : GameSystem) (hr : Ready stage)
    (hr' : Ready stage') (ha : b.Alone stage) (ha' : b.Alone stage') (hn : entities.Nodup)
    (hn' : entities'.Nodup) (hm : b.entity ∈ entities' ↔ b.entity ∈ entities)
    (hs : b.footing stage' = b.footing stage) :
    b.footing (performAll (system.deeds rules entities' stage') stage') =
      b.footing (performAll (system.deeds rules entities stage) stage) := by
  by_cases hmem : b.entity ∈ entities
  · obtain ⟨mid, hmid, hamid, hsmid, hpass⟩ :=
      system.footing_deeds_of_mem rules hr ha hn hmem
    obtain ⟨mid', hmid', hamid', hsmid', hpass'⟩ :=
      system.footing_deeds_of_mem rules hr' ha' hn' (hm.mpr hmem)
    have hsame : b.footing mid' = b.footing mid := hsmid'.trans (hs.trans hsmid.symm)
    have hdeeds := system.deedsOf_congr rules hmid hmid' hamid hamid' hsame
    have hown := system.course_deedsOf rules hmid b.entity
    have hown' := system.course_deedsOf rules hmid' b.entity
    rw [hpass, hpass', hdeeds]
    rw [hdeeds] at hown'
    exact hown.footing_congr hown' hmid hmid' hsame
  · rw [footing_deeds_of_not_mem hr ha hmem,
      footing_deeds_of_not_mem hr' ha' fun h => hmem (hm.mp h), hs]

end Realm
