import Realm.Proofs.Simulation.Drainage
import Realm.Proofs.Simulation.Phases

/-!
# The drain pass

Main statement: whatever reached a new simulation before, a tick drains every player that is there
when it ends exactly once, behind everything else that the tick does, and what the writer gets and
what goes on waiting is exactly what the room in its queue says. Over a run an event of a player
that stays is written, or it is the one refused at a tick, or it still waits, all in the order in
which the events came.
-/

namespace Realm

open Deed

variable {rules : GameRules} {stage : Stage GameComponent Lobby} {d : Deed} {ds : List Deed}
  {b : Bond} {c : ConnectionId} {p : Scene} {entities : List Handle} {delta : Duration}

namespace Deed

/-! ## Deeds that drain -/

theorem scenes_append (ds later : List Deed) (stage : Stage GameComponent Lobby) :
    scenes stage (ds ++ later) = scenes stage ds ++ scenes (performAll ds stage) later := by
  induction ds generalizing stage with
  | nil => rfl
  | cons d ds ih =>
      rw [List.cons_append, scenes, ih]
      rfl

theorem doer_of_drains (hd : d.drains c = true) : d.doer = .drain := by
  obtain ⟨h, rfl⟩ := exists_of_drains hd
  rfl

/-- The drain system has one deed for every entity that is a player, whether it lives or not. -/
theorem drain_deeds_eq (rules : GameRules) (entities : List Handle)
    (stage : Stage GameComponent Lobby) : GameSystem.drain.deeds rules entities stage =
      entities.filterMap fun h => (stage.store.playerOf h).map (.drain h) := by
  induction entities generalizing stage with
  | nil => rfl
  | cons h rest ih =>
      have hcons : GameSystem.drain.deeds rules (h :: rest) stage =
          DrainSystem.drainDeeds h stage ++ GameSystem.drain.deeds rules rest
            (performAll (DrainSystem.drainDeeds h stage) stage) := rfl
      have hstore : (performAll (DrainSystem.drainDeeds h stage) stage).store = stage.store := by
        unfold DrainSystem.drainDeeds
        split <;> rfl
      rw [hcons, ih, hstore, DrainSystem.drainDeeds, List.filterMap_cons]
      cases stage.store.playerOf h <;> rfl

/-- Draining others leaves a session and its connection alone. -/
theorem seat_performAll (hds : ∀ d ∈ ds, d.doer = .drain ∧ d.drains c = false) :
    (performAll ds stage).shared.seat c = stage.shared.seat c := by
  induction ds generalizing stage with
  | nil => rfl
  | cons d ds ih =>
      obtain ⟨hdoer, hother⟩ := hds d List.mem_cons_self
      have hrest : (performAll ds (d.perform stage)).shared.seat c = _ :=
        ih fun d' hd' => hds d' (List.mem_cons_of_mem d hd')
      refine hrest.trans ?_
      cases d with
      | drain h client =>
          have hne : c ≠ client := fun heq => of_decide_eq_false hother heq.symm
          exact (stage.shared.seat_drainEvents client c).trans (if_neg hne)
      | _ => cases hdoer

/-- Deeds that do not drain a session take nothing from it. -/
theorem drained_scenes (hds : ∀ d ∈ ds, d.drains c = false) :
    (scenes stage ds).flatMap (·.drained c) = [] := by
  refine List.flatMap_eq_nil_iff.mpr fun p hp => ?_
  have hd : p.deed ∈ ds := map_deed_scenes ds stage ▸ List.mem_map_of_mem hp
  exact if_neg (by rw [hds p.deed hd]; nofun)

/-- Nothing is queued by draining. -/
theorem heard_scenes (hds : ∀ d ∈ ds, d.doer = .drain) :
    (scenes stage ds).filterMap (·.heard c) = [] := by
  refine List.filterMap_eq_nil_iff.mpr fun p hp => ?_
  have hd : p.deed ∈ ds := map_deed_scenes ds stage ▸ List.mem_map_of_mem hp
  have hdoer := hds p.deed hd
  obtain ⟨stage, d⟩ := p
  cases d with
  | drain h client => exact ite_self none
  | _ => cases hdoer

/-- Where no session is nothing is taken. -/
theorem Course.drained_of_none (hc : Course stage ds) (hr : Ready stage)
    (hnone : stage.shared.session? c = none) :
    (scenes stage ds).flatMap (·.drained c) = [] := by
  induction ds generalizing stage with
  | nil => rfl
  | cons d ds ih =>
      have hproper : (⟨stage, d⟩ : Scene).Proper := ⟨hr, hc.1⟩
      have hstill : (d.perform stage).shared.session? c = none :=
        Sessions.get?_eq_none_iff.mpr fun b hb =>
          Sessions.get?_eq_none_iff.mp hnone b (hproper.roll_subset hb)
      have hfirst : (⟨stage, d⟩ : Scene).drained c = [] := by
        rw [Scene.drained, Scene.lobby, Lobby.seat, hnone]
        exact ite_self []
      rw [scenes, List.flatMap_cons, hfirst, ih hc.2 hproper.done.ready hstill]
      rfl

theorem Course.playerOf_eq (hc : Course stage ds) (hr : Ready stage) (h : Handle) :
    (performAll ds stage).store.playerOf h = stage.store.playerOf h := by
  induction ds generalizing stage with
  | nil => rfl
  | cons d ds ih =>
      have hdone := hc.1.done hr
      refine (ih hc.2 hdone.ready).trans ?_
      rw [Store.playerOf, Store.playerOf, (hdone.keeps hr.idle h).1]

end Deed

namespace Simulation

variable {s : Simulation} {x y z : Session} {k k' : Connection}

/-! ## The drain pass of a tick -/

def rounds (rules : GameRules) (s : Simulation) (delta : Duration) : List Deed :=
  s.pass rules delta .commands s.begun ++ s.pass rules delta .movement (s.obeyed rules delta)

theorem performAll_rounds (rules : GameRules) (s : Simulation) (delta : Duration) :
    performAll (s.rounds rules delta) s.begun = s.moved rules delta := by
  rw [rounds, performAll_append]
  rfl

theorem Regular.course_rounds (h : s.Regular rules) (delta : Duration) :
    Course s.begun (s.rounds rules delta) :=
  (s.course_pass rules delta .commands h.ready_begun).append
    (s.course_pass rules delta .movement (h.ready_obeyed delta))

theorem drains_rounds (hd : d ∈ s.rounds rules delta) : d.drains c = false := by
  by_contra hdrains
  have hdoer := doer_of_drains (Bool.eq_true_of_not_eq_false hdrains)
  rcases List.mem_append.mp hd with hd | hd
  · cases (doer_of_mem_pass hd).symm.trans hdoer
  · cases (doer_of_mem_pass hd).symm.trans hdoer

/-- How the drain of one player stands among the deeds of a tick: before it there are those of the
other systems, and then others are drained. -/
structure DrainTurn (rules : GameRules) (s : Simulation) (delta : Duration) (x : Session)
    (before after : List Deed) : Prop where
  deeds_eq : s.deeds rules delta =
    s.rounds rules delta ++ (before ++ .drain x.entity x.connection :: after)
  before_ne : ∀ d ∈ before, d.doer = .drain ∧ d.drains x.connection = false
  after_ne : ∀ d ∈ after, d.doer = .drain ∧ d.drains x.connection = false

/-- The players that are drained are those that were there when the tick began. -/
theorem Regular.playerOf_moved (h : s.Regular rules) (delta : Duration) (hb : b ∈ s.lobby.roll) :
    (s.moved rules delta).store.playerOf b.entity = some b.connection := by
  rw [← performAll_rounds, (h.course_rounds delta).playerOf_eq h.ready_begun]
  exact h.ready_begun.playerOf_eq hb

theorem Regular.exists_drainTurn (h : s.Regular rules) (ht : s.Timed rules)
    (hx : s.lobby.session? c = some x) (delta : Duration) :
    ∃ before after, s.DrainTurn rules delta x before after := by
  have hm : x.bond ∈ s.lobby.roll := Sessions.mem_roll_of_get? hx
  have hsubscribes := h.subscribes .drain
  have hpass : s.pass rules delta .drain (s.moved rules delta) =
      (s.subscribers .drain).filterMap fun g =>
        ((s.moved rules delta).store.playerOf g).map (.drain g) :=
    (if_pos (ht.fires_drain delta)).trans (drain_deeds_eq rules _ _)
  have hlisted : x.entity ∈ s.subscribers .drain := by
    obtain ⟨e, hl, hlink⟩ := h.peopled.linked x.bond hm
    exact (hsubscribes.mem_iff _).mpr ⟨e, hl, Option.isSome_of_eq_some hlink⟩
  obtain ⟨first, last, hsplit⟩ := List.append_of_mem hlisted
  have hnodup := hsplit ▸ hsubscribes.nodup
  obtain ⟨-, hrest, hfirst⟩ := List.nodup_append.mp hnodup
  have hlast : x.entity ∉ last := (List.nodup_cons.mp hrest).1
  -- Nobody else that is listed is a player on this connection.
  have hothers : ∀ part : List Handle, (∀ g ∈ part, g ∈ s.subscribers .drain ∧ g ≠ x.entity) →
      ∀ d ∈ part.filterMap fun g => ((s.moved rules delta).store.playerOf g).map (Deed.drain g),
        d.doer = .drain ∧ d.drains x.connection = false := by
    intro part hpart d hd
    obtain ⟨g, hg, heq⟩ := List.mem_filterMap.mp hd
    obtain ⟨hg, hne⟩ := hpart g hg
    obtain ⟨e, hl, -⟩ := (hsubscribes.mem_iff g).mp hg
    obtain ⟨b, hb, rfl⟩ := h.peopled.owned g e hl
    rw [h.playerOf_moved delta hb] at heq
    obtain rfl := Option.some.inj heq
    refine ⟨rfl, decide_eq_false fun hc => hne ?_⟩
    rw [h.peopled.eq_of_connection hb hm hc]
    rfl
  refine ⟨_, _, ⟨?_, hothers first fun g hg => ⟨?_, ?_⟩, hothers last fun g hg => ⟨?_, ?_⟩⟩⟩
  · have hown : ((s.moved rules delta).store.playerOf x.entity).map (Deed.drain x.entity) =
        some (.drain x.entity x.connection) := congrArg _ (h.playerOf_moved delta hm)
    rw [h.deeds_eq, hpass, hsplit, List.filterMap_append, ← List.append_assoc, rounds,
      List.filterMap_cons, hown]
  · exact hsplit ▸ List.mem_append_left _ hg
  · exact hfirst g hg x.entity List.mem_cons_self
  · exact hsplit ▸ List.mem_append_right _ (List.mem_cons_of_mem _ hg)
  · exact fun heq => hlast (heq ▸ hg)

namespace DrainTurn

variable {before after : List Deed}

/-- A player is drained once at a tick. -/
theorem filter_drains (hturn : s.DrainTurn rules delta x before after) :
    (s.deeds rules delta).filter (·.drains x.connection) = [.drain x.entity x.connection] := by
  have hnone : ∀ {ds : List Deed}, (∀ d ∈ ds, d.drains x.connection = false) →
      ds.filter (·.drains x.connection) = [] := by
    intro ds hds
    exact List.filter_eq_nil_iff.mpr fun d hd => by rw [hds d hd]; nofun
  have hown : (Deed.drain x.entity x.connection).drains x.connection = true := decide_eq_true rfl
  rw [hturn.deeds_eq, List.filter_append, List.filter_append, List.filter_cons_of_pos hown,
    hnone fun d hd => drains_rounds hd, hnone fun d hd => (hturn.before_ne d hd).2,
    hnone fun d hd => (hturn.after_ne d hd).2]
  rfl

/-- The scenes of the tick, split as its deeds are. -/
theorem scenes_eq (hturn : s.DrainTurn rules delta x before after) :
    s.scenesOf rules (.tick delta) = Deed.scenes s.begun (s.rounds rules delta) ++
      (Deed.scenes (s.moved rules delta) before ++
        ⟨performAll before (s.moved rules delta), .drain x.entity x.connection⟩ ::
          Deed.scenes ((Deed.drain x.entity x.connection).perform
            (performAll before (s.moved rules delta))) after) := by
  have hscenes : s.scenesOf rules (.tick delta) = Deed.scenes s.begun (s.deeds rules delta) := rfl
  rw [hscenes, hturn.deeds_eq, scenes_append, performAll_rounds, scenes_append, Deed.scenes]

/-- When the drain reaches a player, its session and its connection are as the movement pass left
them. -/
theorem seat_eq (hturn : s.DrainTurn rules delta x before after) :
    (performAll before (s.moved rules delta)).shared.seat x.connection =
      (s.moved rules delta).shared.seat x.connection :=
  seat_performAll hturn.before_ne

theorem seat_of_drains (hturn : s.DrainTurn rules delta x before after)
    (hp : p ∈ s.scenesOf rules (.tick delta)) (hd : p.deed.drains x.connection = true) :
    p.lobby.seat x.connection = (s.moved rules delta).shared.seat x.connection := by
  have hnot : ∀ {stage : Stage GameComponent Lobby} {ds : List Deed},
      (∀ d ∈ ds, d.drains x.connection = false) → p ∉ Deed.scenes stage ds := by
    intro stage ds hds hp
    have hm : p.deed ∈ ds := map_deed_scenes ds stage ▸ List.mem_map_of_mem hp
    rw [hds p.deed hm] at hd
    cases hd
  rw [hturn.scenes_eq] at hp
  rcases List.mem_append.mp hp with hp | hp
  · exact absurd hp (hnot fun d hd => drains_rounds hd)
  · rcases List.mem_append.mp hp with hp | hp
    · exact absurd hp (hnot fun d hd => (hturn.before_ne d hd).2)
    · rcases List.mem_cons.mp hp with rfl | hp
      · exact hturn.seat_eq
      · exact absurd hp (hnot fun d hd => (hturn.after_ne d hd).2)

/-- What a tick takes from a session. -/
theorem drained_eq (hturn : s.DrainTurn rules delta x before after) :
    s.drained rules x.connection [.tick delta] =
      Lobby.handed ((s.moved rules delta).shared.seat x.connection) := by
  have hone : s.drained rules x.connection [.tick delta] =
      (s.scenesOf rules (.tick delta)).flatMap (·.drained x.connection) :=
    congrArg (List.flatMap _) (List.append_nil _)
  have hown : (Deed.drain x.entity x.connection).drains x.connection = true := decide_eq_true rfl
  rw [hone, hturn.scenes_eq, List.flatMap_append, List.flatMap_append, List.flatMap_cons,
    drained_scenes fun d hd => drains_rounds hd,
    drained_scenes fun d hd => (hturn.before_ne d hd).2,
    drained_scenes fun d hd => (hturn.after_ne d hd).2, Scene.drained, if_pos hown, Scene.lobby,
    hturn.seat_eq]
  exact List.append_nil _

/-- What the session of a player takes at a tick it takes before it is drained. -/
theorem taken_eq (hturn : s.DrainTurn rules delta x before after) (c : ConnectionId) :
    s.taken rules c [.tick delta] =
      (Deed.scenes s.begun (s.rounds rules delta)).filterMap (·.heard c) := by
  have hone : s.taken rules c [.tick delta] =
      (s.scenesOf rules (.tick delta)).filterMap (·.heard c) :=
    congrArg (List.filterMap _) (List.append_nil _)
  have hpass : ∀ d ∈ before ++ .drain x.entity x.connection :: after, d.doer = .drain := by
    intro d hd
    rcases List.mem_append.mp hd with hd | hd
    · exact (hturn.before_ne d hd).1
    · rcases List.mem_cons.mp hd with rfl | hd
      · rfl
      · exact (hturn.after_ne d hd).1
  have hscenes : s.scenesOf rules (.tick delta) = Deed.scenes s.begun (s.deeds rules delta) := rfl
  rw [hone, hscenes, hturn.deeds_eq, scenes_append, List.filterMap_append, heard_scenes hpass,
    List.append_nil]

/-- A tick leaves a player with what draining leaves it. -/
theorem seat_tick (hturn : s.DrainTurn rules delta x before after) (h : s.Regular rules) :
    (s.tick delta).2.lobby.seat x.connection =
      Lobby.drainSeat ((s.moved rules delta).shared.seat x.connection) := by
  have hlast : (s.tick delta).2.lobby =
      (performAll after ((Deed.drain x.entity x.connection).perform
        (performAll before (s.moved rules delta)))).shared := by
    rw [(h.ticks delta).lobby_eq, hturn.deeds_eq, performAll_append, ← performAll_rounds,
      performAll_append]
    rfl
  have hown : ((Deed.drain x.entity x.connection).perform
      (performAll before (s.moved rules delta))).shared.seat x.connection = _ :=
    (Lobby.seat_drainEvents _ x.connection x.connection).trans (if_pos rfl)
  rw [hlast, seat_performAll hturn.after_ne, hown, hturn.seat_eq]

end DrainTurn

/-- A tick drains a player that is there when it ends: what it was with when the tick began (`x`),
what its session and its connection were when the drain reached them (`z` and `k`), and what they
are when the tick ends (`y` and `k'`). -/
structure Drains (rules : GameRules) (s : Simulation) (delta : Duration) (x z y : Session)
    (k k' : Connection) : Prop where
  /-- It is one player all the time. -/
  began : s.lobby.session? y.connection = some x
  bond_eq : x.bond = y.bond ∧ z.bond = y.bond
  /-- One deed drains it. -/
  once : (s.deeds rules delta).filter (·.drains y.connection) = [.drain y.entity y.connection]
  /-- This deed finds the session, which has not ended, and its open connection. -/
  reached : ∀ p ∈ s.scenesOf rules (.tick delta), p.deed.drains y.connection = true →
    p.lobby.seat y.connection = (some z, some k)
  lasts : z.terminated = false
  isOpen : k.closed = false
  /-- All that is queued for the player at the tick is queued by then. -/
  queued : z.events.items = x.events.items ++ s.taken rules y.connection [.tick delta]
  /-- The room is the free places of the queue, unless the writer is gone. -/
  space_eq : k.space = if k.writerGone then 0 else k.queue.room
  /-- The writer gets what it has room for, the event behind that is lost, and the others wait. -/
  handsOver : z.HandsOver k y k'
  /-- Nothing else at the tick changes the connection. -/
  before : s.lobby.connections.find? y.connection = some k
  after : (s.tick delta).2.lobby.connections.find? y.connection = some k'

/-- Who is there when a tick ends has not ended, and its connection is open. -/
theorem Regular.open_of_tick (h : s.Regular rules) (hp : s.Prompt)
    (hx : s.lobby.session? c = some x) (hy : (s.tick delta).2.lobby.session? c = some y) :
    y.terminated = false ∧ ∃ k', (s.tick delta).2.lobby.seat c = (some y, some k') ∧
      k'.closed = false := by
  have hattendance := h.attendance_tick hp hx delta
  rw [Lobby.attendance, hy, Option.map_some] at hattendance
  split at hattendance
  · cases hattendance
  · have hread := Option.some.inj hattendance
    have hopen : (s.tick delta).2.lobby.connections.isClosed c = false := congrArg (·.2.2) hread
    refine ⟨congrArg (·.2.1) hread, ?_⟩
    unfold Connections.isClosed at hopen
    split at hopen
    · next k' hk' => exact ⟨k', congr (congrArg Prod.mk hy) hk', hopen⟩
    · cases hopen

/-- Who is there when a tick ends was there when it began. -/
theorem Regular.exists_session_of_tick (h : s.Regular rules)
    (hy : (s.tick delta).2.lobby.session? c = some y) :
    ∃ x, s.lobby.session? c = some x ∧ x.bond = y.bond := by
  have hticks := h.ticks delta
  have hm : y.bond ∈ (s.tick delta).2.lobby.roll := Sessions.mem_roll_of_get? hy
  obtain ⟨-, rfl⟩ := Sessions.get?_eq_some hy
  rw [hticks.lobby_eq] at hm
  exact h.peopled.session_of_bond (hticks.course.roll_subset hticks.ready hm)

/-- The deeds before the drain pass let nobody in. -/
theorem Regular.bond_eq_of_moved (h : s.Regular rules) (hx : s.lobby.session? c = some x)
    (hz : (s.moved rules delta).shared.session? c = some z) : z.bond = x.bond := by
  have hm : z.bond ∈ (s.moved rules delta).shared.roll := Sessions.mem_roll_of_get? hz
  rw [← performAll_rounds] at hm
  refine h.peopled.eq_of_connection ((h.course_rounds delta).roll_subset h.ready_begun hm)
    (Sessions.mem_roll_of_get? hx) ?_
  exact (Sessions.get?_eq_some hz).2.trans (Sessions.get?_eq_some hx).2.symm

/-- A tick drains every player that is there when it ends. -/
theorem Regular.exists_drains (h : s.Regular rules) (ht : s.Timed rules)
    (hy : (s.tick delta).2.lobby.session? c = some y) :
    ∃ x z k k', s.Drains rules delta x z y k k' := by
  obtain ⟨x, hx, hbond⟩ := h.exists_session_of_tick hy
  obtain ⟨before, after, hturn⟩ := h.exists_drainTurn ht hx delta
  obtain ⟨hlasts, k', hlast, hopen'⟩ := h.open_of_tick ht.prompt hx hy
  obtain ⟨-, rfl⟩ := Sessions.get?_eq_some hy
  have hentity : x.entity = y.entity := congrArg Bond.entity hbond
  have hconnection : x.connection = y.connection := congrArg Bond.connection hbond
  have hbefore := h.course_rounds delta
  -- Draining takes nobody away, so both were there when it came.
  have hseat := hturn.seat_tick h
  rw [hconnection, hlast] at hseat
  obtain ⟨z, k, hreached, rfl, rfl⟩ := Lobby.exists_of_drainSeat hseat.symm
  have hz : (s.moved rules delta).shared.session? _ = some z := congrArg Prod.fst hreached
  have hk : (s.moved rules delta).shared.connections.find? _ = some k :=
    congrArg Prod.snd hreached
  have hended : z.terminated = false := by
    obtain ⟨left, -, hdrained⟩ := z.drainEvents_eq k
    rwa [hdrained] at hlasts
  have hopen : k.closed = false :=
    (congrArg Prod.snd (z.label_drainEvents k)).symm.trans hopen'
  refine ⟨x, z, k, _, hx, ⟨hbond, (h.bond_eq_of_moved hx hz).trans hbond⟩, ?_, ?_, hended, hopen,
    ?_, ?_, Session.handsOver_drainEvents hended k, ?_, congrArg Prod.snd hlast⟩
  · exact hentity ▸ hconnection ▸ hturn.filter_drains
  · intro p hp hd
    rw [← hconnection] at hd
    have hfound := hturn.seat_of_drains hp hd
    rw [hconnection] at hfound
    exact hfound.trans hreached
  · rw [← performAll_rounds] at hz
    have hitems := hbefore.items_eq_drained h.ready_begun hx hz
    rw [drained_scenes fun d hd => drains_rounds hd] at hitems
    rw [hturn.taken_eq]
    exact hitems.symm
  · rw [Connection.space, hopen, Bool.false_or]
  · rw [← performAll_rounds] at hk
    exact (hbefore.closes h.ready_begun fun d hd => drains_rounds hd).find?_of_open hk hopen

/-- Nothing is taken from a player that a tick removes. -/
theorem Regular.drained_of_removed (h : s.Regular rules) (ht : s.Timed rules)
    (hx : s.lobby.session? c = some x) (hgone : (s.tick delta).2.lobby.session? c = none) :
    s.drained rules c [.tick delta] = [] := by
  obtain ⟨before, after, hturn⟩ := h.exists_drainTurn ht hx delta
  obtain ⟨-, rfl⟩ := Sessions.get?_eq_some hx
  have hseat := congrArg Prod.fst (hturn.seat_tick h)
  have hnone : (Lobby.drainSeat ((s.moved rules delta).shared.seat x.connection)).1 = none :=
    hseat.symm.trans hgone
  rw [hturn.drained_eq]
  generalize (s.moved rules delta).shared.seat x.connection = seat at hnone
  obtain ⟨session, connection⟩ := seat
  cases session with
  | none => rfl
  | some z => cases connection <;> cases hnone

/-! ## The main statement -/

structure Draining (rules : GameRules) (s : Simulation) (events : List SimulationEvent) : Prop where
  /-- Each tick does its deeds. -/
  ticks : ∀ before delta after, events = before ++ .tick delta :: after →
    (s.run before).Ticks rules delta
  /-- Every player that is there when a tick ends has been drained once. -/
  drains : ∀ before delta after c y, events = before ++ .tick delta :: after →
    (s.run (before ++ [.tick delta])).lobby.session? c = some y →
    ∃ x z k k', (s.run before).Drains rules delta x z y k k'
  /-- From a player that a tick removes nothing is taken, and its connection is written nothing. -/
  removed : ∀ before delta after c x, events = before ++ .tick delta :: after →
    (s.run before).lobby.session? c = some x →
    (s.run (before ++ [.tick delta])).lobby.session? c = none →
    (s.run before).drained rules c [.tick delta] = []
  /-- At a tick at most one event of a session is refused. -/
  one : ∀ before delta after c, events = before ++ .tick delta :: after →
    (Handed.refused ((s.run before).drained rules c [.tick delta])).length ≤ 1
  /-- Between ticks nothing is taken from a session for its writer. -/
  between : ∀ before e after c, events = before ++ e :: after → (∀ delta, e ≠ .tick delta) →
    (s.run before).drained rules c [e] = []
  /-- While a player stays and its session is not ended, what waited and what it took is, in order,
  what was written or refused and what still waits. -/
  ledger : ∀ before during after c x y, events = before ++ during ++ after →
    (s.run before).Stays c during → .terminate c ∉ during →
    (s.run before).lobby.session? c = some x →
    (s.run (before ++ during)).lobby.session? c = some y →
    x.events.items ++ (s.run before).taken rules c during =
      ((s.run before).drained rules c during).map (·.event) ++ y.events.items
  /-- So the events that are written come in the order of the queue, each at most once. -/
  ordered : ∀ before during after c x y, events = before ++ during ++ after →
    (s.run before).Stays c during → .terminate c ∉ during →
    (s.run before).lobby.session? c = some x →
    (s.run (before ++ during)).lobby.session? c = some y →
    (Handed.written ((s.run before).drained rules c during)).Sublist
      (x.events.items ++ (s.run before).taken rules c during)
  /-- These are the packets that the queue of the writer gets. -/
  written : ∀ before during after c, events = before ++ during ++ after →
    (s.run before).Stays c during →
    Outbound.packetsIn ((s.run before).gone c during) ++
        (s.run (before ++ during)).lobby.connections.letters c =
      (s.run before).lobby.connections.letters c ++
        (Handed.written ((s.run before).drained rules c during)).map Event.toPacket

/-- A tick refuses at most one event of a session. -/
theorem Regular.length_refused_le (h : s.Regular rules) (ht : s.Timed rules) (delta : Duration)
    (c : ConnectionId) : (Handed.refused (s.drained rules c [.tick delta])).length ≤ 1 := by
  have hone : ∀ seat, (Handed.refused (Lobby.handed seat)).length ≤ 1 := by
    rintro ⟨_ | z, _ | k⟩
    · exact Nat.zero_le 1
    · exact Nat.zero_le 1
    · exact Nat.zero_le 1
    · show (Handed.refused (z.handed k)).length ≤ 1
      cases hz : z.terminated with
      | true =>
          rw [Session.handed, hz]
          exact Nat.zero_le 1
      | false =>
          rw [Session.refused_handed hz]
          exact Option.length_toList_le
  cases hx : s.lobby.session? c with
  | some x =>
      obtain ⟨before, after, hturn⟩ := h.exists_drainTurn ht hx delta
      obtain ⟨-, rfl⟩ := Sessions.get?_eq_some hx
      rw [hturn.drained_eq]
      exact hone _
  | none =>
      have hticks := h.ticks delta
      have hnone : s.drained rules c [.tick delta] = [] := by
        rw [drained_cons]
        exact congrArg (· ++ []) (hticks.course.drained_of_none hticks.ready hx)
      rw [hnone]
      exact Nat.zero_le 1

/-- Whatever reached a new simulation, its players are drained as they should be. -/
theorem draining_of_run (setup : SimulationSetup) (events : List SimulationEvent) :
    (new setup .empty).Draining setup.rules events := by
  have hnew := regular_new setup
  have hregular : ∀ before, ((new setup .empty).run before).Regular setup.rules := hnew.run
  have htimed : ∀ before, ((new setup .empty).run before).Timed setup.rules :=
    hnew.timed_run (timed_new setup)
  refine ⟨?_, ?_, ?_, ?_, ?_, ?_, ?_, ?_⟩
  · intro before delta after _
    exact (hregular before).ticks delta
  · intro before delta after c y _ hy
    rw [run_append] at hy
    exact (hregular before).exists_drains (htimed before) hy
  · intro before delta after c x _ hx hgone
    rw [run_append] at hgone
    exact (hregular before).drained_of_removed (htimed before) hx hgone
  · intro before delta after c _
    exact (hregular before).length_refused_le (htimed before) delta c
  · intro before e after c _ hquiet
    cases e with
    | tick delta => exact absurd rfl (hquiet delta)
    | _ => rfl
  · intro before during after c x y _ hstays hlasts hx hy
    rw [run_append] at hy
    exact (hregular before).items_eq_drained hstays hlasts hx hy
  · intro before during after c x y _ hstays hlasts hx hy
    rw [run_append] at hy
    rw [(hregular before).items_eq_drained hstays hlasts hx hy]
    exact (List.filter_sublist.map _).trans (List.sublist_append_left _ _)
  · intro before during after c _ hstays
    rw [run_append]
    exact (hregular before).letters_eq hstays

/-- Four answers for a writer with room for two items: two are written, the third is lost, and the
fourth waits until the next tick, before which the writer takes what it has. -/
example :
    let setup : SimulationSetup := ⟨2, ⟨8, ⟨50⟩⟩, ⟨8, 8⟩⟩
    let ping := fun n => SimulationEvent.mail 1 (.command (.ping n))
    (new setup .empty).drained setup.rules 1 [.register (.v4 [127, 0, 0, 1] 4000) 2,
        .mail 1 (.authenticated ⟨⟨5⟩, "ada", "x"⟩), .drain 1 none, ping 1, ping 2, ping 3, ping 4,
        .tick ⟨50⟩, .drain 1 none, .tick ⟨50⟩] =
      [⟨.pong 1, true⟩, ⟨.pong 2, true⟩, ⟨.pong 3, false⟩, ⟨.pong 4, true⟩] := by
  decide +kernel

end Simulation

end Realm
