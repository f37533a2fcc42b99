import Realm.Proofs.Simulation.Announcement
import Realm.Proofs.Simulation.Phases

/-!
# Movement touches exactly what moves

Main statement: whatever reached a new simulation before, a tick at which the movement system runs
moves exactly the entities that had a velocity when the tick began, are still alive behind the
command pass and have a velocity then. Each is moved once, by one step of the interval, and
announced once. All other positions stay, and if the system does not run all of them do.
-/

namespace Realm

open Deed

variable {rules : GameRules} {stage : Stage GameComponent Lobby} {d : Deed} {ds : List Deed}
  {b : Bond} {h g : Handle} {system : GameSystem} {entities : List Handle} {delta : Duration}

def Event.isMoveOf (h : Handle) : Event → Bool
  | .entityMoved g _ _ => g = h
  | _ => false

namespace Deed

/-! ## Deeds that move -/

def moves (h : Handle) : Deed → Bool
  | .advance g _ | .appear g => g = h
  | _ => false

def relocate : Deed → Option GameComponent → Option GameComponent
  | .advance _ p, c => c.map fun _ => .transform p
  | .appear _, _ => some (.transform .origin)
  | _, c => c

theorem entity_of_moves (hd : d.moves h = true) : d.entity = h := by
  cases d with
  | advance g p => exact of_decide_eq_true hd
  | appear g => exact of_decide_eq_true hd
  | _ => cases hd

/-- Only the movement system moves anything. -/
theorem doer_of_moves (hd : d.moves h = true) : d.doer = .movement := by
  cases d with
  | advance g p => rfl
  | appear g => rfl
  | _ => cases hd

/-- In a pass of the movement system an entity is moved in its own turn. -/
theorem filter_moves_deeds (rules : GameRules) (hr : Ready stage) (ha : b.Alone stage)
    (hn : entities.Nodup) (hm : b.entity ∈ entities) :
    (GameSystem.movement.deeds rules entities stage).filter (·.moves b.entity) =
      MovementSystem.moveDeeds rules.movementInterval b.entity stage := by
  obtain ⟨mid, before, after, ht⟩ := GameSystem.movement.exists_turn rules hr ha hn hm
  have hothers : ∀ ds : List Deed, (∀ d ∈ ds, d.entity ≠ b.entity) →
      ds.filter (·.moves b.entity) = [] := by
    intro ds hne
    exact List.filter_eq_nil_iff.mpr fun d hd hmoves => hne d hd (entity_of_moves hmoves)
  have hown : GameSystem.movement.deedsOf rules b.entity mid =
      MovementSystem.moveDeeds rules.movementInterval b.entity stage :=
    MovementSystem.moveDeeds_congr rules.movementInterval ht.footing_eq
  rw [ht.split, List.filter_append, List.filter_append, hothers before ht.before_ne,
    hothers after ht.after_ne, List.nil_append, List.append_nil, hown]
  refine List.filter_eq_self.mpr fun d hd => ?_
  unfold MovementSystem.moveDeeds at hd
  split at hd
  · split at hd
    · cases hd
    · split at hd <;> exact List.mem_singleton.mp hd ▸ decide_eq_true rfl
  · cases hd

/-! ## Positions -/

theorem transform_record (d : Deed) (e : Entity GameComponent) :
    (d.record e).get? .transform = d.relocate (e.get? .transform) := by
  cases d with
  | obey g c command =>
      cases command with
      | move dx dy =>
          by_cases hzero : (dx.isZero && dy.isZero) = true
          · have hrecord : (obey g c (.move dx dy)).record e = e.erase .velocity := if_pos hzero
            rw [hrecord, Entity.get?_erase]
            rfl
          · have hrecord : (obey g c (.move dx dy)).record e = e.insert (.velocity ⟨dx, dy⟩) :=
              if_neg hzero
            rw [hrecord]
            exact Entity.get?_insert ..
      | _ => rfl
  | advance g p => exact Entity.get?_modify ..
  | appear g => exact Entity.get?_insert ..
  | _ => rfl

theorem relocate_of_not_moves (hd : d.moves d.entity = false) (c : Option GameComponent) :
    d.relocate c = c := by
  cases d with
  | advance g p => exact absurd rfl (of_decide_eq_false hd)
  | appear g => exact absurd rfl (of_decide_eq_false hd)
  | _ => rfl

/-- A deed changes the position of the entity that it moves and of no other. -/
theorem Fits.transform_eq (hf : d.Fits stage) (hr : Ready stage) (h : Handle) :
    (d.perform stage).store.get? h .transform =
      if d.moves h then d.relocate (stage.store.get? h .transform)
      else stage.store.get? h .transform := by
  have hfound := (hf.done hr).find?_eq hr.idle h
  unfold Store.get?
  rw [hfound]
  by_cases hmoves : d.moves h = true
  · -- What is moved is a player, so there is a record.
    obtain ⟨b, hb, hentity⟩ : ∃ b ∈ stage.shared.roll, b.entity = d.entity := by
      cases d with
      | advance g p => exact hf
      | appear g => exact hf
      | _ => cases hmoves
    obtain ⟨e, hl, -⟩ := hr.linked b hb
    rw [hentity, entity_of_moves hmoves] at hl
    rw [if_pos hmoves, if_pos (entity_of_moves hmoves).symm, Store.find?_of_living hl]
    exact d.transform_record e
  · rw [if_neg hmoves]
    by_cases hown : h = d.entity
    · have hstill := d.relocate_of_not_moves (hown ▸ Bool.eq_false_of_not_eq_true hmoves)
      rw [if_pos hown]
      cases stage.store.find? h with
      | none => rfl
      | some e => exact (d.transform_record e).trans (hstill _)
    · rw [if_neg hown]

theorem Course.transform_eq (hc : Course stage ds) (hr : Ready stage) (h : Handle) :
    (performAll ds stage).store.get? h .transform =
      (ds.filter (·.moves h)).foldl (fun c d => d.relocate c) (stage.store.get? h .transform) := by
  induction ds generalizing stage with
  | nil => rfl
  | cons d ds ih =>
      have hfirst := hc.1.transform_eq hr h
      have hrest := ih hc.2 (hc.1.done hr).ready
      rw [hfirst] at hrest
      by_cases hmoves : d.moves h = true
      · rw [if_pos hmoves] at hrest
        rw [List.filter_cons_of_pos hmoves]
        exact hrest
      · rw [if_neg hmoves] at hrest
        rw [List.filter_cons_of_neg hmoves]
        exact hrest

/-! ## Announcements -/

theorem filter_announcement (d : Deed) (h : Handle) :
    d.announcement.filter (·.isMoveOf h) = if d.moves h then d.announcement else none := by
  cases d with
  | obey g c command => cases command <;> rfl
  | advance g p => exact Option.filter_some
  | appear g => exact Option.filter_some
  | _ => rfl

/-- The moves of an entity are announced by the deeds that move it. -/
theorem filter_isMoveOf (ds : List Deed) (h : Handle) :
    (ds.filterMap Deed.announcement).filter (·.isMoveOf h) =
      (ds.filter (·.moves h)).filterMap Deed.announcement := by
  rw [List.filter_filterMap, List.filterMap_filter]
  exact List.filterMap_congr fun d _ => d.filter_announcement h

end Deed

namespace Simulation

variable {s : Simulation} {e : SimulationEvent} {q : Position}

/-! ## What moves at a tick -/

/-- An entity is to be moved at a tick: it has a velocity when the tick begins, and behind the
command pass it is still alive and has one, which may be another. -/
structure Drifts (rules : GameRules) (s : Simulation) (delta : Duration) (h : Handle) : Prop where
  held : ((s.world.store.living? h).bind (·.get? .velocity)).isSome
  holds : (((s.obeyed rules delta).store.living? h).bind (·.get? .velocity)).isSome

/-- A tick moves an entity to a position: once, and it is announced once to every session. -/
structure MovesTo (rules : GameRules) (s : Simulation) (delta : Duration) (h : Handle)
    (q : Position) : Prop where
  moved : (s.deeds rules delta).filter (·.moves h) = [.advance h q]
  position : (s.tick delta).2.world.store.get? h .transform = some (.transform q)
  announced : (s.announcements rules [.tick delta]).filter (·.isMoveOf h) =
    [.entityMoved h q.x q.y]
  told : ∀ p ∈ s.scenesOf rules (.tick delta), p.deed.moves h = true →
    p.after.shared = p.lobby.broadcast (.entityMoved h q.x q.y)

/-- A tick leaves an entity where it is, and no move of it is announced. -/
structure Rests (rules : GameRules) (s : Simulation) (delta : Duration) (h : Handle) : Prop where
  unmoved : (s.deeds rules delta).filter (·.moves h) = []
  position : (s.tick delta).2.world.store.get? h .transform =
    (s.world.store.living? h).bind (·.get? .transform)
  unannounced : (s.announcements rules [.tick delta]).filter (·.isMoveOf h) = []

theorem announcements_tick (rules : GameRules) (s : Simulation) (delta : Duration) :
    s.announcements rules [.tick delta] = (s.deeds rules delta).filterMap Deed.announcement := by
  have hscenes : s.scenes rules [.tick delta] =
      Deed.scenes s.world.applyChanges.stage (s.deeds rules delta) := List.append_nil _
  rw [announcements, hscenes]
  calc _ = ((Deed.scenes s.world.applyChanges.stage (s.deeds rules delta)).map
        Scene.deed).filterMap Deed.announcement := List.filterMap_map.symm
    _ = _ := by rw [map_deed_scenes]

/-- Behind a tick an entity is where the deeds say that moved it. -/
theorem Regular.transform_tick (hs : s.Regular rules) (delta : Duration) (h : Handle) :
    (s.tick delta).2.world.store.get? h .transform =
      ((s.deeds rules delta).filter (·.moves h)).foldl (fun c d => d.relocate c)
        ((s.world.store.living? h).bind (·.get? .transform)) := by
  have ht := hs.ticks delta
  have hmoved := ht.course.transform_eq ht.ready h
  have hbegun : s.world.applyChanges.stage.store.get? h .transform =
      (s.world.store.living? h).bind (·.get? .transform) := hs.get?_begun h .transform
  rw [← ht.stage_eq, hbegun] at hmoved
  exact hmoved

theorem Regular.movesTo (hs : s.Regular rules)
    (hmoved : (s.deeds rules delta).filter (·.moves h) = [.advance h q])
    (hthere : ((s.world.store.living? h).bind (·.get? .transform)).isSome) :
    s.MovesTo rules delta h q := by
  have hposition := hs.transform_tick delta h
  obtain ⟨c, hc⟩ := Option.isSome_iff_exists.mp hthere
  rw [hmoved, hc] at hposition
  refine ⟨hmoved, hposition, ?_, fun p hp hmoves => ?_⟩
  · rw [announcements_tick, filter_isMoveOf, hmoved]
    rfl
  · have hmap : (s.scenesOf rules (.tick delta)).map Scene.deed = s.deeds rules delta :=
      map_deed_scenes _ _
    have hd : p.deed ∈ (s.deeds rules delta).filter (·.moves h) :=
      List.mem_filter.mpr ⟨hmap ▸ List.mem_map_of_mem hp, hmoves⟩
    rw [hmoved] at hd
    refine (hs.proper_of_scenesOf hp).done.shared_eq.trans ?_
    rw [List.mem_singleton.mp hd]
    rfl

theorem Regular.rests (hs : s.Regular rules)
    (hunmoved : (s.deeds rules delta).filter (·.moves h) = []) : s.Rests rules delta h := by
  have hposition := hs.transform_tick delta h
  rw [hunmoved] at hposition
  refine ⟨hunmoved, hposition, ?_⟩
  rw [announcements_tick, filter_isMoveOf, hunmoved]
  rfl

/-- No other pass than that of the movement system moves anything. -/
theorem filter_moves_pass (rules : GameRules) (s : Simulation) (delta : Duration)
    (hsystem : system ≠ .movement) (stage : Stage GameComponent Lobby) (h : Handle) :
    (s.pass rules delta system stage).filter (·.moves h) = [] := by
  exact List.filter_eq_nil_iff.mpr fun d hd hmoves =>
    hsystem ((doer_of_mem_pass hd).symm.trans (doer_of_moves hmoves))

/-- The command pass moves nothing. -/
theorem Regular.transform_obeyed (hs : s.Regular rules) (delta : Duration) (h : Handle) :
    (s.obeyed rules delta).store.get? h .transform =
      (s.world.store.living? h).bind (·.get? .transform) := by
  have hcourse := s.course_pass rules delta .commands hs.ready_begun
  have hmoved := hcourse.transform_eq hs.ready_begun h
  rw [filter_moves_pass rules s delta (by decide)] at hmoved
  exact hmoved.trans (hs.get?_begun h .transform)

/-- All that a tick moves it moves in the movement pass, and only what had a velocity when it
began. -/
theorem Regular.filter_moves (hs : s.Regular rules) (delta : Duration) (h : Handle) :
    (s.deeds rules delta).filter (·.moves h) =
      if s.fires .movement delta = true ∧ ((s.world.store.living? h).bind (·.get? .velocity)).isSome
      then MovementSystem.moveDeeds rules.movementInterval h (s.obeyed rules delta) else [] := by
  have hsubscribes := hs.subscribes .movement
  rw [hs.deeds_eq, List.filter_append, List.filter_append,
    filter_moves_pass rules s delta (show GameSystem.commands ≠ .movement by decide),
    filter_moves_pass rules s delta (show GameSystem.drain ≠ .movement by decide),
    List.nil_append, List.append_nil]
  have hheld : h ∈ s.subscribers .movement ↔
      ((s.world.store.living? h).bind (·.get? .velocity)).isSome := by
    rw [hsubscribes.mem_iff]
    cases s.world.store.living? h with
    | none => simp
    | some e => simp [GameSystem.kind]
  unfold pass
  by_cases hfires : s.fires .movement delta = true
  · rw [if_pos hfires]
    by_cases hm : h ∈ s.subscribers .movement
    · rw [if_pos ⟨hfires, hheld.mp hm⟩]
      -- Who is listed was a player when the tick began, and nobody else has its entity since.
      obtain ⟨e, hl, -⟩ := (hsubscribes.mem_iff h).mp hm
      obtain ⟨b, hb, rfl⟩ := hs.peopled.owned h e hl
      have halone : b.Alone s.begun := .of_mem hs.ready_begun.toPeopled hb
      have hcourse := s.course_pass rules delta .commands hs.ready_begun
      exact filter_moves_deeds rules (hs.ready_obeyed delta)
        (halone.mono (hcourse.roll_subset hs.ready_begun)) hsubscribes.nodup hm
    · rw [if_neg fun hand => hm (hheld.mpr hand.2)]
      exact List.filter_eq_nil_iff.mpr fun d hd hmoves =>
        hm (entity_of_moves hmoves ▸ GameSystem.entity_mem_of_deeds hd)
  · rw [if_neg hfires, if_neg fun hand => hfires hand.1]
    rfl

/-! ## Where players are -/

/-- Every player has a position. -/
def Located (s : Simulation) : Prop :=
  ∀ b ∈ s.lobby.roll, ∃ p, s.world.store.get? b.entity .transform = some (.transform p)

theorem Regular.get?_of_mem (hs : s.Regular rules) (hb : b ∈ s.lobby.roll) (k : Kind) :
    s.world.store.get? b.entity k = (s.world.store.living? b.entity).bind (·.get? k) := by
  obtain ⟨e, hl, -⟩ := hs.peopled.linked b hb
  have hl : s.world.store.living? b.entity = some e := hl
  rw [Store.get?, Store.find?_of_living hl, hl]

/-- What is to be moved is moved by one step of its velocity. -/
theorem Regular.exists_movesTo (hs : s.Regular rules) {life : ConnectionId → List Command}
    (hpoised : s.Poised life) (hp : s.Located) (hfires : s.fires .movement delta = true)
    (hd : s.Drifts rules delta h) : ∃ v p,
      ((s.obeyed rules delta).store.living? h).bind (·.get? .velocity) = some (.velocity v) ∧
      (s.world.store.living? h).bind (·.get? .transform) = some (.transform p) ∧
      s.MovesTo rules delta h
        (MovementSystem.advance (MovementSystem.seconds rules.movementInterval) v p) := by
  obtain ⟨c, hc⟩ := Option.isSome_iff_exists.mp hd.holds
  obtain ⟨e, hl, hvelocity⟩ := Option.bind_eq_some_iff.mp hc
  obtain ⟨b, hb, rfl⟩ := (hs.ready_obeyed delta).owned h e hl
  have hroll : b ∈ s.lobby.roll :=
    (s.course_pass rules delta .commands hs.ready_begun).roll_subset hs.ready_begun hb
  have hget : ∀ k, (s.obeyed rules delta).store.get? b.entity k = e.get? k :=
    fun k => congrArg (·.bind (·.get? k)) (Store.find?_of_living hl)
  -- The commands of its life say which velocity it has.
  obtain ⟨v, rfl⟩ : ∃ v, c = .velocity v := by
    have hprefix : s.pass rules delta .commands s.begun <+: s.deeds rules delta :=
      hs.deeds_eq delta ▸ List.prefix_append _ _
    have hbears := (hs.bears_along hroll (hpoised.bears b hroll) hprefix).velocity
    have hbears := (hget .velocity).symm.trans hbears
    rw [hvelocity] at hbears
    obtain ⟨v, -, heq⟩ := Option.map_eq_some_iff.mp hbears.symm
    exact ⟨v, heq.symm⟩
  obtain ⟨p, hposition⟩ := hp b hroll
  rw [hs.get?_of_mem hroll] at hposition
  refine ⟨v, p, hc, hposition, hs.movesTo ?_ (hposition ▸ rfl)⟩
  rw [hs.filter_moves, if_pos ⟨hfires, hd.held⟩]
  unfold MovementSystem.moveDeeds
  rw [if_pos (Store.isAlive_of_living hl), hget, hvelocity, hs.transform_obeyed, hposition]
  rfl

/-- What is not to be moved rests. -/
theorem Regular.rests_of_not_drifts (hs : s.Regular rules)
    (hd : s.fires .movement delta = false ∨ ¬ s.Drifts rules delta h) :
    s.Rests rules delta h := by
  refine hs.rests ?_
  rw [hs.filter_moves]
  split
  · next hand =>
      have hlost : ((s.obeyed rules delta).store.living? h).bind (·.get? .velocity) = none := by
        by_contra hsome
        refine hd.elim (fun hfires => ?_) fun hnot => hnot ⟨hand.2, ?_⟩
        · rw [hfires] at hand
          cases hand.1
        · exact Option.ne_none_iff_isSome.mp hsome
      unfold MovementSystem.moveDeeds
      split
      · next halive =>
          rw [Store.living?_of_isAlive halive] at hlost
          have hnone : (s.obeyed rules delta).store.get? h .velocity = none := hlost
          rw [hnone]
          rfl
      · rfl
  · rfl

/-! ## Later events -/

/-- An entity is alive before, between and after events. -/
def Lives (h : Handle) (s : Simulation) (events : List SimulationEvent) : Prop :=
  ∀ before, before <+: events → ((s.run before).world.store.living? h).isSome

/-- The movement system runs at no tick of the events. -/
def Pauses (s : Simulation) (events : List SimulationEvent) : Prop :=
  ∀ before delta rest, events = before ++ .tick delta :: rest →
    (s.run before).fires .movement delta = false

/-- An entity is after events where it was before them, and no move of it is announced. -/
structure Stands (rules : GameRules) (h : Handle) (s : Simulation) (events : List SimulationEvent) :
    Prop where
  position : ((s.run events).world.store.living? h).bind (·.get? .transform) =
    (s.world.store.living? h).bind (·.get? .transform)
  unannounced : (s.announcements rules events).filter (·.isMoveOf h) = []

theorem Stands.cons {events : List SimulationEvent} (hfirst : s.Stands rules h [e])
    (hrest : (s.step e).Stands rules h events) : s.Stands rules h (e :: events) := by
  have hannounced : s.announcements rules (e :: events) =
      s.announcements rules [e] ++ (s.step e).announcements rules events := by
    have hone : s.scenes rules [e] = s.scenesOf rules e := List.append_nil _
    rw [announcements, announcements, hone, announcements, scenes, List.filterMap_append]
  refine ⟨hrest.position.trans hfirst.position, ?_⟩
  rw [hannounced, List.filter_append, hfirst.unannounced, hrest.unannounced]
  rfl

/-- An entity that lives on stands at an event, unless a tick moves it. -/
theorem Regular.stands_step (hs : s.Regular rules) (e : SimulationEvent)
    (hrests : ∀ delta, e = .tick delta → s.Rests rules delta h)
    (hbefore : (s.world.store.living? h).isSome)
    (hafter : ((s.step e).world.store.living? h).isSome) : s.Stands rules h [e] := by
  have hsame : (s.step e).world.store.living? h = s.world.store.living? h →
      s.announcements rules [e] = [] → s.Stands rules h [e] :=
    fun hliving hnone => ⟨congrArg (·.bind (·.get? .transform)) hliving, by rw [hnone]; rfl⟩
  cases e with
  | mail client payload =>
      cases payload with
      | authenticated account =>
          refine hsame ?_ rfl
          show (s.join client account).world.store.living? h = _
          rcases s.join_cases client account with heq | ⟨-, -, -, -, heq | ⟨entity, hcreate⟩⟩
          · rw [heq]
          · rw [heq]
          · obtain ⟨hcreates, htakes⟩ := Store.creates_of_ok hs.peopled.steady.toBounded hcreate
            refine (hs.peopled.steady.living?_create hcreates htakes h).trans (if_neg ?_)
            rintro rfl
            have hnone : s.world.store.living? h = none :=
              hs.peopled.steady.living?_eq_none_of_takes htakes
            rw [hnone] at hbefore
            cases hbefore
      | command command => exact hsame rfl rfl
  | tick delta =>
      have hrest := hrests delta rfl
      obtain ⟨e, hl⟩ := Option.isSome_iff_exists.mp hafter
      have hposition : (s.step (.tick delta)).world.store.get? h .transform = _ := hrest.position
      rw [Store.get?, Store.find?_of_living hl, ← hl] at hposition
      exact ⟨hposition, hrest.unannounced⟩
  | _ => exact hsame rfl rfl

theorem Lives.step {events : List SimulationEvent} (hlives : s.Lives h (e :: events)) :
    (s.world.store.living? h).isSome ∧ ((s.step e).world.store.living? h).isSome ∧
      (s.step e).Lives h events :=
  ⟨hlives [] List.nil_prefix, hlives [e] ⟨events, rfl⟩,
    fun before hp => hlives (e :: before) (List.cons_prefix_cons.mpr ⟨rfl, hp⟩)⟩

/-- While the movement system does not run every entity that lives on stands. -/
theorem Regular.stands_run (hs : s.Regular rules) {events : List SimulationEvent}
    (hlives : s.Lives h events) (hpauses : s.Pauses events) : s.Stands rules h events := by
  induction events generalizing s with
  | nil => exact ⟨rfl, rfl⟩
  | cons e rest ih =>
      obtain ⟨hbefore, hafter, hlater⟩ := hlives.step
      have hfirst : s.Stands rules h [e] := hs.stands_step e
        (fun delta he => hs.rests_of_not_drifts (.inl (hpauses [] delta rest (he ▸ rfl))))
        hbefore hafter
      have hrest : (s.step e).Stands rules h rest := ih (hs.step e) hlater
        fun before delta later heq => hpauses (e :: before) delta later (heq ▸ rfl)
      exact hfirst.cons hrest

/-! ## The main statement -/

structure Movement (rules : GameRules) (s : Simulation) (delta : Duration) : Prop where
  /-- The tick does not fail, and it comes to its deeds. -/
  ticks : s.Ticks rules delta
  /-- These are the deeds of the command pass, of the movement pass and of the drain pass. -/
  passes : s.deeds rules delta = s.pass rules delta .commands s.begun ++
    (s.pass rules delta .movement (s.obeyed rules delta) ++
      s.pass rules delta .drain (s.moved rules delta))
  /-- The movement system runs when the interval of the rules says so. -/
  paced : ∃ i : Interval, s.cadence? .movement = some (.interval i) ∧
    i.rate = rules.movementInterval ∧ s.fires .movement delta = (i.advance delta).1
  /-- If it runs, every entity that is to be moved is, by its present velocity and one interval,
  however long the tick was. -/
  moves : s.fires .movement delta = true → ∀ h, s.Drifts rules delta h → ∃ v p,
    ((s.obeyed rules delta).store.living? h).bind (·.get? .velocity) = some (.velocity v) ∧
    (s.world.store.living? h).bind (·.get? .transform) = some (.transform p) ∧
    s.MovesTo rules delta h
      (MovementSystem.advance (MovementSystem.seconds rules.movementInterval) v p)
  /-- All others rest. -/
  rests : s.fires .movement delta = true → ∀ h, ¬ s.Drifts rules delta h → s.Rests rules delta h
  /-- If it does not run, everything rests, and no move is announced. -/
  still : s.fires .movement delta = false → ∀ h, s.Rests rules delta h
  quiet : s.fires .movement delta = false →
    ∀ h x y, .entityMoved h x y ∉ s.announcements rules [.tick delta]
  /-- Only a deed that moves an entity changes its position. -/
  apart : ∀ p ∈ s.scenesOf rules (.tick delta), ∀ h, p.deed.moves h = false →
    p.after.store.get? h .transform = p.stage.store.get? h .transform
  /-- An entity without a velocity when the tick begins is not moved before the system runs
  again. -/
  later : ∀ h, (s.world.store.living? h).bind (·.get? .velocity) = none →
    ∀ events, s.Lives h (.tick delta :: events) → (s.tick delta).2.Pauses events →
      s.Stands rules h (.tick delta :: events)

theorem Regular.movement (hs : s.Regular rules) (ht : s.Timed rules)
    {life : ConnectionId → List Command} (hpoised : s.Poised life) (hp : s.Located)
    (delta : Duration) : s.Movement rules delta := by
  refine ⟨hs.ticks delta, hs.deeds_eq delta, ht.fires_movement delta,
    fun hfires h hd => hs.exists_movesTo hpoised hp hfires hd,
    fun _ h hd => hs.rests_of_not_drifts (.inr hd),
    fun hfires h => hs.rests_of_not_drifts (.inl hfires), ?_, ?_, ?_⟩
  · intro hfires h x y hm
    have hnone := (hs.rests_of_not_drifts (h := h) (.inl hfires)).unannounced
    have htold : Event.entityMoved h x y ∈
        (s.announcements rules [.tick delta]).filter (·.isMoveOf h) :=
      List.mem_filter.mpr ⟨hm, decide_eq_true rfl⟩
    rw [hnone] at htold
    cases htold
  · intro p hm h hmoves
    have hproper := hs.proper_of_scenesOf hm
    exact (hproper.fits.transform_eq hproper.ready h).trans (if_neg (by rw [hmoves]; nofun))
  · intro h hheld events hlives hpauses
    obtain ⟨hbefore, hafter, hlater⟩ := hlives.step
    have hrests : s.Rests rules delta h := hs.rests_of_not_drifts (.inr fun hd => by
      have hsome := hd.held
      rw [hheld] at hsome
      cases hsome)
    have hfirst : s.Stands rules h [.tick delta] := hs.stands_step (.tick delta)
      (fun other heq => by cases heq; exact hrests) hbefore hafter
    exact hfirst.cons ((hs.step (.tick delta)).stands_run hlater hpauses)

/-- A player that is told to move does so from the next tick on, and one step is as long as the
interval. -/
example :
    let rules : GameRules := ⟨2, .ofMillis 1000⟩
    let start := (new ⟨4, rules, ⟨4, 4⟩⟩ .empty).run [.register (.v4 [127, 0, 0, 1] 4000) 8,
      .mail 1 (.authenticated ⟨⟨5⟩, "ada", "x"⟩), .mail 1 (.command (.move (.ofNat 3) .zero))]
    start.announcements rules [.tick (.ofMillis 1000)] = [] ∧
      start.announcements rules [.tick (.ofMillis 1000), .tick (.ofMillis 5000)] =
        [.entityMoved ⟨0, 0⟩ (.ofNat 3) .zero] := by
  decide +kernel

end Simulation

end Realm
