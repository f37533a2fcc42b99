import Realm.Proofs.Simulation.Heading
import Realm.Proofs.Simulation.Isolation

/-!
# How a player is served

In the deeds of a tick those about one player stand together: they are what the command system does
in the turn of the player. A player whose session is over is removed, and no command is taken from
it. Otherwise the first commands that wait are obeyed in order, as many as the budget allows and
none after a logout, and the others go on waiting.
-/

namespace Realm

/-- Commands up to the first logout, which is the last one that is obeyed. -/
def untilLogout : List Command → List Command
  | [] => []
  | .logout :: _ => [.logout]
  | command :: rest => command :: untilLogout rest

theorem prefix_untilLogout (commands : List Command) : untilLogout commands <+: commands := by
  induction commands with
  | nil => exact List.prefix_rfl
  | cons command rest ih =>
      cases command with
      | logout => exact List.cons_prefix_cons.mpr ⟨rfl, List.nil_prefix⟩
      | _ => exact List.cons_prefix_cons.mpr ⟨rfl, ih⟩

example : untilLogout [.ping 1, .logout, .ping 2] = [.ping 1, .logout] := rfl

theorem untilLogout_cons_of_ne {command : Command} (hc : command ≠ .logout) (rest : List Command) :
    untilLogout (command :: rest) = command :: untilLogout rest := by
  cases command with
  | logout => exact absurd rfl hc
  | _ => rfl

/-- Without a logout all commands are obeyed. -/
theorem untilLogout_eq_self {commands : List Command} (h : .logout ∉ commands) :
    untilLogout commands = commands := by
  induction commands with
  | nil => rfl
  | cons command rest ih =>
      obtain ⟨hc, hrest⟩ := not_or.mp (mt List.mem_cons.mpr h)
      rw [untilLogout_cons_of_ne (Ne.symm hc), ih hrest]

namespace Deed

variable {stage : Stage GameComponent Lobby} {d : Deed} {ds : List Deed} {b : Bond}
  {rules : GameRules} {system : GameSystem} {entities : List Handle}

/-- Whether the command system does a deed for the player of a connection. -/
def isOf (c : ConnectionId) : Deed → Bool
  | .reap _ client | .obey _ client _ => client = c
  | _ => false

def attend (c : ConnectionId) : Deed → Option (Bounded Command × Bool × Bool) →
    Option (Bounded Command × Bool × Bool)
  | .reap _ client, a => if c = client then none else a
  | .obey _ client .logout, a => if c = client then none else a
  | .obey _ client _, a =>
    if c = client then a.map fun a => ((if a.2.1 then a.1 else a.1.pop.2), a.2) else a
  | _, a => a

theorem attendance_lobby (d : Deed) (l : Lobby) (c : ConnectionId) :
    (d.lobby l).attendance c = d.attend c (l.attendance c) := by
  have htaken : ∀ client, (l.takeCommand client).2.attendance c = if c = client then
      (l.attendance c).map fun a => ((if a.2.1 then a.1 else a.1.pop.2), a.2)
      else l.attendance c := by
    intro client
    rw [l.attendance_takeCommand]
    by_cases hc : c = client
    · rw [if_pos hc, if_pos hc, hc]
    · rw [if_neg hc, if_neg hc]
  cases d with
  | reap h client => exact l.attendance_endSession client c
  | obey h client command =>
      cases command with
      | logout =>
          have hended := (l.takeCommand client).2.attendance_endSession client c
          rw [htaken] at hended
          refine hended.trans ?_
          by_cases hc : c = client
          · rw [if_pos hc]
            exact (if_pos hc).symm
          · rw [if_neg hc, if_neg hc]
            exact (if_neg hc).symm
      | chat text => exact (Lobby.attendance_broadcast _ _ c).trans (htaken client)
      | ping nonce => exact (Lobby.attendance_queueEvent _ client _ c).trans (htaken client)
      | move dx dy => exact htaken client
      | login username password => exact htaken client
  | advance h p => exact l.attendance_broadcast _ c
  | appear h => exact l.attendance_broadcast _ c
  | drain h client => exact l.attendance_drainEvents client c

/-- What is not done for a player leaves its attendance alone. -/
theorem attend_of_not_isOf {c : ConnectionId} (hd : d.isOf c = false)
    (a : Option (Bounded Command × Bool × Bool)) : d.attend c a = a := by
  have hne : ∀ {client : ConnectionId}, decide (client = c) = false → c ≠ client :=
    fun h heq => of_decide_eq_false h heq.symm
  cases d with
  | reap h client => exact if_neg (hne hd)
  | obey h client command => cases command <;> exact if_neg (hne hd)
  | _ => rfl

theorem commandOf_of_not_isOf {c : ConnectionId} (hd : d.isOf c = false) :
    d.commandOf c = none := by
  cases d with
  | obey h client command => exact if_neg (of_decide_eq_false hd)
  | _ => rfl

/-- After a course a player is attended to as the deeds that are done for it say. -/
theorem Course.attendance (h : Course stage ds) (hr : Ready stage) (c : ConnectionId) :
    (performAll ds stage).shared.attendance c =
      (ds.filter (·.isOf c)).foldl (fun a d => d.attend c a) (stage.shared.attendance c) := by
  induction ds generalizing stage with
  | nil => rfl
  | cons d ds ih =>
      have hdone := h.1.done hr
      have hfirst : (d.perform stage).shared.attendance c =
          d.attend c (stage.shared.attendance c) := by
        rw [hdone.shared_eq]
        exact d.attendance_lobby _ c
      have hrest := ih h.2 hdone.ready
      rw [hfirst] at hrest
      by_cases hd : d.isOf c = true
      · rw [List.filter_cons_of_pos hd]
        exact hrest
      · rw [List.filter_cons_of_neg hd]
        rw [attend_of_not_isOf (by simpa using hd)] at hrest
        exact hrest

/-- A session that obeyed commands without a logout has the others left. -/
theorem foldl_attend_obey {h : Handle} {c : ConnectionId} {q : Bounded Command} {closed : Bool}
    {commands : List Command} (hcommands : commands <+: q.items) :
    (commands.map (.obey h c)).foldl (fun a d => attend c d a) (some (q, false, closed)) =
      if .logout ∈ commands then none
      else some ({ q with items := q.items.drop commands.length }, false, closed) := by
  have hgone : ∀ commands : List Command,
      (commands.map (.obey h c)).foldl (fun a d => attend c d a) none = none := by
    intro commands
    induction commands with
    | nil => rfl
    | cons command rest ih =>
        have hnone : attend c (.obey h c command) none = none := by
          cases command <;> exact if_pos rfl
        rw [List.map_cons, List.foldl_cons, hnone, ih]
  induction commands generalizing q with
  | nil => rfl
  | cons command rest ih =>
      obtain ⟨later, hitems⟩ := hcommands
      rw [List.cons_append] at hitems
      have hpop : q.pop = (some command, { q with items := rest ++ later }) := by
        simp [Bounded.pop, ← hitems]
      rw [List.map_cons, List.foldl_cons]
      by_cases hc : command = .logout
      · have hnone : attend c (.obey h c command) (some (q, false, closed)) = none := by
          rw [hc]
          exact if_pos rfl
        rw [hnone, hgone, if_pos (hc ▸ List.mem_cons_self)]
      · have hsome : attend c (.obey h c command) (some (q, false, closed)) =
            some ({ q with items := rest ++ later }, false, closed) := by
          cases command with
          | logout => exact absurd rfl hc
          | _ => simp [attend, hpop]
        rw [hsome, ih (q := { q with items := rest ++ later }) ⟨later, rfl⟩, ← hitems]
        simp [Ne.symm hc]

theorem filterMap_commandOf (c : ConnectionId) (ds : List Deed) :
    (ds.filter (·.isOf c)).filterMap (·.commandOf c) = ds.filterMap (·.commandOf c) := by
  induction ds with
  | nil => rfl
  | cons d ds ih =>
      by_cases hd : d.isOf c = true
      · rw [List.filter_cons_of_pos hd, List.filterMap_cons, List.filterMap_cons, ih]
      · rw [List.filter_cons_of_neg hd, List.filterMap_cons,
          commandOf_of_not_isOf (by simpa using hd), ih]

/-! ## The turn of a player -/

/-- A deed that is done for a player is about its entity. -/
theorem Fits.entity_of_isOf (hf : d.Fits stage) (ha : b.Alone stage)
    (hd : d.isOf b.connection = true) : d.entity = b.entity := by
  cases d with
  | reap h client =>
      obtain ⟨b', hb', rfl, rfl⟩ := hf
      exact congrArg Bond.entity (ha.eq_of_connection hb' (of_decide_eq_true hd))
  | obey h client command =>
      obtain ⟨x, hx, rfl, -⟩ := hf
      obtain ⟨hm, hc⟩ := Peopled.mem_roll hx
      exact congrArg Bond.entity (ha.eq_of_connection hm (hc.trans (of_decide_eq_true hd)))
  | _ => cases hd

theorem Course.filter_isOf_of_ne (h : Course stage ds) (hr : Ready stage) (ha : b.Alone stage)
    (hne : ∀ d ∈ ds, d.entity ≠ b.entity) : ds.filter (·.isOf b.connection) = [] := by
  induction ds generalizing stage with
  | nil => rfl
  | cons d ds ih =>
      have hproper : (⟨stage, d⟩ : Scene).Proper := ⟨hr, h.1⟩
      have hfirst : ¬ d.isOf b.connection = true := fun hd =>
        hne d List.mem_cons_self (h.1.entity_of_isOf ha hd)
      rw [List.filter_cons_of_neg hfirst]
      exact ih h.2 hproper.done.ready (ha.mono hproper.roll_subset)
        fun d' hm => hne d' (List.mem_cons_of_mem d hm)

/-- What a pass does for a player it does in the turn of the player. -/
theorem filter_isOf_of_turn {mid : Stage GameComponent Lobby} {before after : List Deed}
    (ht : system.HasTurn rules entities b stage mid before after) (hr : Ready stage)
    (ha : b.Alone stage) : (system.deeds rules entities stage).filter (·.isOf b.connection) =
      (system.deedsOf rules b.entity mid).filter (·.isOf b.connection) := by
  have hown := system.course_deedsOf rules ht.ready b.entity
  have hbefore := ht.course_before.filter_isOf_of_ne hr ha ht.before_ne
  have hafter := ht.course_after.filter_isOf_of_ne (hown.ready ht.ready)
    (ht.alone.mono (hown.roll_subset ht.ready)) ht.after_ne
  rw [ht.split, List.filter_append, List.filter_append, hbefore, hafter, List.nil_append,
    List.append_nil]

/-! ## The other systems -/

theorem isOf_of_mem_deedsOf (hsystem : system ≠ .commands) {h : Handle} {c : ConnectionId}
    (hd : d ∈ system.deedsOf rules h stage) : d.isOf c = false := by
  cases system with
  | commands => exact absurd rfl hsystem
  | movement =>
      have hd : d ∈ MovementSystem.moveDeeds rules.movementInterval h stage := hd
      unfold MovementSystem.moveDeeds at hd
      split at hd
      · split at hd
        · cases hd
        · split at hd <;> exact List.mem_singleton.mp hd ▸ rfl
      · cases hd
  | drain =>
      have hd : d ∈ DrainSystem.drainDeeds h stage := hd
      unfold DrainSystem.drainDeeds at hd
      split at hd
      · cases hd
      · exact List.mem_singleton.mp hd ▸ rfl

theorem isOf_of_mem_deeds (hsystem : system ≠ .commands) {c : ConnectionId}
    (hd : d ∈ system.deeds rules entities stage) : d.isOf c = false := by
  induction entities generalizing stage with
  | nil => cases hd
  | cons h rest ih =>
      rcases List.mem_append.mp hd with hd | hd
      · exact isOf_of_mem_deedsOf hsystem hd
      · exact ih hd

/-- Only the command system does something for a player. -/
theorem isOf_of_mem_round {systems : List GameSystem} (hsystems : .commands ∉ systems)
    {entries : List (SystemId × System GameComponent Lobby Cadence)} {delta : Duration}
    {c : ConnectionId} (hd : d ∈ GameSystem.round rules delta systems entries stage) :
    d.isOf c = false := by
  induction systems generalizing entries stage with
  | nil => cases hd
  | cons system systems ih =>
      obtain ⟨hne, hrest⟩ := not_or.mp (mt List.mem_cons.mpr hsystems)
      cases entries with
      | nil => cases hd
      | cons entry entries =>
          obtain ⟨id, y⟩ := entry
          rcases List.mem_append.mp hd with hd | hd
          · split at hd
            · exact isOf_of_mem_deeds (Ne.symm hne) hd
            · cases hd
          · exact ih hrest hd

end Deed

open Deed

namespace CommandSystem

variable {stage : Stage GameComponent Lobby} {b : Bond} {q : Bounded Command} {closed : Bool}

/-- An obeyed player lives on unless it logged out. -/
theorem isAlive_obey (hr : Ready stage) (hb : b ∈ stage.shared.roll) (command : Command) :
    ((Deed.obey b.entity b.connection command).perform stage).store.isAlive b.entity = true ↔
      command ≠ .logout := by
  obtain ⟨hdone, hkept⟩ := done_obey hr hb command
  have htaken := stage.shared.roll_takeCommand b.connection
  constructor
  · rintro ha rfl
    have hroll := hkept ha
    rw [hdone.shared_eq] at hroll
    have hended : ((stage.shared.takeCommand b.connection).2.endSession b.connection).roll =
        (stage.shared.takeCommand b.connection).2.roll.filter
          fun b' => b'.connection ≠ b.connection := Lobby.roll_endSession _ _
    have hm : b ∈ ((stage.shared.takeCommand b.connection).2.endSession b.connection).roll := hroll
    rw [hended, List.mem_filter] at hm
    simp at hm
  · intro hcommand
    have hroll : ((Deed.obey b.entity b.connection command).perform stage).shared.roll =
        stage.shared.roll := by
      rw [hdone.shared_eq]
      cases command with
      | logout => exact absurd rfl hcommand
      | chat text => exact (Lobby.roll_broadcast _ _).trans htaken
      | ping nonce => exact (Lobby.roll_queueEvent _ _ _).trans htaken
      | _ => exact htaken
    exact hdone.ready.isAlive (hroll ▸ hb)

/-- As many commands are obeyed as the budget allows, and none after a logout. -/
theorem obeyDeeds_eq (hr : Ready stage) (hb : b ∈ stage.shared.roll)
    (ha : stage.shared.attendance b.connection = some (q, false, closed)) (budget : Nat) :
    obeyDeeds b.entity b.connection budget stage =
      (untilLogout (q.items.take budget)).map (.obey b.entity b.connection) := by
  induction budget generalizing stage q with
  | zero => rfl
  | succ budget ih =>
      have htake : (stage.shared.takeCommand b.connection).1 = q.pop.1 := by
        rw [Lobby.takeCommand_fst, ha]
        rfl
      unfold obeyDeeds
      rw [htake]
      cases hitems : q.items with
      | nil =>
          have hnone : q.pop.1 = none := by simp [Bounded.pop, hitems]
          rw [hnone]
          rfl
      | cons command rest =>
          have hsome : q.pop = (some command, { q with items := rest }) := by
            simp [Bounded.pop, hitems]
          obtain ⟨hdone, hkept⟩ := done_obey hr hb command
          have halive := isAlive_obey hr hb command
          rw [hsome, List.take_succ_cons]
          dsimp only
          by_cases hcommand : command = .logout
          · rw [if_neg (fun h => halive.mp h hcommand), hcommand]
            rfl
          · have hlives := halive.mpr hcommand
            have hafter : ((Deed.obey b.entity b.connection command).perform
                stage).shared.attendance b.connection =
                  some ({ q with items := rest }, false, closed) := by
              rw [hdone.shared_eq, attendance_lobby, ha]
              cases command with
              | logout => exact absurd rfl hcommand
              | _ => simp [attend, hsome]
            rw [if_pos hlives, ih hdone.ready (hkept hlives) hafter,
              untilLogout_cons_of_ne hcommand]
            rfl

/-- What the turn of a player does for it. -/
theorem serveDeeds_eq (hr : Ready stage) (hb : b ∈ stage.shared.roll) {terminated : Bool}
    (ha : stage.shared.attendance b.connection = some (q, terminated, closed)) (budget : Nat) :
    serveDeeds budget b.entity stage =
      if terminated || closed then [.reap b.entity b.connection]
      else (untilLogout (q.items.take budget)).map (.obey b.entity b.connection) := by
  obtain ⟨x, hx, hxb⟩ := hr.session_of_bond hb
  have hfinished : stage.shared.isFinished x = (terminated || closed) := by
    have hattendance := ha
    unfold Lobby.attendance at hattendance
    rw [hx, Option.map_some, Option.some.injEq, Prod.mk.injEq, Prod.mk.injEq] at hattendance
    obtain ⟨-, rfl, rfl⟩ := hattendance
    have hc : x.connection = b.connection := congrArg Bond.connection hxb
    rw [Lobby.isFinished, Session.isFinished, hc]
  unfold serveDeeds
  rw [if_pos (hr.isAlive hb), hr.playerOf_eq hb]
  simp only [hx, hfinished]
  cases terminated with
  | true => rfl
  | false =>
      cases closed with
      | true => rfl
      | false => exact obeyDeeds_eq hr hb ha budget

/-- What a pass of the command system does for a player. -/
theorem filter_isOf_deeds (rules : GameRules) {entities : List Handle} (hr : Ready stage)
    (hb : b ∈ stage.shared.roll) (hnodup : entities.Nodup) (hlisted : b.entity ∈ entities)
    {terminated : Bool} (ha : stage.shared.attendance b.connection = some (q, terminated, closed)) :
    (GameSystem.commands.deeds rules entities stage).filter (·.isOf b.connection) =
      if terminated || closed then [.reap b.entity b.connection]
      else (untilLogout (q.items.take rules.commandsPerTick)).map (.obey b.entity b.connection) := by
  have halone : b.Alone stage := .of_mem hr.toPeopled hb
  -- The player comes to its turn with the attendance it had before the pass.
  obtain ⟨mid, before, after, ht⟩ := GameSystem.commands.exists_turn rules hr halone hnodup hlisted
  have hattendance : mid.shared.attendance b.connection = some (q, terminated, closed) :=
    (Bond.attendance_eq ht.footing_eq).trans ha
  have hown : GameSystem.commands.deedsOf rules b.entity mid = _ :=
    serveDeeds_eq ht.ready (ht.alone.mem_roll hattendance) hattendance rules.commandsPerTick
  rw [filter_isOf_of_turn ht hr halone, hown]
  split
  · exact List.filter_cons_of_pos (decide_eq_true rfl)
  · refine List.filter_eq_self.mpr fun d hd => ?_
    obtain ⟨command, -, rfl⟩ := List.mem_map.mp hd
    exact decide_eq_true rfl

end CommandSystem

end Realm
