import Realm.Proofs.Simulation.Scene

/-!
# Commands are obeyed in order

The commands that are applied for a connection are, in order, among those that were told to the
simulation about it and those that waited in its session before. A command is applied to the entity
of the session it was taken from, and answered there.
-/

namespace Realm

def Deed.commandOf (client : ConnectionId) : Deed → Option Command
  | .obey _ c command => if c = client then some command else none
  | _ => none

/-- The command that the simulation is told of, if the event is mail about the connection. -/
def SimulationEvent.commandOf (client : ConnectionId) : SimulationEvent → Option Command
  | .mail c (.command command) => if c = client then some command else none
  | _ => none

def Simulation.applied (rules : GameRules) (client : ConnectionId) (s : Simulation)
    (events : List SimulationEvent) : List Command :=
  (s.scenes rules events).filterMap fun p => p.deed.commandOf client

variable {rules : GameRules} {s : Simulation} {c client : ConnectionId}
  {stage : Stage GameComponent Lobby}

/-! ## One deed -/

theorem Lobby.pending_answer_sublist (l : Lobby) (h : Handle) (client c : ConnectionId)
    (command : Command) : ((Deed.answer h client command l).pending c).Sublist (l.pending c) := by
  cases command with
  | chat text => rw [Deed.answer, l.pending_broadcast]
  | ping nonce => rw [Deed.answer, l.pending_queueEvent]
  | logout =>
      rw [Deed.answer, l.pending_endSession]
      split
      · exact List.nil_sublist _
      · exact .refl _
  | move dx dy => exact .refl _
  | login username password => exact .refl _

/-- What a deed applies was the first that waited, and nothing comes to wait. -/
theorem Scene.Proper.pending_sublist {p : Scene} (hp : p.Proper) (c : ConnectionId) :
    ((p.deed.commandOf c).toList ++ p.after.shared.pending c).Sublist (p.lobby.pending c) := by
  have hshared : p.after.shared = p.deed.lobby p.lobby := hp.done.shared_eq
  rw [hshared]
  have hfits := hp.fits
  obtain ⟨stage, d⟩ := p
  cases d with
  | reap h client =>
      have hended := stage.shared.pending_endSession client c
      show ((stage.shared.endSession client).pending c).Sublist _
      rw [hended]
      split
      · exact List.nil_sublist _
      · exact .refl _
  | obey h client command =>
      obtain ⟨x, hx, -, hcommand⟩ := hfits
      have hanswer := (stage.shared.takeCommand client).2.pending_answer_sublist h client c command
      by_cases hc : client = c
      · subst hc
        have htaken := stage.shared.pending_takeCommand client hx hcommand
        have hone : (Deed.obey h client command).commandOf client = some command := if_pos rfl
        show List.Sublist (_ ++ _) (stage.shared.pending client)
        rw [hone, htaken]
        exact hanswer.cons_cons command
      · have htaken := stage.shared.pending_takeCommand_of_ne client c fun heq => hc heq.symm
        have hnone : (Deed.obey h client command).commandOf c = none := if_neg hc
        show List.Sublist (_ ++ _) (stage.shared.pending c)
        rw [hnone, ← htaken]
        exact hanswer
  | advance h position =>
      have hsame := stage.shared.pending_broadcast c (.entityMoved h position.x position.y)
      exact hsame ▸ .refl _
  | appear h =>
      have hsame := stage.shared.pending_broadcast c (.entityMoved h .zero .zero)
      exact hsame ▸ .refl _
  | drain h client =>
      have hsame := stage.shared.pending_drainEvents client c
      exact hsame ▸ .refl _

theorem Deed.Course.applied_sublist {ds : List Deed} (h : Deed.Course stage ds) (hr : Ready stage)
    (c : ConnectionId) :
    ((Deed.scenes stage ds).filterMap (fun p => p.deed.commandOf c) ++
      (Deed.performAll ds stage).shared.pending c).Sublist (stage.shared.pending c) := by
  induction ds generalizing stage with
  | nil => exact .refl _
  | cons d ds ih =>
      have hproper : (⟨stage, d⟩ : Scene).Proper := ⟨hr, h.1⟩
      have hfirst := hproper.pending_sublist c
      have hrest := ih h.2 hproper.done.ready
      have hcons : (Deed.scenes stage (d :: ds)).filterMap (fun p => p.deed.commandOf c) =
          (d.commandOf c).toList ++
            (Deed.scenes (d.perform stage) ds).filterMap fun p => p.deed.commandOf c := by
        rw [Deed.scenes, List.filterMap_cons]
        cases d.commandOf c <;> rfl
      rw [hcons, List.append_assoc]
      exact (hrest.append_left _).trans hfirst

/-- What an applied command does to the session of another player. -/
def Deed.overhear (h : Handle) : Command → Session → Session
  | .chat text, x => (x.queueEvent (.chatRelay h text)).2
  | _, x => x

/-- A command that is obeyed waited first in the session whose entity it is applied to. Of all others
the entity is left alone, and the session but for what is broadcast. -/
structure Scene.Attributed (p : Scene) (h : Handle) (client : ConnectionId) (command : Command) :
    Prop where
  source : ∃ x rest, p.lobby.session? client = some x ∧ x.entity = h ∧ x.terminated = false ∧
    x.commands.items = command :: rest
  entity_ne : ∀ c x, c ≠ client → p.lobby.session? c = some x → x.entity ≠ h
  living?_eq : ∀ h', h' ≠ h → p.after.store.living? h' = p.stage.store.living? h'
  session?_eq : ∀ c, c ≠ client →
    p.after.shared.session? c = (p.lobby.session? c).map (Deed.overhear h command)

theorem Deed.session?_answer (l : Lobby) (h : Handle) {client c : ConnectionId} (command : Command)
    (hc : c ≠ client) : (Deed.answer h client command l).session? c =
      (l.session? c).map (Deed.overhear h command) := by
  have hsame : ∀ {l' : Lobby}, l'.session? c = l.session? c →
      l'.session? c = (l.session? c).map id := fun h => h.trans (Option.map_id_apply).symm
  cases command with
  | chat text => exact l.session?_broadcast c _
  | ping nonce => exact hsame ((l.session?_queueEvent client c _).trans (if_neg hc))
  | logout => exact hsame ((l.session?_endSession client c).trans (if_neg hc))
  | move dx dy => exact hsame rfl
  | login username password => exact hsame rfl

theorem Scene.Proper.attributed {p : Scene} (hp : p.Proper) {h : Handle} {command : Command}
    (hd : p.deed = .obey h client command) : p.Attributed h client command := by
  obtain ⟨stage, d⟩ := p
  obtain rfl : d = .obey h client command := hd
  have hdone := hp.done
  obtain ⟨x, hx, rfl, hcommand⟩ := hp.fits
  obtain ⟨hlive, rest, hitems, -⟩ := x.dequeueCommand_of_some hcommand
  have hbond := Peopled.mem_roll hx
  refine ⟨⟨x, rest, hx, rfl, hlive, hitems⟩, ?_, ?_, ?_⟩
  · intro c y hc hy heq
    obtain ⟨hm, rfl⟩ := Peopled.mem_roll hy
    have hsame : y.bond = x.bond := hp.ready.eq_of_entity hm hbond.1 heq
    exact hc ((congrArg Bond.connection hsame).trans hbond.2)
  · intro h' hne
    exact hdone.touches.living?_of_ne hp.ready.idle hne
  · intro c hc
    have htaken := (stage.shared.session?_takeCommand client c).trans (if_neg hc)
    have hanswer := Deed.session?_answer (stage.shared.takeCommand client).2 x.entity command hc
    rw [htaken] at hanswer
    exact (congrArg (·.session? c) hdone.shared_eq).trans hanswer

/-! ## One event -/

namespace Simulation

theorem pending_join (s : Simulation) (client c : ConnectionId) (account : Account) :
    (s.join client account).lobby.pending c = s.lobby.pending c := by
  rcases s.session?_join client c account with h | ⟨rfl, hnone, entity, h⟩
  · exact Lobby.pending_of_ne h
  · rw [Lobby.pending_of_session? h, Lobby.pending_of_none hnone]
    rfl

/-- What an event applies waited before, and only what is told comes to wait. -/
theorem Regular.pending_step_sublist (h : s.Regular rules) (e : SimulationEvent)
    (c : ConnectionId) :
    ((s.scenesOf rules e).filterMap (fun p => p.deed.commandOf c) ++
      (s.step e).lobby.pending c).Sublist (s.lobby.pending c ++ (e.commandOf c).toList) := by
  have hquiet : ∀ {l : Lobby}, (l.pending c).Sublist (s.lobby.pending c) →
      (l.pending c).Sublist (s.lobby.pending c ++ []) := by
    intro l hl
    rw [List.append_nil]
    exact hl
  cases e with
  | register address size => exact hquiet (.refl _)
  | remove client => exact hquiet (.refl _)
  | close client => exact hquiet (.refl _)
  | drain client items => exact hquiet (.refl _)
  | dropWriter client => exact hquiet (.refl _)
  | terminate client => exact hquiet (s.lobby.pending_terminate_sublist client c)
  | mail client payload =>
      cases payload with
      | authenticated account => exact hquiet (s.pending_join client c account ▸ .refl _)
      | command command =>
          have hqueued := s.lobby.pending_queueCommand_sublist client c command
          have htold : ((SimulationEvent.mail client (.command command)).commandOf c).toList =
              if client = c then [command] else [] := by
            by_cases hc : client = c <;> simp [SimulationEvent.commandOf, hc]
          rw [htold]
          exact hqueued
  | tick delta =>
      have ht := h.ticks delta
      have hcourse := ht.course.applied_sublist ht.ready c
      rw [← ht.lobby_eq] at hcourse
      show List.Sublist _ (_ ++ [])
      rw [List.append_nil]
      exact hcourse

/-! ## A run -/

/-- What is applied was told or waited before, in this order and each once. -/
theorem Regular.applied_sublist (h : s.Regular rules) (events : List SimulationEvent)
    (c : ConnectionId) :
    (s.applied rules c events ++ (s.run events).lobby.pending c).Sublist
      (s.lobby.pending c ++ events.filterMap (·.commandOf c)) := by
  induction events generalizing s with
  | nil => exact (List.append_nil (s.lobby.pending c)).symm ▸ .refl _
  | cons e rest ih =>
      have hfirst := h.pending_step_sublist e c
      have hrest := ih (h.step e)
      have happlied : s.applied rules c (e :: rest) =
          (s.scenesOf rules e).filterMap (fun p => p.deed.commandOf c) ++
            (s.step e).applied rules c rest := List.filterMap_append
      have htold : (e :: rest).filterMap (·.commandOf c) =
          (e.commandOf c).toList ++ rest.filterMap (·.commandOf c) := by
        rw [List.filterMap_cons]
        cases e.commandOf c <;> rfl
      rw [happlied, htold, List.append_assoc, ← List.append_assoc (s.lobby.pending c)]
      refine (hrest.append_left _).trans ?_
      rw [← List.append_assoc]
      exact hfirst.append_right _

end Simulation

end Realm
