import Realm.Proofs.Session.Turnover
import Realm.Proofs.Simulation.Footing

/-!
# Who leaves a simulation

A session leaves when its player is removed by the command system, when the player logs out, and at
the end of the simulation. Whatever a simulation does is a turnover of its lobby: who leaves it is
spent, and only mail about an authenticated client brings somebody.
-/

namespace Realm

variable {rules : GameRules} {s : Simulation} {l : Lobby} {stage : Stage GameComponent Lobby}
  {ds : List Deed} {client : ConnectionId}

/-! ## Deeds -/

def Deed.departed (l : Lobby) : Deed → Option Session
  | .reap _ c => l.ended c
  | .obey _ c .logout => (l.takeCommand c).2.ended c
  | _ => none

theorem Deed.turnover (d : Deed) (h : l.Consistent) :
    l.Turnover [] (d.departed l).toList (d.lobby l) := by
  cases d with
  | reap entity c => exact h.endSession c
  | obey entity c command =>
      have htaken := h.takeCommand c
      cases command with
      | move dx dy => exact htaken
      | chat text => exact htaken.trans (htaken.consistent.broadcast _)
      | ping nonce => exact htaken.trans (htaken.consistent.queueEvent c _)
      | logout => exact htaken.trans (htaken.consistent.endSession c)
      | login username password => exact htaken
  | advance entity position => exact h.broadcast _
  | appear entity => exact h.broadcast _
  | drain entity c => exact h.drainEvents c

def Scene.departed (p : Scene) : Option Session := p.deed.departed p.lobby

theorem Deed.Course.turnover (h : Deed.Course stage ds) (hr : Ready stage)
    (hl : stage.shared.Consistent) :
    stage.shared.Turnover [] ((Deed.scenes stage ds).filterMap Scene.departed)
      (Deed.performAll ds stage).shared := by
  induction ds generalizing stage with
  | nil => exact .refl hl
  | cons d ds ih =>
      have hdone := h.1.done hr
      have hfirst := d.turnover hl
      rw [← hdone.shared_eq] at hfirst
      have hrest := ih h.2 hdone.ready hfirst.consistent
      have hgone : (Deed.scenes stage (d :: ds)).filterMap Scene.departed =
          (d.departed stage.shared).toList ++
            (Deed.scenes (d.perform stage) ds).filterMap Scene.departed := by
        have hscene : (⟨stage, d⟩ : Scene).departed = d.departed stage.shared := rfl
        rw [Deed.scenes, List.filterMap_cons, hscene]
        cases d.departed stage.shared <;> rfl
      rw [hgone]
      exact hfirst.trans hrest

namespace Simulation

/-! ## Ticks -/

def departures (rules : GameRules) (s : Simulation) (e : SimulationEvent) : List Session :=
  (s.scenesOf rules e).filterMap Scene.departed

theorem Regular.turnover_tick (h : s.Regular rules) (hl : s.lobby.Consistent) (delta : Duration) :
    s.lobby.Turnover [] (s.departures rules (.tick delta)) (s.tick delta).2.lobby := by
  have ht := h.ticks delta
  rw [ht.lobby_eq]
  exact ht.course.turnover ht.ready hl

/-! ## Mail -/

def admitted (s : Simulation) (client : ConnectionId) (payload : Inbound) : List Bond :=
  if s.admits (.mail client payload) then
    ((s.handle client payload).lobby.session? client).toList.map Session.bond
  else []

/-- What becomes of a client that is to join: who comes, and the lobby afterwards. -/
inductive Joins (s : Simulation) (client : ConnectionId) (account : Account) :
    List Bond → Lobby → Prop where
  | ignored : Joins s client account [] s.lobby
  | turnedAway {f : Connection → Connection} (hf : ∀ k, (f k).label = (k.id, true)) :
    Joins s client account [] (s.lobby.modifyConnection client f)
  | letIn (entity : Handle) (hopened : client ∈ s.lobby.connections.outline.1)
      (hnew : s.lobby.session? client = none) :
    Joins s client account [⟨client, account.id, entity⟩]
      (({ s.lobby with
          sessions := (s.lobby.sessions.put (.fresh client account.id entity s.limits)).2 } :
        Lobby).modifyConnection client fun c => (Session.send c (.loginAccepted entity)).2)

theorem admitted_of_not_admits {payload : Inbound}
    (h : s.admits (.mail client payload) = false) : s.admitted client payload = [] :=
  if_neg (by rw [h]; nofun)

theorem joins_join (s : Simulation) (client : ConnectionId) (account : Account) :
    s.Joins client account (s.admitted client (.authenticated account))
      (s.join client account).lobby := by
  unfold join
  split
  · next hclient =>
      rw [admitted_of_not_admits (by rw [admits, hclient]; rfl)]
      exact .ignored
  · next hclient hsession =>
      rw [admitted_of_not_admits (by rw [admits, hclient, hsession]; rfl)]
      exact .ignored
  · next hclient hsession =>
      split
      · next hcreate =>
          rw [admitted_of_not_admits (by rw [admits, hclient, hsession, hcreate]; rfl)]
          exact .turnedAway fun k => k.label_dismiss _
      · next hcreate =>
          rw [admitted_of_not_admits (by rw [admits, hclient, hsession, hcreate]; rfl)]
          exact .turnedAway Connection.label_close
      · next entity store hcreate =>
          have hopened : client ∈ s.lobby.connections.outline.1 :=
            (Connections.isSome_get?.mp (hclient ▸ rfl)).2
          have hadmits : s.admits (.mail client (.authenticated account)) = true := by
            rw [admits, hclient, hsession, hcreate]
            rfl
          have hjoined : (s.join client account).lobby = (({ s.lobby with
              sessions := (s.lobby.sessions.put (.fresh client account.id entity s.limits)).2 } :
              Lobby).modifyConnection client
                fun c => (Session.send c (.loginAccepted entity)).2) := by
            unfold join
            rw [hclient, hsession]
            simp only [hcreate]
            rfl
          have hfound : (s.join client account).lobby.session? client =
              some (.fresh client account.id entity s.limits) := by
            rw [hjoined]
            exact (s.lobby.sessions.get?_put _ client).trans (if_pos rfl)
          have hadmitted : s.admitted client (.authenticated account) =
              [⟨client, account.id, entity⟩] := by
            have hbond : ((s.join client account).lobby.session? client).toList.map Session.bond =
                [⟨client, account.id, entity⟩] := by
              rw [hfound]
              rfl
            exact (if_pos hadmits).trans hbond
          rw [hadmitted]
          exact .letIn entity hopened hsession

theorem Joins.turnover {account : Account} {come : List Bond}
    (h : s.Joins client account come l) (hl : s.lobby.Consistent) :
    s.lobby.Turnover come [] l := by
  cases h with
  | ignored => exact .refl hl
  | turnedAway hf =>
      refine hl.withConnections (Connections.ages_modify ?_ ?_)
      · exact fun k _ => congrArg Prod.fst (hf k)
      · exact fun k _ _ => congrArg Prod.snd (hf k)
  | letIn entity hopened hnew =>
      let x : Session := .fresh client account.id entity s.limits
      have hput := hl.put (x := x) hnew hopened rfl
      refine hput.trans (hput.consistent.withConnections (Connections.ages_modify ?_ ?_))
      · exact fun k _ => congrArg Prod.fst (Session.label_send k _)
      · exact fun k _ hclosed => (congrArg Prod.snd (Session.label_send k _)).trans hclosed

/-- Mail about an authenticated client may bring a player, and a command brings nobody. -/
theorem turnover_handle (hl : s.lobby.Consistent) (client : ConnectionId) (payload : Inbound) :
    s.lobby.Turnover (s.admitted client payload) [] (s.handle client payload).lobby := by
  cases payload with
  | authenticated account => exact (s.joins_join client account).turnover hl
  | command command => exact hl.queueCommand client command

/-! ## Every event -/

def arrivals (s : Simulation) : SimulationEvent → List Bond
  | .mail client payload => s.admitted client payload
  | _ => []

theorem Regular.turnover_step (h : s.Regular rules) (hl : s.lobby.Consistent)
    (e : SimulationEvent) :
    s.lobby.Turnover (s.arrivals e) (s.departures rules e) (s.step e).lobby := by
  have hused : ∀ (client : ConnectionId) (f : Connection → Connection),
      (∀ k, (f k).label = k.label) →
      s.lobby.Turnover [] [] (s.lobby.modifyConnection client f) := by
    intro client f hf
    refine hl.withConnections (Connections.ages_modify ?_ ?_)
    · exact fun k _ => congrArg Prod.fst (hf k)
    · exact fun k _ hclosed => (congrArg Prod.snd (hf k)).trans hclosed
  cases e with
  | register address size =>
      exact hl.withConnections (Connections.ages_register hl.numbered address size)
  | remove client => exact hl.withConnections (Connections.ages_remove _ client)
  | close client => exact hl.withConnections (Connections.ages_close _ client)
  | drain client items => exact hused client _ fun k => k.label_drain items
  | dropWriter client => exact hused client _ fun _ => rfl
  | terminate client => exact hl.terminate client
  | mail client payload => exact turnover_handle hl client payload
  | tick delta => exact h.turnover_tick hl delta

theorem Regular.consistent_run (h : s.Regular rules) (hl : s.lobby.Consistent)
    (events : List SimulationEvent) : (s.run events).lobby.Consistent := by
  induction events generalizing s with
  | nil => exact hl
  | cons e rest ih => exact ih (h.step e) (h.turnover_step hl e).consistent

/-! ## The end -/

/-- The lobby after the end is that in which every session was ended. -/
theorem lobby_finish (s : Simulation) : s.finish.lobby =
    (s.lobby.sessions.sessions.map (·.connection)).foldl Lobby.endSession s.lobby := by
  unfold finish
  generalize s.lobby.sessions.sessions = sessions
  induction sessions generalizing s with
  | nil => rfl
  | cons x rest ih =>
      rw [List.foldl_cons, ih, List.map_cons, List.foldl_cons]
      congr 1
      dsimp only
      split <;> rfl

/-- Everybody leaves at the end. -/
theorem turnover_finish (hl : s.lobby.Consistent) :
    s.lobby.Turnover [] (s.lobby.endings (s.lobby.sessions.sessions.map (·.connection)))
      s.finish.lobby := by
  rw [lobby_finish]
  exact hl.endings _

theorem sessions_finish (s : Simulation) : s.finish.lobby.sessions.sessions = [] := by
  have hroll : s.finish.lobby.roll = [] := by
    rw [lobby_finish, Lobby.roll_foldl_endSession, List.filter_eq_nil_iff]
    intro b hb
    obtain ⟨x, hx, rfl⟩ := List.mem_map.mp hb
    have hm : x.bond.connection ∈ s.lobby.sessions.sessions.map (·.connection) :=
      List.mem_map_of_mem hx
    simpa using hm
  exact List.map_eq_nil_iff.mp hroll

end Simulation

end Realm
