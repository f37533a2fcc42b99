import Realm.Proofs.Simulation.Departure
import Realm.Simulation.Loop

/-!
# The end of the simulation

Ticks and mail reach the loop in any order, and meanwhile others open, use, remove and close
connections and end sessions. Main statement: once the ticks have ended the loop has too, nobody is
registered, and everybody who was ever let in has left with a session that is spent and a connection
that is closed; nobody is let in any more. A mailbox that ends earlier ends nothing but the mail.
-/

namespace Realm

/-- What happens to a loop and to what it shares with the rest of the server. -/
inductive Happening where
  /-- Something reaches the loop. -/
  | reaches (event : LoopEvent)
  /-- Something is done to the connections. -/
  | uses (u : TableUse)
  /-- A session is ended. -/
  | terminates (client : ConnectionId)

def Happening.isMail : Happening → Bool
  | .reaches (.mail _) => true
  | _ => false

namespace SimulationLoop

def lobby (l : SimulationLoop) : Lobby := l.simulation.lobby

def meet (l : SimulationLoop) : Happening → SimulationLoop
  | .reaches event => l.step event
  | .uses u =>
    { l with simulation := l.simulation.modifyLobby fun lobby =>
        { lobby with connections := lobby.connections.after u } }
  | .terminates client => { l with simulation := l.simulation.modifyLobby (·.terminate client) }

def meetAll (l : SimulationLoop) (hs : List Happening) : SimulationLoop := hs.foldl meet l

def comers (l : SimulationLoop) : Happening → List Bond
  | .reaches (.mail m) =>
    if l.running && l.listening then l.simulation.admitted m.client m.payload else []
  | _ => []

def allComers (l : SimulationLoop) : List Happening → List Bond
  | [] => []
  | e :: rest => l.comers e ++ (l.meet e).allComers rest

/-- The sessions that leave when something happens, as they then are. -/
def leavers (rules : GameRules) (l : SimulationLoop) : Happening → List Session
  | .reaches (.tick now) =>
    if l.running then l.simulation.departures rules (.tick (.ofMillis (now - l.lastTick))) else []
  | .reaches .ticksEnded =>
    if l.running then l.lobby.endings (l.lobby.sessions.sessions.map (·.connection)) else []
  | _ => []

def allLeavers (rules : GameRules) (l : SimulationLoop) : List Happening → List Session
  | [] => []
  | e :: rest => l.leavers rules e ++ (l.meet e).allLeavers rules rest

/-- The order of a loop: that of its lobby, while it runs that of its simulation, and afterwards that
nobody is registered. -/
structure Settled (rules : GameRules) (l : SimulationLoop) : Prop where
  consistent : l.lobby.Consistent
  regular : l.running = true → l.simulation.Regular rules
  vacant : l.running = false → l.lobby.roll = []

variable {rules : GameRules} {l : SimulationLoop} {hs before after : List Happening}

theorem settled_start (now : Instant) (setup : SimulationSetup) :
    (start now (.new setup .empty)).Settled setup.rules :=
  ⟨Lobby.consistent_empty, fun _ => Simulation.regular_new setup, nofun⟩

theorem meetAll_append (l : SimulationLoop) (before after : List Happening) :
    l.meetAll (before ++ after) = (l.meetAll before).meetAll after := List.foldl_append

/-! ## What reaches the loop -/

theorem step_of_ended (hl : l.running = false) (event : LoopEvent) : l.step event = l :=
  if_pos (by rw [hl]; rfl)

theorem step_tick (hl : l.running = true) (now : Instant) : l.step (.tick now) =
    { l with
      simulation := (l.simulation.tick (.ofMillis (now - l.lastTick))).2
      lastTick := now } := if_neg (by rw [hl]; nofun)

theorem step_mail (hl : l.running = true) (m : Mail Inbound) : l.step (.mail m) =
    if l.listening then { l with simulation := l.simulation.handle m.client m.payload } else l :=
  if_neg (by rw [hl]; nofun)

theorem step_mailboxEnded (hl : l.running = true) :
    l.step .mailboxEnded = { l with listening := false } := if_neg (by rw [hl]; nofun)

theorem step_ticksEnded (hl : l.running = true) :
    l.step .ticksEnded = { l with simulation := l.simulation.finish, running := false } :=
  if_neg (by rw [hl]; nofun)

theorem running_ticksEnded (l : SimulationLoop) : (l.step .ticksEnded).running = false := by
  cases hl : l.running with
  | false => exact (congrArg running (step_of_ended hl _)).trans hl
  | true => rw [step_ticksEnded hl]

/-! ## Nothing reaches a loop that has ended -/

theorem ended_meet (hl : l.running = false) (e : Happening) : (l.meet e).running = false := by
  cases e with
  | reaches event => exact (congrArg running (step_of_ended hl event)).trans hl
  | uses u => exact hl
  | terminates client => exact hl

theorem ended_meetAll (hl : l.running = false) (hs : List Happening) :
    (l.meetAll hs).running = false := by
  induction hs generalizing l with
  | nil => exact hl
  | cons e rest ih => exact ih (ended_meet hl e)

theorem comers_of_ended (hl : l.running = false) (e : Happening) : l.comers e = [] := by
  unfold comers
  split
  · exact if_neg (by rw [hl]; nofun)
  · rfl

theorem leavers_of_ended (hl : l.running = false) (e : Happening) : l.leavers rules e = [] := by
  unfold leavers
  split
  · exact if_neg (by rw [hl]; nofun)
  · exact if_neg (by rw [hl]; nofun)
  · rfl

theorem allComers_of_ended (hl : l.running = false) (hs : List Happening) :
    l.allComers hs = [] := by
  induction hs generalizing l with
  | nil => rfl
  | cons e rest ih =>
      rw [allComers, comers_of_ended hl, ih (ended_meet hl e)]
      rfl

/-! ## One thing happens -/

theorem Settled.quiet (h : l.Settled rules) {f : Lobby → Lobby}
    (hf : l.lobby.Turnover [] [] (f l.lobby)) (hroll : (f l.lobby).roll = l.lobby.roll) :
    let l' := { l with simulation := l.simulation.modifyLobby f }
    l.lobby.Turnover [] [] l'.lobby ∧ l'.Settled rules :=
  ⟨hf, hf.consistent, fun hrunning => (h.regular hrunning).modifyLobby f hroll,
    fun hended => hroll.trans (h.vacant hended)⟩

theorem Settled.step (h : l.Settled rules) (event : LoopEvent) :
    l.lobby.Turnover (l.comers (.reaches event)) (l.leavers rules (.reaches event))
      (l.step event).lobby ∧ (l.step event).Settled rules := by
  cases hl : l.running with
  | false =>
      rw [step_of_ended hl, comers_of_ended hl, leavers_of_ended hl]
      exact ⟨.refl h.consistent, h⟩
  | true =>
      have hregular := h.regular hl
      have hbusy : ∀ {l' : SimulationLoop}, l'.running = l.running → l'.running = false →
          l'.lobby.roll = [] := by
        intro l' hsame hended
        rw [hsame, hl] at hended
        cases hended
      cases event with
      | tick now =>
          have hturnover := hregular.turnover_tick h.consistent (.ofMillis (now - l.lastTick))
          have hleavers : l.leavers rules (.reaches (.tick now)) =
              l.simulation.departures rules (.tick (.ofMillis (now - l.lastTick))) := if_pos hl
          rw [hleavers, step_tick hl]
          exact ⟨hturnover, hturnover.consistent, fun _ => hregular.tick _, hbusy rfl⟩
      | mail m =>
          rw [step_mail hl]
          cases hlistening : l.listening with
          | false =>
              have hcomers : l.comers (.reaches (.mail m)) = [] :=
                if_neg (by rw [hl, hlistening]; nofun)
              rw [hcomers]
              exact ⟨.refl h.consistent, h⟩
          | true =>
              have hcomers : l.comers (.reaches (.mail m)) =
                  l.simulation.admitted m.client m.payload := if_pos (by rw [hl, hlistening]; rfl)
              have hturnover := Simulation.turnover_handle h.consistent m.client m.payload
              rw [hcomers]
              exact ⟨hturnover, hturnover.consistent,
                fun _ => hregular.step (.mail m.client m.payload), hbusy rfl⟩
      | mailboxEnded =>
          rw [step_mailboxEnded hl]
          exact ⟨.refl h.consistent, h.consistent, fun _ => hregular, hbusy rfl⟩
      | ticksEnded =>
          have hturnover := Simulation.turnover_finish h.consistent
          have hleavers : l.leavers rules (.reaches .ticksEnded) =
              l.lobby.endings (l.lobby.sessions.sessions.map (·.connection)) := if_pos hl
          rw [hleavers, step_ticksEnded hl]
          refine ⟨hturnover, hturnover.consistent, nofun, fun _ => ?_⟩
          exact congrArg (List.map Session.bond) l.simulation.sessions_finish

theorem Settled.meet (h : l.Settled rules) (e : Happening) :
    l.lobby.Turnover (l.comers e) (l.leavers rules e) (l.meet e).lobby ∧
      (l.meet e).Settled rules := by
  cases e with
  | reaches event => exact h.step event
  | uses u =>
      have hages := Connections.ages_after h.consistent.numbered u
      exact h.quiet (f := fun lobby => { lobby with connections := lobby.connections.after u })
        (h.consistent.withConnections hages) rfl
  | terminates client =>
      exact h.quiet (f := (·.terminate client)) (h.consistent.terminate client)
        (l.lobby.roll_terminate client)

/-! ## Everything that happens -/

theorem Settled.meetAll (h : l.Settled rules) (hs : List Happening) :
    l.lobby.Turnover (l.allComers hs) (l.allLeavers rules hs) (l.meetAll hs).lobby ∧
      (l.meetAll hs).Settled rules := by
  induction hs generalizing l with
  | nil => exact ⟨.refl h.consistent, h⟩
  | cons e rest ih =>
      obtain ⟨hfirst, hsettled⟩ := h.meet e
      obtain ⟨hrest, hlast⟩ := ih hsettled
      exact ⟨hfirst.trans hrest, hlast⟩

/-! ## The mailbox -/

/-- The loop as it is when it no longer looks into its mailbox. -/
def deaf (l : SimulationLoop) : SimulationLoop := { l with listening := false }

/-- Mail does not reach a deaf loop. -/
theorem meet_deaf_of_isMail {e : Happening} (he : e.isMail = true) : l.deaf.meet e = l.deaf := by
  unfold Happening.isMail at he
  split at he
  · next m =>
      show l.deaf.step (.mail m) = l.deaf
      cases hl : l.running with
      | false => exact step_of_ended (l := l.deaf) hl _
      | true => exact (step_mail (l := l.deaf) hl m).trans (if_neg nofun)
  · cases he

/-- Everything else reaches it as before. -/
theorem meet_deaf {e : Happening} (he : l.running = false ∨ e.isMail = false) :
    l.deaf.meet e = (l.meet e).deaf := by
  cases e with
  | uses u => rfl
  | terminates client => rfl
  | reaches event =>
      show l.deaf.step event = (l.step event).deaf
      cases hl : l.running with
      | false => rw [step_of_ended hl, step_of_ended (l := l.deaf) hl]
      | true =>
          have hl' : l.deaf.running = true := hl
          cases event with
          | mail m =>
              rcases he with he | he
              · rw [hl] at he
                cases he
              · cases he
          | tick now =>
              rw [step_tick hl, step_tick hl']
              rfl
          | mailboxEnded =>
              rw [step_mailboxEnded hl, step_mailboxEnded hl']
              rfl
          | ticksEnded =>
              rw [step_ticksEnded hl, step_ticksEnded hl']
              rfl

theorem meetAll_deaf_of_ended (hl : l.running = false) (hs : List Happening) :
    l.deaf.meetAll hs = (l.meetAll hs).deaf := by
  induction hs generalizing l with
  | nil => rfl
  | cons e rest ih =>
      show (l.deaf.meet e).meetAll rest = _
      rw [meet_deaf (.inl hl)]
      exact ih (ended_meet hl e)

/-- Without its mailbox a loop does what it would do if no mail came. -/
theorem meetAll_deaf (l : SimulationLoop) (hs : List Happening) :
    l.deaf.meetAll hs = (l.meetAll (hs.filter (!·.isMail))).deaf := by
  induction hs generalizing l with
  | nil => rfl
  | cons e rest ih =>
      show (l.deaf.meet e).meetAll rest = _
      cases he : e.isMail with
      | true =>
          rw [meet_deaf_of_isMail he, List.filter_cons_of_neg (by rw [he]; nofun)]
          exact ih l
      | false =>
          rw [meet_deaf (.inr he), List.filter_cons_of_pos (by rw [he]; rfl)]
          exact ih (l.meet e)

/-- The end of the mailbox stops the mail and nothing else. -/
theorem deaf_meetAll_mailboxEnded (l : SimulationLoop) (hs : List Happening) :
    ((l.step .mailboxEnded).meetAll hs).deaf = (l.meetAll (hs.filter (!·.isMail))).deaf := by
  rw [← meetAll_deaf]
  cases hl : l.running with
  | false => rw [step_of_ended hl, meetAll_deaf_of_ended hl]
  | true =>
      have hdeaf : l.step .mailboxEnded = l.deaf := step_mailboxEnded hl
      rw [hdeaf, meetAll_deaf]
      rfl

/-! ## The end -/

structure Concludes (rules : GameRules) (l : SimulationLoop) (before after : List Happening) :
    Prop where
  /-- The loop has ended. -/
  ended : (l.meetAll (before ++ .reaches .ticksEnded :: after)).running = false
  /-- Nobody is registered. -/
  nobody : (l.meetAll (before ++ .reaches .ticksEnded :: after)).lobby.sessions.sessions = []
  /-- Those who left are those who were ever let in. -/
  accounted : ((l.allLeavers rules (before ++ .reaches .ticksEnded :: after)).map
    Session.bond).Perm (l.allComers (before ++ .reaches .ticksEnded :: after))
  /-- The session of each is spent, whatever is still done to it, and its connection is closed. -/
  spent : ∀ x ∈ l.allLeavers rules (before ++ .reaches .ticksEnded :: after),
    (∀ us : List SessionUse, (us.foldl Session.use x).Spent) ∧
      ∃ k, (l.meetAll (before ++ .reaches .ticksEnded :: after)).lobby.connections.find?
        x.connection = some k ∧ k.closed = true
  /-- Nobody is let in after the end. -/
  shut : (l.meetAll (before ++ [.reaches .ticksEnded])).allComers after = []
  /-- Where the mailbox ends first, the loop goes on as it would if no mail came, but for not looking
  into its mailbox. -/
  deaf : ∀ hs, (((l.meetAll before).step .mailboxEnded).meetAll hs).deaf =
    ((l.meetAll before).meetAll (hs.filter (!·.isMail))).deaf

/-- Whatever happens to a new simulation and in whatever order, its end leaves nobody behind. -/
theorem start_concludes (now : Instant) (setup : SimulationSetup) (before after : List Happening) :
    (start now (.new setup .empty)).Concludes setup.rules before after := by
  let l := start now (.new setup .empty)
  let hs := before ++ .reaches .ticksEnded :: after
  obtain ⟨hturnover, hsettled⟩ := (settled_start now setup).meetAll hs
  have hended : (l.meetAll (before ++ [.reaches .ticksEnded])).running = false := by
    rw [meetAll_append]
    exact (l.meetAll before).running_ticksEnded
  have hsplit : l.meetAll hs = (l.meetAll (before ++ [.reaches .ticksEnded])).meetAll after := by
    rw [← meetAll_append, List.append_assoc]
    rfl
  have hlast : (l.meetAll hs).running = false := hsplit ▸ ended_meetAll hended after
  have hroll : (l.meetAll hs).lobby.roll = [] := hsettled.vacant hlast
  refine ⟨hlast, List.map_eq_nil_iff.mp hroll, ?_, fun x hx => ⟨fun us => ?_, ?_⟩,
    allComers_of_ended hended after, deaf_meetAll_mailboxEnded _⟩
  · have hperm := hturnover.perm
    rw [hroll] at hperm
    exact hperm
  · have hspent := (hturnover.spent x hx).1
    rw [hspent.foldl_use]
    exact hspent
  · obtain ⟨-, hopened, hclosed⟩ := hturnover.spent x hx
    obtain ⟨k, hk⟩ := Option.isSome_iff_exists.mp (Connections.isSome_find?.mpr hopened)
    refine ⟨k, hk, ?_⟩
    unfold Connections.isClosed at hclosed
    rw [hk] at hclosed
    exact hclosed

end SimulationLoop

end Realm
