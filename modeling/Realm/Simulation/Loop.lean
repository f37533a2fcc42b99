import Realm.Router.Basic
import Realm.Simulation.Basic

/-!
# The simulation loop

The loop owns the simulation and a mailbox. Ticks and mail reach it in any order, one at a time. A
tick advances the world by the time since the last one. When the mailbox ends only the mail
ends; when the ticks end, so does the simulation.
-/

namespace Realm

inductive LoopEvent where
  /-- A tick, taken at an instant. -/
  | tick (now : Instant)
  | mail (mail : Mail Inbound)
  /-- The mailbox is closed and empty. -/
  | mailboxEnded
  | ticksEnded

structure SimulationLoop where
  simulation : Simulation
  /-- The last tick, or else the start. -/
  lastTick : Instant
  /-- Whether the mailbox is still looked into. -/
  listening : Bool
  running : Bool

namespace SimulationLoop

def start (now : Instant) (simulation : Simulation) : SimulationLoop :=
  ⟨simulation, now, true, true⟩

/-- What the loop does when something reaches it. A loop that has ended is reached by nothing. -/
def step (l : SimulationLoop) (event : LoopEvent) : SimulationLoop :=
  if !l.running then l
  else match event with
    | .tick now =>
      { l with
        simulation := (l.simulation.tick (.ofMillis (now - l.lastTick))).2
        lastTick := now }
    | .mail mail =>
      if l.listening then { l with simulation := l.simulation.handle mail.client mail.payload }
      else l
    | .mailboxEnded => { l with listening := false }
    | .ticksEnded => { l with simulation := l.simulation.finish, running := false }

def run (l : SimulationLoop) (events : List LoopEvent) : SimulationLoop := events.foldl step l

/-- Takes the mail of a mailbox, as much of it as `rounds` allows. -/
def takeAll (mailbox : MailboxId) :
    (rounds : Nat) → SimulationLoop → Router Inbound → SimulationLoop × Router Inbound
  | 0, l, router => (l, router)
  | rounds + 1, l, router =>
    if !(l.running && l.listening) then (l, router)
    else match router.receive mailbox with
      | (.mail mail, router) => takeAll mailbox rounds (l.step (.mail mail)) router
      | (.ended, router) => (l.step .mailboxEnded, router)
      | (.nothing, router) => (l, router)

/-- Takes all mail of a mailbox and notices whether it has ended. -/
def serve (mailbox : MailboxId) (l : SimulationLoop) (router : Router Inbound) :
    SimulationLoop × Router Inbound :=
  takeAll mailbox (router.backlog mailbox + 1) l router

/-- Ends the ticks. The simulation ends every session and drops its mailbox. -/
def stop (mailbox : MailboxId) (l : SimulationLoop) (router : Router Inbound) :
    SimulationLoop × Router Inbound :=
  if l.running then (l.step .ticksEnded, (router.act mailbox .drop).2) else (l, router)

end SimulationLoop

end Realm
