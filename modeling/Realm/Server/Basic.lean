import Realm.Server.Admission
import Realm.Server.Handler
import Realm.Settings.Server
import Realm.Simulation.Loop

/-!
# The server

A server lets clients in, routes what they send, checks their logins and runs the simulation. The
parts share the router and the connections and do nothing else together; so a run of the server is
a list of steps of its parts, in any order, each at an instant.
-/

namespace Realm

open Settings (ServerSettings)

/-- A server. The connections are those of the simulation's lobby. -/
structure Server where
  settings : ServerSettings
  router : Router Inbound
  loop : SimulationLoop
  login : LoginService
  /-- The mailbox of the simulation. -/
  worldBox : MailboxId
  /-- The mailbox of the login service. -/
  loginBox : MailboxId
  /-- The clients that were let in and whose handler has not begun. -/
  expected : List SocketAddress
  handlers : List Handler
  /-- Whether clients are still let in. -/
  accepting : Bool

inductive ServerStep where
  /-- A client arrives. -/
  | arrival (address : SocketAddress)
  /-- The handler of the `n`-th expected client begins. -/
  | beginning (n : Nat)
  /-- A client sends bytes. -/
  | bytes (client : ConnectionId) (bytes : List UInt8)
  /-- A client stops writing. -/
  | hangUp (client : ConnectionId)
  /-- The handler of a client does what it can. -/
  | handling (client : ConnectionId)
  /-- The login service takes its mail and does what it can. -/
  | logins
  /-- The simulation takes its mail. -/
  | mail
  /-- The simulation takes a tick. -/
  | tick
  /-- The server stops. -/
  | shutdown

namespace Server

/-- The topics of the simulation's mailbox, apart from its first. -/
def furtherTopics : List Topic := [.chat, .authenticated]

/-- Every topic, in the order in which they are given up. -/
def topics : List Topic := [.commands, .chat, .authenticated, .login]

/-- A server that begins to serve at an instant, with as many workers as the settings say or else
one for each processor. -/
def start (now : Instant) (settings : ServerSettings) (storage : Storage) (processors : Nat) :
    Server :=
  let (worldBox, router) := (Router.new settings.routing).subscribe .commands
  let router := furtherTopics.foldl (fun r topic => r.attach topic worldBox) router
  let (loginBox, router) := router.subscribe .login
  let pool := Pool.start storage (settings.accounts.workers.getD processors)
    settings.accounts.jobCapacity
  { settings
    router
    loop := .start now (.new settings.world .empty)
    login := .start (.start settings.authentication pool) settings.accounts.maxPending
    worldBox
    loginBox
    expected := []
    handlers := []
    accepting := true }

def lobby (s : Server) : Lobby := s.loop.simulation.lobby

def withConnections (s : Server) (connections : Connections) : Server :=
  { s with loop.simulation := s.loop.simulation.modifyLobby ({ · with connections }) }

def hub (s : Server) : Hub := ⟨s.router, s.lobby.connections⟩

def withHub (s : Server) (hub : Hub) : Server :=
  { s.withConnections hub.connections with router := hub.router }

def admission (s : Server) : Admission :=
  ⟨s.settings.maxConnections, s.lobby.connections, s.expected⟩

def modifyHandler (s : Server) (client : ConnectionId) (f : Handler → Handler) : Server :=
  { s with handlers := s.handlers.map fun h => if h.client = client then f h else h }

def handler? (s : Server) (client : ConnectionId) : Option Handler :=
  s.handlers.find? fun h => h.client = client

/-- Ends the ticks, gives up every topic and closes every connection. -/
def shutdown (s : Server) : Server :=
  let (loop, router) := s.loop.stop s.worldBox s.router
  let s := { s with loop, router := topics.foldl Router.collapse router, accepting := false }
  s.withConnections s.lobby.connections.closeAll.2

def step (now : Instant) (s : Server) : ServerStep → Server
  | .arrival address =>
    if s.accepting then { s with expected := (s.admission.arrive address).expected } else s
  | .beginning n =>
    match s.admission.begin s.settings.sessions.writerCapacity n with
    | none => s
    | some (c, a) =>
      { s.withConnections a.connections with
        expected := a.expected
        handlers := s.handlers ++ [.start now c] }
  | .bytes client bytes => s.modifyHandler client fun h => (h.feed bytes).2
  | .hangUp client => s.modifyHandler client Handler.hangUp
  | .handling client =>
    match s.handler? client with
    | none => s
    | some h =>
      let (h, hub) := h.settle s.settings.line now s.hub
      (s.withHub hub).modifyHandler client fun _ => h
  | .logins =>
    let (login, hub) := s.login.serve now s.loginBox s.hub
    { s.withHub hub with login }
  | .mail =>
    let (loop, router) := s.loop.serve s.worldBox s.router
    { s with loop, router }
  | .tick => { s with loop := s.loop.step (.tick now) }
  | .shutdown => s.shutdown

def run (s : Server) (steps : List (Instant × ServerStep)) : Server :=
  steps.foldl (fun s (now, next) => s.step now next) s

def sizes (s : Server) : List Nat := topics.map s.router.sizeOf

end Server

end Realm
