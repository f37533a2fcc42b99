import Realm.Account.Authenticator
import Realm.Net.Address
import Realm.Router.Basic
import Realm.Server.Error
import Realm.Server.Uplink
import Realm.Settings.Section
import Realm.Simulation.Basic

/-!
# Server settings

Everything that shapes a server: its address, its limits, and a section for each of its parts.
Members that are not given have defaults. Settings are checked before a server starts: most
numbers must not be zero, and the first that is one is reported.
-/

namespace Realm.Settings

open Toml (Value)

structure SimulationSection where
  tickInterval : Nat
  entityCapacity : Nat
  commandsPerTick : Nat
  movementInterval : Nat
  deriving DecidableEq, Repr

structure SessionSection where
  commandCapacity : Nat
  eventCapacity : Nat
  writerCapacity : Nat
  deriving DecidableEq, Repr

structure RouterSection where
  publishTimeout : Nat
  mailboxCapacity : Nat
  deriving DecidableEq, Repr

structure AccountSection where
  /-- The number of workers; without it there is one for each processor. -/
  workers : Option Nat
  jobCapacity : Nat
  consumeTimeout : Nat
  fetchTimeout : Nat
  maxPending : Nat
  deriving DecidableEq, Repr

structure ServerSettings where
  address : SocketAddress
  maxConnections : Nat
  /-- In seconds. -/
  idleTimeout : Nat
  maxPacket : Nat
  simulation : SimulationSection
  sessions : SessionSection
  router : RouterSection
  accounts : AccountSection
  deriving DecidableEq, Repr

/-! ## Defaults -/

/-- Twenty ticks each second. -/
def SimulationSection.default : SimulationSection := ⟨50, 4096, 8, 100⟩

def SessionSection.default : SessionSection := ⟨64, 256, 512⟩

def RouterSection.default : RouterSection := ⟨100, 1024⟩

def AccountSection.default : AccountSection := ⟨none, 64, 500, 2000, 256⟩

def defaultConnections : Nat := 1000

/-- The seconds a connection may be silent by default. -/
def defaultIdle : Nat := 60

def defaultPacket : Nat := 4096

def defaultAddress : String := "127.0.0.1:7777"

/-! ## Values -/

namespace SimulationSection

def names : List String :=
  ["tick_interval_ms", "entity_capacity", "commands_per_tick", "movement_interval_ms"]

def numbers (s : SimulationSection) : List Nat :=
  [s.tickInterval, s.entityCapacity, s.commandsPerTick, s.movementInterval]

def ofValue? (surplus : Bool) (v : Value) : Option SimulationSection := do
  let s ← Section.ofValue? names surplus v
  some ⟨← s.optional "tick_interval_ms" number? default.tickInterval,
    ← s.optional "entity_capacity" (word? UInt32.size) default.entityCapacity,
    ← s.optional "commands_per_tick" number? default.commandsPerTick,
    ← s.optional "movement_interval_ms" number? default.movementInterval⟩

end SimulationSection

namespace SessionSection

def names : List String :=
  ["command_queue_capacity", "event_queue_capacity", "writer_queue_capacity"]

def numbers (s : SessionSection) : List Nat :=
  [s.commandCapacity, s.eventCapacity, s.writerCapacity]

def ofValue? (surplus : Bool) (v : Value) : Option SessionSection := do
  let s ← Section.ofValue? names surplus v
  some ⟨← s.optional "command_queue_capacity" number? default.commandCapacity,
    ← s.optional "event_queue_capacity" number? default.eventCapacity,
    ← s.optional "writer_queue_capacity" number? default.writerCapacity⟩

end SessionSection

namespace RouterSection

def names : List String := ["publish_timeout_ms", "mailbox_capacity"]

def numbers (s : RouterSection) : List Nat := [s.publishTimeout, s.mailboxCapacity]

def ofValue? (surplus : Bool) (v : Value) : Option RouterSection := do
  let s ← Section.ofValue? names surplus v
  some ⟨← s.optional "publish_timeout_ms" number? default.publishTimeout,
    ← s.optional "mailbox_capacity" number? default.mailboxCapacity⟩

end RouterSection

namespace AccountSection

def names : List String :=
  ["workers", "job_queue_capacity", "job_consume_timeout_ms", "fetch_timeout_ms",
    "max_pending_logins"]

/-- The numbers of the members after the first, in the same order. -/
def numbers (s : AccountSection) : List Nat :=
  [s.jobCapacity, s.consumeTimeout, s.fetchTimeout, s.maxPending]

def ofSection? (s : Section) : Option AccountSection := do
  some ⟨← s.optional "workers" (fun v => (number? v).map some) default.workers,
    ← s.optional "job_queue_capacity" number? default.jobCapacity,
    ← s.optional "job_consume_timeout_ms" number? default.consumeTimeout,
    ← s.optional "fetch_timeout_ms" number? default.fetchTimeout,
    ← s.optional "max_pending_logins" number? default.maxPending⟩

def ofValue? (surplus : Bool) (v : Value) : Option AccountSection :=
  (Section.ofValue? names surplus v).bind ofSection?

/-- The members with their values; `unset` stands for a number of workers that is left to the
machine. -/
def entries (unset : Value) (s : AccountSection) : Toml.Entries :=
  names.zip ((s.workers.elim unset fun n => .integer n) ::
    s.numbers.map fun n : Nat => .integer n)

end AccountSection

def numberTable (names : List String) (numbers : List Nat) : Value :=
  .ofEntries (names.zip (numbers.map fun n : Nat => .integer n))

namespace ServerSettings

def names : List String :=
  ["bind_address", "max_connections", "idle_timeout_secs", "max_packet_size", "simulation",
    "sessions", "router", "accounts"]

def address? (v : Value) : Option SocketAddress := (text? v).bind SocketAddress.ofString?

/-- Reads settings, all members of which must be there. -/
def ofValue? (v : Value) : Option ServerSettings := do
  let s ← Section.ofValue? names false v
  some ⟨← s.required "bind_address" address?, ← s.required "max_connections" number?,
    ← s.required "idle_timeout_secs" number?, ← s.required "max_packet_size" number?,
    ← s.required "simulation" (SimulationSection.ofValue? false),
    ← s.required "sessions" (SessionSection.ofValue? false),
    ← s.required "router" (RouterSection.ofValue? false),
    ← s.required "accounts" (AccountSection.ofValue? false)⟩

def toValue (unset : Value) (s : ServerSettings) : Value :=
  .ofEntries (names.zip
    [.text s.address.display, .integer s.maxConnections, .integer s.idleTimeout,
      .integer s.maxPacket, numberTable SimulationSection.names s.simulation.numbers,
      numberTable SessionSection.names s.sessions.numbers,
      numberTable RouterSection.names s.router.numbers, .ofEntries (s.accounts.entries unset)])

def default : ServerSettings :=
  ⟨(SocketAddress.ofString? defaultAddress).getD Inhabited.default, defaultConnections,
    defaultIdle, defaultPacket, .default, .default, .default, .default⟩

/-! ## Checks -/

inductive Fault where
  | zero (member : String)
  /-- The longest payload has more bytes than a length can tell. -/
  | packetTooLong
  deriving DecidableEq, Repr

def Fault.toError : Fault → ServerError
  | .zero member => .config s!"{member} must be greater than zero"
  | .packetTooLong => .config "max_packet_size does not fit a length prefix"

/-- The members that must not be zero, in the order they are looked at. -/
def positives (s : ServerSettings) : List (String × Nat) :=
  let inSection := fun (name : String) (names : List String) (numbers : List Nat) =>
    (names.map fun member => name ++ "." ++ member).zip numbers
  [("max_connections", s.maxConnections), ("idle_timeout_secs", s.idleTimeout),
    ("max_packet_size", s.maxPacket)]
    ++ inSection "simulation" SimulationSection.names s.simulation.numbers
    ++ inSection "sessions" SessionSection.names s.sessions.numbers
    ++ inSection "router" RouterSection.names s.router.numbers
    ++ inSection "accounts" ["workers", "job_queue_capacity", "max_pending_logins"]
      [s.accounts.workers.getD 1, s.accounts.jobCapacity, s.accounts.maxPending]

def check (s : ServerSettings) : Except Fault Unit :=
  match s.positives.find? fun member => member.2 = 0 with
  | some (member, _) => .error (.zero member)
  | none => if UInt32.size ≤ s.maxPacket then .error .packetTooLong else .ok ()

/-! ## What the parts of a server are set up with -/

def idle (s : ServerSettings) : Duration := .ofSeconds s.idleTimeout

def tick (s : ServerSettings) : Duration := .ofMillis s.simulation.tickInterval

def movement (s : ServerSettings) : Duration := .ofMillis s.simulation.movementInterval

def routing (s : ServerSettings) : RouterConfig :=
  ⟨.ofMillis s.router.publishTimeout, s.router.mailboxCapacity⟩

def authentication (s : ServerSettings) : AuthLimits :=
  ⟨.ofMillis s.accounts.consumeTimeout, .ofMillis s.accounts.fetchTimeout⟩

/-- The time a login has from its arrival to its outcome. -/
def loginDeadline (s : ServerSettings) : Duration :=
  s.authentication.consume + s.authentication.fetch

def line (s : ServerSettings) : LineLimits := ⟨s.idle, s.maxPacket, s.loginDeadline⟩

def world (s : ServerSettings) : SimulationSetup :=
  ⟨UInt32.ofNat s.simulation.entityCapacity, ⟨s.simulation.commandsPerTick, s.movement⟩,
    ⟨s.sessions.commandCapacity, s.sessions.eventCapacity⟩⟩

end ServerSettings

end Realm.Settings
