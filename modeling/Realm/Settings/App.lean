import Realm.Settings.Server
import Realm.Text.Quoted
import Realm.Toml.Document

/-!
# Settings files

The file that an operator writes: where to listen, the sections of the server, the accounts that
exist from the start, and how much is logged. Reading a file judges only its form; whether a server
can run with it is judged by `AppSettings.check`.
-/

namespace Realm.Settings

open Toml (Value)

structure Seed where
  username : String
  password : String
  deriving DecidableEq, Repr

structure LoggingSection where
  level : String
  json : Bool
  deriving DecidableEq, Repr

structure AppSettings where
  /-- As it was written. -/
  address : String
  maxConnections : Nat
  /-- In seconds. -/
  idleTimeout : Nat
  maxPacket : Nat
  simulation : SimulationSection
  sessions : SessionSection
  router : RouterSection
  accounts : AccountSection
  seeds : List Seed
  logging : LoggingSection
  deriving DecidableEq, Repr

namespace AppSettings

def default : AppSettings :=
  ⟨defaultAddress, defaultConnections, defaultIdle, defaultPacket, .default, .default, .default,
    .default, [], ⟨"info", false⟩⟩

/-! ## Reading -/

def seed? (v : Value) : Option Seed := do
  let s ← Section.ofValue? ["username", "password"] true v
  some ⟨← s.required "username" text?, ← s.required "password" text?⟩

def seeds? : Value → Option (List Seed)
  | .list _ items => items.mapM seed?
  | _ => none

/-- The section of accounts, which is never a list. -/
def accounts? : Value → Option (AccountSection × List Seed)
  | .list _ _ => none
  | v => do
    let s ← Section.ofValue? [] true v
    some (← AccountSection.ofSection? s, ← s.optional "seed" seeds? [])

def logging? (v : Value) : Option LoggingSection := do
  let s ← Section.ofValue? ["level", "json_format"] true v
  some ⟨← s.required "level" text?, ← s.optional "json_format" flag? false⟩

def serverNames : List String :=
  ["bind_address", "max_connections", "idle_timeout_secs", "max_packet_size"]

def ofEntries? (entries : Toml.Entries) : Option AppSettings := do
  let top ← Section.ofValue? [] true (.ofEntries entries)
  let server ← top.required "server" (Section.ofValue? serverNames true)
  let (accounts, seeds) ← top.optional "accounts" accounts? (.default, [])
  some
    { address := ← server.required "bind_address" text?
      maxConnections := ← server.optional "max_connections" number? defaultConnections
      idleTimeout := ← server.optional "idle_timeout_secs" number? defaultIdle
      maxPacket := ← server.optional "max_packet_size" number? defaultPacket
      simulation := ← top.optional "simulation" (SimulationSection.ofValue? true) .default
      sessions := ← top.optional "sessions" (SessionSection.ofValue? true) .default
      router := ← top.optional "router" (RouterSection.ofValue? true) .default
      accounts
      seeds
      logging := ← top.required "logging" logging? }

inductive LoadError where
  /-- It is no text, or could not be read or written. -/
  | io
  /-- It is no document, or a member is missing or of the wrong type. -/
  | malformed
  deriving DecidableEq, Repr

def ofText (text : String) : Except LoadError AppSettings :=
  match (Toml.read? text).bind ofEntries? with
  | some settings => .ok settings
  | none => .error .malformed

def ofBytes (bytes : List UInt8) : Except LoadError AppSettings :=
  match String.fromUTF8? ⟨bytes.toArray⟩ with
  | some text => ofText text
  | none => .error .io

/-! ## Writing -/

/-- The value of settings; `unset` stands for a number of workers that is left to the machine. -/
def sections (unset : Value) (s : AppSettings) : List (String × Toml.Entries) :=
  let numbers := fun (names : List String) (numbers : List Nat) =>
    names.zip (numbers.map fun n : Nat => Value.integer n)
  let seeds := s.seeds.map fun seed =>
    Value.ofEntries [("username", .text seed.username), ("password", .text seed.password)]
  [("server", serverNames.zip
      [.text s.address, .integer s.maxConnections, .integer s.idleTimeout, .integer s.maxPacket]),
    ("simulation", numbers SimulationSection.names s.simulation.numbers),
    ("sessions", numbers SessionSection.names s.sessions.numbers),
    ("router", numbers RouterSection.names s.router.numbers),
    ("accounts", s.accounts.entries unset ++ [("seed", .list false seeds)]),
    ("logging", [("level", .text s.logging.level), ("json_format", .flag s.logging.json)])]

def toValue (unset : Value) (s : AppSettings) : Value :=
  .ofEntries ((s.sections unset).map fun (name, entries) => (name, .ofEntries entries))

def writeChar (c : Char) : String :=
  if c = '"' then "\\\"" else if c = '\\' then "\\\\"
  else if c < ' ' ∨ c = '\x7f' then
    let digits := Nat.toDigits 16 c.toNat
    "\\u" ++ String.ofList (List.replicate (4 - digits.length) '0' ++ digits)
  else c.toString

def writeText (text : String) : String :=
  "\"" ++ String.join (text.toList.map writeChar) ++ "\""

def writeScalar : Value → String
  | .text text => writeText text
  | .integer n => toString n
  | .flag value => if value then "true" else "false"
  | _ => "[]"

def writeEntry (key : String) (v : Value) : List String := [key ++ " = " ++ writeScalar v]

/-- The lines of the accounts, each a table of its own. -/
def writeSeeds (seeds : List Seed) : List String :=
  seeds.flatMap fun seed =>
    ["", "[[accounts.seed]]", "username = " ++ writeText seed.username,
      "password = " ++ writeText seed.password]

/-- The lines of a file with these settings, given the number of processors: a section after the
other, with an empty line between them. -/
def lines (processors : Nat) (s : AppSettings) : List String :=
  let write := fun (name : String) (entries : Toml.Entries) =>
    let entries := if s.seeds.isEmpty then entries else entries.filter fun e => e.1 ≠ "seed"
    ("[" ++ name ++ "]") :: entries.flatMap (fun e => writeEntry e.1 e.2)
      ++ (if name = "accounts" then writeSeeds s.seeds else [])
  ((s.sections (.integer processors)).map fun (name, entries) => write name entries).foldl
    (fun written next => if written.isEmpty then next else written ++ "" :: next) []

def toText (processors : Nat) (s : AppSettings) : String :=
  String.join ((s.lines processors).map (· ++ "\n"))

/-- The settings with the number of workers set, if it was left to the machine. -/
def fixWorkers (processors : Nat) (s : AppSettings) : AppSettings :=
  { s with accounts.workers := some (s.accounts.workers.getD processors) }

/-- The settings of a file, given its bytes if it exists. One that does not is written with the
settings by default, if it can be. -/
def load (file : Option (List UInt8)) (writable : Bool) : Except LoadError AppSettings :=
  match file with
  | some bytes => ofBytes bytes
  | none => if writable then .ok default else .error .io

/-! ## Checks -/

def levels : List String := ["trace", "debug", "info", "warn", "error"]

/-- Why no server can be made of settings. -/
inductive Fault where
  | address (written : String)
  | level (written : String)
  | namelessSeed
  | server (fault : ServerSettings.Fault)
  deriving DecidableEq, Repr

def Fault.message : Fault → String
  | .address written => s!"Invalid bind address: {written}"
  | .level written => s!"Invalid log level: {written}. Must be one of: {Text.quotedList levels}"
  | .namelessSeed => "accounts.seed entries need a username"
  | .server fault => fault.toError.message

def atAddress (s : AppSettings) (address : SocketAddress) : ServerSettings :=
  ⟨address, s.maxConnections, s.idleTimeout, s.maxPacket, s.simulation, s.sessions, s.router,
    s.accounts⟩

/-- The settings of the server, or what is wrong with its address. -/
def toServer (s : AppSettings) : Except String ServerSettings :=
  match SocketAddress.ofString? s.address with
  | some address => .ok (s.atAddress address)
  | none => .error s!"Invalid bind address '{s.address}': invalid socket address syntax"

def check (s : AppSettings) : Except Fault Unit :=
  match SocketAddress.ofString? s.address with
  | none => .error (.address s.address)
  | some address =>
    if s.logging.level ∉ levels then .error (.level s.logging.level)
    else if s.seeds.any fun seed => seed.username.isEmpty then .error .namelessSeed
    else (s.atAddress address).check.mapError .server

/-- What keeps an application from being made of settings. -/
def refusal? (s : AppSettings) : Option String :=
  match s.check with
  | .ok () => none
  | .error fault => some s!"Configuration validation failed: {fault.message}"

/-- The parts of the program whose messages follow the level of the settings. -/
def logTargets : List String := ["lodestone", "game_server", "lodestone_core"]

/-- Which messages are logged at a level; those of others only from warnings on. -/
def logFilter (level : String) : String :=
  String.join ("warn" :: logTargets.map fun target => s!",{target}={level}")

end AppSettings

end Realm.Settings
