import Realm.Settings.CommandLine

/-!
# Starting the program

What an operator is told when the program starts: the options there are, why nothing is run, or
what the server is going to run with. Asking for help or for the version is no failure.
-/

namespace Realm.Settings

namespace CommandLine

def version : String := "0.1.0"

def usage : List String :=
  ["Tick-based multiplayer simulation server", "", "Options:",
    "  -c, --config <FILE>      Configuration file path [default: config.toml]",
    "  -b, --bind <ADDRESS>     Bind address (e.g., 127.0.0.1:7777)",
    "  -l, --log-level <LEVEL>  Log level (trace, debug, info, warn, error)",
    "      --json-logs          Output logs in JSON format",
    "      --tick-ms <MILLIS>   Simulation tick interval in milliseconds",
    "  -h, --help               Print help",
    "  -V, --version            Print version"]

namespace Stop

def isAnswer : Stop → Bool
  | .help | .version => true
  | _ => false

def lines : Stop → List String
  | .help => usage
  | .version => [CommandLine.version]
  | .unknownArgument => "unexpected argument" :: usage
  | .missingValue => "a value is required" :: usage
  | .invalidValue => "invalid value" :: usage
  | .repeated => "an option cannot be used multiple times" :: usage
  | .surplusValue => "unexpected value" :: usage

def exitCode (s : Stop) : UInt32 := if s.isAnswer then 0 else 2

end Stop

end CommandLine

namespace AppSettings

def LoadError.message : LoadError → String
  | .io => "it cannot be read or written as a text"
  | .malformed => "it is no settings document, or a setting is missing or of the wrong type"

def summary (s : AppSettings) : List String :=
  [s!"Bind address: {s.address}", s!"Max connections: {s.maxConnections}",
    s!"Tick: {s.simulation.tickInterval}ms | Movement: {s.simulation.movementInterval}ms",
    s!"Entity capacity: {s.simulation.entityCapacity}",
    s!"Seeded accounts: {s.seeds.length}"]

end AppSettings

end Realm.Settings
