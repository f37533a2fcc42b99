import Realm.Settings.Launch

/-!
# The program

Reads the command line and the settings file, writing one with the settings by default where there is
none, and reports the settings that a server is run with or why none is run.
-/

namespace Realm.Settings

/-- The number of processors that a new settings file is written for. -/
def assumedProcessors : Nat := 4

def loadFile (path : String) : IO (Except AppSettings.LoadError AppSettings) := do
  let bytes ← try some <$> IO.FS.readBinFile path catch _ => pure none
  match bytes with
  | some bytes => return AppSettings.load (some bytes.toList) true
  | none =>
    let writable ←
      try
        IO.FS.writeFile path (AppSettings.default.toText assumedProcessors)
        pure true
      catch _ => pure false
    return AppSettings.load none writable

def launch (arguments : List String) : IO UInt32 := do
  match CommandLine.parse arguments with
  | .error stop =>
    stop.lines.forM fun line => if stop.isAnswer then IO.println line else IO.eprintln line
    return stop.exitCode
  | .ok commandLine =>
    match ← loadFile commandLine.config with
    | .error e =>
      IO.eprintln s!"Failed to load {commandLine.config}: {e.message}"
      return 1
    | .ok settings =>
      let settings := commandLine.applyTo settings
      match settings.refusal? with
      | some reason =>
        IO.eprintln s!"Failed to start application: {reason}"
        return 1
      | none =>
        settings.summary.forM fun line => IO.println line
        return 0

end Realm.Settings

def main (arguments : List String) : IO UInt32 := Realm.Settings.launch arguments
