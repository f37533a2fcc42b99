import Realm.Settings.App

/-!
# The command line

Every option but the path of the settings file replaces a setting of that file. Options are read from
left to right. One without its value takes the next argument, unless that looks like an option;
its value is judged when the next option begins or the arguments end, so that an argument which is
no option at all is reported first.
-/

namespace Realm.Settings

structure CommandLine where
  config : String
  address : Option String
  level : Option String
  json : Bool
  /-- In milliseconds. -/
  tick : Option Nat
  deriving DecidableEq, Repr

namespace CommandLine

inductive Stop where
  | unknownArgument
  /-- An option has no value. -/
  | missingValue
  | invalidValue
  /-- An option was given twice. -/
  | repeated
  /-- A value was given to an option that takes none. -/
  | surplusValue
  | help
  | version
  deriving DecidableEq, Repr

inductive Switch where
  | config
  | address
  | level
  | json
  | tick
  | help
  | version
  deriving DecidableEq, Repr

namespace Switch

def ofLong? : String → Option Switch
  | "config" => some .config
  | "bind" => some .address
  | "log-level" => some .level
  | "json-logs" => some .json
  | "tick-ms" => some .tick
  | "help" => some .help
  | "version" => some .version
  | _ => none

def ofShort? : Char → Option Switch
  | 'c' => some .config
  | 'b' => some .address
  | 'l' => some .level
  | 'h' => some .help
  | 'V' => some .version
  | _ => none

def takesValue : Switch → Bool
  | .config | .address | .level | .tick => true
  | .json | .help | .version => false

end Switch

structure State where
  /-- The options that were settled, with their values. -/
  settled : List (Switch × String)
  /-- The option whose value was not judged yet, with the value, if it came. -/
  open? : Option (Switch × Option String)
  /-- Whether no further options are recognised. -/
  trailing : Bool
  deriving Repr

/-- The number of milliseconds of a tick, which is not zero: digits, possibly with a plus sign. -/
def tick? (text : String) : Option Nat :=
  let digits := match text.toList with
    | '+' :: cs => cs
    | cs => cs
  if digits.isEmpty ∨ !digits.all Char.isDigit then none
  else
    let n := digits.foldl (fun n c => n * 10 + (c.toNat - '0'.toNat)) 0
    if 0 < n ∧ n < UInt64.size then some n else none

def settle (s : State) (switch : Switch) (value : String) : Except Stop State :=
  if s.settled.any fun entry => entry.1 = switch then .error .repeated
  else if switch = .tick ∧ (tick? value).isNone then .error .invalidValue
  else .ok { s with settled := s.settled ++ [(switch, value)] }

def close (s : State) : Except Stop State :=
  match s.open? with
  | none => .ok s
  | some (_, none) => .error .missingValue
  | some (switch, some value) => settle { s with open? := none } switch value

/-- Takes an option with the value that was attached to it, if there was one. -/
def take (s : State) (switch : Switch) (attached : Option String) : Except Stop State :=
  match switch.takesValue, attached with
  | true, some value => do settle (← close s) switch value
  | true, none => do pure { ← close s with open? := some (switch, none) }
  | false, some _ => .error .surplusValue
  | false, none => do
    let s ← close s
    match switch with
    | .help => .error .help
    | .version => .error .version
    | _ => settle s switch ""

def takeLetters (s : State) : List Char → Except Stop State
  | [] => .ok s
  | c :: cs =>
    match Switch.ofShort? c with
    | none => .error .unknownArgument
    | some switch =>
      if switch.takesValue then
        take s switch (match cs with
          | [] => none
          | '=' :: value => some (String.ofList value)
          | value => some (String.ofList value))
      else do takeLetters (← take s switch none) cs

def step (s : State) (argument : String) : Except Stop State :=
  match argument.toList with
  | '-' :: '-' :: cs =>
    if s.trailing then .error .unknownArgument
    else if cs.isEmpty then .ok { s with trailing := true }
    else
      let name := cs.takeWhile (· ≠ '=')
      let attached := match cs.drop name.length with
        | '=' :: value => some (String.ofList value)
        | _ => none
      match Switch.ofLong? (String.ofList name) with
      | some switch => take s switch attached
      | none => .error .unknownArgument
  | '-' :: c :: cs => if s.trailing then .error .unknownArgument else takeLetters s (c :: cs)
  | _ =>
    match s.trailing, s.open? with
    | false, some (switch, none) => .ok { s with open? := some (switch, some argument) }
    | _, _ => .error .unknownArgument

def parse (arguments : List String) : Except Stop CommandLine := do
  let s ← close (← arguments.foldlM step ⟨[], none, false⟩)
  let value? := fun switch => s.settled.lookup switch
  pure ⟨(value? .config).getD "config.toml", value? .address, value? .level,
    (value? .json).isSome, (value? .tick).bind tick?⟩

def applyTo (c : CommandLine) (s : AppSettings) : AppSettings :=
  { s with
    address := c.address.getD s.address
    logging := ⟨c.level.getD s.logging.level, c.json || s.logging.json⟩
    simulation.tickInterval := c.tick.getD s.simulation.tickInterval }

end CommandLine

end Realm.Settings
