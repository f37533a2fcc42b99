/-!
# Socket addresses

An address is an IPv4 address or an IPv6 address with a scope, and a port. The written form is
read strictly: octets have no leading zeros, a group of an IPv6 address has at most four digits,
at most one run of zero groups is left out, and nothing may follow the port. The form that is
shown leaves out the first longest run of at least two zero groups and shows addresses that stand
for an IPv4 address with that address at their end.
-/

namespace Realm

inductive SocketAddress where
  | v4 (octets : List Nat) (port : Nat)
  | v6 (groups : List Nat) (scope port : Nat)
  deriving DecidableEq, Repr, Inhabited

namespace SocketAddress

/-- A reader of the start of a text: what it read and the rest. -/
abbrev Parse (α : Type) := List Char → Option (α × List Char)

/-- The value of a digit in a base up to sixteen. -/
def digit? (base : Nat) (c : Char) : Option Nat :=
  let value :=
    if '0' ≤ c ∧ c ≤ '9' then some (c.toNat - '0'.toNat)
    else if 'a' ≤ c ∧ c ≤ 'f' then some (c.toNat - 'a'.toNat + 10)
    else if 'A' ≤ c ∧ c ≤ 'F' then some (c.toNat - 'A'.toNat + 10)
    else none
  value.filter (· < base)

/-- The number written by digits, most significant first. -/
def valueOf (base : Nat) (digits : List Char) : Nat :=
  digits.foldl (fun n c => n * base + (digit? base c).getD 0) 0

/-- Reads a number of at most `longest` digits (any number, if none) and of at most `greatest`.
A leading zero may be forbidden. -/
def number (base : Nat) (longest : Option Nat) (zeros : Bool) (greatest : Nat) : Parse Nat :=
  fun cs =>
    let digits := cs.takeWhile fun c => (digit? base c).isSome
    let value := valueOf base digits
    let fits := match longest with
      | some n => decide (digits.length ≤ n)
      | none => true
    if digits.isEmpty || !fits || (!zeros && digits.length > 1 && digits.head? == some '0')
        || value > greatest then none
    else some (value, cs.drop digits.length)

def char (c : Char) : Parse Unit
  | [] => none
  | d :: rest => if c = d then some ((), rest) else none

def octets : Parse (List Nat) := fun cs => do
  let octet := number 10 (some 3) false 255
  let (a, cs) ← octet cs
  let ((), cs) ← char '.' cs
  let (b, cs) ← octet cs
  let ((), cs) ← char '.' cs
  let (c, cs) ← octet cs
  let ((), cs) ← char '.' cs
  let (d, cs) ← octet cs
  pure ([a, b, c, d], cs)

/-- Reads at most `limit` groups, `first` telling whether one of them stands at the start. The
last two groups may be written as an IPv4 address, which ends the groups. Gives the groups and
whether an IPv4 address was among them. -/
def groups (limit : Nat) (first : Bool) (cs : List Char) : List Nat × Bool × List Char :=
  match limit with
  | 0 => ([], false, cs)
  | limit + 1 =>
    let start := if first then some ((), cs) else char ':' cs
    let embedded := if limit = 0 then none else start.bind fun ((), cs) => octets cs
    match embedded with
    | some ([a, b, c, d], cs) => ([a * 256 + b, c * 256 + d], true, cs)
    | _ =>
      match start.bind fun ((), cs) => number 16 (some 4) true 65535 cs with
      | none => ([], false, cs)
      | some (group, cs) =>
        let (rest, embedded, cs) := groups limit false cs
        (group :: rest, embedded, cs)

def ipv6 : Parse (List Nat) := fun cs => do
  let (front, embedded, cs) := groups 8 true cs
  if front.length = 8 then some (front, cs)
  else if embedded then none
  else
    let ((), cs) ← char ':' cs
    let ((), cs) ← char ':' cs
    let (back, _, cs) := groups (7 - front.length) true cs
    some (front ++ List.replicate (8 - front.length - back.length) 0 ++ back, cs)

def port : Parse Nat := fun cs => do
  let ((), cs) ← char ':' cs
  number 10 none true 65535 cs

/-- Reads a percent sign and a scope, or nothing for scope zero. -/
def scope : Parse Nat := fun cs =>
  match (char '%' cs).bind fun ((), cs) => number 10 none true (UInt32.size - 1) cs with
  | some r => some r
  | none => some (0, cs)

def readV4 : Parse SocketAddress := fun cs => do
  let (octets, cs) ← octets cs
  let (port, cs) ← port cs
  pure (.v4 octets port, cs)

def readV6 : Parse SocketAddress := fun cs => do
  let ((), cs) ← char '[' cs
  let (groups, cs) ← ipv6 cs
  let (scope, cs) ← scope cs
  let ((), cs) ← char ']' cs
  let (port, cs) ← port cs
  pure (.v6 groups scope port, cs)

def ofString? (text : String) : Option SocketAddress :=
  match (readV4 text.toList).or (readV6 text.toList) with
  | some (address, []) => some address
  | _ => none

/-- The start and length of the first longest run of zero groups. -/
def longestZeros (groups : List Nat) : Nat × Nat :=
  let step := fun (state : Nat × (Nat × Nat) × (Nat × Nat)) (group : Nat) =>
    let (position, current, longest) := state
    if group = 0 then
      let current := if current.2 = 0 then (position, 1) else (current.1, current.2 + 1)
      (position + 1, current, if longest.2 < current.2 then current else longest)
    else (position + 1, (0, 0), longest)
  (groups.foldl step (0, (0, 0), (0, 0))).2.2

def showGroups (groups : List Nat) : String :=
  String.intercalate ":" (groups.map fun group => String.ofList (Nat.toDigits 16 group))

def showOctets (octets : List Nat) : String := String.intercalate "." (octets.map toString)

def showIpv6 (groups : List Nat) : String :=
  match groups with
  | [0, 0, 0, 0, 0, 0xffff, high, low] =>
    "::ffff:" ++ showOctets [high / 256, high % 256, low / 256, low % 256]
  | _ =>
    let (start, length) := longestZeros groups
    if length > 1 then
      showGroups (groups.take start) ++ "::" ++ showGroups (groups.drop (start + length))
    else showGroups groups

def display : SocketAddress → String
  | .v4 octets port => s!"{showOctets octets}:{port}"
  | .v6 groups 0 port => s!"[{showIpv6 groups}]:{port}"
  | .v6 groups scope port => s!"[{showIpv6 groups}%{scope}]:{port}"

end SocketAddress

end Realm
