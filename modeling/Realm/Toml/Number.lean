import Realm.Toml.Scan
import Realm.Toml.Value

/-!
# Numbers, dates and times of a settings document

What begins with a digit or a sign is a date or a time, a number with a fraction or an exponent,
or an integer, whichever fits first. Digits may be grouped by single underscores between them. An
integer must fit 64 bits with a sign, and a positive number with a fraction or an exponent must not
round to infinity.
-/

namespace Realm.Toml

/-- Digits to a base with underscores between them, at most `fuel` of either. -/
def digitsFor (base : Nat) : (fuel : Nat) → Scan (List Nat)
  | 0, _ => none
  | fuel + 1, cs =>
    match cs with
    | [] => none
    | c :: cs =>
      match digitOf? base c with
      | none => none
      | some d =>
        match cs with
        | '_' :: cs => (digitsFor base fuel cs).map fun (ds, cs) => (d :: ds, cs)
        | c :: _ =>
          if (digitOf? base c).isSome then
            (digitsFor base fuel cs).map fun (ds, cs) => (d :: ds, cs)
          else some ([d], cs)
        | [] => some ([d], [])

def digits (base : Nat) : Scan (List Nat) := fun cs => digitsFor base (cs.length + 1) cs

def sign : List Char → Bool × List Char
  | '-' :: cs => (true, cs)
  | '+' :: cs => (false, cs)
  | cs => (false, cs)

/-- The least number that is too great for an integer. -/
def integerLimit : Nat := 9223372036854775808

/-- Decimal digits without a zero in front of others. -/
def decimalDigits : Scan (List Nat)
  | '0' :: cs => some ([0], cs)
  | cs => digits 10 cs

/-! ## Numbers with a fraction or an exponent -/

/-- The least number that rounds to infinity. -/
def overflow : Nat := 1 <<< 1024 - 1 <<< 970

/-- Whether a number with these digits, of which `fraction` stand behind the point, times a power of
ten rounds to infinity. The number of its places decides unless it has as many as the greatest
numbers. -/
def overflows (digits : List Nat) (fraction : Nat) (exponent : Int) : Bool :=
  let significant := digits.dropWhile (· = 0)
  let places : Int := significant.length - fraction + exponent
  if significant.isEmpty ∨ places < 309 then false
  else if 309 < places then true
  else
    let n := numberOf 10 significant
    overflow * Nat.pow 10 (significant.length - 309) ≤ n * Nat.pow 10 (309 - significant.length)

/-- An exponent, if one begins here. A broken one fails. -/
def exponent? (cs : List Char) : Option (Option Int × List Char) :=
  match cs with
  | 'e' :: cs | 'E' :: cs => do
    let (minus, cs) := sign cs
    let (ds, cs) ← digits 10 cs
    let n := numberOf 10 ds
    some (some (if minus then -(n : Int) else n), cs)
  | _ => some (none, cs)

/-- A number that has digits, and then a fraction or an exponent or both, or else is an
integer. -/
def decimalOrInteger : Scan Value := fun cs => do
  let (minus, cs) := sign cs
  let (whole, cs) ← decimalDigits cs
  let (fraction, cs) ← match cs with
    | '.' :: cs => (digits 10 cs).map fun (ds, cs) => (some ds, cs)
    | _ => some (none, cs)
  let (exponent, cs) ← exponent? cs
  match fraction, exponent with
  | none, none =>
    let n := numberOf 10 whole
    if n < integerLimit + (if minus then 1 else 0) then
      some (.integer (if minus then -(n : Int) else n), cs)
    else none
  | _, _ =>
    let fraction := fraction.getD []
    if !minus ∧ overflows (whole ++ fraction) fraction.length (exponent.getD 0) then none
    else some (.decimal, cs)

def special : Scan Value := fun cs =>
  match (sign cs).2 with
  | 'i' :: 'n' :: 'f' :: cs => some (.decimal, cs)
  | 'n' :: 'a' :: 'n' :: cs => some (.decimal, cs)
  | _ => none

/-- An integer to another base, which has no sign. -/
def based (base : Nat) : Scan Value := fun cs => do
  let (ds, cs) ← digits base cs
  let n := numberOf base ds
  if n < integerLimit then some (.integer n, cs) else none

/-! ## Dates and times -/

def field (count low high : Nat) : Scan Nat := fun cs =>
  let ds := (cs.take count).filterMap (digitOf? 10)
  let n := numberOf 10 ds
  if ds.length = count ∧ low ≤ n ∧ n ≤ high then some (n, cs.drop count) else none

def expect (c : Char) : List Char → Option (List Char)
  | d :: cs => if c = d then some cs else none
  | [] => none

def daysOf (year month : Nat) : Nat :=
  if month = 2 then if (year % 4 = 0 ∧ year % 100 ≠ 0) ∨ year % 400 = 0 then 29 else 28
  else if month ∈ [4, 6, 9, 11] then 30 else 31

def monthAndDay (year : Nat) (cs : List Char) : Option (List Char) := do
  let (month, cs) ← field 2 1 12 cs
  let cs ← expect '-' cs
  let (_, cs) ← field 2 1 (daysOf year month) cs
  some cs

/-- The rest after the minute, the second and its fraction. -/
def minuteAndSecond (cs : List Char) : Option (List Char) := do
  let (_, cs) ← field 2 0 59 cs
  let cs ← expect ':' cs
  let (_, cs) ← field 2 0 60 cs
  match cs with
  | '.' :: cs =>
    let places := cs.takeWhile isDigit
    if places.isEmpty then none else some (cs.drop places.length)
  | _ => some cs

def hour? (cs : List Char) : Option (List Char) := do
  let (_, cs) ← field 2 0 23 cs
  expect ':' cs

/-- The rest after an offset from universal time, if one begins here. A broken one fails. -/
def offset (cs : List Char) : Option (List Char) :=
  match cs with
  | 'Z' :: cs | 'z' :: cs => some cs
  | '+' :: cs | '-' :: cs => do
    let cs ← hour? cs
    let (_, cs) ← field 2 0 59 cs
    some cs
  | _ => some cs

/-- The rest after a time that follows a date, if one does. -/
def timeOfDay (cs : List Char) : Option (List Char) :=
  match cs with
  | c :: rest =>
    if c = 'T' ∨ c = 't' ∨ c = ' ' then
      match hour? rest with
      | some rest => do
        let rest ← minuteAndSecond rest
        offset rest
      | none => some cs
    else some cs
  | [] => some []

def year? : Scan Nat := fun cs => do
  let (year, cs) ← field 4 0 9999 cs
  let cs ← expect '-' cs
  some (year, cs)

/-- What begins with a digit or a sign. Whatever begins like a date or a time must be one. -/
def number : Scan Value := fun cs =>
  match year? cs, hour? cs, cs with
  | some (year, cs), _, _ => do
    let cs ← monthAndDay year cs
    let cs ← timeOfDay cs
    some (.moment, cs)
  | none, some cs, _ => (minuteAndSecond cs).map fun cs => (.moment, cs)
  | none, none, '0' :: 'x' :: cs => based 16 cs
  | none, none, '0' :: 'o' :: cs => based 8 cs
  | none, none, '0' :: 'b' :: cs => based 2 cs
  | none, none, cs => special cs <|> decimalOrInteger cs

end Realm.Toml
