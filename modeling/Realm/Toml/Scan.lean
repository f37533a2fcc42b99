/-!
# Characters of a settings document

Scanners take a piece of a document and return what is left, or fail. The classes of characters
are those of the grammar: a control character is allowed nowhere but for tabs and the ends of
lines.
-/

namespace Realm.Toml

/-- Takes something from the front of a text, or fails. -/
abbrev Scan (α : Type) := List Char → Option (α × List Char)

/-- The greatest number of parts of a key, and of lists and tables inside each other. -/
def depthLimit : Nat := 79

/-- A blank within a line. -/
def isBlank (c : Char) : Bool := c = ' ' || c = '\t'

/-- A character that may stand in a comment: none that ends a line or controls anything. -/
def isPlain (c : Char) : Bool := c = '\t' || (' ' ≤ c && c ≤ '~') || '\x80' ≤ c

/-- A character of a key without quotes. -/
def isBare (c : Char) : Bool := c.isAlphanum || c = '-' || c = '_'

def isDigit (c : Char) : Bool := c.isDigit

/-- A digit of a number to the base `base`, at most sixteen. -/
def digitOf? (base : Nat) (c : Char) : Option Nat :=
  let value :=
    if c.isDigit then some (c.toNat - '0'.toNat)
    else if 'a' ≤ c ∧ c ≤ 'f' then some (c.toNat - 'a'.toNat + 10)
    else if 'A' ≤ c ∧ c ≤ 'F' then some (c.toNat - 'A'.toNat + 10)
    else none
  value.filter (· < base)

def numberOf (base : Nat) (digits : List Nat) : Nat := digits.foldl (fun n d => n * base + d) 0

/-! ## Blanks, comments and lines -/

def skipBlanks (cs : List Char) : List Char := cs.dropWhile isBlank

/-- Skips a comment, if one begins here, up to the end of its line. -/
def skipComment : List Char → List Char
  | '#' :: cs => cs.dropWhile isPlain
  | cs => cs

def newline? : List Char → Option (List Char)
  | '\n' :: cs => some cs
  | '\r' :: '\n' :: cs => some cs
  | _ => none

/-- The rest after the end of a line or of the document. -/
def lineEnd? : List Char → Option (List Char)
  | [] => some []
  | cs => newline? cs

/-- The rest after what may follow a value or a header on its line. -/
def lineRest? (cs : List Char) : Option (List Char) := lineEnd? (skipComment (skipBlanks cs))

/-- The rest after blanks, comments and ends of lines, of which there are at most `fuel`. A comment
that no line end follows fails. -/
def skipLinesFor : (fuel : Nat) → List Char → Option (List Char)
  | 0, cs => some cs
  | fuel + 1, cs =>
    match skipBlanks cs with
    | '#' :: rest => (newline? (skipComment ('#' :: rest))).bind (skipLinesFor fuel)
    | '\n' :: rest => skipLinesFor fuel rest
    | '\r' :: rest => (newline? ('\r' :: rest)).bind (skipLinesFor fuel)
    | rest => some rest

def skipLines (cs : List Char) : Option (List Char) := skipLinesFor (cs.length + 1) cs

def skipSpace : List Char → List Char
  | '\r' :: '\n' :: cs => skipSpace cs
  | c :: cs => if isBlank c || c = '\n' then skipSpace cs else c :: cs
  | [] => []

/-! ## Strings -/

/-- The character with a hexadecimal number of exactly `count` digits. -/
def codePoint (count : Nat) : Scan Char := fun cs =>
  let digits := (cs.take count).filterMap (digitOf? 16)
  let number := numberOf 16 digits
  if digits.length = count ∧ number.isValidChar then some (Char.ofNat number, cs.drop count)
  else none

/-- The character that an escape stands for; the backslash was taken before. -/
def escape : Scan Char
  | 'b' :: cs => some ('\x08', cs)
  | 't' :: cs => some ('\t', cs)
  | 'n' :: cs => some ('\n', cs)
  | 'f' :: cs => some ('\x0c', cs)
  | 'r' :: cs => some ('\r', cs)
  | '"' :: cs => some ('"', cs)
  | '\\' :: cs => some ('\\', cs)
  | 'u' :: cs => codePoint 4 cs
  | 'U' :: cs => codePoint 8 cs
  | _ => none

/-- The rest of a string in double quotes, of at most `fuel` characters. -/
def basicFor : (fuel : Nat) → Scan (List Char)
  | 0, _ => none
  | fuel + 1, cs =>
    match cs with
    | '"' :: cs => some ([], cs)
    | '\\' :: cs => do
      let (c, cs) ← escape cs
      let (text, cs) ← basicFor fuel cs
      some (c :: text, cs)
    | c :: cs =>
      if isPlain c then (basicFor fuel cs).map fun (text, cs) => (c :: text, cs) else none
    | [] => none

def literal : Scan (List Char)
  | '\'' :: cs => some ([], cs)
  | c :: cs => if isPlain c then (literal cs).map fun (text, cs) => (c :: text, cs) else none
  | [] => none

/-- How many of the quotes at the front belong to a text that three quotes end: none if the text
goes on, and at most two. `none` if the quotes do not end it. -/
def closing? (quote : Char) (cs : List Char) : Option Nat :=
  let run := (cs.takeWhile (· = quote)).length
  if run < 3 then none else some (min run 5 - 3)

/-- The rest of a text of several lines, of at most `fuel` characters, up to three quotes. Ends of
lines are kept as single characters. A text with escapes skips the end of a line behind a
backslash, and all blanks and lines after it. -/
def linesFor (quote : Char) (escapes : Bool) : (fuel : Nat) → Scan (List Char)
  | 0, _ => none
  | fuel + 1, cs =>
    match closing? quote cs with
    | some kept => some (List.replicate kept quote, cs.drop (kept + 3))
    | none =>
      match newline? cs, cs with
      | some cs, _ => (linesFor quote escapes fuel cs).map fun (text, cs) => ('\n' :: text, cs)
      | none, [] => none
      | none, c :: cs =>
        if escapes ∧ c = '\\' then
          match newline? (skipBlanks cs) with
          | some cs => linesFor quote escapes fuel (skipSpace cs)
          | none => do
            let (c, cs) ← escape cs
            let (text, cs) ← linesFor quote escapes fuel cs
            some (c :: text, cs)
        else if isPlain c then
          (linesFor quote escapes fuel cs).map fun (text, cs) => (c :: text, cs)
        else none

/-- The rest of a text of several lines. An end of line right at its beginning is dropped. -/
def lines (quote : Char) (escapes : Bool) : Scan (List Char) := fun cs =>
  let cs := (newline? cs).getD cs
  linesFor quote escapes (cs.length + 1) cs

def oneLine : Scan String
  | '"' :: cs => (basicFor (cs.length + 1) cs).map fun (text, cs) => (String.ofList text, cs)
  | '\'' :: cs => (literal cs).map fun (text, cs) => (String.ofList text, cs)
  | _ => none

def string : Scan String
  | '"' :: '"' :: '"' :: cs => (lines '"' true cs).map fun (text, cs) => (String.ofList text, cs)
  | '\'' :: '\'' :: '\'' :: cs =>
    (lines '\'' false cs).map fun (text, cs) => (String.ofList text, cs)
  | cs => oneLine cs

/-! ## Keys -/

def keyPart : Scan String := fun cs =>
  match cs with
  | '"' :: _ => oneLine cs
  | '\'' :: _ => oneLine cs
  | _ =>
    let bare := cs.takeWhile isBare
    if bare.isEmpty then none else some (String.ofList bare, cs.drop bare.length)

/-- A key: parts with points between them, at most `fuel`, and blanks around each. -/
def keyFor : (fuel : Nat) → Scan (List String)
  | 0, _ => none
  | fuel + 1, cs => do
    let (part, cs) ← keyPart (skipBlanks cs)
    match skipBlanks cs with
    | '.' :: cs =>
      let (parts, cs) ← keyFor fuel cs
      some (part :: parts, cs)
    | cs => some ([part], cs)

def key : Scan (List String) := keyFor depthLimit

end Realm.Toml
