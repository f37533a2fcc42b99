import Realm.Toml.Number

/-!
# Settings documents

A document is read line by line. A header opens a table, or a further element of a list of tables,
and the lines below it put values under keys of it. No key is given a value twice and no table is
opened twice; a dotted key makes tables on its way that only dotted keys in the same table
extend.
-/

namespace Realm.Toml

/-! ## Tables under construction -/

/-- Rewrites the table under a path, beginning at the entries of a table. Tables that are missing on
the way are made. A list of tables is entered at its last element. With `dotted` the path is part of
a dotted key, which enters no table that was written out and makes tables of its own kind. `f` is
given the kind of the table and its entries. -/
def modifyAt (dotted : Bool) (f : Origin → Entries → Option Entries) :
    List String → Origin → Entries → Option Entries
  | [], origin, entries => f origin entries
  | key :: path, _, entries =>
    match entries.lookup key with
    | none => do
      let origin := if dotted then .dotted else .implied
      let inner ← modifyAt dotted f path origin []
      some (Value.put key (.table origin false inner) entries)
    | some (.table origin false inner) =>
      if dotted ∧ origin = .written then none
      else do
        let inner ← modifyAt dotted f path origin inner
        some (Value.put key (.table origin false inner) entries)
    | some (.list true items) =>
      match items.getLast? with
      | some (.table origin closed inner) => do
        let inner ← modifyAt dotted f path origin inner
        some (Value.put key (.list true (items.dropLast ++ [.table origin closed inner])) entries)
      | _ => none
    | some _ => none

/-- Puts a value under a key that has none. With `dotted` the table must have been made by dotted
keys. -/
def insertNew (dotted : Bool) (key : String) (value : Value) (origin : Origin)
    (entries : Entries) : Option Entries :=
  if dotted ∧ origin ≠ .dotted then none
  else match entries.lookup key with
    | none => some (entries ++ [(key, value)])
    | some _ => none

/-- Puts a value under a key, which may be dotted, of a table. -/
def insertPath (path : List String) (value : Value) (entries : Entries) : Option Entries :=
  match path.getLast? with
  | none => none
  | some key =>
    let way := path.dropLast
    modifyAt true (insertNew (!way.isEmpty) key value) way .written entries

/-- Opens a table by its header. One that only the headers of tables inside it have made is written
out by this. -/
def openTable (path : List String) (root : Entries) : Option Entries :=
  match path.getLast? with
  | none => none
  | some key =>
    let enter := fun _ (entries : Entries) =>
      match entries.lookup key with
      | none => some (entries ++ [(key, .table .written false [])])
      | some (.table .implied false inner) =>
        some (Value.put key (.table .written false inner) entries)
      | some _ => none
    modifyAt false enter path.dropLast .written root

def openElement (path : List String) (root : Entries) : Option Entries :=
  match path.getLast? with
  | none => none
  | some key =>
    let element : Value := .table .written false []
    let enter := fun _ (entries : Entries) =>
      match entries.lookup key with
      | none => some (entries ++ [(key, .list true [element])])
      | some (.list true items) => some (Value.put key (.list true (items ++ [element])) entries)
      | some _ => none
    modifyAt false enter path.dropLast .written root

/-- Puts a value under a key of the table that was opened last. -/
def insertBelow (header path : List String) (value : Value) (root : Entries) : Option Entries :=
  modifyAt false (fun _ entries => insertPath path value entries) header .written root

/-! ## Values -/

/-- The elements of a list up to its closing bracket, at most `fuel`. A comma may stand behind the
last one. -/
def elementsFor (value : Scan Value) : (fuel : Nat) → Scan (List Value)
  | 0, _ => none
  | fuel + 1, cs => do
    match ← skipLines cs with
    | ']' :: cs => some ([], cs)
    | cs =>
      let (item, cs) ← value cs
      match ← skipLines cs with
      | ',' :: cs =>
        let (items, cs) ← elementsFor value fuel cs
        some (item :: items, cs)
      | ']' :: cs => some ([item], cs)
      | _ => none

def pair (value : Scan Value) : Scan (List String × Value) := fun cs => do
  let (path, cs) ← key cs
  match cs with
  | '=' :: cs =>
    let (v, cs) ← value (skipBlanks cs)
    some ((path, v), cs)
  | _ => none

/-- The entries of a table in braces up to its closing brace, at most `fuel`. No comma stands behind
the last one. -/
def entriesFor (value : Scan Value) : (fuel : Nat) → Entries → Scan Entries
  | 0, _, _ => none
  | fuel + 1, entries, cs => do
    let ((path, v), cs) ← pair value cs
    let entries ← insertPath path v entries
    match skipBlanks cs with
    | ',' :: cs => entriesFor value fuel entries cs
    | '}' :: cs => some (entries, cs)
    | _ => none

/-- A value, with lists and tables at most `depth` deep inside each other. -/
def value : (depth : Nat) → Scan Value
  | 0, cs => scalar cs
  | depth + 1, cs =>
    match cs with
    | '[' :: cs =>
      (elementsFor (value depth) (cs.length + 1) cs).map fun (items, cs) => (.list false items, cs)
    | '{' :: cs =>
      match skipBlanks cs with
      | '}' :: cs => some (.table .written true [], cs)
      | _ => (entriesFor (value depth) (cs.length + 1) [] cs).map fun (entries, cs) =>
        (.table .written true entries, cs)
    | _ => scalar cs
where
  /-- A value that holds no others. -/
  scalar : Scan Value := fun cs =>
    match cs with
    | '"' :: _ => (string cs).map fun (text, cs) => (.text text, cs)
    | '\'' :: _ => (string cs).map fun (text, cs) => (.text text, cs)
    | 't' :: 'r' :: 'u' :: 'e' :: cs => some (.flag true, cs)
    | 'f' :: 'a' :: 'l' :: 's' :: 'e' :: cs => some (.flag false, cs)
    | _ => number cs

/-! ## Documents -/

/-- Reads at most `fuel` lines: `header` is the path of the table that was opened last. -/
def readFor : (fuel : Nat) → (header : List String) → Entries → List Char → Option Entries
  | 0, _, _, _ => none
  | fuel + 1, header, root, cs =>
    match skipBlanks cs with
    | [] => some root
    | '#' :: cs => do
      let cs ← lineEnd? (skipComment ('#' :: cs))
      readFor fuel header root cs
    | '[' :: '[' :: cs => do
      let (path, cs) ← key cs
      let cs ← expect ']' cs
      let cs ← expect ']' cs
      let cs ← lineRest? cs
      let root ← openElement path root
      readFor fuel path root cs
    | '[' :: cs => do
      let (path, cs) ← key cs
      let cs ← expect ']' cs
      let cs ← lineRest? cs
      let root ← openTable path root
      readFor fuel path root cs
    | cs =>
      match newline? cs with
      | some cs => readFor fuel header root cs
      | none => do
        let ((path, v), cs) ← pair (value depthLimit) cs
        let cs ← lineRest? cs
        let root ← insertBelow header path v root
        readFor fuel header root cs

def skipMark : List Char → List Char
  | '\ufeff' :: cs => cs
  | cs => cs

/-- The entries of a document, or none if it is not well formed. Every line takes a character, so
there are no more lines than characters, but for the last one. -/
def read? (text : String) : Option Entries :=
  let cs := skipMark text.toList
  readFor (cs.length + 1) [] [] cs

end Realm.Toml
