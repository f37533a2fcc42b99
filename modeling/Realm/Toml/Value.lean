/-!
# Values of a settings document

A TOML document is a table of values. Whether a table or a list may still be extended by later lines
depends on how it came about, so both remember that.
-/

namespace Realm.Toml

inductive Origin where
  /-- By a header of its own, by braces, or as an element of a list of tables. -/
  | written
  /-- By the header of a table inside it. -/
  | implied
  /-- By a dotted key. -/
  | dotted
  deriving DecidableEq, Repr

inductive Value where
  | text (text : String)
  | integer (number : Int)
  /-- A number with a fraction or an exponent, an infinity or an undefined number. No setting is
  one, so its value is not kept. -/
  | decimal
  /-- A date, a time or both. No setting is one, so its value is not kept. -/
  | moment
  | flag (value : Bool)
  /-- A list. One whose elements were written as tables with a header each is extended by further
  such headers. -/
  | list (extensible : Bool) (items : List Value)
  /-- A table. One written in braces is closed for good. -/
  | table (origin : Origin) (closed : Bool) (entries : List (String × Value))
  deriving Repr

instance : Inhabited Value := ⟨.flag false⟩

abbrev Entries := List (String × Value)

namespace Value

def ofEntries (entries : Entries) : Value := .table .written false entries

/-- Puts a value under a key, instead of the one that was there. -/
def put (key : String) (value : Value) : Entries → Entries
  | [] => [(key, value)]
  | (other, old) :: rest =>
    if other = key then (key, value) :: rest else (other, old) :: put key value rest

/-- Puts a value under a path of keys. Tables that are missing on the way are made, and whatever
else is in the way is replaced by one. -/
def assign (value : Value) : List String → Value → Value
  | [], _ => value
  | key :: path, .table origin closed entries =>
    .table origin closed
      (put key (assign value path ((entries.lookup key).getD (ofEntries []))) entries)
  | key :: path, _ => ofEntries [(key, assign value path (ofEntries []))]

end Value

end Realm.Toml
