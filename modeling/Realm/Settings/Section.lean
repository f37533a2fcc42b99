import Realm.Toml.Value

/-!
# Sections of settings

A section gives its members by name, or else as a list in the order in which the section names
them. A member may be missing where it has a default. What a section does not name is ignored, but
a list may be forbidden to hold more than the section names. A date or a time counts as a section
that gives no member.
-/

namespace Realm.Settings

open Toml (Value)

structure Section where
  get? : String → Option Value

namespace Section

/-- The section of a value, given the names of its members; `surplus` tells whether a list may be
longer. -/
def ofValue? (names : List String) (surplus : Bool) : Value → Option Section
  | .table _ _ entries => some ⟨fun name => entries.lookup name⟩
  | .list _ items =>
    if surplus || items.length ≤ names.length then some ⟨fun name => items[names.idxOf name]?⟩
    else none
  | .moment => some ⟨fun _ => none⟩
  | _ => none

def optional {α : Type} (s : Section) (name : String) (read : Value → Option α) (default : α) :
    Option α :=
  match s.get? name with
  | none => some default
  | some value => read value

def required {α : Type} (s : Section) (name : String) (read : Value → Option α) : Option α :=
  (s.get? name).bind read

end Section

def text? : Value → Option String
  | .text text => some text
  | _ => none

def flag? : Value → Option Bool
  | .flag value => some value
  | _ => none

def word? (limit : Nat) : Value → Option Nat
  | .integer n => if 0 ≤ n ∧ n < limit then some n.toNat else none
  | _ => none

def number? : Value → Option Nat := word? UInt64.size

end Realm.Settings
