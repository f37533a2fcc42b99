import Realm.Account.Basic

/-!
# The account repository

Accounts by username. Numbers are given out from one upwards and never again, also when an account
replaces one of the same name.
-/

namespace Realm

/-- Accounts, at most one for each username. -/
structure Repository where
  accounts : List Account
  /-- How many numbers were given out. -/
  issued : Nat
  deriving DecidableEq, Repr

namespace Repository

def empty : Repository := ⟨[], 0⟩

/-- Adds an account with the next number, instead of the one that had its name. -/
def insert (r : Repository) (username password : String) : AccountId × Repository :=
  let id : AccountId := ⟨UInt64.ofNat (r.issued + 1)⟩
  (id, ⟨⟨id, username, password⟩ :: r.accounts.filter fun a => a.username ≠ username,
    r.issued + 1⟩)

def ofList (seeds : List (String × String)) : Repository :=
  seeds.foldl (fun r (username, password) => (r.insert username password).2) empty

def find? (r : Repository) (username : String) : Option Account :=
  r.accounts.find? fun a => a.username = username

def size (r : Repository) : Nat := r.accounts.length

end Repository

end Realm
