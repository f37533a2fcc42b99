import Realm.Account.Repository
import Realm.Time.Instant

/-!
# Account storage

What the workers ask for accounts. A lookup may take any time, or never end; it ends with an
answer, with a failure of the storage, or by taking the worker down that made it.
-/

namespace Realm

inductive StorageError where
  | unavailable (reason : String)
  deriving DecidableEq, Repr

def StorageError.message : StorageError → String
  | .unavailable reason => s!"account storage unavailable: {reason}"

/-- The answer to a lookup: the account, if there is one. -/
abbrev LookupResult := Except StorageError (Option Account)

inductive Finding where
  | answer (result : LookupResult)
  /-- The worker that made the lookup goes down. -/
  | crash

/-- A lookup: how long it takes, if it ends at all, and how it ends. -/
structure Lookup where
  duration : Option Nat
  finding : Finding

/-- A storage: the lookup that a call makes, given the number of the call and a username. -/
abbrev Storage := Nat → String → Lookup

namespace Storage

/-- The storage that takes its time for each username; some names take the worker down, and some
cannot be reached, for the reason given. -/
def disturbed (r : Repository) (duration : String → Nat) (crashes : String → Bool)
    (unavailable : String → Option String) : Storage := fun _ username =>
  ⟨some (duration username),
    if crashes username then .crash
    else match unavailable username with
      | some reason => .answer (.error (.unavailable reason))
      | none => .answer (.ok (r.find? username))⟩

end Storage

end Realm
