import Realm.Entity.Handle

/-!
# World errors

Why an operation on the world, or a tick of it, failed.
-/

namespace Realm

/-- Failures of the entity store and of the systems of a world. -/
inductive WorldError where
  /-- Every identity is taken. -/
  | capacity (limit : UInt32)
  /-- The handle names no living entity. -/
  | stale (handle : Handle)
  /-- The work of a system failed. -/
  | system (name reason : String)
  /-- A system could not decide whether to run. -/
  | policy (name reason : String)
  deriving DecidableEq, Repr

def WorldError.message : WorldError → String
  | .capacity limit => s!"entity capacity exhausted ({limit} identities in use)"
  | .stale handle => s!"entity {handle.display} is no longer alive"
  | .system name reason => s!"system '{name}' failed: {reason}"
  | .policy name reason => s!"policy of system '{name}' failed: {reason}"

end Realm
