import Realm.Account.Basic
import Realm.Message.Command

/-!
# Inbound payloads

What travels between the network, the login service and the simulation.
-/

namespace Realm

inductive Inbound where
  /-- A decoded message of the client. -/
  | command (command : Command)
  /-- The login service accepted the client's credentials. -/
  | authenticated (account : Account)
  deriving DecidableEq, Repr

end Realm
