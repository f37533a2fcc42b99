/-!
# Server errors

Everything a server or one of its connections can end with, by where it comes from.
-/

namespace Realm

inductive ServerError where
  | network (text : String)
  /-- A client sent what cannot be framed or decoded. -/
  | protocol (text : String)
  /-- The settings were refused before the server started. -/
  | config (text : String)
  | internal (text : String)
  deriving DecidableEq, Repr

def ServerError.message : ServerError → String
  | .network text => "Network error: " ++ text
  | .protocol text => "Protocol error: " ++ text
  | .config text => "Configuration error: " ++ text
  | .internal text => "Internal error: " ++ text

end Realm
