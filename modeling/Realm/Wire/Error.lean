/-!
# Wire errors

Everything that can go wrong between the bytes of a client and a decoded message. An error is
a cause; its wording is the single function `WireError.message`. Only an unknown kind leaves the
framing intact, so it is the only error a connection survives.
-/

namespace Realm.Wire

inductive FieldFault where
  /-- The bytes at the field are no variable-length integer. -/
  | badVarint (field : String)
  /-- The field needs more bytes than are left. -/
  | tooShort (field : String) (needed left : Nat)
  /-- The bytes of a text field are not UTF-8. -/
  | notUtf8 (field : String)
  /-- Bytes are left over after the last field. -/
  | trailing (extra : Nat)
  /-- A velocity with an infinite or undefined part. -/
  | velocityNotFinite
  deriving DecidableEq, Repr

inductive WireError where
  /-- The byte stream itself failed. -/
  | stream (reason : String)
  /-- The stream ended inside a frame. -/
  | truncated
  /-- The length of a frame does not fit 32 bits. -/
  | malformedLength
  /-- The announced payload is longer than the reader accepts. -/
  | payloadTooLarge (length limit : Nat)
  /-- No message type has this kind. -/
  | unknownKind (kind : UInt8)
  /-- A payload does not consist of the fields of its message type. -/
  | invalidField (fault : FieldFault)
  deriving DecidableEq, Repr

def FieldFault.message : FieldFault → String
  | .badVarint field => s!"{field}: bad varint"
  | .tooShort field needed left => s!"{field}: needs {needed} bytes, {left} left"
  | .notUtf8 field => s!"{field}: not UTF-8"
  | .trailing extra => s!"{extra} trailing bytes"
  | .velocityNotFinite => "velocity must be finite"

def WireError.message : WireError → String
  | .stream reason => s!"I/O error: {reason}"
  | .truncated => "truncated packet"
  | .malformedLength => "malformed length prefix"
  | .payloadTooLarge length limit => s!"payload of {length} bytes exceeds the {limit} byte limit"
  | .unknownKind kind => s!"unregistered packet kind {kind}"
  | .invalidField fault => s!"invalid field: {fault.message}"

/-- Whether the connection that caused the error must be dropped. A frame of an unknown kind was
read in full, so it can be skipped. -/
def WireError.isFatal : WireError → Bool
  | .unknownKind _ => false
  | _ => true

end Realm.Wire
