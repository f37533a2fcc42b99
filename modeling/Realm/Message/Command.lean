import Realm.Message.Catalog
import Realm.Wire.Field

/-!
# Client commands

What a client can ask for. Each command has a kind, a topic and a list of fields; its packet is
made of the kind and the encoded fields, and the catalog reads the packet back. A velocity whose
parts are not finite can be written, but is refused by the reader.
-/

namespace Realm

open Wire (Field Packet Reader WireError)

inductive Command where
  | login (username password : String)
  | move (dx dy : Single)
  | chat (text : String)
  | ping (nonce : UInt32)
  | logout
  deriving DecidableEq, Repr

namespace Command

def kind : Command → UInt8
  | .login _ _ => 0
  | .move _ _ => 1
  | .chat _ => 2
  | .ping _ => 3
  | .logout => 4

def topic : Command → Topic
  | .login _ _ => .login
  | .chat _ => .chat
  | .move _ _ | .ping _ | .logout => .commands

/-- The fields of a command, in the order they travel. -/
def fields : Command → List Field
  | .login username password => [.text username, .text password]
  | .move dx dy => [.single dx, .single dy]
  | .chat text => [.text text]
  | .ping nonce => [.number nonce]
  | .logout => []

def toPacket (c : Command) : Packet := ⟨c.kind, Field.encodeAll c.fields⟩

def readLogin (payload : List UInt8) : Except WireError Command :=
  Reader.run payload do
    let username ← Reader.text "username"
    let password ← Reader.text "password"
    pure (.login username password)

/-- Reads a move; the parts of the velocity are judged once the whole payload was read. -/
def readMove (payload : List UInt8) : Except WireError Command :=
  let parts := Reader.run payload do
    let dx ← Reader.single "dx"
    let dy ← Reader.single "dy"
    pure (dx, dy)
  match parts with
  | .error e => .error e
  | .ok (dx, dy) =>
    if dx.isFinite && dy.isFinite then .ok (.move dx dy)
    else .error (.invalidField .velocityNotFinite)

def readChat (field : String) (payload : List UInt8) : Except WireError Command :=
  Reader.run payload do
    let text ← Reader.text field
    pure (.chat text)

def readPing (payload : List UInt8) : Except WireError Command :=
  Reader.run payload do
    let nonce ← Reader.number "nonce"
    pure (.ping nonce)

def readLogout (payload : List UInt8) : Except WireError Command :=
  Reader.run payload (pure .logout)

def loginType : MessageType Command := ⟨0, .login, readLogin⟩

def moveType : MessageType Command := ⟨1, .commands, readMove⟩

def chatType : MessageType Command := ⟨2, .chat, readChat "text"⟩

def pingType : MessageType Command := ⟨3, .commands, readPing⟩

def logoutType : MessageType Command := ⟨4, .commands, readLogout⟩

def catalog : Catalog Command := .ofList [loginType, moveType, chatType, pingType, logoutType]

end Command

end Realm
