import Realm.Number.Single
import Realm.Wire.Varint

/-!
# Payload fields

The payload of a message is a sequence of fields: numbers as variable-length integers, singles
as four bytes, texts as their length in bytes followed by their UTF-8 form. Fields carry no tag,
so a reader asks for them in the order of the writer. What a read takes before it fails stays
taken; this is why reading is a state machine over a `Reader` and not a parser that backtracks.
-/

namespace Realm.Wire

inductive Field where
  | number (value : UInt32)
  | single (value : Single)
  | text (value : String)
  deriving DecidableEq, Repr

namespace Field

def encode : Field → List UInt8
  | .number value => Varint.encode value
  | .single value => value.toBytes
  | .text value =>
    Varint.encode (UInt32.ofNat value.utf8ByteSize) ++ value.toUTF8.data.toList

def encodeAll (fields : List Field) : List UInt8 := fields.flatMap encode

end Field

/-- A position in a payload. -/
structure Reader where
  buffer : List UInt8
  position : Nat
  deriving Repr

/-- Reading from a payload: what was taken stays taken, also when the read fails. -/
abbrev Read (α : Type) := EStateM WireError Reader α

namespace Reader

def start (buffer : List UInt8) : Reader := ⟨buffer, 0⟩

def unread (r : Reader) : List UInt8 := r.buffer.drop r.position

def refuse {α : Type} (fault : FieldFault) : Read α := throw (.invalidField fault)

def take (length : Nat) (field : String) : Read (List UInt8) := do
  let r ← get
  if r.unread.length < length then
    refuse (.tooShort field length r.unread.length)
  else
    set { r with position := r.position + length }
    pure (r.unread.take length)

def number (field : String) : Read UInt32 := do
  let r ← get
  match Varint.decode r.unread with
  | .error _ => refuse (.badVarint field)
  | .ok (value, used) =>
    set { r with position := r.position + used }
    pure value

def single (field : String) : Read Single := do
  match ← take 4 field with
  | [b₀, b₁, b₂, b₃] => pure (Single.ofBytes b₀ b₁ b₂ b₃)
  | _ => refuse (.tooShort field 4 0)

/-- Reads a text. Its length stays taken if the bytes are missing, and length and bytes stay
taken if they are not UTF-8. -/
def text (field : String) : Read String := do
  let length ← number field
  let bytes ← take length.toNat field
  match String.fromUTF8? bytes.toByteArray with
  | some value => pure value
  | none => refuse (.notUtf8 field)

def finish : Read Unit := do
  let r ← get
  let extra := r.buffer.length - r.position
  if extra = 0 then pure () else refuse (.trailing extra)

/-- Reads a whole payload: its fields and nothing after them. -/
def run {α : Type} (payload : List UInt8) (fields : Read α) : Except WireError α :=
  match (do let value ← fields; finish; pure value : Read α) (start payload) with
  | .ok value _ => .ok value
  | .error e _ => .error e

end Reader

inductive FieldType where
  | number
  | single
  | text
  deriving DecidableEq, Repr

def FieldType.read (name : String) : FieldType → Read Field
  | .number => Field.number <$> Reader.number name
  | .single => Field.single <$> Reader.single name
  | .text => Field.text <$> Reader.text name

/-- Reads fields one after the other, each from where the one before it stopped, whether or not
that one could be read. -/
def FieldType.readEach (r : Reader) :
    List (FieldType × String) → List (Except WireError Field) × Reader
  | [] => ([], r)
  | (type, name) :: rest =>
    match type.read name r with
    | .ok value r' => ((.ok value :: (readEach r' rest).1), (readEach r' rest).2)
    | .error e r' => ((.error e :: (readEach r' rest).1), (readEach r' rest).2)

def Reader.outcome (r : Reader) : Except WireError Unit :=
  match finish r with
  | .ok () _ => .ok ()
  | .error e _ => .error e

end Realm.Wire
