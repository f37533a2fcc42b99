/-!
# Single precision numbers

Coordinates and velocities are IEEE 754 binary32 numbers. A number is kept as its bit pattern,
so that whatever crosses the wire, NaN payloads and signed zeros included, comes back bit for
bit; only arithmetic goes through the floating point unit.
-/

namespace Realm

/-- A binary32 number, by its bit pattern. -/
structure Single where
  bits : UInt32
  deriving DecidableEq, Repr, Inhabited

namespace Single

def zero : Single := ⟨0⟩

def exponentBits : UInt32 := 0x7f800000

def fractionBits : UInt32 := 0x007fffff

/-- Neither infinite nor NaN: not every exponent bit is set. -/
def isFinite (a : Single) : Bool := a.bits &&& exponentBits != exponentBits

/-- Every exponent bit and some fraction bit is set. -/
def isNaN (a : Single) : Bool := !a.isFinite && a.bits &&& fractionBits != 0

/-- Zero of either sign. -/
def isZero (a : Single) : Bool := a.bits &&& 0x7fffffff == 0

def toFloat (a : Single) : Float32 := Float32.ofBits a.bits

def ofFloat (f : Float32) : Single := ⟨f.toBits⟩

def add (a b : Single) : Single := ofFloat (a.toFloat + b.toFloat)

def mul (a b : Single) : Single := ofFloat (a.toFloat * b.toFloat)

def div (a b : Single) : Single := ofFloat (a.toFloat / b.toFloat)

/-- The number nearest to a natural number below 2^64. -/
def ofNat (n : Nat) : Single := ofFloat (UInt64.ofNat n).toFloat32

instance : Add Single := ⟨add⟩
instance : Mul Single := ⟨mul⟩
instance : Div Single := ⟨div⟩

/-- The four bytes of the pattern, least significant first. -/
def toBytes (a : Single) : List UInt8 :=
  [a.bits.toUInt8, (a.bits >>> 8).toUInt8, (a.bits >>> 16).toUInt8, (a.bits >>> 24).toUInt8]

def ofBytes (b₀ b₁ b₂ b₃ : UInt8) : Single :=
  ⟨b₀.toUInt32 ||| b₁.toUInt32 <<< 8 ||| b₂.toUInt32 <<< 16 ||| b₃.toUInt32 <<< 24⟩

@[simp] theorem length_toBytes (a : Single) : a.toBytes.length = 4 := rfl

end Single

end Realm
