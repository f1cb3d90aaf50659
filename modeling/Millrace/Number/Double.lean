/-!
# Floats as they are stored

A value is told from another one by its bits, and two nans may differ in their sign and payload.  So the floats of
values are the words that they are stored in (`Double`), and `Float`, which knows a single nan, is what the numbers among
them are computed with.

The sign bit can be set, cleared and flipped without looking at the rest.  Every other operation passes on a nan that it
is given, and an operation that makes one out of numbers gives `Double.undefined`; which nan that is would be up to the
processor, and it is the usual one.
-/

namespace Millrace

/-- A float as the word of 64 bits that it is stored in. -/
@[ext]
structure Double where
  bits : UInt64
  deriving DecidableEq

namespace Double

/-- The float as a number, or as the only nan. -/
def toFloat (x : Double) : Float := Float.ofBits x.bits

/-- How a float is stored. -/
def ofFloat (x : Float) : Double := ⟨x.toBits⟩

def infinity : Double := ⟨0x7FF0000000000000⟩

/-- The nan that goes by this name. -/
def nan : Double := ⟨0x7FF8000000000000⟩

/-- The nan that comes out where no operand is nan, such as the difference of infinity and infinity. -/
def undefined : Double := ⟨0xFFF8000000000000⟩

instance (n : Nat) : OfNat Double n := ⟨ofFloat (Float.ofNat n)⟩

instance : OfScientific Double := ⟨fun mantissa negative exponent => ofFloat (.ofScientific mantissa negative exponent)⟩

def isNaN (x : Double) : Bool := x.toFloat.isNaN

def isInf (x : Double) : Bool := x.toFloat.isInf

def isFinite (x : Double) : Bool := x.toFloat.isFinite

/-! ### The sign bit -/

/-- The magnitude of a float. -/
def abs (x : Double) : Double := ⟨x.bits &&& 0x7FFFFFFFFFFFFFFF⟩

/-- The magnitude of `x` with the sign of `y`. -/
def withSign (x y : Double) : Double := ⟨(x.bits &&& 0x7FFFFFFFFFFFFFFF) ||| (y.bits &&& 0x8000000000000000)⟩

instance : Neg Double := ⟨fun x => ⟨x.bits ^^^ 0x8000000000000000⟩⟩

/-! ### Comparison as numbers -/

instance : BEq Double := ⟨fun x y => x.toFloat == y.toFloat⟩

instance : LT Double := ⟨fun x y => x.toFloat < y.toFloat⟩

instance : LE Double := ⟨fun x y => x.toFloat ≤ y.toFloat⟩

instance (x y : Double) : Decidable (x < y) := inferInstanceAs (Decidable (x.toFloat < y.toFloat))

instance (x y : Double) : Decidable (x ≤ y) := inferInstanceAs (Decidable (x.toFloat ≤ y.toFloat))

/-! ### Operations -/

/-- A nan as an operation passes it on, with its quiet bit set. -/
def quiet (x : Double) : Double := ⟨x.bits ||| 0x0008000000000000⟩

/-- The nan that an operation gives: of the operands that are nan, the first one is passed on. -/
def nanOf (operands : List Double) : Double := ((operands.find? isNaN).map quiet).getD undefined

/-- The result of an operation that comes to `z` as a number. -/
def result (operands : List Double) (z : Float) : Double := if z.isNaN then nanOf operands else ofFloat z

/-- A function of one number. -/
def lift (f : Float → Float) (x : Double) : Double := result [x] (f x.toFloat)

/-- A function of two numbers. -/
def lift₂ (f : Float → Float → Float) (x y : Double) : Double := result [x, y] (f x.toFloat y.toFloat)

instance : Add Double := ⟨lift₂ (· + ·)⟩

instance : Sub Double := ⟨lift₂ (· - ·)⟩

instance : Mul Double := ⟨lift₂ (· * ·)⟩

instance : Div Double := ⟨lift₂ (· / ·)⟩

end Double
end Millrace
