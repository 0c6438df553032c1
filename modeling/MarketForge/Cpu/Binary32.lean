import MarketForge.Cpu.Operators
import MarketForge.Library.BinaryFloat

/-!
# Binary32 arithmetic

The operations of `float` on the values of binary32. Sums, products and quotients are rounded
exactly; the functions of the mathematics library are not, and stay a parameter. Zeros have no
sign, so a quotient by zero has the sign of its dividend.
-/
namespace MarketForge.Cpu

open BinaryFloat

/-- `std::bit_cast<float>`. -/
def bitCast (bits : UInt32) : Value :=
  let negative := decide (0x80000000 ≤ bits.toNat)
  let sign : ℚ := if negative then -1 else 1
  let exponent : Nat := bits.toNat / 2 ^ 23 % 256
  let mantissa : Nat := bits.toNat % 2 ^ 23
  if exponent = 255 then if mantissa = 0 then .infinity negative else .nan
  else if exponent = 0 then .finite (sign * mantissa * 2 ^ (-149 : ℤ))
  else .finite (sign * (2 ^ 23 + mantissa) * 2 ^ ((exponent : ℤ) - 150))

/-- The functions of the mathematics library. -/
structure MathLibrary where
  sqrt : Value → Value
  exp : Value → Value
  cos : Value → Value
  sin : Value → Value
  pow : Value → Value → Value

def negate : Value → Value
  | .nan => .nan
  | .infinity negative => .infinity !negative
  | .finite x => .finite (-x)

/-- The exact quotient. -/
def quotient : Value → Value → Value
  | .finite x, .finite y =>
    if y = 0 then if x = 0 then .nan else .infinity (decide (x < 0)) else .finite (x / y)
  | .infinity negative, .finite y => .infinity (negative != decide (y < 0))
  | .finite _, .infinity _ => .finite 0
  | _, _ => .nan

/-- NaN compares false with everything. -/
def less : Value → Value → Bool
  | .finite x, .finite y => decide (x < y)
  | .infinity left, .infinity right => left && !right
  | .infinity negative, .finite _ => negative
  | .finite _, .infinity negative => !negative
  | _, _ => false

def lessOrEqual : Value → Value → Bool
  | .finite x, .finite y => decide (x ≤ y)
  | .infinity left, .infinity right => left || !right
  | .infinity negative, .finite _ => negative
  | .finite _, .infinity negative => !negative
  | _, _ => false

def finite : Value → Bool
  | .finite _ => true
  | _ => false

@[reducible]
def binary32Ops (library : MathLibrary) : FloatOps Value where
  add x y := (x.sum y).round binary32
  sub x y := (x.sum (negate y)).round binary32
  mul x y := (x.product y).round binary32
  div x y := (quotient x y).round binary32
  neg := negate
  zero := .finite 0
  one := .finite 1
  negInfinity := .infinity true
  sqrt := library.sqrt
  exp := library.exp
  cos := library.cos
  sin := library.sin
  pow := library.pow
  ofNat number := (Value.finite number).round binary32
  lt := less
  le := lessOrEqual
  isFinite := finite

/-- The floats with a mathematics library that returns its first argument, for computations that
do not call it. -/
@[reducible]
def plainFloats : FloatOps Value :=
  binary32Ops { sqrt := id, exp := id, cos := id, sin := id, pow := fun base _ => base }

end MarketForge.Cpu
