/-!
The numbers of JSON data. A number is either an integer that fits in 64 bits,
signed or unsigned, or a finite binary floating-point number, kept as its bit
pattern so that equal numbers are equal data.
-/

namespace BlockLoom.Json

/-- A number as data: integers stay exact, everything else is binary floating point. -/
inductive Number where
  | integer (value : Int)
  | binary (bits : UInt64)
  deriving DecidableEq, Repr, Inhabited

namespace Number

def leastInteger : Int := -9223372036854775808

def greatestInteger : Int := 18446744073709551615

def IsInteger : Number → Prop
  | .integer value => leastInteger ≤ value ∧ value ≤ greatestInteger
  | .binary _ => False

instance : DecidablePred IsInteger
  | .integer value => inferInstanceAs (Decidable (leastInteger ≤ value ∧ value ≤ greatestInteger))
  | .binary _ => inferInstanceAs (Decidable False)

def ofFloat (value : Float) : Number :=
  .binary value.toBits

/-- Numbers compare by value within their kind: the two zeros of floating point
are the same, and an integer never equals a floating-point number. -/
def same : Number → Number → Bool
  | .integer left, .integer right => left == right
  | .binary left, .binary right => Float.ofBits left == Float.ofBits right
  | _, _ => false

end Number

end BlockLoom.Json
