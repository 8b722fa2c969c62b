/-!
The decimal text of a finite binary floating-point number: the fewest digits
that read back as the same number, the nearest such digits to the exact value,
laid out positionally for moderate sizes and with an exponent for all others.
The search for the digits runs in exact integer arithmetic.
-/

namespace BlockLoom.Decimal

def twoTo (exponent : Nat) : Nat := Nat.pow 2 exponent

def tenTo (exponent : Nat) : Nat := Nat.pow 10 exponent

/-- A positive finite number as `significand * 2 ^ exponent`. `least` marks a
significand at the bottom of its binade, whose lower neighbour is half as far. -/
structure Exact where
  significand : Nat
  exponent : Int
  least : Bool

/-- The magnitude held in the low 63 bits of a finite pattern. -/
def Exact.ofBits (bits : UInt64) : Exact :=
  let fraction : Nat := bits.toNat % twoTo 52
  let scale : Nat := bits.toNat / twoTo 52 % twoTo 11
  if scale = 0 then
    ⟨fraction, -1074, false⟩
  else
    ⟨twoTo 52 + fraction, (scale : Int) - 1075, fraction == 0 && scale > 1⟩

/-- A decimal number `digits * 10 ^ exponent`. -/
structure Scaled where
  digits : Nat
  exponent : Int

/-- The nearest multiple of `10 ^ place` that reads back as the number, if there
is one. Distances are counted in quarters of the spacing of the binary grid; the
ends of the interval belong to it when the significand is even. -/
def onGrid (number : Exact) (place : Int) : Option Scaled :=
  let binary := number.exponent - 2
  let scale := twoTo binary.toNat * tenTo (-place).toNat
  let unit := tenTo place.toNat * twoTo (-binary).toNat
  let value := 4 * number.significand * scale
  let low := value - (if number.least then 1 else 2) * scale
  let high := value + 2 * scale
  let closed := number.significand % 2 == 0
  let inside (digits : Nat) : Bool :=
    let point := digits * unit
    if closed then low ≤ point && point ≤ high else low < point && point < high
  let below := value / unit
  match inside below, inside (below + 1) with
  | true, true =>
    if value - below * unit ≤ (below + 1) * unit - value then some ⟨below, place⟩
    else some ⟨below + 1, place⟩
  | true, false => some ⟨below, place⟩
  | false, true => some ⟨below + 1, place⟩
  | false, false => none

/-- The powers of ten whose grids are tried, coarsest first. -/
def places : List Int :=
  (List.range 640).map fun (step : Nat) => (310 : Int) - step

/-- The shortest decimal that reads back as a positive number. -/
def shortest (number : Exact) : Scaled :=
  (places.findSome? (onGrid number)).getD ⟨number.significand, 0⟩

structure Layout where
  /-- The point may stand after at most this many digits. -/
  widest : Int
  /-- This many zeros may stand between the point and the first digit. -/
  leadingZeros : Int
  /-- What follows a number without a fraction. -/
  wholeMark : String
  /-- What stands before an exponent that is not negative. -/
  plus : String

def zeros (count : Int) : String :=
  String.ofList (List.replicate count.toNat '0')

def Scaled.text (form : Layout) (number : Scaled) : String :=
  let digits := Nat.toDigits 10 number.digits
  let point : Int := digits.length + number.exponent
  if 0 ≤ number.exponent ∧ point ≤ form.widest then
    String.ofList digits ++ zeros number.exponent ++ form.wholeMark
  else if 0 < point ∧ point ≤ form.widest then
    String.ofList (digits.take point.toNat) ++ "." ++ String.ofList (digits.drop point.toNat)
  else if -form.leadingZeros ≤ point ∧ point ≤ 0 then
    "0." ++ zeros (-point) ++ String.ofList digits
  else
    let head := String.ofList (digits.take 1)
    let tail := if digits.length = 1 then "" else "." ++ String.ofList (digits.drop 1)
    let sign := if point - 1 < 0 then "-" else form.plus
    head ++ tail ++ "e" ++ sign ++ toString (point - 1).natAbs

def text (form : Layout) (bits : UInt64) : String :=
  let sign := if bits.toNat / twoTo 63 = 1 then "-" else ""
  let number := Exact.ofBits bits
  if number.significand = 0 then sign ++ "0" ++ form.wholeMark
  else sign ++ (shortest number).text form

end BlockLoom.Decimal
