/-!
# Real numbers in JSON

A real number is a binary floating-point number of 64 bits. Its reading keeps as many
digits as fit a 64-bit word, rounds them to a floating-point number, and then
multiplies or divides by a power of ten, which rounds again: the result is close to
the number as written, and not always the closest. A number that this makes infinite
is refused.

Writing gives the exact decimal expansion.
-/

namespace CoinScript.Json.Real

/-! ## Reading -/

/-- Whether a digit still fits a 64-bit word behind the digits of `value`. -/
def hasRoom (value digit : Nat) : Bool :=
  10 * value + digit < UInt64.size

/-- Digits in front of the point: their value, and how many of them only count as places because
the word was full. -/
def takeWhole (value : Nat) : List Nat → Nat × Nat
  | [] => (value, 0)
  | digit :: rest =>
    if hasRoom value digit then takeWhole (10 * value + digit) rest
    else (value, rest.length + 1)

/-- Digits behind the point: the value with them, and how many were taken before the word was
full. -/
def takeFraction (value : Nat) : List Nat → Nat × Nat
  | [] => (value, 0)
  | digit :: rest =>
    if hasRoom value digit then
      let (value, taken) := takeFraction (10 * value + digit) rest
      (value, taken + 1)
    else (value, 0)

/-- The largest power of ten that is used at once. -/
def maxPower : Nat := 308

/-- A power of ten, rounded. -/
def powerOfTen (exponent : Nat) : Float :=
  Float.ofScientific 1 false exponent

/-- Divide by a power of ten, in several steps if it is large. -/
def scaleDown (x : Float) (exponent : Nat) : Float :=
  if exponent ≤ maxPower then x / powerOfTen exponent
  else if x == 0 then x
  else scaleDown (x / powerOfTen maxPower) (exponent - maxPower)
termination_by exponent
decreasing_by simp only [maxPower] at *; omega

/-- Multiply by a power of ten, if the result is finite. -/
def scale? (x : Float) : Int → Option Float
  | .ofNat exponent =>
    if x == 0 then some x
    else if exponent ≤ maxPower then
      let scaled := x * powerOfTen exponent
      if scaled.isInf then none else some scaled
    else none
  | .negSucc k => some (scaleDown x (k + 1))

/-- The number with the given digits before and behind the point, times a power of ten. -/
def read? (negative : Bool) (whole fraction : List Nat) (exponent : Int) : Option Float := do
  let (value, places) := takeWhole 0 whole
  let (value, taken) := takeFraction value fraction
  let magnitude ← scale? (Float.ofNat value) (exponent + places - taken)
  return if negative then -magnitude else magnitude

/-! ## Writing -/

/-- Take factors of two out of `m`, at most `places`, and count those that are left. -/
def halve (m : Nat) : Nat → Nat × Nat
  | 0 => (m, 0)
  | places + 1 => if m % 2 = 0 then halve (m / 2) places else (m, places + 1)

/-- The unit of the bits above the fraction. -/
def fractionUnit : Nat := 0x10000000000000

/-- The sign of a finite number, and its magnitude as an integer times a power of ten. -/
def expansion (x : Float) : Bool × Nat × Int :=
  let bits := x.toBits.toNat
  let fraction := bits % fractionUnit
  let field := bits / fractionUnit % 0x800
  let m := if field = 0 then fraction else fractionUnit + fraction
  -- The magnitude is `m * 2 ^ (power - 1074)`.
  let power := field - 1
  let (digits, exponent) : Nat × Int :=
    if 1074 ≤ power then (m <<< (power - 1074), 0)
    else
      let (m, places) := halve m (1074 - power)
      (m * Nat.pow 5 places, -places)
  (decide (0x8000000000000000 ≤ bits), digits, exponent)

/-- The text of a finite number. -/
def text (x : Float) : String :=
  let (negative, digits, exponent) := expansion x
  (if negative then "-" else "") ++ toString digits ++ "e" ++ toString exponent

end CoinScript.Json.Real
