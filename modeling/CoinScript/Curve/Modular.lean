/-!
# Arithmetic modulo a number

Numbers below a modulus stand for residues. Only what the curve needs is here:
difference, powers, the inverse modulo a prime and the square root modulo a prime
that leaves 3 on division by 4.
-/

namespace CoinScript.Modular

/-- The difference `a - b` modulo `m`, for `b ≤ m`. -/
def sub (m a b : Nat) : Nat :=
  (a + (m - b)) % m

/-- The power `base ^ exponent` modulo `m`, by repeated squaring. -/
def pow (m base exponent : Nat) : Nat :=
  if exponent = 0 then 1 % m
  else
    let half := pow m (base * base % m) (exponent / 2)
    if exponent % 2 = 1 then half * base % m else half
termination_by exponent
decreasing_by omega

/-- The inverse modulo a prime: the power with exponent two below the modulus. -/
def inverse (m a : Nat) : Nat :=
  pow m a (m - 2)

/-- A square root modulo a prime that leaves 3 on division by 4, if there is one. -/
def sqrt? (m a : Nat) : Option Nat :=
  let root := pow m a ((m + 1) / 4)
  if root * root % m = a % m then some root else none

end CoinScript.Modular
