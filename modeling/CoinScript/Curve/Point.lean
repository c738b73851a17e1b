import CoinScript.Curve.Modular
/-!
# The curve secp256k1

Points of `y² = x³ + 7` over the field of `fieldPrime` elements. Sums are computed
in Jacobian coordinates, where `(x, y, z)` stands for `(x / z², y / z³)` and every
triple with `z = 0` stands for the neutral point, so one inversion at the end is
enough.
-/

namespace CoinScript.Curve

/-- The number of field elements. -/
def fieldPrime : Nat := 0xfffffffffffffffffffffffffffffffffffffffffffffffffffffffefffffc2f

/-- The number of points, which is prime. -/
def order : Nat := 0xfffffffffffffffffffffffffffffffebaaedce6af48a03bbfd25e8cd0364141

/-- Half the order, rounded down: the largest low `s` of a signature. -/
def halfOrder : Nat := order / 2

/-- A point in Jacobian coordinates. -/
structure Jacobian where
  x : Nat
  y : Nat
  z : Nat

/-- A point of the curve. -/
inductive Point where
  | neutral
  | affine (x y : Nat)
deriving DecidableEq, Repr

/-- The right-hand side of the curve equation. -/
def rightSide (x : Nat) : Nat :=
  (x * x % fieldPrime * x + 7) % fieldPrime

/-- Whether coordinates in range satisfy the curve equation. -/
def isOnCurve (x y : Nat) : Bool :=
  x < fieldPrime && y < fieldPrime && y * y % fieldPrime == rightSide x

namespace Jacobian

/-- The neutral point. -/
def neutral : Jacobian := ⟨1, 1, 0⟩

/-- Twice a point. -/
def double (p : Jacobian) : Jacobian :=
  if p.z = 0 || p.y = 0 then neutral
  else
    let m := fieldPrime
    let ySq := p.y * p.y % m
    let s := 4 * p.x * ySq % m
    let slope := 3 * p.x * p.x % m
    let x := Modular.sub m (slope * slope % m) (2 * s % m)
    let y := Modular.sub m (slope * Modular.sub m s x % m) (8 * ySq * ySq % m)
    ⟨x, y, 2 * p.y * p.z % m⟩

/-- The sum of two points. -/
def add (p q : Jacobian) : Jacobian :=
  if p.z = 0 then q
  else if q.z = 0 then p
  else
    let m := fieldPrime
    let pz := p.z * p.z % m
    let qz := q.z * q.z % m
    let u1 := p.x * qz % m
    let u2 := q.x * pz % m
    let s1 := p.y * qz % m * q.z % m
    let s2 := q.y * pz % m * p.z % m
    if u1 = u2 then
      if s1 = s2 then double p else neutral
    else
      let h := Modular.sub m u2 u1
      let r := Modular.sub m s2 s1
      let hSq := h * h % m
      let hCu := hSq * h % m
      let v := u1 * hSq % m
      let x := Modular.sub m (Modular.sub m (r * r % m) hCu) (2 * v % m)
      let y := Modular.sub m (r * Modular.sub m v x % m) (s1 * hCu % m)
      ⟨x, y, h * p.z % m * q.z % m⟩

/-- The point that a triple stands for. -/
def toPoint (p : Jacobian) : Point :=
  if p.z = 0 then .neutral
  else
    let m := fieldPrime
    let inv := Modular.inverse m p.z
    let invSq := inv * inv % m
    .affine (p.x * invSq % m) (p.y * (invSq * inv % m) % m)

end Jacobian

namespace Point

/-- A triple for a point. -/
def toJacobian : Point → Jacobian
  | neutral => Jacobian.neutral
  | affine x y => ⟨x, y, 1⟩

/-- The generator. -/
def generator : Point :=
  .affine 0x79be667ef9dcbbac55a06295ce870b07029bfcdb2dce28d959f2815b16f81798
    0x483ada7726a3c4655da4fbfc0e1108a8fd17b448a68554199c47d08ffb10d4b8

/-- The sum `a • p + b • q` for scalars below `2 ^ 256`, from the highest bit down. -/
def combine (a : Nat) (p : Point) (b : Nat) (q : Point) : Point :=
  let p := p.toJacobian
  let q := q.toJacobian
  let both := p.add q
  ((List.range 256).foldr (fun bit sum =>
    let twice := sum.double
    match a.testBit bit, b.testBit bit with
    | true, true => twice.add both
    | true, false => twice.add p
    | false, true => twice.add q
    | false, false => twice) Jacobian.neutral).toPoint

/-- The multiple `a • p` for a scalar below `2 ^ 256`. -/
def multiple (a : Nat) (p : Point) : Point :=
  combine a p 0 .neutral

end Point

end CoinScript.Curve
