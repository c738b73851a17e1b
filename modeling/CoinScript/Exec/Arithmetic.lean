import CoinScript.Exec.State
/-!
# Arithmetic

Operands have at most four bytes and results are exact, so a result may need five.
Operands are removed from the top one by one: an operand that is no number fails
after the ones above it, and itself, are gone.
-/

namespace CoinScript

/-- The number of a truth value. -/
def Truth.toInt (b : Bool) : Int :=
  if b then 1 else 0

/-- The function of one number. -/
def UnaryOp.eval (op : UnaryOp) (a : Int) : Int :=
  match op with
  | add1 => a + 1
  | sub1 => a - 1
  | negate => -a
  | abs => a.natAbs
  | not => Truth.toInt (a == 0)
  | notZero => Truth.toInt (a != 0)

/-- The function of two numbers, the lower one first. -/
def BinaryOp.eval (op : BinaryOp) (a b : Int) : Int :=
  match op with
  | add => a + b
  | sub => a - b
  | boolAnd => Truth.toInt (a != 0 && b != 0)
  | boolOr => Truth.toInt (a != 0 || b != 0)
  | equal => Truth.toInt (a == b)
  | notEqual => Truth.toInt (a != b)
  | less => Truth.toInt (decide (a < b))
  | greater => Truth.toInt (decide (a > b))
  | lessOrEqual => Truth.toInt (decide (a ≤ b))
  | greaterOrEqual => Truth.toInt (decide (a ≥ b))
  | min => if a ≤ b then a else b
  | max => if a ≤ b then b else a

/-- The rule of an arithmetic opcode. -/
def ArithmeticOp.execute : ArithmeticOp → Exec Unit
  | unary op => do
    Exec.need 1
    let a ← Exec.popNumber maxNumberSize
    Exec.pushNumber (op.eval a)
  | binary op => do
    Exec.need 2
    let b ← Exec.popNumber maxNumberSize
    let a ← Exec.popNumber maxNumberSize
    Exec.pushNumber (op.eval a b)
  | equalVerify => do
    Exec.need 2
    let b ← Exec.popNumber maxNumberSize
    let a ← Exec.popNumber maxNumberSize
    if a ≠ b then throw (.negativeVerdict (.checkFailed (.arithmetic .equalVerify)))
  | within => do
    Exec.need 3
    let upper ← Exec.popNumber maxNumberSize
    let lower ← Exec.popNumber maxNumberSize
    let value ← Exec.popNumber maxNumberSize
    Exec.pushBool (decide (lower ≤ value) && decide (value < upper))

end CoinScript
