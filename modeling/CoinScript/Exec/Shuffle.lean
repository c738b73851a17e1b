import CoinScript.Opcode.Basic
import CoinScript.Bytes
/-!
# Rearrangements of the stack

Each rearrangement needs a number of items and maps the top of the stack to a new
top; what lies below stays. Lists have the top first.
-/

namespace CoinScript.ShuffleOp

/-- The number of items that a rearrangement needs. -/
def height : ShuffleOp → Nat
  | .drop2 => 2
  | .dup2 => 2
  | .dup3 => 3
  | .over2 => 4
  | .rot2 => 6
  | .swap2 => 4
  | .drop => 1
  | .dup => 1
  | .nip => 2
  | .over => 2
  | .rot => 3
  | .swap => 2
  | .tuck => 2

/-- The rearranged stack, if there are enough items. -/
def shuffle? : ShuffleOp → List Bytes → Option (List Bytes)
  | .drop2, _ :: _ :: s => some s
  | .dup2, b :: a :: s => some (b :: a :: b :: a :: s)
  | .dup3, c :: b :: a :: s => some (c :: b :: a :: c :: b :: a :: s)
  | .over2, d :: c :: b :: a :: s => some (b :: a :: d :: c :: b :: a :: s)
  | .rot2, f :: e :: d :: c :: b :: a :: s => some (b :: a :: f :: e :: d :: c :: s)
  | .swap2, d :: c :: b :: a :: s => some (b :: a :: d :: c :: s)
  | .drop, _ :: s => some s
  | .dup, a :: s => some (a :: a :: s)
  | .nip, b :: _ :: s => some (b :: s)
  | .over, b :: a :: s => some (a :: b :: a :: s)
  | .rot, c :: b :: a :: s => some (a :: c :: b :: s)
  | .swap, b :: a :: s => some (a :: b :: s)
  | .tuck, b :: a :: s => some (b :: a :: b :: s)
  | _, _ => none

end CoinScript.ShuffleOp
