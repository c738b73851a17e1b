import CoinScript.Bytes
import Mathlib.Algebra.Group.Nat.Even
/-!
# Bytes as digits

A byte string is a number in base 256, so `width` bytes hold exactly the numbers below
`256 ^ width`.

* `toNatLE_lt`: the number of a byte string is below the bound for its length;
* `toNatLE_ofNatLE`: writing keeps a number up to the bound for the width.
-/

namespace CoinScript.Bytes

theorem toNatLE_ofNatLE (width n : Nat) : toNatLE (ofNatLE width n) = n % 256 ^ width := by
  induction width generalizing n with
  | zero => simp [ofNatLE, toNatLE, Nat.mod_one]
  | succ width ih =>
    have split : n % (256 * 256 ^ width) = n % 256 + 256 * (n / 256 % 256 ^ width) := Nat.mod_mul
    simp only [ofNatLE, toNatLE, ih, UInt8.toNat_ofNat', Nat.pow_succ']
    omega

theorem toNatLE_lt (bytes : Bytes) : toNatLE bytes < 256 ^ bytes.length := by
  induction bytes with
  | nil => simp [toNatLE]
  | cons b rest ih =>
    have hb := b.toNat_lt
    simp only [toNatLE, List.length_cons, Nat.pow_succ']
    omega

end CoinScript.Bytes
