/-!
# Byte strings

Scripts, stack items, digests and wire forms are byte strings. This module fixes
their type, the little-endian and big-endian readings of a byte string as a
number, and byte strings of a known length.

* `ofNatLE_toNatLE`: the number of a byte string, written with as many bytes, gives
  the byte string back.
* `Digest`: a byte string whose length is part of its type.
-/

namespace CoinScript

/-- A byte string, first byte first. -/
abbrev Bytes := List UInt8

namespace Bytes

/-! ## Numbers as bytes -/

/-- The `width` low bytes of `n`, least significant byte first. -/
def ofNatLE : Nat → Nat → Bytes
  | 0, _ => []
  | width + 1, n => UInt8.ofNat n :: ofNatLE width (n / 256)

/-- The number a byte string stands for, least significant byte first. -/
def toNatLE : Bytes → Nat
  | [] => 0
  | b :: rest => b.toNat + 256 * toNatLE rest

/-- The `width` low bytes of `n`, most significant byte first. -/
def ofNatBE (width n : Nat) : Bytes :=
  (ofNatLE width n).reverse

/-- The number a byte string stands for, most significant byte first. -/
def toNatBE (bytes : Bytes) : Nat :=
  toNatLE bytes.reverse

/-- The shortest little-endian form of `n`; zero is the empty string. -/
def minimalLE (n : Nat) : Bytes :=
  if n = 0 then [] else UInt8.ofNat n :: minimalLE (n / 256)
termination_by n
decreasing_by omega

@[simp]
theorem length_ofNatLE (width n : Nat) : (ofNatLE width n).length = width := by
  induction width generalizing n with
  | zero => rfl
  | succ width ih => simp [ofNatLE, ih]

@[simp]
theorem length_ofNatBE (width n : Nat) : (ofNatBE width n).length = width := by
  simp [ofNatBE]

theorem ofNatLE_toNatLE (bytes : Bytes) : ofNatLE bytes.length (toNatLE bytes) = bytes := by
  induction bytes with
  | nil => rfl
  | cons b rest ih =>
    have hb := b.toNat_lt
    have quotient : (b.toNat + 256 * toNatLE rest) / 256 = toNatLE rest := by omega
    have low : UInt8.ofNat (b.toNat + 256 * toNatLE rest) = b := by
      apply UInt8.toNat_inj.mp
      simp only [UInt8.toNat_ofNat']
      omega
    simp only [List.length_cons, toNatLE, ofNatLE, quotient, low, ih]

/-! ## Cutting into pieces -/

/-- The first `count` pieces of `size` bytes each. -/
def chunks (size : Nat) : Nat → Bytes → List Bytes
  | 0, _ => []
  | count + 1, bytes => bytes.take size :: chunks size count (bytes.drop size)

end Bytes

/-! ## Byte strings of a known length -/

/-- A byte string of exactly `size` bytes. -/
structure Digest (size : Nat) where
  bytes : Bytes
  length_bytes : bytes.length = size
deriving DecidableEq

namespace Digest

/-- Accept a byte string that has the wanted length. -/
def ofBytes? (size : Nat) (bytes : Bytes) : Option (Digest size) :=
  if h : bytes.length = size then some ⟨bytes, h⟩ else none

/-- Equal bytes make equal digests. -/
@[ext]
theorem ext {size : Nat} {a b : Digest size} (h : a.bytes = b.bytes) : a = b := by
  cases a; cases b; cases h; rfl

/-- The digest whose bytes are all `b`. -/
def replicate (size : Nat) (b : UInt8) : Digest size :=
  ⟨List.replicate size b, List.length_replicate⟩

end Digest

end CoinScript
