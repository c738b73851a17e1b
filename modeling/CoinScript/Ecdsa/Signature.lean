import CoinScript.Bytes
import CoinScript.Curve.Point
/-!
# Signatures and their DER forms

A signature is a pair of numbers. Its strict form is

    30 len 02 len(R) R 02 len(S) S

with R and S as short as an unsigned big-endian number with a clear top bit can
be. The lax reader accepts much more: it ignores the outer length, allows long
length fields and leading zeros, and ignores what follows S. A number that is too
large for the curve makes the pair `(0, 0)`, which no key accepts.
-/

namespace CoinScript

/-- The two numbers of an ECDSA signature. -/
structure Signature where
  r : Nat
  s : Nat
deriving DecidableEq, Repr

namespace Signature

open Curve

/-- Of `s` and its negative, the one in the lower half. -/
def normalize (sig : Signature) : Signature :=
  if sig.s > halfOrder then { sig with s := order - sig.s } else sig

/-- Whether `s` lies in the lower half. -/
def isLow (sig : Signature) : Bool :=
  sig.normalize == sig

/-! ## The strict form -/

/-- The shortest big-endian form of a number, with a zero byte in front if its top bit is set.
Zero has one byte. -/
def derMagnitude (n : Nat) : Bytes :=
  match (Bytes.minimalLE n).reverse with
  | [] => [0]
  | b :: rest => if b ≥ 0x80 then 0 :: b :: rest else b :: rest

/-- Tag, length and bytes of a number. -/
def derInteger (n : Nat) : Bytes :=
  let magnitude := derMagnitude n
  0x02 :: UInt8.ofNat magnitude.length :: magnitude

/-- The strict form of a signature. -/
def toDer (sig : Signature) : Bytes :=
  let body := derInteger sig.r ++ derInteger sig.s
  0x30 :: UInt8.ofNat body.length :: body

/-! ## The lax reader -/

/-- Skip a length field whose value does not matter. -/
def skipLength : Bytes → Option Bytes
  | [] => none
  | b :: rest =>
    if b < 0x80 then some rest
    else
      let count := b.toNat - 0x80
      if count ≤ rest.length then some (rest.drop count) else none

/-- Read a length field; at most seven bytes of a long one may count. -/
def readLength : Bytes → Option (Nat × Bytes)
  | [] => none
  | b :: rest =>
    if b < 0x80 then some (b.toNat, rest)
    else
      let count := b.toNat - 0x80
      if count ≤ rest.length then
        let digits := (rest.take count).dropWhile (· == 0)
        if digits.length < 8 then some (Bytes.toNatBE digits, rest.drop count) else none
      else none

/-- Read a tagged number. -/
def readInteger : Bytes → Option (Bytes × Bytes)
  | [] => none
  | tag :: rest =>
    if tag = 0x02 then
      match readLength rest with
      | none => none
      | some (size, rest) =>
        if size ≤ rest.length then some (rest.take size, rest.drop size) else none
    else none

/-- The number of a byte string that fits the group: at most 32 bytes after its leading zeros,
and below the order. -/
def scalar? (bytes : Bytes) : Option Nat :=
  let digits := bytes.dropWhile (· == 0)
  let n := Bytes.toNatBE digits
  if digits.length ≤ 32 ∧ n < order then some n else none

/-- Read a signature leniently. -/
def ofDerLax? : Bytes → Option Signature
  | [] => none
  | tag :: rest =>
    if tag = 0x30 then do
      let rest ← skipLength rest
      let (r, rest) ← readInteger rest
      let (s, _) ← readInteger rest
      match scalar? r, scalar? s with
      | some r, some s => some ⟨r, s⟩
      | _, _ => some ⟨0, 0⟩
    else none

end Signature

end CoinScript
