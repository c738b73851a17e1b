import CoinScript.Curve.PublicKey
import CoinScript.Ecdsa.Signature
import CoinScript.Hash.Hmac
/-!
# Making a signature

The secret number of a signature is drawn from a generator that is seeded with the
secret key and the digest (RFC 6979), so signing is a function. The generator is a
chain of keyed digests; a candidate that is zero or too large is skipped.
-/

namespace CoinScript

/-- A secret key: a number from 1 to the order less one. -/
structure SecretKey where
  value : Nat
  pos : 0 < value
  lt_order : value < Curve.order

namespace SecretKey

/-- Read a secret key from its 32 bytes. -/
def ofBytes? (bytes : Bytes) : Option SecretKey :=
  let n := Bytes.toNatBE bytes
  if h : bytes.length = 32 ∧ 0 < n ∧ n < Curve.order then some ⟨n, h.2.1, h.2.2⟩ else none

/-- The 32 bytes of a secret key. -/
def bytes (key : SecretKey) : Bytes :=
  Bytes.ofNatBE 32 key.value

/-- The public key of a secret key. -/
def publicKey (key : SecretKey) : PublicKey :=
  match Curve.Point.multiple key.value .generator with
  | .neutral => ⟨0, 0⟩
  | .affine x y => ⟨x, y⟩

end SecretKey

namespace Ecdsa

open Curve Hash

/-- The state of the nonce generator: its key and its value. -/
structure Generator where
  key : Bytes
  value : Bytes

namespace Generator

/-- Mix data into the state. -/
def absorb (g : Generator) (mark : UInt8) (data : Bytes) : Generator :=
  let key := (hmacSha256 g.key (g.value ++ mark :: data)).bytes
  ⟨key, (hmacSha256 key g.value).bytes⟩

/-- The state seeded with the secret key and the digest. -/
def seed (key : SecretKey) (digest : Digest 32) : Generator :=
  let data := key.bytes ++ digest.bytes
  let start : Generator := ⟨List.replicate 32 0, List.replicate 32 1⟩
  (start.absorb 0 data).absorb 1 data

/-- The next candidate. -/
def candidate (g : Generator) : Nat :=
  Bytes.toNatBE (hmacSha256 g.key g.value).bytes

/-- The state after a candidate was refused. -/
def next (g : Generator) : Generator :=
  ({ g with value := (hmacSha256 g.key g.value).bytes } : Generator).absorb 0 []

end Generator

/-- The low-`s` signature with a given nonce, if the nonce and both numbers are usable. -/
def signWith? (key : SecretKey) (digest : Digest 32) (nonce : Nat) : Option Signature :=
  if nonce = 0 ∨ order ≤ nonce then none
  else
    match Point.multiple nonce .generator with
    | .neutral => none
    | .affine x _ =>
      let r := x % order
      let message := Bytes.toNatBE digest.bytes
      let s := Modular.inverse order nonce * ((message + r * key.value) % order) % order
      if r = 0 ∨ s = 0 then none else some (Signature.normalize ⟨r, s⟩)

/-- The first signature among `attempts` candidates. -/
def signFrom (key : SecretKey) (digest : Digest 32) : Nat → Generator → Option Signature
  | 0, _ => none
  | attempts + 1, g =>
    match signWith? key digest g.candidate with
    | some sig => some sig
    | none => signFrom key digest attempts g.next

/-- Sign a digest. A candidate is refused with a chance below `2 ^ (-127)`, so one of 64 attempts
is always enough. -/
def sign (key : SecretKey) (digest : Digest 32) : Signature :=
  (signFrom key digest 64 (Generator.seed key digest)).getD ⟨0, 0⟩

end Ecdsa

end CoinScript
