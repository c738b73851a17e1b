import CoinScript.Curve.PublicKey
import CoinScript.Ecdsa.Signature
/-! # Checking a signature -/

namespace CoinScript.Ecdsa

open Curve

/-- Whether a signature on a digest was made with the key of a point. -/
def verify (digest : Digest 32) (sig : Signature) (key : PublicKey) : Bool :=
  if sig.r = 0 || sig.s = 0 then false
  else
    let inv := Modular.inverse order sig.s
    let message := Bytes.toNatBE digest.bytes
    match Point.combine (message * inv % order) .generator (sig.r * inv % order) key.toPoint with
    | .neutral => false
    | .affine x _ => x % order == sig.r

/-- Check a signature and a key given as bytes. What cannot be read is not accepted, and a high `s`
counts as its low negative. -/
def verifyBytes (digest : Digest 32) (der key : Bytes) : Bool :=
  match PublicKey.ofBytes? key, Signature.ofDerLax? der with
  | some key, some sig => verify digest sig.normalize key
  | _, _ => false

end CoinScript.Ecdsa
