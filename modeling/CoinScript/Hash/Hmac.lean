import CoinScript.Hash.Sha256
/-! # Keyed digests (HMAC) over SHA-256 -/

namespace CoinScript.Hash

/-- The key filled up with zeros to one block; a longer key is digested first. -/
def hmacKey (key : Bytes) : Bytes :=
  let key := if key.length > 64 then (sha256 key).bytes else key
  key ++ List.replicate (64 - key.length) 0

/-- The HMAC of a message under a key. -/
def hmacSha256 (key message : Bytes) : Digest 32 :=
  let key := hmacKey key
  let inner := sha256 (key.map (· ^^^ 0x36) ++ message)
  sha256 (key.map (· ^^^ 0x5c) ++ inner.bytes)

end CoinScript.Hash
