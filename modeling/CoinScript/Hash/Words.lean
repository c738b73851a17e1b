import CoinScript.Bytes
/-!
# Message words

What the digests of this library share: a message is padded to whole blocks of 64
bytes, with its length in bits at the end, and each block is read as sixteen
32-bit words. The digests differ in the byte order of the words and of the length.
-/

namespace CoinScript.Hash

/-- The byte order of words and of the message length. -/
inductive Endian where
  | big
  | little
deriving DecidableEq, Repr

/-- The four bytes of a word. -/
def wordBytes : Endian → UInt32 → Bytes
  | .big, w => Bytes.ofNatBE 4 w.toNat
  | .little, w => Bytes.ofNatLE 4 w.toNat

@[simp]
theorem length_wordBytes (e : Endian) (w : UInt32) : (wordBytes e w).length = 4 := by
  cases e <;> simp [wordBytes]

/-- The word written by four bytes. -/
def wordOf : Endian → Bytes → UInt32
  | .big, bytes => UInt32.ofNat (Bytes.toNatBE bytes)
  | .little, bytes => UInt32.ofNat (Bytes.toNatLE bytes)

/-- The words of a block, four bytes each. -/
def words (e : Endian) (block : Bytes) : List UInt32 :=
  (Bytes.chunks 4 16 block).map (wordOf e)

/-- The message followed by `80`, zeros, and its length in bits, in whole blocks. -/
def pad (e : Endian) (message : Bytes) : Bytes :=
  let zeros := (119 - message.length % 64) % 64
  let bits := 8 * message.length
  let tail := match e with
    | .big => Bytes.ofNatBE 8 bits
    | .little => Bytes.ofNatLE 8 bits
  message ++ 0x80 :: List.replicate zeros 0 ++ tail

/-- The blocks of a padded message, each as its sixteen words. -/
def blocks (e : Endian) (message : Bytes) : List (List UInt32) :=
  let padded := pad e message
  (Bytes.chunks 64 (padded.length / 64) padded).map (words e)

/-- Rotation to the left, for amounts from 1 to 31. -/
def rotateLeft (w : UInt32) (amount : UInt32) : UInt32 :=
  (w <<< amount) ||| (w >>> (32 - amount))

/-- Rotation to the right, for amounts from 1 to 31. -/
def rotateRight (w : UInt32) (amount : UInt32) : UInt32 :=
  (w >>> amount) ||| (w <<< (32 - amount))

end CoinScript.Hash
