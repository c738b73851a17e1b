import CoinScript.Hash.Words
/-! # SHA-1 -/

namespace CoinScript.Hash.Sha1

/-- The five chaining words. -/
structure State where
  a : UInt32
  b : UInt32
  c : UInt32
  d : UInt32
  e : UInt32

/-- The words before the first block. -/
def initial : State :=
  ⟨0x67452301, 0xefcdab89, 0x98badcfe, 0x10325476, 0xc3d2e1f0⟩

/-- Extend the sixteen words of a block by 64 more. -/
def schedule (block : List UInt32) : Array UInt32 :=
  (List.range 64).foldl (fun w i =>
    let mixed := w.getD (i + 13) 0 ^^^ w.getD (i + 8) 0 ^^^ w.getD (i + 2) 0 ^^^ w.getD i 0
    w.push (rotateLeft mixed 1)) block.toArray

/-- The selection function and constant of round `t`. -/
def mixer (t : Nat) (b c d : UInt32) : UInt32 × UInt32 :=
  if t < 20 then ((b &&& c) ||| ((~~~ b) &&& d), 0x5a827999)
  else if t < 40 then (b ^^^ c ^^^ d, 0x6ed9eba1)
  else if t < 60 then ((b &&& c) ||| (b &&& d) ||| (c &&& d), 0x8f1bbcdc)
  else (b ^^^ c ^^^ d, 0xca62c1d6)

/-- Round `t` with its scheduled word. -/
def round (s : State) (tw : Nat × UInt32) : State :=
  let (f, k) := mixer tw.1 s.b s.c s.d
  ⟨rotateLeft s.a 5 + f + s.e + k + tw.2, s.a, rotateLeft s.b 30, s.c, s.d⟩

/-- Mix one block into the chaining words. -/
def compress (s : State) (block : List UInt32) : State :=
  let t := ((List.range 80).zip (schedule block).toList).foldl round s
  ⟨s.a + t.a, s.b + t.b, s.c + t.c, s.d + t.d, s.e + t.e⟩

/-- The chaining words in output order. -/
def State.output (s : State) : Bytes :=
  [s.a, s.b, s.c, s.d, s.e].flatMap (wordBytes .big)

end Sha1

/-- The SHA-1 digest. -/
def sha1 (message : Bytes) : Digest 20 :=
  ⟨((blocks .big message).foldl Sha1.compress Sha1.initial).output, by simp [Sha1.State.output]⟩

end CoinScript.Hash
