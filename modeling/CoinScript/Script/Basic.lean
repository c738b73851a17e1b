import CoinScript.Script.Token
/-!
# Scripts

A script is a row of tokens; its bytes, its instructions and the places where they
start are views of the tokens. Reading refuses byte strings over the size limit and
pushes that run past the end.

Changes keep whole tokens: dropping a front part, removing an opcode, and
removing the pushes of a payload.
-/

namespace CoinScript

/-- A script. -/
structure Script where
  tokens : List Token
deriving DecidableEq, Repr

namespace Script

/-- The script without tokens. -/
def empty : Script := ⟨[]⟩

/-- The bytes of a script. -/
def bytes (s : Script) : Bytes :=
  s.tokens.flatMap Token.bytes

/-- The number of bytes. -/
def size (s : Script) : Nat :=
  s.bytes.length

/-- The instructions in order. -/
def instructions (s : Script) : List Instruction :=
  s.tokens.map Token.instruction

/-- The places where tokens start when the first starts at `start`. -/
def offsetsFrom (start : Nat) : List Token → List Nat
  | [] => []
  | t :: rest => start :: offsetsFrom (start + t.bytes.length) rest

/-- The places where the instructions start. -/
def offsets (s : Script) : List Nat :=
  offsetsFrom 0 s.tokens

/-- Read a script. -/
def parse (input : Bytes) : Except Error Script :=
  if input.length > maxScriptSize then .error (.structural (.scriptTooLong input.length))
  else (Token.readAll input).map Script.mk

/-- Whether a script is what its bytes read as. -/
def readsBack (s : Script) : Bool :=
  match parse s.bytes with
  | .ok t => t == s
  | .error _ => false

/-! ## Removal -/

/-- The script from instruction `index` on. -/
def dropFront (s : Script) (index : Nat) : Script :=
  ⟨s.tokens.drop index⟩

/-- The script without the instruction of an opcode. -/
def withoutOpcode (s : Script) (o : Opcode) : Script :=
  ⟨s.tokens.filter fun t => t.instruction != .op o⟩

/-- The script without the shortest pushes of a payload. -/
def deletePush (s : Script) (data : Bytes) : Script :=
  let needle := (Token.minimalPush data).bytes
  ⟨s.tokens.filter fun t => t.bytes != needle⟩

end Script

end CoinScript
