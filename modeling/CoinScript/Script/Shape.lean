import CoinScript.Hash.Ripemd160
import CoinScript.Script.Build
/-!
# Shapes of scripts

Standard scripts are recognised by their bytes, so a template that is written with
a longer form of a push is not recognised.
-/

namespace CoinScript.Script

/-- Whether the bytes are `76 a9 14 <20 bytes> 88 ac`. -/
def isPayToPubkeyHash (s : Script) : Bool :=
  let b := s.bytes
  b.length == 25 && b.take 3 == [0x76, 0xa9, 0x14] && b.drop 23 == [0x88, 0xac]

/-- Whether the bytes are `a9 14 <20 bytes> 87`. -/
def isPayToScriptHash (s : Script) : Bool :=
  let b := s.bytes
  b.length == 23 && b.take 2 == [0xa9, 0x14] && b.drop 22 == [0x87]

/-- Whether the script only pushes. -/
def isDataOnly (s : Script) : Bool :=
  s.instructions.all Instruction.isPush

/-- Whether the script starts with the opcode that gives up. -/
def isDataCarrier (s : Script) : Bool :=
  s.bytes.head? == some 0x6a

/-- The payload of a push of at least one byte. -/
def keyOf? : Instruction → Option Bytes
  | .push [] => none
  | .push data => some data
  | _ => none

/-- The threshold and the keys of a multisignature script. -/
def multisigParams? (s : Script) : Option (Nat × List Bytes) := do
  let last ← s.instructions.getLast?
  let rest := s.instructions.dropLast
  if last = .op (.signature .checkMultisig) ∧ 3 ≤ rest.length then
    let required ← rest.head? >>= Instruction.smallInt?
    let count ← rest.getLast? >>= Instruction.smallInt?
    let keys := rest.tail.dropLast
    if required = 0 ∨ required > count ∨ count ≠ keys.length then none
    else
      let keys ← keys.mapM keyOf?
      some (required, keys)
  else none

/-- Whether the script is a multisignature script. -/
def isMultisig (s : Script) : Bool :=
  s.multisigParams?.isSome

/-- The hash in a pay-to-pubkey-hash or pay-to-script-hash script. -/
def hash160? (s : Script) : Option (Digest 20) :=
  if s.isPayToPubkeyHash then Digest.ofBytes? 20 ((s.bytes.drop 3).take 20)
  else if s.isPayToScriptHash then Digest.ofBytes? 20 ((s.bytes.drop 2).take 20)
  else none

/-- The hash that names the script. -/
def scriptHash (s : Script) : Digest 20 :=
  Hash.hash160 s.bytes

/-- The script that pays to whoever satisfies `s`. -/
def toScriptHash (s : Script) : Script :=
  payToScriptHash s.scriptHash

end CoinScript.Script
