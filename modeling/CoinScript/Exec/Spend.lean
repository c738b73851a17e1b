import CoinScript.SignatureEncoding
import CoinScript.Transaction.SigHash
/-!
# The spend under verification

An input of a transaction and the output that it spends. The lock-time rules compare
a number given by a script with the fields of the transaction.
-/

namespace CoinScript

/-- An existing input of a transaction and the output that it spends. -/
structure Spend where
  transaction : Transaction
  index : Fin transaction.inputs.length
  prevOutput : TxOut

namespace Spend

/-- The spend of input `index`, if there is one. -/
def ofIndex (tx : Transaction) (index : Nat) (prevOutput : TxOut) : Except Error Spend :=
  if h : index < tx.inputs.length then .ok ⟨tx, ⟨index, h⟩, prevOutput⟩
  else .error (.invalidInput (.inputIndex index tx.inputs.length))

/-- The spending input. -/
def input (spend : Spend) : TxIn :=
  spend.transaction.inputs.get spend.index

/-- The digest that a signature for this spend commits to. -/
def signatureHash (spend : Spend) (code : Script) (hashType : UInt32) : Digest 32 :=
  SigHash.digest spend.transaction spend.index code hashType

/-! ## Lock times -/

/-- Whether a lock time is a block height. -/
def isHeight (lockTime : UInt32) : Bool :=
  lockTime < lockTimeThreshold

/-- The rule of an absolute lock time: the transaction's own lock time is of the same kind and not
earlier, the input is not final, and a time is not after the time of the block. -/
def checkLockTime (spend : Spend) (blockTime : Option UInt32) (lockTime : Int) :
    Except Error Unit :=
  let own := spend.transaction.lockTime
  let wanted := UInt32.ofNat lockTime.toNat
  if lockTime < 0 then .error (.structural .negativeLockTime)
  else if lockTime > 0xffffffff then .error (.negativeVerdict .lockTimeRange)
  else if isHeight own != isHeight wanted then .error (.negativeVerdict .lockTimeKind)
  else if wanted > own then .error (.negativeVerdict .lockTimeEarly)
  else if spend.input.sequence = finalSequence then .error (.negativeVerdict .finalInput)
  else
    match blockTime with
    | some time =>
      if !isHeight wanted && own > time then .error (.negativeVerdict .afterBlockTime) else .ok ()
    | none => .ok ()

/-- The bit of a sequence that switches relative lock times off. -/
def sequenceDisableBit : UInt32 := 0x80000000

/-- The bit of a sequence that tells times from heights. -/
def sequenceKindBit : UInt32 := 0x00400000

/-- The bits of a sequence that a relative lock time compares. -/
def sequenceMask : UInt32 := 0x0040ffff

/-- The rule of a relative lock time: the transaction has version 2, the input's sequence is a
relative lock time of the same kind, and it is not shorter. -/
def checkSequence (spend : Spend) (sequence : Int) : Except Error Unit :=
  let own := spend.input.sequence
  let wanted := UInt32.ofNat sequence.toNat &&& sequenceMask
  let actual := own &&& sequenceMask
  if sequence < 0 then .error (.structural .negativeSequence)
  else if sequence > 0xffffffff then .error (.negativeVerdict .sequenceRange)
  else if spend.transaction.version < 2 then .error (.negativeVerdict .sequenceVersion)
  else if own &&& sequenceDisableBit ≠ 0 then .error (.negativeVerdict .sequenceDisabled)
  else if wanted &&& sequenceKindBit ≠ actual &&& sequenceKindBit then
    .error (.negativeVerdict .sequenceKind)
  else if wanted > actual then .error (.negativeVerdict .sequenceEarly)
  else .ok ()

end Spend

end CoinScript
