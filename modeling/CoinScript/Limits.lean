/-! # Limits on scripts, stacks and wire forms -/

namespace CoinScript

/-- The longest script, in bytes. -/
def maxScriptSize : Nat := 10000

/-- The longest item that a script may push. -/
def maxItemSize : Nat := 520

/-- The most operations in one script: opcodes above the constants, and the keys of executed
multisignature checks. -/
def maxOperations : Nat := 201

/-- The most items on the main and the alternate stack together. -/
def maxStackSize : Nat := 1000

/-- The most keys of a multisignature check. -/
def maxMultisigKeys : Nat := 20

/-- The most keys of a multisignature script that is built here. -/
def maxStandardKeys : Nat := 15

/-- The longest payload of a data output. -/
def maxCarrierSize : Nat := 220

/-- The longest number operand, in bytes. -/
def maxNumberSize : Nat := 4

/-- The longest lock-time operand, in bytes. -/
def maxLockTimeSize : Nat := 5

/-- The largest length field that is read from the wire. -/
def maxDecodeLength : Nat := 4000000

/-- Lock times below this value are block heights, the others are times. -/
def lockTimeThreshold : UInt32 := 500000000

/-- The sequence number of an input whose lock time is switched off. -/
def finalSequence : UInt32 := 0xffffffff

end CoinScript
