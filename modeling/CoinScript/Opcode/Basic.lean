/-!
# Opcodes

An opcode belongs to a family, and each family is a type of its own: the rule of a
family is then a function on that type, and no rule has to exclude opcodes that
are none of its business. The catalog of all opcodes with codes and names is in
`CoinScript.Opcode.Catalog`.
-/

namespace CoinScript

/-- Constants and the marks of an inline payload. -/
inductive PushOp where
  /-- The constants from 0 to 16. -/
  | smallInt (n : Fin 17)
  /-- The constant -1. -/
  | oneNegate
  /-- A payload with a length field of one byte. -/
  | payload1
  /-- A payload with a length field of two bytes. -/
  | payload2
  /-- A payload with a length field of four bytes. -/
  | payload4
deriving DecidableEq, Repr

/-- Branching, and the two ways to stop. -/
inductive FlowOp where
  | ifTrue
  | ifFalse
  | orElse
  | endIf
  | verify
  | giveUp
deriving DecidableEq, Repr

/-- Fixed rearrangements of the top of the stack. -/
inductive ShuffleOp where
  | drop2
  | dup2
  | dup3
  | over2
  | rot2
  | swap2
  | drop
  | dup
  | nip
  | over
  | rot
  | swap
  | tuck
deriving DecidableEq, Repr

/-- Operations that move stack items. -/
inductive StackOp where
  | toAlt
  | fromAlt
  | shuffle (op : ShuffleOp)
  | ifDup
  | depth
  | pick
  | roll
deriving DecidableEq, Repr

/-- Functions of one number. -/
inductive UnaryOp where
  | add1
  | sub1
  | negate
  | abs
  | not
  | notZero
deriving DecidableEq, Repr

/-- Functions of two numbers. -/
inductive BinaryOp where
  | add
  | sub
  | boolAnd
  | boolOr
  | equal
  | notEqual
  | less
  | greater
  | lessOrEqual
  | greaterOrEqual
  | min
  | max
deriving DecidableEq, Repr

/-- Operations on numbers. -/
inductive ArithmeticOp where
  | unary (op : UnaryOp)
  | binary (op : BinaryOp)
  | equalVerify
  | within
deriving DecidableEq, Repr

/-- Digests of the top item. -/
inductive HashOp where
  | ripemd160
  | sha1
  | sha256
  | hash160
  | hash256
deriving DecidableEq, Repr

/-- Signature checks and the mark from which they hash the script. -/
inductive SignatureOp where
  | codeSeparator
  | checkSig
  | checkSigVerify
  | checkMultisig
  | checkMultisigVerify
deriving DecidableEq, Repr

/-- Lock-time checks. -/
inductive LockTimeOp where
  | absolute
  | relative
deriving DecidableEq, Repr

/-- Opcodes without effect. -/
inductive NoOp where
  | plain
  | n1
  | n4
  | n5
  | n6
  | n7
  | n8
  | n9
  | n10
deriving DecidableEq, Repr

/-- Opcodes that fail wherever they stand. -/
inductive DisabledOp where
  | cat
  | substr
  | left
  | right
  | invert
  | and
  | or
  | xor
  | mul2
  | div2
  | mul
  | div
  | mod
  | lshift
  | rshift
deriving DecidableEq, Repr

/-- Opcodes that fail when executed. -/
inductive ReservedOp where
  | reserved
  | ver
  | verIf
  | verNotIf
  | reserved1
  | reserved2
  | invalidOpcode
deriving DecidableEq, Repr

/-- The opcodes, by family. -/
inductive Opcode where
  | push (op : PushOp)
  | flow (op : FlowOp)
  | stack (op : StackOp)
  | size
  | equal
  | equalVerify
  | arithmetic (op : ArithmeticOp)
  | hash (op : HashOp)
  | signature (op : SignatureOp)
  | lockTime (op : LockTimeOp)
  | noOp (op : NoOp)
  | disabled (op : DisabledOp)
  | reserved (op : ReservedOp)
deriving DecidableEq, Repr

/-- The families. -/
inductive OpcodeKind where
  | pushData
  | flowControl
  | stack
  | splice
  | bitwise
  | arithmetic
  | cryptoHash
  | signatureCheck
  | lockTime
  | noOp
  | disabled
  | invalid
deriving DecidableEq, Repr

/-- The name of a family. -/
def OpcodeKind.name : OpcodeKind → String
  | pushData => "PushData"
  | flowControl => "FlowControl"
  | stack => "Stack"
  | splice => "Splice"
  | bitwise => "Bitwise"
  | arithmetic => "Arithmetic"
  | cryptoHash => "CryptoHash"
  | signatureCheck => "SignatureCheck"
  | lockTime => "LockTime"
  | noOp => "NoOp"
  | disabled => "Disabled"
  | invalid => "Invalid"

namespace Opcode

/-- The family of an opcode. -/
def kind : Opcode → OpcodeKind
  | push _ => .pushData
  | flow _ => .flowControl
  | stack _ => .stack
  | size => .splice
  | equal | equalVerify => .bitwise
  | arithmetic _ => .arithmetic
  | hash _ => .cryptoHash
  | signature _ => .signatureCheck
  | lockTime _ => .lockTime
  | noOp _ => .noOp
  | disabled _ => .disabled
  | reserved _ => .invalid

/-- Whether the opcode belongs to the push family. The reserved code `50` does not. -/
def isPush (op : Opcode) : Bool :=
  op.kind == .pushData

/-- Opcodes that take part in branch bookkeeping even in a branch that is not executed. -/
def isConditional : Opcode → Bool
  | flow .ifTrue | flow .ifFalse | flow .orElse | flow .endIf => true
  | reserved .verIf | reserved .verNotIf => true
  | _ => false

/-- Opcodes that fail in a branch that is not executed, too. -/
def alwaysFails : Opcode → Bool
  | disabled _ => true
  | reserved .verIf | reserved .verNotIf => true
  | _ => false

/-- The opcode that pushes `n`, for `n` up to 16. -/
def ofSmallInt? (n : Nat) : Option Opcode :=
  if h : n < 17 then some (push (.smallInt ⟨n, h⟩)) else none

/-- The number pushed by a constant from 0 to 16. -/
def smallInt? : Opcode → Option Nat
  | push (.smallInt n) => some n
  | _ => none

end Opcode

end CoinScript
