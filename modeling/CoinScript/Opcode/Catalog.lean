import CoinScript.Opcode.Basic
/-!
# The catalog of opcodes

Every opcode has a code and a name. Lookups search the list of all opcodes, so a
code or a name is found exactly if some opcode has it:

* `ofCode?_code`: looking up an opcode's code gives the opcode back;
* `code_of_ofCode?`: what is found under a code has that code.
-/

namespace CoinScript

/-! ## Codes -/

/-- The code of a push opcode. -/
def PushOp.code : PushOp → UInt8
  | .smallInt n => if n.val = 0 then 0x00 else UInt8.ofNat (0x50 + n.val)
  | .payload1 => 0x4c
  | .payload2 => 0x4d
  | .payload4 => 0x4e
  | .oneNegate => 0x4f

/-- The code of a flow opcode. -/
def FlowOp.code : FlowOp → UInt8
  | .ifTrue => 0x63
  | .ifFalse => 0x64
  | .orElse => 0x67
  | .endIf => 0x68
  | .verify => 0x69
  | .giveUp => 0x6a

/-- The code of a rearrangement. -/
def ShuffleOp.code : ShuffleOp → UInt8
  | .drop2 => 0x6d
  | .dup2 => 0x6e
  | .dup3 => 0x6f
  | .over2 => 0x70
  | .rot2 => 0x71
  | .swap2 => 0x72
  | .drop => 0x75
  | .dup => 0x76
  | .nip => 0x77
  | .over => 0x78
  | .rot => 0x7b
  | .swap => 0x7c
  | .tuck => 0x7d

/-- The code of a stack opcode. -/
def StackOp.code : StackOp → UInt8
  | .toAlt => 0x6b
  | .fromAlt => 0x6c
  | .shuffle op => op.code
  | .ifDup => 0x73
  | .depth => 0x74
  | .pick => 0x79
  | .roll => 0x7a

/-- The code of a function of one number. -/
def UnaryOp.code : UnaryOp → UInt8
  | .add1 => 0x8b
  | .sub1 => 0x8c
  | .negate => 0x8f
  | .abs => 0x90
  | .not => 0x91
  | .notZero => 0x92

/-- The code of a function of two numbers. -/
def BinaryOp.code : BinaryOp → UInt8
  | .add => 0x93
  | .sub => 0x94
  | .boolAnd => 0x9a
  | .boolOr => 0x9b
  | .equal => 0x9c
  | .notEqual => 0x9e
  | .less => 0x9f
  | .greater => 0xa0
  | .lessOrEqual => 0xa1
  | .greaterOrEqual => 0xa2
  | .min => 0xa3
  | .max => 0xa4

/-- The code of an arithmetic opcode. -/
def ArithmeticOp.code : ArithmeticOp → UInt8
  | .unary op => op.code
  | .binary op => op.code
  | .equalVerify => 0x9d
  | .within => 0xa5

/-- The code of a digest opcode. -/
def HashOp.code : HashOp → UInt8
  | .ripemd160 => 0xa6
  | .sha1 => 0xa7
  | .sha256 => 0xa8
  | .hash160 => 0xa9
  | .hash256 => 0xaa

/-- The code of a signature opcode. -/
def SignatureOp.code : SignatureOp → UInt8
  | .codeSeparator => 0xab
  | .checkSig => 0xac
  | .checkSigVerify => 0xad
  | .checkMultisig => 0xae
  | .checkMultisigVerify => 0xaf

/-- The code of a lock-time opcode. -/
def LockTimeOp.code : LockTimeOp → UInt8
  | .absolute => 0xb1
  | .relative => 0xb2

/-- The code of an opcode without effect. -/
def NoOp.code : NoOp → UInt8
  | .plain => 0x61
  | .n1 => 0xb0
  | .n4 => 0xb3
  | .n5 => 0xb4
  | .n6 => 0xb5
  | .n7 => 0xb6
  | .n8 => 0xb7
  | .n9 => 0xb8
  | .n10 => 0xb9

/-- The code of a disabled opcode. -/
def DisabledOp.code : DisabledOp → UInt8
  | .cat => 0x7e
  | .substr => 0x7f
  | .left => 0x80
  | .right => 0x81
  | .invert => 0x83
  | .and => 0x84
  | .or => 0x85
  | .xor => 0x86
  | .mul2 => 0x8d
  | .div2 => 0x8e
  | .mul => 0x95
  | .div => 0x96
  | .mod => 0x97
  | .lshift => 0x98
  | .rshift => 0x99

/-- The code of a reserved opcode. -/
def ReservedOp.code : ReservedOp → UInt8
  | .reserved => 0x50
  | .ver => 0x62
  | .verIf => 0x65
  | .verNotIf => 0x66
  | .reserved1 => 0x89
  | .reserved2 => 0x8a
  | .invalidOpcode => 0xff

/-- The code of an opcode. -/
def Opcode.code : Opcode → UInt8
  | .push op => op.code
  | .flow op => op.code
  | .stack op => op.code
  | .size => 0x82
  | .equal => 0x87
  | .equalVerify => 0x88
  | .arithmetic op => op.code
  | .hash op => op.code
  | .signature op => op.code
  | .lockTime op => op.code
  | .noOp op => op.code
  | .disabled op => op.code
  | .reserved op => op.code

/-! ## Names -/

/-- The name of a push opcode, without its first three characters. -/
def PushOp.label : PushOp → String
  | .smallInt n => toString n.val
  | .payload1 => "PUSHDATA1"
  | .payload2 => "PUSHDATA2"
  | .payload4 => "PUSHDATA4"
  | .oneNegate => "1NEGATE"

/-- The label of a flow opcode. -/
def FlowOp.label : FlowOp → String
  | .ifTrue => "IF"
  | .ifFalse => "NOTIF"
  | .orElse => "ELSE"
  | .endIf => "ENDIF"
  | .verify => "VERIFY"
  | .giveUp => "RETURN"

/-- The label of a rearrangement. -/
def ShuffleOp.label : ShuffleOp → String
  | .drop2 => "2DROP"
  | .dup2 => "2DUP"
  | .dup3 => "3DUP"
  | .over2 => "2OVER"
  | .rot2 => "2ROT"
  | .swap2 => "2SWAP"
  | .drop => "DROP"
  | .dup => "DUP"
  | .nip => "NIP"
  | .over => "OVER"
  | .rot => "ROT"
  | .swap => "SWAP"
  | .tuck => "TUCK"

/-- The label of a stack opcode. -/
def StackOp.label : StackOp → String
  | .toAlt => "TOALTSTACK"
  | .fromAlt => "FROMALTSTACK"
  | .shuffle op => op.label
  | .ifDup => "IFDUP"
  | .depth => "DEPTH"
  | .pick => "PICK"
  | .roll => "ROLL"

/-- The label of a function of one number. -/
def UnaryOp.label : UnaryOp → String
  | .add1 => "1ADD"
  | .sub1 => "1SUB"
  | .negate => "NEGATE"
  | .abs => "ABS"
  | .not => "NOT"
  | .notZero => "0NOTEQUAL"

/-- The label of a function of two numbers. -/
def BinaryOp.label : BinaryOp → String
  | .add => "ADD"
  | .sub => "SUB"
  | .boolAnd => "BOOLAND"
  | .boolOr => "BOOLOR"
  | .equal => "NUMEQUAL"
  | .notEqual => "NUMNOTEQUAL"
  | .less => "LESSTHAN"
  | .greater => "GREATERTHAN"
  | .lessOrEqual => "LESSTHANOREQUAL"
  | .greaterOrEqual => "GREATERTHANOREQUAL"
  | .min => "MIN"
  | .max => "MAX"

/-- The label of an arithmetic opcode. -/
def ArithmeticOp.label : ArithmeticOp → String
  | .unary op => op.label
  | .binary op => op.label
  | .equalVerify => "NUMEQUALVERIFY"
  | .within => "WITHIN"

/-- The label of a digest opcode. -/
def HashOp.label : HashOp → String
  | .ripemd160 => "RIPEMD160"
  | .sha1 => "SHA1"
  | .sha256 => "SHA256"
  | .hash160 => "HASH160"
  | .hash256 => "HASH256"

/-- The label of a signature opcode. -/
def SignatureOp.label : SignatureOp → String
  | .codeSeparator => "CODESEPARATOR"
  | .checkSig => "CHECKSIG"
  | .checkSigVerify => "CHECKSIGVERIFY"
  | .checkMultisig => "CHECKMULTISIG"
  | .checkMultisigVerify => "CHECKMULTISIGVERIFY"

/-- The label of a lock-time opcode. -/
def LockTimeOp.label : LockTimeOp → String
  | .absolute => "CHECKLOCKTIMEVERIFY"
  | .relative => "CHECKSEQUENCEVERIFY"

/-- The label of an opcode without effect. -/
def NoOp.label : NoOp → String
  | .plain => "NOP"
  | .n1 => "NOP1"
  | .n4 => "NOP4"
  | .n5 => "NOP5"
  | .n6 => "NOP6"
  | .n7 => "NOP7"
  | .n8 => "NOP8"
  | .n9 => "NOP9"
  | .n10 => "NOP10"

/-- The label of a disabled opcode. -/
def DisabledOp.label : DisabledOp → String
  | .cat => "CAT"
  | .substr => "SUBSTR"
  | .left => "LEFT"
  | .right => "RIGHT"
  | .invert => "INVERT"
  | .and => "AND"
  | .or => "OR"
  | .xor => "XOR"
  | .mul2 => "2MUL"
  | .div2 => "2DIV"
  | .mul => "MUL"
  | .div => "DIV"
  | .mod => "MOD"
  | .lshift => "LSHIFT"
  | .rshift => "RSHIFT"

/-- The label of a reserved opcode. -/
def ReservedOp.label : ReservedOp → String
  | .reserved => "RESERVED"
  | .ver => "VER"
  | .verIf => "VERIF"
  | .verNotIf => "VERNOTIF"
  | .reserved1 => "RESERVED1"
  | .reserved2 => "RESERVED2"
  | .invalidOpcode => "INVALIDOPCODE"

namespace Opcode

/-- The name of an opcode without the leading `OP_`. -/
def label : Opcode → String
  | .push op => op.label
  | .flow op => op.label
  | .stack op => op.label
  | .size => "SIZE"
  | .equal => "EQUAL"
  | .equalVerify => "EQUALVERIFY"
  | .arithmetic op => op.label
  | .hash op => op.label
  | .signature op => op.label
  | .lockTime op => op.label
  | .noOp op => op.label
  | .disabled op => op.label
  | .reserved op => op.label

/-- The name of an opcode. -/
def name (op : Opcode) : String :=
  "OP_" ++ op.label

/-! ## All opcodes -/

/-- The opcode that pushes zero, which is also false. -/
abbrev zero : Opcode := push (.smallInt 0)

/-- The opcode that pushes one, which is also true. -/
abbrev one : Opcode := push (.smallInt 1)

/-- Every opcode, in the order of the codes. -/
def all : List Opcode :=
  [zero, push .payload1, push .payload2, push .payload4, push .oneNegate,
   reserved .reserved,
   one, push (.smallInt 2), push (.smallInt 3), push (.smallInt 4),
   push (.smallInt 5), push (.smallInt 6), push (.smallInt 7), push (.smallInt 8),
   push (.smallInt 9), push (.smallInt 10), push (.smallInt 11), push (.smallInt 12),
   push (.smallInt 13), push (.smallInt 14), push (.smallInt 15), push (.smallInt 16),
   noOp .plain, reserved .ver, flow .ifTrue, flow .ifFalse, reserved .verIf, reserved .verNotIf,
   flow .orElse, flow .endIf, flow .verify, flow .giveUp,
   stack .toAlt, stack .fromAlt, stack (.shuffle .drop2), stack (.shuffle .dup2),
   stack (.shuffle .dup3), stack (.shuffle .over2), stack (.shuffle .rot2),
   stack (.shuffle .swap2), stack .ifDup, stack .depth, stack (.shuffle .drop),
   stack (.shuffle .dup), stack (.shuffle .nip), stack (.shuffle .over), stack .pick,
   stack .roll, stack (.shuffle .rot), stack (.shuffle .swap), stack (.shuffle .tuck),
   disabled .cat, disabled .substr, disabled .left, disabled .right, size,
   disabled .invert, disabled .and, disabled .or, disabled .xor, equal, equalVerify,
   reserved .reserved1, reserved .reserved2,
   arithmetic (.unary .add1), arithmetic (.unary .sub1), disabled .mul2, disabled .div2,
   arithmetic (.unary .negate), arithmetic (.unary .abs), arithmetic (.unary .not),
   arithmetic (.unary .notZero), arithmetic (.binary .add), arithmetic (.binary .sub),
   disabled .mul, disabled .div, disabled .mod, disabled .lshift, disabled .rshift,
   arithmetic (.binary .boolAnd), arithmetic (.binary .boolOr), arithmetic (.binary .equal),
   arithmetic .equalVerify, arithmetic (.binary .notEqual), arithmetic (.binary .less),
   arithmetic (.binary .greater), arithmetic (.binary .lessOrEqual),
   arithmetic (.binary .greaterOrEqual), arithmetic (.binary .min), arithmetic (.binary .max),
   arithmetic .within,
   hash .ripemd160, hash .sha1, hash .sha256, hash .hash160, hash .hash256,
   signature .codeSeparator, signature .checkSig, signature .checkSigVerify,
   signature .checkMultisig, signature .checkMultisigVerify,
   noOp .n1, lockTime .absolute, lockTime .relative, noOp .n4, noOp .n5, noOp .n6, noOp .n7,
   noOp .n8, noOp .n9, noOp .n10, reserved .invalidOpcode]

/-! ## Lookup -/

/-- The opcode with a code. -/
def ofCode? (code : UInt8) : Option Opcode :=
  all.find? fun op => op.code == code

/-- The opcode with exactly this name; `OP_FALSE` and `OP_TRUE` are names too. -/
def ofExactName? (name : String) : Option Opcode :=
  if name = "OP_FALSE" then some zero
  else if name = "OP_TRUE" then some one
  else all.find? fun op => op.name == name

/-- The opcode with a name in any case of ASCII letters, with or without the leading `OP_`. -/
def ofName? (name : String) : Option Opcode :=
  let upper := name.toUpper
  (ofExactName? upper).or (ofExactName? ("OP_" ++ upper))

theorem code_of_ofCode? {c : UInt8} {op : Opcode} (h : ofCode? c = some op) : op.code = c := by
  have := List.find?_some h
  simpa using this

theorem ofCode?_code (op : Opcode) : ofCode? op.code = some op := by
  cases op with
  | push op =>
    cases op with
    | smallInt n => revert n; decide
    | _ => decide
  | stack op =>
    cases op with
    | shuffle op => cases op <;> decide
    | _ => decide
  | arithmetic op =>
    cases op with
    | unary op => cases op <;> decide
    | binary op => cases op <;> decide
    | _ => decide
  | size | equal | equalVerify => decide
  | flow op | hash op | signature op | lockTime op | noOp op | disabled op | reserved op =>
    cases op <;> decide

end Opcode

end CoinScript
