import CoinScript.Error
/-!
# Tokens

A script is a row of tokens. A push carries its payload and the way its length is
written; every other token is a single byte, which either is the code of an opcode
or has no meaning. `Token.bytes` writes a token and `Token.read` reads one from the
front of a byte string.

* `Token.WellFormed`: the payload fits the form of the push, and a single byte is
  none of the codes that start a push.
-/

namespace CoinScript

/-- How the length of a pushed payload is written. -/
inductive PushForm where
  /-- In the opcode itself, up to 75. -/
  | direct
  /-- In one byte behind `4c`. -/
  | field1
  /-- In two bytes behind `4d`. -/
  | field2
  /-- In four bytes behind `4e`. -/
  | field4
deriving DecidableEq, Repr

/-- What the machine does at one place of a script. -/
inductive Instruction where
  | push (data : Bytes)
  | op (op : Opcode)
  /-- A byte without meaning. -/
  | unknown (code : UInt8)
deriving DecidableEq, Repr

/-- One place of a script as it is written. -/
inductive Token where
  | push (form : PushForm) (data : Bytes)
  | op (op : Opcode)
  | unknown (code : UInt8)
deriving DecidableEq, Repr

namespace PushForm

/-- The longest payload of a form, plus one. -/
def capacity : PushForm → Nat
  | direct => 0x4c
  | field1 => 0x100
  | field2 => 0x10000
  | field4 => 0x100000000

/-- The bytes in front of a payload. -/
def header (form : PushForm) (length : Nat) : Bytes :=
  match form with
  | direct => [UInt8.ofNat length]
  | field1 => 0x4c :: Bytes.ofNatLE 1 length
  | field2 => 0x4d :: Bytes.ofNatLE 2 length
  | field4 => 0x4e :: Bytes.ofNatLE 4 length

/-- The shortest form for a payload. -/
def minimal (length : Nat) : PushForm :=
  if length < 0x4c then direct
  else if length < 0x100 then field1
  else if length < 0x10000 then field2
  else field4

end PushForm

namespace Instruction

/-- Instructions allowed in a script of data only: pushes, and opcodes up to the constant 16. -/
def isPush : Instruction → Bool
  | push _ => true
  | op o => o.code ≤ 0x60
  | unknown _ => false

/-- The text of an instruction in assembly. -/
def text : Instruction → String
  | push [] => "0"
  | push data => Hex.encode data
  | op o => o.name
  | unknown code => "OP_UNKNOWN<0x" ++ Hex.byteText code ++ ">"

/-- The text of an instruction in a trace. -/
def traceText : Instruction → String
  | push data =>
    "PushBytes([" ++ String.intercalate ", " (data.map fun b => toString b.toNat) ++ "])"
  | op o => "Op(" ++ o.name ++ ")"
  | unknown code => "Invalid(" ++ toString code.toNat ++ ")"

/-- The number of a constant from 0 to 16. -/
def smallInt? : Instruction → Option Nat
  | push [] => some 0
  | push _ => none
  | op o => o.smallInt?
  | unknown _ => none

end Instruction

namespace Token

/-- What the machine does at a token. -/
def instruction : Token → Instruction
  | push _ data => .push data
  | op o => .op o
  | unknown code => .unknown code

/-- The bytes of a token. -/
def bytes : Token → Bytes
  | push form data => form.header data.length ++ data
  | op o => [o.code]
  | unknown code => [code]

/-- The shortest push of a payload. -/
def minimalPush (data : Bytes) : Token :=
  .push (.minimal data.length) data

/-- The token of a bare opcode. The constant zero is the push of nothing. -/
def ofOpcode (o : Opcode) : Token :=
  if o = .zero then .push .direct [] else .op o

/-- The token of a single byte that starts no push. -/
def ofCode (code : UInt8) : Token :=
  match Opcode.ofCode? code with
  | some o => .op o
  | none => .unknown code

/-- A token that reads back as itself. -/
def WellFormed : Token → Prop
  | push form data => data.length < form.capacity
  | op o => 0x4f ≤ o.code
  | unknown code => 0x4f ≤ code ∧ Opcode.ofCode? code = none

instance (t : Token) : Decidable t.WellFormed :=
  match t with
  | push form data => inferInstanceAs (Decidable (data.length < form.capacity))
  | op o => inferInstanceAs (Decidable (0x4f ≤ o.code))
  | unknown code => inferInstanceAs (Decidable (0x4f ≤ code ∧ Opcode.ofCode? code = none))

/-! ## Reading -/

/-- Read a payload of known length. -/
def readData (form : PushForm) (length : Nat) (input : Bytes) : Except Error (Token × Bytes) :=
  if length ≤ input.length then .ok (.push form (input.take length), input.drop length)
  else .error (.structural .truncatedData)

/-- Read a length field of `width` bytes and the payload behind it. -/
def readField (form : PushForm) (width : Nat) (input : Bytes) : Except Error (Token × Bytes) :=
  if width ≤ input.length then
    readData form (Bytes.toNatLE (input.take width)) (input.drop width)
  else .error (.structural .truncatedLength)

/-- Read the token that starts with the byte `code`. -/
def read (code : UInt8) (input : Bytes) : Except Error (Token × Bytes) :=
  if code < 0x4c then readData .direct code.toNat input
  else if code = 0x4c then readField .field1 1 input
  else if code = 0x4d then readField .field2 2 input
  else if code = 0x4e then readField .field4 4 input
  else .ok (ofCode code, input)

theorem length_of_readData {form : PushForm} {length : Nat} {input rest : Bytes} {t : Token}
    (h : readData form length input = .ok (t, rest)) : rest.length ≤ input.length := by
  unfold readData at h
  split at h
  · cases h; simp
  · cases h

theorem length_of_readField {form : PushForm} {width : Nat} {input rest : Bytes} {t : Token}
    (h : readField form width input = .ok (t, rest)) : rest.length ≤ input.length := by
  unfold readField at h
  split at h
  · have := length_of_readData h
    simp at this
    omega
  · cases h

/-- Reading a token never lengthens the input. -/
theorem length_of_read {code : UInt8} {input rest : Bytes} {t : Token}
    (h : read code input = .ok (t, rest)) : rest.length ≤ input.length := by
  unfold read at h
  split at h
  · exact length_of_readData h
  split at h
  · exact length_of_readField h
  split at h
  · exact length_of_readField h
  split at h
  · exact length_of_readField h
  · cases h; exact Nat.le_refl _

/-- Read tokens until the input is used up. -/
def readAll : Bytes → Except Error (List Token)
  | [] => .ok []
  | code :: input =>
    match h : read code input with
    | .error e => .error e
    | .ok (t, rest) =>
      have : rest.length < input.length + 1 := Nat.lt_succ_of_le (length_of_read h)
      match readAll rest with
      | .error e => .error e
      | .ok tokens => .ok (t :: tokens)
termination_by input => input.length

end Token

end CoinScript
