import CoinScript.Error
/-!
# The wire form of numbers, byte strings and lists

Numbers have a fixed width and are little-endian. A byte string or a list is led by
its length in compact form: one byte below `fd`, otherwise a mark and two, four or
eight bytes. Writing always takes the shortest compact form, reading takes any; a
length over `maxDecodeLength` is refused before anything behind it is read.

A `Reader` takes what it needs from the front of the input. `Reader.run` demands
that nothing is left.
-/

namespace CoinScript.Wire

/-! ## Writing -/

/-- The compact form of a length. -/
def compact (n : Nat) : Bytes :=
  if n < 0xfd then [UInt8.ofNat n]
  else if n < 0x10000 then 0xfd :: Bytes.ofNatLE 2 n
  else if n < 0x100000000 then 0xfe :: Bytes.ofNatLE 4 n
  else 0xff :: Bytes.ofNatLE 8 n

/-- The number of bytes of a compact form. -/
def compactSize (n : Nat) : Nat :=
  if n < 0xfd then 1
  else if n < 0x10000 then 3
  else if n < 0x100000000 then 5
  else 9

theorem length_compact (n : Nat) : (compact n).length = compactSize n := by
  unfold compact compactSize
  repeat' split
  all_goals simp

/-- A 32-bit word. -/
def word32 (n : UInt32) : Bytes := Bytes.ofNatLE 4 n.toNat

/-- A signed 32-bit word. -/
def int32 (n : Int32) : Bytes := word32 n.toUInt32

/-- A 64-bit word. -/
def word64 (n : UInt64) : Bytes := Bytes.ofNatLE 8 n.toNat

/-- A byte string behind its length. -/
def blob (data : Bytes) : Bytes := compact data.length ++ data

/-- The number of bytes of a byte string behind its length. -/
def blobSize (data : Bytes) : Nat := compactSize data.length + data.length

/-- A list behind its length. -/
def list {α : Type} (write : α → Bytes) (items : List α) : Bytes :=
  compact items.length ++ items.flatMap write

/-- The number of bytes of a list behind its length. -/
def listSize {α : Type} (size : α → Nat) (items : List α) : Nat :=
  compactSize items.length + items.foldr (fun item total => size item + total) 0

/-! ## Reading -/

/-- Takes a value from the front of a byte string. -/
abbrev Reader (α : Type) := StateT Bytes (Except Error) α

namespace Reader

/-- The next `count` bytes. -/
def take (count : Nat) : Reader Bytes := fun input =>
  let front := input.take count
  if front.length = count then .ok (front, input.drop count)
  else .error (.file .shortRead)

/-- The next `count` bytes as a byte string of that length. -/
def digest (count : Nat) : Reader (Digest count) := fun input =>
  match Digest.ofBytes? count (input.take count) with
  | some front => .ok (front, input.drop count)
  | none => .error (.file .shortRead)

/-- The next `width` bytes as a number. -/
def number (width : Nat) : Reader Nat := do
  return Bytes.toNatLE (← take width)

/-- A 32-bit word. -/
def word32 : Reader UInt32 := do
  return UInt32.ofNat (← number 4)

/-- A signed 32-bit word. -/
def int32 : Reader Int32 := do
  return (← word32).toInt32

/-- A 64-bit word. -/
def word64 : Reader UInt64 := do
  return UInt64.ofNat (← number 8)

/-- A number in compact form, the shortest or not. -/
def compact : Reader Nat := do
  let mark ← number 1
  if mark = 0xfd then number 2
  else if mark = 0xfe then number 4
  else if mark = 0xff then number 8
  else return mark

/-- A length, if it is not absurd. -/
def length : Reader Nat := do
  let n ← compact
  if n > maxDecodeLength then throw (.invalidInput (.lengthTooLarge n)) else return n

/-- A byte string behind its length. -/
def blob : Reader Bytes := do
  take (← length)

/-- A number of values in a row. -/
def repeated {α : Type} (read : Reader α) : Nat → Reader (List α)
  | 0 => return []
  | count + 1 => do
    let first ← read
    let rest ← repeated read count
    return first :: rest

/-- A list behind its length. -/
def list {α : Type} (read : Reader α) : Reader (List α) := do
  repeated read (← length)

/-- Read a whole byte string. -/
def run {α : Type} (read : Reader α) (input : Bytes) : Except Error α :=
  match read input with
  | .error e => .error e
  | .ok (value, []) => .ok value
  | .ok (_, _ :: _) => .error (.invalidInput .trailingBytes)

end Reader

end CoinScript.Wire
