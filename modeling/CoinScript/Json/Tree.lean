/-!
# JSON text

A text is cut into lexemes, and the lexemes are put together by a machine that keeps
the containers that are still open. The result is a syntax tree: it keeps repeated
keys, and it keeps numbers and strings that no value can have, so that a reader may
pass over parts of a text without looking at them.
-/

namespace CoinScript.Json

/-- A number as it is written. -/
inductive Numeral where
  /-- Digits only, with or without a sign, whose value fits 64 bits; minus zero is not among
  them. -/
  | integer (value : Int)
  /-- Digits before and behind the point, times a power of ten. -/
  | decimal (negative : Bool) (whole fraction : List Nat) (exponent : Int)
deriving DecidableEq, Repr

/-- The text of a string, or nothing if it names half of a surrogate pair. -/
abbrev Chars := Option String

/-- The lexemes of a text. -/
inductive Lexeme where
  | openObject
  | closeObject
  | openArray
  | closeArray
  | colon
  | comma
  | null
  | bool (b : Bool)
  | number (n : Numeral)
  | string (s : Chars)
deriving DecidableEq, Repr

/-- A syntax tree. -/
inductive Tree where
  | null
  | bool (b : Bool)
  | number (n : Numeral)
  | string (s : Chars)
  | array (items : List Tree)
  | object (members : List (Chars × Tree))

/-! ## Numbers -/

/-- The value of decimal digits. -/
def digitsValue (digits : List Nat) : Nat :=
  digits.foldl (fun n digit => 10 * n + digit) 0

/-- The digits in front, and the rest. -/
def takeDigits (input : List Char) : List Nat × List Char :=
  ((input.takeWhile Char.isDigit).map fun c => c.toNat - 48, input.dropWhile Char.isDigit)

/-- The digits of an integer part: no zero in front of another digit. -/
def lexInteger (input : List Char) : Option (List Nat × List Char) :=
  match takeDigits input with
  | ([], _) => none
  | (0 :: _ :: _, _) => none
  | (digits, rest) => some (digits, rest)

/-- The digits behind a point, if there is a point. -/
def lexFraction : List Char → Option (Option (List Nat) × List Char)
  | '.' :: input =>
    match takeDigits input with
    | ([], _) => none
    | (digits, rest) => some (some digits, rest)
  | input => some (none, input)

/-- The exponent, if there is one. -/
def lexExponent (input : List Char) : Option (Option Int × List Char) :=
  let unsigned (sign : Int) (input : List Char) : Option (Option Int × List Char) :=
    match takeDigits input with
    | ([], _) => none
    | (digits, rest) => some (some (sign * digitsValue digits), rest)
  match input with
  | c :: rest =>
    if c = 'e' ∨ c = 'E' then
      match rest with
      | '+' :: rest => unsigned 1 rest
      | '-' :: rest => unsigned (-1) rest
      | rest => unsigned 1 rest
    else some (none, input)
  | [] => some (none, [])

/-- A number without its sign. -/
def lexNumber (negative : Bool) (input : List Char) : Option (Lexeme × List Char) := do
  let (whole, input) ← lexInteger input
  let (fraction, input) ← lexFraction input
  let (exponent, input) ← lexExponent input
  let n := digitsValue whole
  let numeral : Numeral :=
    if fraction.isSome || exponent.isSome then
      .decimal negative whole (fraction.getD []) (exponent.getD 0)
    else if negative then
      if 0 < n ∧ n ≤ 0x8000000000000000 then .integer (-(n : Int)) else .decimal true whole [] 0
    else if n < UInt64.size then .integer n
    else .decimal false whole [] 0
  return (.number numeral, input)

/-! ## Strings -/

/-- The value of a hexadecimal digit. -/
def hexValue? (c : Char) : Option Nat :=
  if c.isDigit then some (c.toNat - 48)
  else if 'a' ≤ c ∧ c ≤ 'f' then some (c.toNat - 87)
  else if 'A' ≤ c ∧ c ≤ 'F' then some (c.toNat - 55)
  else none

/-- The code written by four hexadecimal digits. -/
def hexCode? (a b c d : Char) : Option Nat := do
  return ((← hexValue? a) * 16 + (← hexValue? b)) * 256 + (← hexValue? c) * 16 + (← hexValue? d)

/-- A character or half of a surrogate pair. -/
inductive Unit16 where
  | plain (c : Char)
  | escape (code : Nat)

/-- The units of a string up to its closing quote, and the rest. -/
def lexUnits : List Char → Option (List Unit16 × List Char)
  | [] => none
  | '"' :: rest => some ([], rest)
  | '\\' :: 'u' :: a :: b :: c :: d :: rest => do
    let code ← hexCode? a b c d
    let (units, rest) ← lexUnits rest
    return (.escape code :: units, rest)
  | '\\' :: c :: rest => do
    let plain ← match c with
      | '"' => some '"'
      | '\\' => some '\\'
      | '/' => some '/'
      | 'b' => some (Char.ofNat 8)
      | 'f' => some (Char.ofNat 12)
      | 'n' => some '\n'
      | 'r' => some '\r'
      | 't' => some '\t'
      | _ => none
    let (units, rest) ← lexUnits rest
    return (.plain plain :: units, rest)
  | c :: rest =>
    if c.toNat < 0x20 ∨ c = '\\' then none
    else do
      let (units, rest) ← lexUnits rest
      return (.plain c :: units, rest)

/-- The characters of units, joining surrogate pairs. -/
def joinUnits : List Unit16 → Option (List Char)
  | [] => some []
  | .plain c :: rest => do return c :: (← joinUnits rest)
  | [.escape code] => if 0xd800 ≤ code ∧ code < 0xe000 then none else some [Char.ofNat code]
  | .escape high :: .escape low :: rest =>
    if 0xd800 ≤ high ∧ high < 0xdc00 then
      if 0xdc00 ≤ low ∧ low < 0xe000 then do
        return Char.ofNat (0x10000 + (high - 0xd800) * 0x400 + (low - 0xdc00)) :: (← joinUnits rest)
      else none
    else if 0xdc00 ≤ high ∧ high < 0xe000 then none
    else do return Char.ofNat high :: (← joinUnits (.escape low :: rest))
  | .escape code :: .plain c :: rest =>
    if 0xd800 ≤ code ∧ code < 0xe000 then none
    else do return Char.ofNat code :: (← joinUnits (.plain c :: rest))

/-! ## Lexemes -/

/-- The first lexeme of a text that starts with no blank. -/
def lexOne : List Char → Option (Lexeme × List Char)
  | '\x7b' :: rest => some (.openObject, rest)
  | '\x7d' :: rest => some (.closeObject, rest)
  | '[' :: rest => some (.openArray, rest)
  | ']' :: rest => some (.closeArray, rest)
  | ':' :: rest => some (.colon, rest)
  | ',' :: rest => some (.comma, rest)
  | 'n' :: 'u' :: 'l' :: 'l' :: rest => some (.null, rest)
  | 't' :: 'r' :: 'u' :: 'e' :: rest => some (.bool true, rest)
  | 'f' :: 'a' :: 'l' :: 's' :: 'e' :: rest => some (.bool false, rest)
  | '"' :: rest => do
    let (units, rest) ← lexUnits rest
    return (.string ((joinUnits units).map String.ofList), rest)
  | '-' :: rest => lexNumber true rest
  | input => lexNumber false input

/-- The blanks of a text. -/
def isBlank (c : Char) : Bool :=
  c == ' ' || c == '\n' || c == '\t' || c == '\r'

/-- At most `fuel` lexemes of a text. Each takes at least one character, so the length of the text
is always enough. -/
def lexAll : Nat → List Char → Option (List Lexeme)
  | 0, input => if input.all isBlank then some [] else none
  | fuel + 1, input =>
    match input.dropWhile isBlank with
    | [] => some []
    | input => do
      let (lexeme, rest) ← lexOne input
      let lexemes ← lexAll fuel rest
      return lexeme :: lexemes

/-! ## Trees -/

/-- A container that is still open, its parts newest first. -/
inductive Frame where
  | array (items : List Tree)
  | object (members : List (Chars × Tree)) (key : Chars)

/-- What may come next. -/
inductive Expect where
  | value
  | valueOrClose
  | key
  | keyOrClose
  | colon
  | commaOrClose

/-- The state of the machine: a finished tree, or open containers and what may come next. -/
inductive Progress where
  | done (tree : Tree)
  | working (expect : Expect) (frames : List Frame)

namespace Progress

/-- Put a finished tree into the innermost open container. -/
def complete (tree : Tree) : List Frame → Progress
  | [] => done tree
  | .array items :: frames => working .commaOrClose (.array (tree :: items) :: frames)
  | .object members key :: frames =>
    working .commaOrClose (.object ((key, tree) :: members) key :: frames)

/-- The tree of a lexeme that is a value by itself. -/
def scalar? : Lexeme → Option Tree
  | .null => some .null
  | .bool b => some (.bool b)
  | .number n => some (.number n)
  | .string s => some (.string s)
  | _ => none

/-- A lexeme where a value is expected. -/
def startValue (frames : List Frame) : Lexeme → Option Progress
  | .openArray => some (working .valueOrClose (.array [] :: frames))
  | .openObject => some (working .keyOrClose (.object [] none :: frames))
  | lexeme => (scalar? lexeme).map fun tree => complete tree frames

/-- Take one lexeme. -/
def step : Progress → Lexeme → Option Progress
  | working .value frames, lexeme => startValue frames lexeme
  | working .valueOrClose (.array [] :: frames), .closeArray => some (complete (.array []) frames)
  | working .valueOrClose frames, lexeme => startValue frames lexeme
  | working .keyOrClose (.object [] _ :: frames), .closeObject =>
    some (complete (.object []) frames)
  | working .keyOrClose (.object members _ :: frames), .string key =>
    some (working .colon (.object members key :: frames))
  | working .key (.object members _ :: frames), .string key =>
    some (working .colon (.object members key :: frames))
  | working .colon frames, .colon => some (working .value frames)
  | working .commaOrClose (.array items :: frames), .comma =>
    some (working .value (.array items :: frames))
  | working .commaOrClose (.array items :: frames), .closeArray =>
    some (complete (.array items.reverse) frames)
  | working .commaOrClose (.object members key :: frames), .comma =>
    some (working .key (.object members key :: frames))
  | working .commaOrClose (.object members _ :: frames), .closeObject =>
    some (complete (.object members.reverse) frames)
  | _, _ => none

end Progress

/-- The tree of a text. -/
def Tree.parse? (text : String) : Option Tree := do
  let input := text.toList
  let lexemes ← lexAll input.length input
  match ← lexemes.foldlM Progress.step (.working .value []) with
  | .done tree => some tree
  | .working _ _ => none

end CoinScript.Json
