import CoinScript.Script.Build
import CoinScript.Text.Blank
/-!
# Assembly text

A script is shown as words: payloads in hexadecimal, `0` for the push of nothing,
and names of opcodes. Reading splits at blanks and takes word by word, so every
payload gets its shortest push and the size limit is met at the first word that
breaks it.
-/

namespace CoinScript.Script

/-- The text of a script. -/
def toAssembly (s : Script) : String :=
  String.intercalate " " (s.instructions.map Instruction.text)

/-- What one word stands for. -/
def wordToken (word : List Char) : Except Error Token :=
  if word = ['0'] then opcodeToken .zero
  else if ['O', 'P', '_'].isPrefixOf word then
    let name := String.ofList word
    match Opcode.ofName? name with
    | some o => opcodeToken o
    | none => .error (.invalidInput (.unknownName name))
  else
    match Hex.decodeChars word with
    | .ok data => dataToken data
    | .error fault => .error (.hex fault)

/-- What words stand for, behind `used` bytes of a script. -/
def wordTokens (used : Nat) : List (List Char) → Except Error (List Token)
  | [] => .ok []
  | word :: rest => do
    let token ← wordToken word
    let used := used + token.bytes.length
    if used > maxScriptSize then .error (.structural .noRoom)
    else return token :: (← wordTokens used rest)

/-- Read the text of a script. -/
def ofAssembly (text : String) : Except Error Script :=
  (wordTokens 0 (Text.words text.toList)).map Script.mk

end CoinScript.Script
