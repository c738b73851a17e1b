import CoinScript.Proofs.Token
/-!
# The grammar of scripts

A byte string is a script if it can be cut into lexemes. The grammar is stated on bytes
alone, without the reader; `Segmentation` is a way to cut.

A second reader, `parseRows`, walks over positions of the input and fills three rows
side by side: bytes, instructions and the places where they start. Each of its accesses
may fail when it lies outside the input.

* `segmentation_unique`: there is at most one way to cut;
* `parseRows_eq`: no access of the second reader fails, and it reads what `parse` reads;
* `parse_accepts_exactly_grammar`: a script is read exactly if it is short enough and can
  be cut, and it is then read as it is cut.
-/

namespace CoinScript

/-! ## Lexemes -/

/-- One token of the grammar, as bytes, and the instruction that it stands for. -/
inductive Lexeme : Bytes → Instruction → Prop
  | direct {n : UInt8} {data : Bytes} :
      n ≤ 0x4b → data.length = n.toNat → Lexeme (n :: data) (.push data)
  | field {mark : UInt8} {width : Nat} {length data : Bytes} :
      (mark, width) ∈ [((0x4c : UInt8), 1), (0x4d, 2), (0x4e, 4)] → length.length = width →
      Bytes.toNatLE length = data.length → Lexeme (mark :: (length ++ data)) (.push data)
  | opcode {o : Opcode} : 0x4f ≤ o.code → Lexeme [o.code] (.op o)
  | unknown {code : UInt8} :
      0x4f ≤ code → (∀ o : Opcode, o.code ≠ code) → Lexeme [code] (.unknown code)

/-- A way to cut a byte string into lexemes. -/
structure Segmentation (input : Bytes) (pieces : List (Bytes × Instruction)) : Prop where
  flatMap_eq : pieces.flatMap Prod.fst = input
  lexeme : ∀ piece ∈ pieces, Lexeme piece.1 piece.2

/-- The places where pieces start: in front of piece `i` stand the bytes of the first `i`. -/
def pieceStarts (pieces : List (Bytes × Instruction)) : List Nat :=
  (List.range pieces.length).map fun i => ((pieces.take i).flatMap Prod.fst).length

namespace GrammarLemmas

theorem lexeme_of_wellFormed {t : Token} (wf : t.WellFormed) : Lexeme t.bytes t.instruction := by
  cases t with
  | push form data =>
    have field {mark : UInt8} {width : Nat}
        (hm : (mark, width) ∈ [((0x4c : UInt8), 1), (0x4d, 2), (0x4e, 4)])
        (fits : data.length < 256 ^ width) :
        Lexeme (mark :: (Bytes.ofNatLE width data.length ++ data)) (.push data) := by
      obtain ⟨hl, hn⟩ := (Token.field_eq_ofNatLE_iff fits).mpr rfl
      exact Lexeme.field hm hl hn
    cases form with
    | direct =>
      have fits : data.length < 0x4c := wf
      have hn : (UInt8.ofNat data.length).toNat = data.length := by
        rw [UInt8.toNat_ofNat', Nat.mod_eq_of_lt (by omega)]
      refine Lexeme.direct ?_ hn.symm
      rw [UInt8.le_iff_toNat_le, hn]
      exact Nat.le_of_lt_succ fits
    | field1 => exact field (by simp) wf
    | field2 => exact field (by simp) wf
    | field4 => exact field (by simp) wf
  | op o => exact Lexeme.opcode wf
  | unknown code =>
    refine Lexeme.unknown wf.1 ?_
    rintro o rfl
    have none_eq : Opcode.ofCode? o.code = none := wf.2
    rw [Opcode.ofCode?_code] at none_eq
    cases none_eq

theorem exists_token_of_lexeme {b : Bytes} {instruction : Instruction}
    (h : Lexeme b instruction) :
    ∃ t : Token, t.WellFormed ∧ t.bytes = b ∧ t.instruction = instruction := by
  cases h with
  | @direct n data hn hlen =>
    refine ⟨.push .direct data, ?_, ?_, rfl⟩
    · show data.length < 0x4c
      rw [hlen]
      exact Nat.lt_succ_of_le (UInt8.le_iff_toNat_le.mp hn)
    · show UInt8.ofNat data.length :: data = n :: data
      rw [hlen, UInt8.ofNat_toNat]
  | @field mark width length data hm hl hn =>
    have fits : data.length < 256 ^ width := by
      rw [← hn, ← hl]
      exact Bytes.toNatLE_lt length
    have hfield := (Token.field_eq_ofNatLE_iff fits).mp ⟨hl, hn⟩
    simp only [List.mem_cons, Prod.mk.injEq, List.not_mem_nil, or_false] at hm
    obtain ⟨rfl, rfl⟩ | ⟨rfl, rfl⟩ | ⟨rfl, rfl⟩ := hm
    · exact ⟨.push .field1 data, fits, by rw [hfield]; rfl, rfl⟩
    · exact ⟨.push .field2 data, fits, by rw [hfield]; rfl, rfl⟩
    · exact ⟨.push .field4 data, fits, by rw [hfield]; rfl, rfl⟩
  | @opcode o ho => exact ⟨.op o, ho, rfl, rfl⟩
  | @unknown code hc hnone =>
    refine ⟨.unknown code, ⟨hc, ?_⟩, rfl, rfl⟩
    cases hop : Opcode.ofCode? code with
    | none => rfl
    | some o => exact absurd (Opcode.code_of_ofCode? hop) (hnone o)

/-- A token as a piece of the input. -/
def piece (t : Token) : Bytes × Instruction :=
  (t.bytes, t.instruction)

theorem flatMap_piece (tokens : List Token) :
    (tokens.map piece).flatMap Prod.fst = tokens.flatMap Token.bytes := by
  rw [List.flatMap_map]
  rfl

/-- Ways to cut an input are rows of well formed tokens with its bytes. -/
theorem segmentation_iff {input : Bytes} {pieces : List (Bytes × Instruction)} :
    Segmentation input pieces ↔
      ∃ tokens, Token.readAll input = .ok tokens ∧ pieces = tokens.map piece := by
  constructor
  · rintro ⟨rfl, hlex⟩
    induction pieces with
    | nil => exact ⟨[], by rw [List.flatMap_nil, Token.readAll], rfl⟩
    | cons p pieces ih =>
      obtain ⟨hp, hps⟩ := List.forall_mem_cons.mp hlex
      obtain ⟨t, wf, hb, hi⟩ := exists_token_of_lexeme hp
      obtain ⟨tokens, hread, rfl⟩ := ih hps
      obtain ⟨wfs, hbytes⟩ := Token.readAll_eq_ok_iff.mp hread
      have hpiece : p = piece t := by rw [piece, hb, hi]
      refine ⟨t :: tokens, Token.readAll_eq_ok_iff.mpr ⟨?_, ?_⟩, ?_⟩
      · exact List.forall_mem_cons.mpr ⟨wf, wfs⟩
      · rw [List.flatMap_cons, List.flatMap_cons, hbytes, hb]
      · rw [List.map_cons, hpiece]
  · rintro ⟨tokens, hread, rfl⟩
    obtain ⟨wf, hbytes⟩ := Token.readAll_eq_ok_iff.mp hread
    refine ⟨by rw [flatMap_piece, hbytes], ?_⟩
    intro p hp
    obtain ⟨t, ht, rfl⟩ := List.mem_map.mp hp
    exact lexeme_of_wellFormed (wf t ht)

theorem offsetsFrom_eq (start : Nat) (tokens : List Token) :
    Script.offsetsFrom start tokens =
      (List.range tokens.length).map fun i =>
        start + ((tokens.take i).flatMap Token.bytes).length := by
  induction tokens generalizing start with
  | nil => rfl
  | cons t tokens ih =>
    rw [Script.offsetsFrom, ih, List.length_cons, List.range_succ_eq_map]
    simp [Nat.add_assoc, Function.comp_def]

theorem offsets_eq_pieceStarts (tokens : List Token) :
    Script.offsetsFrom 0 tokens = pieceStarts (tokens.map piece) := by
  rw [offsetsFrom_eq, pieceStarts, List.length_map]
  simp only [Nat.zero_add, ← List.map_take, flatMap_piece]

end GrammarLemmas

open GrammarLemmas

/-- There is at most one way to cut a byte string into lexemes. -/
theorem segmentation_unique {input : Bytes} {p q : List (Bytes × Instruction)}
    (hp : Segmentation input p) (hq : Segmentation input q) : p = q := by
  obtain ⟨a, ha, rfl⟩ := segmentation_iff.mp hp
  obtain ⟨b, hb, rfl⟩ := segmentation_iff.mp hq
  rw [ha] at hb
  rw [Except.ok.inj hb]

/-! ## Reading by position -/

namespace Script

/-- A script as three rows side by side. -/
structure Rows where
  bytes : Bytes := []
  instructions : List Instruction := []
  offsets : List Nat := []

/-- Put an instruction and its bytes at the end. -/
def Rows.push (rows : Rows) (instruction : Instruction) (encoded : Bytes) : Rows :=
  { bytes := rows.bytes ++ encoded
    instructions := rows.instructions ++ [instruction]
    offsets := rows.offsets ++ [rows.bytes.length] }

/-- The rows of a script. -/
def rows (s : Script) : Rows :=
  ⟨s.bytes, s.instructions, s.offsets⟩

/-- A reading by position. It may refuse the input, and it may fail to give an answer at all
because it looked outside the input. -/
abbrev Positional := ExceptT Error Option

namespace Positional

/-- An access that may lie outside the input. -/
def access {α : Type} (a : Option α) : Positional α :=
  ExceptT.lift a

/-- The byte at a position. -/
def byteAt (input : Bytes) (i : Nat) : Positional UInt8 :=
  access input[i]?

/-- The bytes between two positions. -/
def slice (input : Bytes) (start stop : Nat) : Positional Bytes :=
  access (if start ≤ stop ∧ stop ≤ input.length then some ((input.take stop).drop start) else none)

/-- The number of bytes from a position on. -/
def remaining (input : Bytes) (i : Nat) : Positional Nat :=
  access (if i ≤ input.length then some (input.length - i) else none)

/-- The payload of `n` bytes at a position, and the position behind it. -/
def dataAt (input : Bytes) (i n : Nat) : Positional (Instruction × Nat) := do
  if (← remaining input i) < n then throw (.structural .truncatedData)
  else return (.push (← slice input i (i + n)), i + n)

/-- The payload behind a length field of `width` bytes at a position. -/
def fieldAt (input : Bytes) (i width : Nat) : Positional (Instruction × Nat) := do
  if (← remaining input i) < width then throw (.structural .truncatedLength)
  else
    let length ← slice input i (i + width)
    dataAt input (i + width) (Bytes.toNatLE length)

/-- The instruction at a position, and the position behind it. -/
def instructionAt (input : Bytes) (i : Nat) : Positional (Instruction × Nat) := do
  let code ← byteAt input i
  if code < 0x4c then dataAt input (i + 1) code.toNat
  else if code = 0x4c then fieldAt input (i + 1) 1
  else if code = 0x4d then fieldAt input (i + 1) 2
  else if code = 0x4e then fieldAt input (i + 1) 4
  else
    match Opcode.ofCode? code with
    | some o => return (.op o, i + 1)
    | none => return (.unknown code, i + 1)

/-! ### Accesses inside the input -/

theorem byteAt_append (front : Bytes) (code : UInt8) (rest : Bytes) :
    byteAt (front ++ code :: rest) front.length = pure code := by
  unfold byteAt
  rw [List.getElem?_append_right (Nat.le_refl _), Nat.sub_self]
  rfl

theorem remaining_append (front rest : Bytes) :
    remaining (front ++ rest) front.length = pure rest.length := by
  unfold remaining
  rw [List.length_append, if_pos (Nat.le_add_right _ _), Nat.add_sub_cancel_left]
  rfl

theorem slice_append (front middle rest : Bytes) :
    slice (front ++ (middle ++ rest)) front.length (front.length + middle.length) =
      pure middle := by
  unfold slice
  rw [if_pos (by simp), ← List.append_assoc, ← List.length_append, List.take_left, List.drop_left]
  rfl

/-- The answer of a token reader, told by positions of the input. -/
def located (input : Bytes) (answer : Except Error (Token × Bytes)) :
    Positional (Instruction × Nat) :=
  ExceptT.mk (some (answer.map fun (t, rest) => (t.instruction, input.length - rest.length)))

theorem dataAt_append (form : PushForm) (front rest : Bytes) (n : Nat) :
    dataAt (front ++ rest) front.length n =
      located (front ++ rest) (Token.readData form n rest) := by
  unfold dataAt Token.readData
  rw [remaining_append, pure_bind]
  by_cases fits : n ≤ rest.length
  · have hn : (rest.take n).length = n := by
      rw [List.length_take]
      omega
    have hslice := slice_append front (rest.take n) (rest.drop n)
    rw [List.take_append_drop, hn] at hslice
    rw [if_neg (by omega), if_pos fits, hslice, pure_bind]
    show ExceptT.mk (some (Except.ok (Instruction.push (rest.take n), front.length + n))) =
      ExceptT.mk (some (Except.ok (Instruction.push (rest.take n),
        (front ++ rest).length - (rest.drop n).length)))
    rw [List.length_append, List.length_drop]
    congr 5
    omega
  · rw [if_pos (by omega), if_neg fits]
    rfl

theorem fieldAt_append (form : PushForm) (front rest : Bytes) (width : Nat) :
    fieldAt (front ++ rest) front.length width =
      located (front ++ rest) (Token.readField form width rest) := by
  unfold fieldAt Token.readField
  rw [remaining_append, pure_bind]
  by_cases fits : width ≤ rest.length
  · have hw : (rest.take width).length = width := by
      rw [List.length_take]
      omega
    have hslice := slice_append front (rest.take width) (rest.drop width)
    rw [List.take_append_drop, hw] at hslice
    have hdata := dataAt_append form (front ++ rest.take width) (rest.drop width)
      (Bytes.toNatLE (rest.take width))
    rw [List.append_assoc, List.take_append_drop, List.length_append, hw] at hdata
    rw [if_neg (by omega), if_pos fits, hslice, pure_bind, hdata]
  · rw [if_pos (by omega), if_neg fits]
    rfl

/-- At a position inside the input, reading by position reads the token that starts there. -/
theorem instructionAt_append (front : Bytes) (code : UInt8) (rest : Bytes) :
    instructionAt (front ++ code :: rest) front.length =
      located (front ++ code :: rest) (Token.read code rest) := by
  have hinput : front ++ code :: rest = (front ++ [code]) ++ rest := by simp
  have hlength : front.length + 1 = (front ++ [code]).length := by simp
  unfold instructionAt Token.read
  rw [byteAt_append, pure_bind, hinput, hlength, dataAt_append .direct, fieldAt_append .field1,
    fieldAt_append .field2, fieldAt_append .field4]
  split
  · rfl
  split
  · rfl
  split
  · rfl
  split
  · rfl
  · unfold Token.ofCode
    have hstop : (front ++ [code] ++ rest).length - rest.length = (front ++ [code]).length := by
      rw [List.length_append, Nat.add_sub_cancel]
    cases Opcode.ofCode? code with
    | some o =>
      show pure (Instruction.op o, _) = ExceptT.mk (some (Except.ok (Instruction.op o, _)))
      rw [hstop]
      rfl
    | none =>
      show pure (Instruction.unknown code, _) =
        ExceptT.mk (some (Except.ok (Instruction.unknown code, _)))
      rw [hstop]
      rfl

theorem exists_append_of_lt {input : Bytes} {i : Nat} (h : i < input.length) :
    ∃ front code rest, input = front ++ code :: rest ∧ front.length = i :=
  ⟨input.take i, input[i], input.drop (i + 1), by simp, by simp; omega⟩

/-- Reading by position goes forward. -/
theorem lt_of_instructionAt {input : Bytes} {i stop : Nat} {instruction : Instruction}
    (inside : i < input.length)
    (h : instructionAt input i = ExceptT.mk (some (.ok (instruction, stop)))) : i < stop := by
  obtain ⟨front, code, rest, rfl, rfl⟩ := exists_append_of_lt inside
  rw [instructionAt_append] at h
  cases hread : Token.read code rest with
  | error e =>
    rw [hread] at h
    cases h
  | ok answer =>
    rw [hread] at h
    cases h
    have := Token.length_of_read hread
    simp only [List.length_append, List.length_cons]
    omega

end Positional

open Positional in
/-- Read instructions from a position on, behind what has been read already. -/
def scan (input : Bytes) (i : Nat) (rows : Rows) : Positional Rows :=
  if inside : i < input.length then
    match h : instructionAt input i with
    | none => ExceptT.mk none
    | some (.error e) => throw e
    | some (.ok (instruction, stop)) => do
      have : i < stop := lt_of_instructionAt inside h
      let encoded ← slice input i stop
      scan input stop (rows.push instruction encoded)
  else return rows
termination_by input.length - i

/-- Read a script by position. -/
def parseRows (input : Bytes) : Positional Rows :=
  if input.length > maxScriptSize then throw (.structural (.scriptTooLong input.length))
  else scan input 0 {}

/-- Put the tokens of a row at the end. -/
def Rows.pushAll (rows : Rows) (tokens : List Token) : Rows :=
  tokens.foldl (fun rows t => rows.push t.instruction t.bytes) rows

theorem Rows.pushAll_eq (rows : Rows) (tokens : List Token) :
    rows.pushAll tokens =
      { bytes := rows.bytes ++ tokens.flatMap Token.bytes
        instructions := rows.instructions ++ tokens.map Token.instruction
        offsets := rows.offsets ++ offsetsFrom rows.bytes.length tokens } := by
  induction tokens generalizing rows with
  | nil => simp [pushAll, offsetsFrom]
  | cons t tokens ih =>
    show (rows.push t.instruction t.bytes).pushAll tokens = _
    rw [ih]
    simp [push, offsetsFrom]

section
open Positional

theorem scan_of_error {input : Bytes} {i : Nat} {rows : Rows} {e : Error}
    (inside : i < input.length) (h : instructionAt input i = ExceptT.mk (some (.error e))) :
    scan input i rows = ExceptT.mk (some (.error e)) := by
  rw [scan, dif_pos inside]
  split
  · next hat =>
    rw [h] at hat
    cases hat
  · next e' hat =>
    rw [h] at hat
    cases hat
    rfl
  · next instruction stop hat =>
    rw [h] at hat
    cases hat

theorem scan_of_ok {input : Bytes} {i stop : Nat} {rows : Rows} {instruction : Instruction}
    (inside : i < input.length)
    (h : instructionAt input i = ExceptT.mk (some (.ok (instruction, stop)))) :
    scan input i rows =
      slice input i stop >>= fun encoded => scan input stop (rows.push instruction encoded) := by
  rw [scan, dif_pos inside]
  split
  · next hat =>
    rw [h] at hat
    cases hat
  · next e hat =>
    rw [h] at hat
    cases hat
  · next instruction' stop' hat =>
    rw [h] at hat
    cases hat
    rfl

/-- From a position on, reading by position reads the tokens that stand there. -/
theorem scan_append (front rest : Bytes) (rows : Rows) :
    scan (front ++ rest) front.length rows =
      ExceptT.mk (some ((Token.readAll rest).map rows.pushAll)) := by
  -- Induction on what is left: a token is read and moved to the front.
  induction hn : rest.length using Nat.strongRecOn generalizing front rest rows with
  | ind n ih =>
    cases rest with
    | nil =>
      rw [scan, dif_neg (by simp), Token.readAll]
      rfl
    | cons code rest =>
      have inside : front.length < (front ++ code :: rest).length := by simp
      have hat := instructionAt_append front code rest
      cases hread : Token.read code rest with
      | error e =>
        rw [hread] at hat
        rw [scan_of_error inside hat, Token.readAll_cons_of_error hread]
        rfl
      | ok answer =>
        obtain ⟨t, rest'⟩ := answer
        rw [hread] at hat
        obtain ⟨_, hbytes⟩ := Token.wellFormed_of_read hread
        have hlength : rest'.length < n := by
          rw [← hn]
          exact Nat.lt_succ_of_le (Token.length_of_read hread)
        have hstop : (front ++ code :: rest).length - rest'.length = (front ++ t.bytes).length := by
          rw [hbytes, ← List.append_assoc, List.length_append, Nat.add_sub_cancel]
        have hslice := slice_append front t.bytes rest'
        rw [← List.length_append, ← hstop, ← hbytes] at hslice
        rw [scan_of_ok inside hat, hslice, pure_bind, Token.readAll_cons_of_ok hread, hstop, hbytes,
          ← List.append_assoc, ih _ hlength _ _ _ rfl]
        cases Token.readAll rest' <;> rfl

/-- No access of the reading by position lies outside the input, and it reads what `parse` reads. -/
theorem parseRows_eq (input : Bytes) :
    parseRows input = ExceptT.mk (some ((parse input).map rows)) := by
  unfold parseRows parse
  split
  · rfl
  · have hscan := scan_append [] input {}
    rw [List.nil_append, List.length_nil] at hscan
    rw [hscan]
    cases Token.readAll input with
    | error e => rfl
    | ok tokens =>
      show ExceptT.mk (some (Except.ok (Rows.pushAll {} tokens))) = _
      rw [Rows.pushAll_eq]
      rfl

end

theorem parse_eq_ok_iff {input : Bytes} {s : Script} :
    parse input = .ok s ↔ input.length ≤ maxScriptSize ∧ Token.readAll input = .ok s.tokens := by
  unfold parse
  split
  · next long =>
    constructor
    · intro h
      cases h
    · rintro ⟨short, _⟩
      omega
  · next short =>
    cases Token.readAll input with
    | error e =>
      constructor
      · intro h
        cases h
      · rintro ⟨_, h⟩
        cases h
    | ok tokens =>
      constructor
      · intro h
        cases h
        exact ⟨by omega, rfl⟩
      · rintro ⟨_, h⟩
        cases h
        rfl

/-- Every refusal is a malformation of the script. -/
theorem structural_of_parse {input : Bytes} {e : Error} (h : parse input = .error e) :
    ∃ cause, e = .structural cause := by
  unfold parse at h
  split at h
  · cases h
    exact ⟨_, rfl⟩
  · cases hread : Token.readAll input with
    | error e' =>
      rw [hread] at h
      cases h
      exact Token.structural_of_readAll hread
    | ok tokens =>
      rw [hread] at h
      cases h

end Script

/-! ## The reader and the grammar -/

/-- A byte string is read exactly if it is short enough and can be cut into lexemes. There is then
one way to cut it, the script has its bytes, and instructions and offsets are those of the pieces.
Every other byte string is malformed, and no access lies outside the input. -/
theorem parse_accepts_exactly_grammar (input : Bytes) :
    ((∃ s, Script.parse input = .ok s) ↔
      input.length ≤ maxScriptSize ∧ ∃ pieces, Segmentation input pieces) ∧
    (∀ p q, Segmentation input p → Segmentation input q → p = q) ∧
    (∀ s pieces, Script.parse input = .ok s → Segmentation input pieces →
      s.bytes = input ∧ s.instructions = pieces.map Prod.snd ∧ s.offsets = pieceStarts pieces) ∧
    (∀ e, Script.parse input = .error e → ∃ cause, e = .structural cause) ∧
    Script.parseRows input = ExceptT.mk (some ((Script.parse input).map Script.rows)) := by
  refine ⟨?_, fun p q => segmentation_unique, ?_, fun e => Script.structural_of_parse,
    Script.parseRows_eq input⟩
  · constructor
    · rintro ⟨s, h⟩
      obtain ⟨short, hread⟩ := Script.parse_eq_ok_iff.mp h
      exact ⟨short, _, segmentation_iff.mpr ⟨s.tokens, hread, rfl⟩⟩
    · rintro ⟨short, pieces, h⟩
      obtain ⟨tokens, hread, _⟩ := segmentation_iff.mp h
      exact ⟨⟨tokens⟩, Script.parse_eq_ok_iff.mpr ⟨short, hread⟩⟩
  · intro s pieces h hseg
    obtain ⟨_, hread⟩ := Script.parse_eq_ok_iff.mp h
    obtain ⟨tokens, htokens, rfl⟩ := segmentation_iff.mp hseg
    rw [hread] at htokens
    obtain rfl := Except.ok.inj htokens
    refine ⟨(Token.readAll_eq_ok_iff.mp hread).2, ?_, offsets_eq_pieceStarts s.tokens⟩
    rw [List.map_map]
    rfl

end CoinScript
