import CoinScript.Proofs.Built
import Mathlib.Data.List.Nodup
import Mathlib.Data.String.Basic
/-!
# Reading assembly text back

The text of a script has one word for each instruction, and no word can be taken for another kind
of word: payloads are written in hexadecimal digits, names of opcodes begin with a letter that is no
such digit, and a byte without meaning has a text that names nothing. What the text leaves out is
how the length of a payload was written, so the script that is read from it has every push in its
shortest form.

* `Text.words_intercalate`: a text falls into the words that it was made of;
* `Hex.decodeChars_encodeChars`: hexadecimal text reads back;
* `Opcode.ofName?_name`: names read back;
* `wordToken_text`, `wordToken_text_of_not`: words that stand for an instruction, and others;
* `assembly_reads_back`: which scripts read back, and as what.
-/

namespace CoinScript

/-! ## Words -/

namespace Text

/-- What can be a word of a text: some characters, and no blank among them. -/
def IsWord (word : List Char) : Prop :=
  word ≠ [] ∧ ∀ c ∈ word, isBlank c = false

theorem words_blank {c : Char} (h : isBlank c = true) (rest : List Char) :
    words (c :: rest) = words rest := by
  rw [words.eq_def]
  simp only [h, if_true]

theorem words_last {c : Char} (h : isBlank c = false) : words [c] = [[c]] := by
  rw [words.eq_def]
  simp only [h, Bool.false_eq_true, if_false]

theorem words_stop {c d : Char} (h : isBlank c = false) (hd : isBlank d = true)
    (rest : List Char) : words (c :: d :: rest) = [c] :: words (d :: rest) := by
  rw [words.eq_def]
  simp only [h, hd, Bool.false_eq_true, if_false, if_true]

theorem words_grow {c d : Char} (h : isBlank c = false) (hd : isBlank d = false)
    {rest word : List Char} {more : List (List Char)} (hrest : words (d :: rest) = word :: more) :
    words (c :: d :: rest) = (c :: word) :: more := by
  rw [words.eq_def]
  simp only [h, hd, hrest, Bool.false_eq_true, if_false]

/-- A word ends at the first blank, or with the text. -/
theorem words_append {word rest : List Char} (h : IsWord word)
    (ends : ∀ c, rest.head? = some c → isBlank c = true) :
    words (word ++ rest) = word :: words rest := by
  obtain ⟨ne, solid⟩ := h
  induction word with
  | nil => exact absurd rfl ne
  | cons c word ih =>
    obtain ⟨hc, hword⟩ := List.forall_mem_cons.mp solid
    cases word with
    | nil =>
      cases rest with
      | nil => exact words_last hc
      | cons d rest => exact words_stop hc (ends d rfl) rest
    | cons d word => exact words_grow hc (hword d List.mem_cons_self) (ih (by simp) hword)

/-- A text falls into the words that it was made of. -/
theorem words_intercalate {row : List (List Char)} (h : ∀ word ∈ row, IsWord word) :
    words ([' '].intercalate row) = row := by
  induction row with
  | nil => rfl
  | cons word row ih =>
    obtain ⟨hword, hrow⟩ := List.forall_mem_cons.mp h
    cases row with
    | nil =>
      have last : words (word ++ []) = word :: words [] := words_append hword (by simp)
      rw [List.intercalate_singleton]
      rwa [List.append_nil] at last
    | cons next row =>
      have blank : isBlank ' ' = true := by decide
      rw [List.intercalate_cons_cons, List.append_assoc, words_append hword]
      · rw [List.singleton_append, words_blank blank, ih hrow]
      · rintro c ⟨⟩
        exact blank

end Text

/-! ## Hexadecimal text -/

namespace Hex

theorem value?_digit {n : Nat} (h : n < 16) : value? (digit n) = some n := by
  revert n
  decide

theorem digit_not_blank {n : Nat} (h : n < 16) : Text.isBlank (digit n) = false := by
  revert n
  decide

theorem digit_ne_capital {n : Nat} (h : n < 16) : digit n ≠ 'O' := by
  revert n
  decide

theorem utf8Size_digit {n : Nat} (h : n < 16) : (digit n).utf8Size = 1 := by
  revert n
  decide

theorem mem_digits {b : UInt8} {c : Char} (h : c ∈ digits b) : ∃ n < 16, c = digit n := by
  have hb := b.toNat_lt
  simp only [digits, List.mem_cons, List.not_mem_nil, or_false] at h
  rcases h with rfl | rfl
  · exact ⟨b.toNat / 16, by omega, rfl⟩
  · exact ⟨b.toNat % 16, by omega, rfl⟩

theorem mem_encodeChars {data : Bytes} {c : Char} (h : c ∈ encodeChars data) :
    ∃ n < 16, c = digit n := by
  obtain ⟨b, _, hc⟩ := List.mem_flatMap.mp h
  exact mem_digits hc

theorem length_encodeChars (data : Bytes) : (encodeChars data).length = 2 * data.length := by
  induction data with
  | nil => rfl
  | cons b data ih =>
    have : encodeChars (b :: data) = digits b ++ encodeChars data := List.flatMap_cons
    rw [this, List.length_append, ih]
    simp [digits]
    omega

/-- Every digit is one byte long. -/
theorem byteLength_encodeChars (data : Bytes) :
    byteLength (encodeChars data) = 2 * data.length := by
  have ones (l : List Char) (h : ∀ c ∈ l, c.utf8Size = 1) : String.utf8Len l = l.length := by
    induction l with
    | nil => rfl
    | cons c l ih =>
      obtain ⟨hc, hl⟩ := List.forall_mem_cons.mp h
      rw [String.utf8Len_cons, ih hl, hc, List.length_cons]
  rw [byteLength, String.utf8ByteSize_ofList, ones, length_encodeChars]
  intro c hc
  obtain ⟨n, hn, rfl⟩ := mem_encodeChars hc
  exact utf8Size_digit hn

theorem decodeFrom_encodeChars (position : Nat) (data : Bytes) :
    decodeFrom position (encodeChars data) = .ok data := by
  induction data generalizing position with
  | nil => rfl
  | cons b data ih =>
    have hb := b.toNat_lt
    have high : valueAt position (digit (b.toNat / 16)) = .ok (b.toNat / 16) := by
      rw [valueAt, value?_digit (by omega)]
    have low : valueAt (position + 1) (digit (b.toNat % 16)) = .ok (b.toNat % 16) := by
      rw [valueAt, value?_digit (by omega)]
    have whole : 16 * (b.toNat / 16) + b.toNat % 16 = b.toNat := Nat.div_add_mod ..
    show decodeFrom position (digit _ :: digit _ :: encodeChars data) = _
    rw [decodeFrom, high, low, ih]
    show Except.ok (UInt8.ofNat (16 * (b.toNat / 16) + b.toNat % 16) :: data) = _
    rw [whole, UInt8.ofNat_toNat]

/-- Hexadecimal text reads back. -/
theorem decodeChars_encodeChars (data : Bytes) : decodeChars (encodeChars data) = .ok data := by
  rw [decodeChars, byteLength_encodeChars, if_neg (by omega), decodeFrom_encodeChars]

end Hex

/-! ## Names -/

namespace Opcode

theorem mem_all (o : Opcode) : o ∈ all :=
  List.mem_of_find?_eq_some (ofCode?_code o)

/-- A digit, a capital letter or an underscore. -/
def isNameChar (c : Char) : Bool :=
  let n := c.toNat
  (48 ≤ n && n ≤ 57) || (65 ≤ n && n ≤ 90) || n == 95

theorem toNat_of_isNameChar {c : Char} (h : isNameChar c = true) :
    48 ≤ c.toNat ∧ c.toNat ≤ 95 := by
  simp only [isNameChar, Bool.or_eq_true, Bool.and_eq_true, decide_eq_true_eq, beq_iff_eq] at h
  omega

theorem not_blank_of_isNameChar {c : Char} (h : isNameChar c = true) : Text.isBlank c = false := by
  obtain ⟨low, high⟩ := toNat_of_isNameChar h
  simp only [Text.isBlank, Bool.or_eq_false_iff, Bool.and_eq_false_iff, decide_eq_false_iff_not,
    beq_eq_false_iff_ne]
  omega

theorem toUpper_of_isNameChar {c : Char} (h : isNameChar c = true) : c.toUpper = c := by
  obtain ⟨_, high⟩ := toNat_of_isNameChar h
  refine dif_neg ?_
  rintro ⟨low, _⟩
  have : 97 ≤ c.toNat := low
  omega

theorem toList_name (o : Opcode) : o.name.toList = ['O', 'P', '_'] ++ o.label.toList := by
  rw [name, String.toList_append]
  rfl

theorem name_chars (o : Opcode) : ∀ c ∈ o.name.toList, isNameChar c = true := by
  have labels : ∀ o ∈ all, o.label.toList.all isNameChar = true := by decide +kernel
  rw [toList_name, ← List.all_eq_true, List.all_append, labels o o.mem_all]
  rfl

theorem label_injective : Function.Injective label := by
  have distinct : (all.map fun o => o.label.toUTF8.data.toList).Nodup := by decide +kernel
  intro o o' h
  exact List.inj_on_of_nodup_map distinct o.mem_all o'.mem_all (by rw [h])

theorem name_injective : Function.Injective name := by
  intro o o' h
  have lists := congrArg String.toList h
  rw [toList_name, toList_name, List.append_cancel_left_eq, String.toList_inj] at lists
  exact label_injective lists

theorem toUpper_name (o : Opcode) : o.name.toUpper = o.name := by
  rw [← String.toList_inj, String.toUpper, String.toList_map]
  exact (List.map_congr_left fun c hc => toUpper_of_isNameChar (o.name_chars c hc)).trans
    (List.map_id _)

theorem ofExactName?_name (o : Opcode) : ofExactName? o.name = some o := by
  have other : ∀ o ∈ all, o.name ≠ "OP_FALSE" ∧ o.name ≠ "OP_TRUE" := by decide +kernel
  obtain ⟨hfalse, htrue⟩ := other o o.mem_all
  rw [ofExactName?, if_neg hfalse, if_neg htrue]
  obtain ⟨o', found⟩ : ∃ o', all.find? (fun o' => o'.name == o.name) = some o' :=
    Option.isSome_iff_exists.mp (List.find?_isSome.mpr ⟨o, o.mem_all, by simp⟩)
  have hname : o'.name = o.name := by simpa using List.find?_some found
  rw [found, name_injective hname]

/-- The name of an opcode reads back. -/
theorem ofName?_name (o : Opcode) : ofName? o.name = some o := by
  rw [ofName?, toUpper_name, ofExactName?_name]
  rfl

/-- The text of a byte without meaning names nothing. -/
theorem ofName?_of_mem {name : String} (h : '<' ∈ name.toList) : ofName? name = none := by
  have unknown (name : String) (h : '<' ∈ name.toList) : ofExactName? name = none := by
    cases found : ofExactName? name with
    | none => rfl
    | some o =>
      have named : name = "OP_FALSE" ∨ name = "OP_TRUE" ∨ name = o.name := by
        unfold ofExactName? at found
        split at found
        · next hfalse => exact .inl hfalse
        split at found
        · next htrue => exact .inr (.inl htrue)
        · have same : o.name = name := by simpa using List.find?_some found
          exact .inr (.inr same.symm)
      rcases named with rfl | rfl | rfl
      · exact absurd h (by decide)
      · exact absurd h (by decide)
      · exact absurd (name_chars o _ h) (by decide)
  have upper : '<' ∈ name.toUpper.toList := by
    rw [String.toUpper, String.toList_map]
    exact List.mem_map.mpr ⟨'<', h, rfl⟩
  rw [ofName?, unknown _ upper, unknown]
  · rfl
  · rw [String.toList_append]
    exact List.mem_append_right _ upper

end Opcode

/-! ## The words of instructions -/

namespace Instruction

/-- Whether the text of the instruction can be read: every byte of it has a meaning, and a payload
is no longer than what a script may push. -/
def Readable : Instruction → Prop
  | push data => data.length ≤ maxItemSize
  | op _ => True
  | unknown _ => False

theorem readable_row_iff {row : List Instruction} :
    (∀ i ∈ row, i.Readable) ↔
      (∀ code, .unknown code ∉ row) ∧ ∀ data, .push data ∈ row → data.length ≤ 520 := by
  constructor
  · intro h
    exact ⟨fun code hcode => h _ hcode, fun data hdata => h _ hdata⟩
  · rintro ⟨known, short⟩ i hi
    cases i with
    | push data => exact short data hi
    | op o => trivial
    | unknown code => exact known code hi

theorem toList_text_push {data : Bytes} (h : data ≠ []) :
    (push data).text.toList = Hex.encodeChars data := by
  obtain ⟨b, data, rfl⟩ := List.exists_cons_of_ne_nil h
  exact String.toList_ofList

theorem toList_text_unknown (code : UInt8) :
    (unknown code).text.toList = "OP_UNKNOWN<0x".toList ++ Hex.digits code ++ ">".toList := by
  have digits : (Hex.byteText code).toList = Hex.digits code := String.toList_ofList
  rw [← digits]
  exact (String.toList_append ..).trans (congrArg (· ++ ">".toList) (String.toList_append ..))

/-- The text of an instruction is one word. -/
theorem isWord_text (i : Instruction) : Text.IsWord i.text.toList := by
  cases i with
  | push data =>
    cases data with
    | nil =>
      show Text.IsWord ['0']
      exact ⟨List.cons_ne_nil _ _, List.forall_mem_singleton.mpr (by decide)⟩
    | cons b data =>
      rw [toList_text_push (List.cons_ne_nil b data)]
      refine ⟨List.cons_ne_nil _ _, fun c hc => ?_⟩
      obtain ⟨n, hn, rfl⟩ := Hex.mem_encodeChars hc
      exact Hex.digit_not_blank hn
  | op o =>
    show Text.IsWord o.name.toList
    refine ⟨?_, fun c hc => Opcode.not_blank_of_isNameChar (o.name_chars c hc)⟩
    rw [Opcode.toList_name]
    exact List.cons_ne_nil _ _
  | unknown code =>
    rw [toList_text_unknown]
    refine ⟨List.cons_ne_nil _ _, fun c hc => ?_⟩
    have front : ∀ c ∈ "OP_UNKNOWN<0x".toList ++ ">".toList, Text.isBlank c = false := by
      have all : ("OP_UNKNOWN<0x".toList ++ ">".toList).all (fun c => !Text.isBlank c) = true := by
        decide
      exact fun c hc => by simpa using List.all_eq_true.mp all c hc
    rcases List.mem_append.mp hc with hc | hc
    · rcases List.mem_append.mp hc with hc | hc
      · exact front c (List.mem_append_left _ hc)
      · obtain ⟨n, hn, rfl⟩ := Hex.mem_digits hc
        exact Hex.digit_not_blank hn
    · exact front c (List.mem_append_right _ hc)

end Instruction

/-! ## The shortest form of a script -/

/-- The token with its payload, if it has one, in the shortest push. -/
def Token.shortest : Token → Token
  | push _ data => minimalPush data
  | t => t

/-- The script with every push in its shortest form. -/
def Script.shortest (s : Script) : Script :=
  ⟨s.tokens.map Token.shortest⟩

/-- No form that fits a payload has fewer bytes in front of it than the shortest one. -/
theorem PushForm.length_header_minimal_le {form : PushForm} {n : Nat} (fits : n < form.capacity) :
    ((minimal n).header n).length ≤ (form.header n).length := by
  unfold minimal
  split
  · cases form <;> simp [header]
  next h0 =>
  split
  · cases form with
    | direct => exact absurd fits h0
    | _ => simp [header]
  next h1 =>
  split
  · cases form with
    | direct => exact absurd fits h0
    | field1 => exact absurd fits h1
    | _ => simp [header]
  next h2 =>
  cases form with
  | direct => exact absurd fits h0
  | field1 => exact absurd fits h1
  | field2 => exact absurd fits h2
  | field4 => exact Nat.le_refl _

namespace Token

theorem instruction_shortest (t : Token) : t.shortest.instruction = t.instruction := by
  cases t <;> rfl

theorem wellFormed_shortest {t : Token} (h : t.WellFormed) : t.shortest.WellFormed := by
  cases t with
  | push form data =>
    refine Script.minimalPush_wellFormed (Nat.lt_of_lt_of_le h ?_)
    cases form <;> decide
  | op o => exact h
  | unknown code => exact h

theorem length_shortest_le {t : Token} (h : t.WellFormed) :
    t.shortest.bytes.length ≤ t.bytes.length := by
  cases t with
  | push form data =>
    show ((PushForm.minimal data.length).header data.length ++ data).length ≤
      (form.header data.length ++ data).length
    rw [List.length_append, List.length_append]
    exact Nat.add_le_add_right (PushForm.length_header_minimal_le h) _
  | op o => exact Nat.le_refl _
  | unknown code => exact Nat.le_refl _

theorem length_bytes_shortest_le {tokens : List Token} (wf : ∀ t ∈ tokens, t.WellFormed) :
    ((tokens.map shortest).flatMap bytes).length ≤ (tokens.flatMap bytes).length := by
  induction tokens with
  | nil => exact Nat.le_refl _
  | cons t tokens ih =>
    obtain ⟨wft, wfs⟩ := List.forall_mem_cons.mp wf
    rw [List.map_cons, List.flatMap_cons, List.flatMap_cons, List.length_append,
      List.length_append]
    exact Nat.add_le_add (length_shortest_le wft) (ih wfs)

end Token

/-! ## Reading a script back -/

namespace Script

theorem opcodeToken_eq {o : Opcode} (h : 0x4f ≤ o.code) : opcodeToken o = .ok (.op o) := by
  have small : o ≠ .zero ∧ o ≠ .push .payload1 ∧ o ≠ .push .payload2 ∧ o ≠ .push .payload4 := by
    refine ⟨?_, ?_, ?_, ?_⟩
    all_goals
      rintro rfl
      exact absurd h (by decide)
  obtain ⟨hzero, h1, h2, h4⟩ := small
  unfold opcodeToken
  split
  · exact absurd rfl h1
  · exact absurd rfl h2
  · exact absurd rfl h4
  · rw [Token.ofOpcode, if_neg hzero]

theorem wordToken_zero : wordToken ['0'] = .ok (Token.minimalPush []) := by
  rw [wordToken, if_pos rfl]
  rfl

/-- A row of digits is a payload: it is too long for a zero and begins with no letter of a name. -/
theorem wordToken_encodeChars {data : Bytes} (h : data ≠ []) :
    wordToken (Hex.encodeChars data) = dataToken data := by
  obtain ⟨b, data, rfl⟩ := List.exists_cons_of_ne_nil h
  have digits : Hex.encodeChars (b :: data) =
      Hex.digit (b.toNat / 16) :: Hex.digit (b.toNat % 16) :: Hex.encodeChars data := rfl
  have zero : Hex.encodeChars (b :: data) ≠ ['0'] := by
    rw [digits]
    simp
  have named : ¬ ['O', 'P', '_'].isPrefixOf (Hex.encodeChars (b :: data)) = true := by
    have hb := b.toNat_lt
    rw [digits, List.isPrefixOf_iff_prefix, List.cons_prefix_cons]
    exact fun prefixed => Hex.digit_ne_capital (by omega) prefixed.1.symm
  rw [wordToken, if_neg zero, if_neg named, Hex.decodeChars_encodeChars]

theorem wordToken_named (rest : List Char) :
    wordToken (['O', 'P', '_'] ++ rest) =
      match Opcode.ofName? (String.ofList (['O', 'P', '_'] ++ rest)) with
      | some o => opcodeToken o
      | none =>
        .error (.invalidInput (.unknownName (String.ofList (['O', 'P', '_'] ++ rest)))) := by
  have other : ['O', 'P', '_'] ++ rest ≠ ['0'] := by simp
  have named : ['O', 'P', '_'].isPrefixOf (['O', 'P', '_'] ++ rest) = true := by simp
  exact (if_neg other).trans (if_pos named)

/-- An instruction that can be read comes back with the shortest push. -/
theorem wordToken_text {t : Token} (wf : t.WellFormed) (readable : t.instruction.Readable) :
    wordToken t.instruction.text.toList = .ok t.shortest := by
  cases t with
  | push form data =>
    by_cases empty : data = []
    · subst empty
      have zero : (Instruction.push []).text.toList = ['0'] := by decide
      exact (congrArg wordToken zero).trans wordToken_zero
    · show wordToken (Instruction.push data).text.toList = _
      rw [Instruction.toList_text_push empty, wordToken_encodeChars empty]
      exact if_neg (Nat.not_lt.mpr readable)
  | op o =>
    show wordToken o.name.toList = _
    rw [Opcode.toList_name, wordToken_named, ← Opcode.toList_name, String.ofList_toList,
      Opcode.ofName?_name]
    exact opcodeToken_eq wf
  | unknown code => exact readable.elim

/-- The text of any other instruction is refused. -/
theorem wordToken_text_of_not {i : Instruction} (h : ¬ i.Readable) :
    ∃ e, wordToken i.text.toList = .error e := by
  cases i with
  | push data =>
    have empty : data ≠ [] := by
      rintro rfl
      exact h (Nat.zero_le _)
    rw [Instruction.toList_text_push empty, wordToken_encodeChars empty]
    exact ⟨_, if_pos (Nat.lt_of_not_le h)⟩
  | op o => exact absurd trivial h
  | unknown code =>
    have split : (Instruction.unknown code).text.toList =
        ['O', 'P', '_'] ++ ("UNKNOWN<0x".toList ++ Hex.digits code ++ ">".toList) := by
      rw [Instruction.toList_text_unknown]
      rfl
    rw [split, wordToken_named, Opcode.ofName?_of_mem]
    · exact ⟨_, rfl⟩
    · rw [String.toList_ofList]
      simp

/-! ## Whole scripts -/

theorem words_toAssembly (s : Script) :
    Text.words s.toAssembly.toList = s.instructions.map fun i => i.text.toList := by
  rw [toAssembly, String.toList_intercalate, List.map_map]
  refine Text.words_intercalate fun word hword => ?_
  obtain ⟨i, _, rfl⟩ := List.mem_map.mp hword
  exact i.isWord_text

/-- What words stand for, they stand for one by one. -/
theorem wordToken_of_wordTokens {row : List (List Char)} {used : Nat} {tokens : List Token}
    (h : wordTokens used row = .ok tokens) : ∀ word ∈ row, ∃ t, wordToken word = .ok t := by
  induction row generalizing used tokens with
  | nil => nofun
  | cons word row ih =>
    obtain ⟨token, htoken, h⟩ := bind_eq_ok_iff.mp h
    dsimp only at h
    split at h
    · cases h
    · obtain ⟨rest, hrest, _⟩ := bind_eq_ok_iff.mp h
      exact List.forall_mem_cons.mpr ⟨⟨token, htoken⟩, ih hrest⟩

/-- The words of tokens that can be read. There is room for what they stand for where there is room
for the tokens, which are no shorter. -/
theorem wordTokens_texts {tokens : List Token} {used : Nat}
    (wf : ∀ t ∈ tokens, t.WellFormed) (readable : ∀ t ∈ tokens, t.instruction.Readable)
    (room : used + (Script.mk tokens).size ≤ maxScriptSize) :
    wordTokens used (tokens.map fun t => t.instruction.text.toList) =
      .ok (tokens.map Token.shortest) := by
  induction tokens generalizing used with
  | nil => rfl
  | cons t tokens ih =>
    obtain ⟨wft, wfs⟩ := List.forall_mem_cons.mp wf
    obtain ⟨ht, hs⟩ := List.forall_mem_cons.mp readable
    have shorter := Token.length_shortest_le wft
    have whole : (Script.mk (t :: tokens)).size = t.bytes.length + (Script.mk tokens).size := by
      rw [← List.singleton_append, size_append]
      simp [size, bytes]
    rw [List.map_cons, wordTokens, wordToken_text wft ht]
    show (if used + t.shortest.bytes.length > maxScriptSize then _ else _) = _
    rw [if_neg (by omega), ih wfs hs (by omega)]
    rfl

theorem ofAssembly_toAssembly (s : Script) :
    ofAssembly s.toAssembly =
      (wordTokens 0 (s.tokens.map fun t => t.instruction.text.toList)).map Script.mk := by
  rw [ofAssembly, words_toAssembly, instructions, List.map_map]
  rfl

/-- A script with an instruction that cannot be read does not come back. -/
theorem readable_of_ofAssembly {s t : Script} (h : ofAssembly s.toAssembly = .ok t) :
    ∀ i ∈ s.instructions, i.Readable := by
  intro i hi
  obtain ⟨token, htoken, rfl⟩ := List.mem_map.mp hi
  by_contra unreadable
  obtain ⟨e, he⟩ := wordToken_text_of_not unreadable
  rw [ofAssembly_toAssembly] at h
  cases hwords : wordTokens 0 (s.tokens.map fun t => t.instruction.text.toList) with
  | error e' =>
    rw [hwords] at h
    cases h
  | ok tokens =>
    obtain ⟨t', ht'⟩ := wordToken_of_wordTokens hwords _ (List.mem_map_of_mem htoken)
    rw [he] at ht'
    cases ht'

theorem instructions_shortest (s : Script) : s.shortest.instructions = s.instructions := by
  rw [instructions, instructions, shortest, List.map_map]
  exact List.map_congr_left fun t _ => t.instruction_shortest

namespace Valid

variable {s : Script} (h : s.Valid)
include h

theorem size_shortest_le : s.shortest.size ≤ s.size :=
  Token.length_bytes_shortest_le h.wellFormed

theorem shortest : s.shortest.Valid := by
  refine ⟨fun t ht => ?_, Nat.le_trans h.size_shortest_le h.size_le⟩
  obtain ⟨t', ht', rfl⟩ := List.mem_map.mp ht
  exact Token.wellFormed_shortest (h.wellFormed t' ht')

/-- The shortest form has the same bytes only if it has the same pushes, for the bytes of a script
determine its tokens. -/
theorem bytes_shortest_eq_iff :
    s.shortest.bytes = s.bytes ↔ ∀ form data, .push form data ∈ s.tokens →
      (Token.push form data).bytes = (Token.minimalPush data).bytes := by
  constructor
  · intro same form data hmem
    have tokens : s.tokens.map Token.shortest = s.tokens.map id := by
      rw [List.map_id]
      exact congrArg Script.tokens (h.shortest.eq_of_bytes_eq h same)
    exact congrArg Token.bytes (List.map_inj_left.mp tokens _ hmem).symm
  · intro minimal
    show (s.tokens.map Token.shortest).flatMap Token.bytes = s.tokens.flatMap Token.bytes
    rw [List.flatMap_map]
    refine List.flatMap_congr fun t ht => ?_
    cases t with
    | push form data => exact (minimal form data ht).symm
    | op o => rfl
    | unknown code => rfl

/-- If every instruction can be read, the script comes back in its shortest form. -/
theorem ofAssembly_toAssembly (readable : ∀ i ∈ s.instructions, i.Readable) :
    ofAssembly s.toAssembly = .ok s.shortest := by
  have tokens : ∀ t ∈ s.tokens, t.instruction.Readable := fun t ht =>
    readable _ (List.mem_map_of_mem ht)
  rw [Script.ofAssembly_toAssembly, wordTokens_texts h.wellFormed tokens]
  · rfl
  · rw [Nat.zero_add]
    exact h.size_le

end Valid

/-- The text of a script can be read exactly if every byte of the script has a meaning and no
payload is longer than what a script may push. What is read has the same instructions and is no
longer, and it has the same bytes exactly if every push of the script is the shortest one. -/
theorem assembly_reads_back {s : Script} (h : s.Built) :
    ((∃ t, ofAssembly s.toAssembly = .ok t) ↔
      (∀ code, .unknown code ∉ s.instructions) ∧
        ∀ data, .push data ∈ s.instructions → data.length ≤ 520) ∧
    ∀ t, ofAssembly s.toAssembly = .ok t →
      t.instructions = s.instructions ∧ t.size ≤ s.size ∧
        (t.bytes = s.bytes ↔ ∀ form data, .push form data ∈ s.tokens →
          (Token.push form data).bytes = (Token.minimalPush data).bytes) := by
  have valid := h.valid
  rw [← Instruction.readable_row_iff]
  refine ⟨⟨fun ⟨_, read⟩ => readable_of_ofAssembly read, fun readable =>
    ⟨_, valid.ofAssembly_toAssembly readable⟩⟩, ?_⟩
  intro t read
  rw [valid.ofAssembly_toAssembly (readable_of_ofAssembly read)] at read
  cases read
  exact ⟨s.instructions_shortest, valid.size_shortest_le, valid.bytes_shortest_eq_iff⟩

/-- A payload of one byte behind a length field comes back in a direct push. -/
theorem assembly_reads_back_longer :
    let s : Script := ⟨[.push .field1 [7], .op .equal]⟩
    s.Built ∧ ∃ t, ofAssembly s.toAssembly = .ok t ∧ t.instructions = s.instructions ∧
      t.size ≤ s.size ∧ t.bytes ≠ s.bytes := by
  intro s
  have valid : s.Valid := ⟨by decide, by decide⟩
  have built : s.Built := .parse valid.parse_bytes
  obtain ⟨reads, comesBack⟩ := assembly_reads_back built
  obtain ⟨t, read⟩ := reads.mpr ⟨by simp [s, instructions, Token.instruction],
    by simp [s, instructions, Token.instruction]⟩
  obtain ⟨same, size, bytes⟩ := comesBack t read
  refine ⟨built, t, read, same, size, fun equal => ?_⟩
  exact absurd (bytes.mp equal .field1 [7] List.mem_cons_self) (by decide)

end Script
end CoinScript
