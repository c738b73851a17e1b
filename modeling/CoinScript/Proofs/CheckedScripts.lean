import CoinScript.Proofs.CheckedItems
import Mathlib.Data.List.Basic
/-!
# Scripts on words and vectors

A script in three rows is read by position, cut, and thinned out by the places where its
instructions start. None of this has a fault.

* `parse_eq`: reading a script;
* `subscript_eq`, `deletePush_eq`, `withoutOpcode_eq`: the parts that signatures commit to;
* `payToScriptHash_eq`, `hash160?_eq`: shapes;
* `redeemScript_eq`: redeem scripts.
-/

namespace CoinScript.Checked

open Script (Rows)

/-! ## Reading scripts -/

/-- The payload of `n` bytes at a position, and the position behind it. -/
def dataAt (bytes : Bytes) (i n : Nat) : Checked (Instruction × Nat) := do
  if (← sub bytes.length i) < n then refuse (.structural .truncatedData)
  else
    let stop ← word (i + n)
    let data ← slice bytes i stop
    .ok (.push data, stop)

/-- The payload behind a length field of `width` bytes at a position. -/
def fieldAt (bytes : Bytes) (i width : Nat) : Checked (Instruction × Nat) := do
  if (← sub bytes.length i) < width then refuse (.structural .truncatedLength)
  else
    let stop ← word (i + width)
    let length ← orBytes 0 0 (← slice bytes i stop)
    dataAt bytes stop length

/-- The instruction at a position, and the position behind it. -/
def instructionAt (bytes : Bytes) (i : Nat) : Checked (Instruction × Nat) := do
  let code ← index bytes i
  let next ← word (i + 1)
  if code < 0x4c then dataAt bytes next code.toNat
  else if code = 0x4c then fieldAt bytes next 1
  else if code = 0x4d then fieldAt bytes next 2
  else if code = 0x4e then fieldAt bytes next 4
  else
    match Opcode.ofCode? code with
    | some o => .ok (.op o, next)
    | none => .ok (.unknown code, next)

/-- Read instructions from a position on. The loop would not end if it did not go forward. -/
def scan (bytes : Bytes) (i : Nat) (rows : Script.Rows) : Checked Script.Rows :=
  if i < bytes.length then do
    let (instruction, stop) ← instructionAt bytes i
    let encoded ← slice bytes i stop
    if i < stop then scan bytes stop (rows.push instruction encoded)
    else fail .unreachable
  else .ok rows
termination_by bytes.length - i

/-- Read the rows of a script. -/
def parseRows (bytes : Bytes) : Checked Script.Rows :=
  if bytes.length > maxScriptSize then refuse (.structural (.scriptTooLong bytes.length))
  else scan bytes 0 {}

/-- Read a script. -/
def parse (bytes : Bytes) : Checked Script := do
  let _rows ← parseRows bytes
  of (Script.parse bytes)

/-- A reading by position in which an access outside of the input is a fault. -/
def ofPositional {α : Type} (x : Script.Positional α) : Checked α :=
  match x.run with
  | none => fail .outOfRange
  | some r => of r

section
open Script.Positional (remaining byteAt)

variable {bytes : Bytes} {i : Nat}

theorem dataAt_eq (h : i ≤ bytes.length) (small : bytes.length ≤ maxScriptSize) (n : Nat) :
    dataAt bytes i n = ofPositional (Script.Positional.dataAt bytes i n) := by
  have hlimit : maxScriptSize = 10000 := rfl
  unfold dataAt Script.Positional.dataAt remaining
  rw [sub_eq h, ok_bind, if_pos h]
  show _ = ofPositional (if bytes.length - i < n then throw (.structural .truncatedData) else _)
  split
  · rfl
  · have inside : i ≤ i + n ∧ i + n ≤ bytes.length := ⟨by omega, by omega⟩
    rw [word_eq (by omega), ok_bind, slice_eq inside.1 inside.2, ok_bind, Script.Positional.slice,
      if_pos inside]
    rfl

theorem fieldAt_eq (h : i ≤ bytes.length) (small : bytes.length ≤ maxScriptSize) {width : Nat}
    (narrow : width ≤ 4) :
    fieldAt bytes i width = ofPositional (Script.Positional.fieldAt bytes i width) := by
  have hlimit : maxScriptSize = 10000 := rfl
  unfold fieldAt Script.Positional.fieldAt remaining
  rw [sub_eq h, ok_bind, if_pos h]
  show _ = ofPositional (if bytes.length - i < width then throw (.structural .truncatedLength) else _)
  split
  · rfl
  · have inside : i ≤ i + width ∧ i + width ≤ bytes.length := ⟨by omega, by omega⟩
    have hfield : ((bytes.take (i + width)).drop i).length = width := by
      rw [List.length_drop, List.length_take]
      omega
    rw [word_eq (by omega), ok_bind, slice_eq inside.1 inside.2, ok_bind,
      orBytes_eq (by decide) (by omega), ok_bind, Nat.pow_zero, Nat.one_mul, Nat.zero_add,
      dataAt_eq inside.2 small, Script.Positional.slice, if_pos inside]
    rfl

theorem instructionAt_eq (h : i < bytes.length) (small : bytes.length ≤ maxScriptSize) :
    instructionAt bytes i = ofPositional (Script.Positional.instructionAt bytes i) := by
  have hlimit : maxScriptSize = 10000 := rfl
  unfold instructionAt Script.Positional.instructionAt byteAt
  rw [List.getElem?_eq_getElem h, index_eq (List.getElem?_eq_getElem h), ok_bind,
    word_eq (by omega), ok_bind]
  generalize bytes[i] = code
  show _ = ofPositional (if code < 0x4c then _ else _)
  split
  · exact dataAt_eq h small _
  split
  · exact fieldAt_eq h small (by decide)
  split
  · exact fieldAt_eq h small (by decide)
  split
  · exact fieldAt_eq h small (by decide)
  · cases Opcode.ofCode? code <;> rfl

theorem scan_eq (bytes : Bytes) (i : Nat) (rows : Script.Rows)
    (small : bytes.length ≤ maxScriptSize) :
    scan bytes i rows = ofPositional (Script.scan bytes i rows) := by
  induction hn : bytes.length - i using Nat.strongRecOn generalizing i rows with
  | ind n ih =>
    rw [scan]
    split
    · next inside =>
      obtain ⟨front, code, rest, hbytes, hfront⟩ := Script.Positional.exists_append_of_lt inside
      have hat := Script.Positional.instructionAt_append front code rest
      rw [← hbytes, hfront] at hat
      rw [instructionAt_eq inside small]
      cases hread : Token.read code rest with
      | error e =>
        rw [hread] at hat
        rw [Script.scan_of_error inside hat, hat]
        rfl
      | ok answer =>
        rw [hread] at hat
        have forward := Script.Positional.lt_of_instructionAt inside hat
        have hstop := Nat.sub_le bytes.length answer.2.length
        rw [Script.scan_of_ok inside hat, hat, Script.Positional.slice,
          if_pos ⟨Nat.le_of_lt forward, hstop⟩]
        show (slice bytes i _ >>= fun encoded => if i < _ then scan bytes _ _ else _) = _
        rw [slice_eq (Nat.le_of_lt forward) hstop, ok_bind, if_pos forward,
          ih _ (by omega) _ _ rfl]
        rfl
    · next outside =>
      rw [Script.scan, dif_neg outside]
      rfl

end

theorem parse_eq (bytes : Bytes) : parse bytes = of (Script.parse bytes) := by
  have hrows : parseRows bytes = of ((Script.parse bytes).map Script.rows) := by
    have hpositional : parseRows bytes = ofPositional (Script.parseRows bytes) := by
      unfold parseRows Script.parseRows
      split
      · rfl
      · next small => exact scan_eq bytes 0 {} (Nat.le_of_not_lt small)
    rw [hpositional, Script.parseRows_eq]
    rfl
  rw [parse, hrows]
  cases Script.parse bytes <;> rfl

/-! ## Parts of scripts -/

/-- The rows from instruction `i` on. -/
def subscript (rows : Rows) (i : Nat) : Checked Rows :=
  if i ≥ rows.instructions.length then .ok {}
  else do
    let base ← index rows.offsets i
    let bytes ← slice rows.bytes base rows.bytes.length
    let instructions ← slice rows.instructions i rows.instructions.length
    let offsets ← (← slice rows.offsets i rows.offsets.length).mapM fun offset => sub offset base
    .ok ⟨bytes, instructions, offsets⟩

/-- The bytes of instruction `i`. -/
def instructionBytes (rows : Rows) (i : Nat) : Checked Bytes := do
  let start ← index rows.offsets i
  let next ← upTo rows.instructions (i + 1)
  slice rows.bytes start (rows.offsets[next]?.getD rows.bytes.length)

/-- The instructions from instruction `i` on that are kept, behind those that were kept already. -/
def filterFrom (rows : Rows) (keep : Instruction → Bytes → Bool) :
    Nat → List Instruction → Rows → Checked Rows
  | _, [], kept => .ok kept
  | i, instruction :: rest, kept => do
    let raw ← instructionBytes rows i
    filterFrom rows keep (i + 1) rest
      (if keep instruction raw then kept.push instruction raw else kept)

/-- The instructions that are kept. -/
def filter (rows : Rows) (keep : Instruction → Bytes → Bool) : Checked Rows :=
  filterFrom rows keep 0 rows.instructions {}

/-- The rows without the shortest pushes of a payload, for which room is made first. -/
def deletePush (rows : Rows) (data : Bytes) : Checked Rows := do
  let _capacity ← word (data.length + 5)
  let needle := (Token.minimalPush data).bytes
  filter rows fun _ raw => raw != needle

/-- The rows without an opcode. -/
def withoutOpcode (rows : Rows) (o : Opcode) : Checked Rows :=
  filter rows fun instruction _ => instruction != .op o

theorem offsetsFrom_append (start : Nat) (done rest : List Token) :
    Script.offsetsFrom start (done ++ rest) = Script.offsetsFrom start done ++
      Script.offsetsFrom (start + (done.flatMap Token.bytes).length) rest := by
  induction done generalizing start with
  | nil => simp [Script.offsetsFrom]
  | cons t done ih =>
    simp only [List.cons_append, Script.offsetsFrom, ih, List.flatMap_cons, List.length_append,
      Nat.add_assoc]

theorem length_offsetsFrom (start : Nat) (tokens : List Token) :
    (Script.offsetsFrom start tokens).length = tokens.length := by
  rw [GrammarLemmas.offsetsFrom_eq]
  simp

theorem offsetsFrom_add (base start : Nat) (tokens : List Token) :
    Script.offsetsFrom (base + start) tokens = (Script.offsetsFrom start tokens).map (base + ·) := by
  induction tokens generalizing start with
  | nil => rfl
  | cons t tokens ih => simp [Script.offsetsFrom, ← ih, Nat.add_assoc]

/-- The instruction behind `done` starts where the bytes of `done` end. -/
theorem offsets_at (done rest : List Token) :
    (⟨done ++ rest⟩ : Script).offsets[done.length]? =
      (Script.offsetsFrom (done.flatMap Token.bytes).length rest)[0]? := by
  have hlength := length_offsetsFrom 0 done
  rw [Script.offsets, offsetsFrom_append, Nat.zero_add, List.getElem?_append_right (by omega),
    hlength, Nat.sub_self]

theorem instructionBytes_eq (done rest : List Token) (t : Token) :
    instructionBytes (⟨done ++ t :: rest⟩ : Script).rows done.length = .ok t.bytes := by
  have hbytes : (⟨done ++ t :: rest⟩ : Script).bytes =
      done.flatMap Token.bytes ++ (t.bytes ++ rest.flatMap Token.bytes) := by
    simp [Script.bytes]
  have hstart := offsets_at done (t :: rest)
  have hnext := offsets_at (done ++ [t]) rest
  rw [List.append_assoc, List.length_append] at hnext
  have hstop : (⟨done ++ t :: rest⟩ : Script).offsets[done.length + 1]?.getD
      (⟨done ++ t :: rest⟩ : Script).bytes.length =
      (done.flatMap Token.bytes).length + t.bytes.length := by
    rw [hbytes]
    refine (congrArg (Option.getD · _) hnext).trans ?_
    cases rest <;> simp [Script.offsetsFrom]
  have hcount : done.length + 1 ≤ (⟨done ++ t :: rest⟩ : Script).instructions.length := by
    simp [Script.instructions]
  rw [instructionBytes, Script.rows, index_eq hstart, ok_bind, upTo_eq hcount, ok_bind, hstop,
    hbytes, slice_eq (by omega) (by simp), ← List.append_assoc, ← List.length_append, List.take_left,
    List.drop_left]

theorem filterFrom_eq (keep : Instruction → Bytes → Bool) (done rest : List Token) (kept : Rows) :
    filterFrom (⟨done ++ rest⟩ : Script).rows keep done.length (rest.map Token.instruction) kept =
      .ok (kept.pushAll (rest.filter fun t => keep t.instruction t.bytes)) := by
  induction rest generalizing done kept with
  | nil => rfl
  | cons t rest ih =>
    have hnext := ih (done ++ [t]) (if keep t.instruction t.bytes then
      kept.push t.instruction t.bytes else kept)
    rw [List.append_assoc, List.length_append] at hnext
    rw [List.map_cons, filterFrom, instructionBytes_eq, ok_bind]
    refine hnext.trans ?_
    rw [List.filter_cons]
    split <;> rfl

theorem filter_eq (s : Script) (keep : Instruction → Bytes → Bool) :
    filter s.rows keep =
      .ok (⟨s.tokens.filter fun t => keep t.instruction t.bytes⟩ : Script).rows := by
  refine (filterFrom_eq keep [] s.tokens {}).trans ?_
  rw [Script.Rows.pushAll_eq]
  rfl

theorem deletePush_eq (s : Script) {data : Bytes} (short : data.length ≤ maxItemSize) :
    deletePush s.rows data = .ok (s.deletePush data).rows := by
  have hlimit : maxItemSize = 520 := rfl
  rw [deletePush, word_eq (by omega), ok_bind]
  exact filter_eq s _

theorem withoutOpcode_eq (s : Script) (o : Opcode) :
    withoutOpcode s.rows o = .ok (s.withoutOpcode o).rows :=
  filter_eq s _

theorem mapM_sub (base : Nat) (offsets : List Nat) :
    ((offsets.map (base + ·)).mapM fun offset => sub offset base) = .ok offsets := by
  induction offsets with
  | nil => rfl
  | cons offset offsets ih =>
    rw [List.map_cons, List.mapM_cons, sub_eq (Nat.le_add_right _ _), ok_bind, ih,
      Nat.add_sub_cancel_left]
    rfl

theorem subscript_append (done rest : List Token) (t : Token) :
    subscript (⟨done ++ t :: rest⟩ : Script).rows done.length =
      .ok (⟨t :: rest⟩ : Script).rows := by
  have hbytes : (⟨done ++ t :: rest⟩ : Script).bytes =
      done.flatMap Token.bytes ++ (⟨t :: rest⟩ : Script).bytes := by
    simp [Script.bytes]
  have hinstructions : (⟨done ++ t :: rest⟩ : Script).instructions =
      done.map Token.instruction ++ (⟨t :: rest⟩ : Script).instructions := by
    simp [Script.instructions]
  have hoffsets : (⟨done ++ t :: rest⟩ : Script).offsets =
      Script.offsetsFrom 0 done ++
        (⟨t :: rest⟩ : Script).offsets.map ((done.flatMap Token.bytes).length + ·) := by
    rw [Script.offsets, offsetsFrom_append, Nat.zero_add, Script.offsets, ← offsetsFrom_add]
    rfl
  have hstart := offsets_at done (t :: rest)
  have hcount : done.length < (⟨done ++ t :: rest⟩ : Script).instructions.length := by
    simp [Script.instructions]
  have hfirst := length_offsetsFrom 0 done
  rw [subscript, Script.rows, if_neg (Nat.not_le.mpr hcount), index_eq hstart, ok_bind]
  show (slice _ (done.flatMap Token.bytes).length _ >>= _) = _
  rw [slice_eq (by rw [hbytes]; simp) (Nat.le_refl _), ok_bind,
    slice_eq (Nat.le_of_lt hcount) (Nat.le_refl _), ok_bind,
    slice_eq (by rw [hoffsets, List.length_append]; omega) (Nat.le_refl _), ok_bind,
    List.take_length, List.take_length, List.take_length, hbytes, List.drop_left, hinstructions,
    hoffsets, List.drop_left' (List.length_map _), List.drop_left' hfirst, mapM_sub]
  rfl

theorem subscript_eq (s : Script) (i : Nat) : subscript s.rows i = .ok (s.dropFront i).rows := by
  by_cases inside : i < s.tokens.length
  · have happend := subscript_append (s.tokens.take i) (s.tokens.drop (i + 1)) s.tokens[i]
    rw [List.length_take, Nat.min_eq_left (Nat.le_of_lt inside), ← List.drop_eq_getElem_cons inside,
      List.take_append_drop] at happend
    exact happend
  · have hcount : i ≥ s.rows.instructions.length := by
      rw [Script.rows, Script.instructions, List.length_map]
      exact Nat.le_of_not_lt inside
    rw [subscript, if_pos hcount, Script.dropFront,
      List.drop_eq_nil_of_le (Nat.le_of_not_lt inside)]
    rfl

/-! ## Shapes of scripts -/

/-- Whether a vector has certain bytes at certain places. -/
def matchesAt (bytes : Bytes) : List (Nat × UInt8) → Checked Bool
  | [] => .ok true
  | (i, b) :: places => do
    if (← index bytes i) = b then matchesAt bytes places else .ok false

def payToPubkeyHash (bytes : Bytes) : Checked Bool :=
  if bytes.length = 25 then
    matchesAt bytes [(0, 0x76), (1, 0xa9), (2, 0x14), (23, 0x88), (24, 0xac)]
  else .ok false

def payToScriptHash (bytes : Bytes) : Checked Bool :=
  if bytes.length = 23 then matchesAt bytes [(0, 0xa9), (1, 0x14), (22, 0x87)] else .ok false

/-- Copy a vector over one of 20 bytes, which takes equal lengths. -/
def copyHash (part : Bytes) : Checked (Digest 20) :=
  match Digest.ofBytes? 20 part with
  | some hash => .ok hash
  | none => fail .outOfRange

/-- The hash in a pay-to-pubkey-hash or pay-to-script-hash script. -/
def hash160? (bytes : Bytes) : Checked (Option (Digest 20)) := do
  if ← payToPubkeyHash bytes then .ok (some (← copyHash (← slice bytes 3 23)))
  else if ← payToScriptHash bytes then .ok (some (← copyHash (← slice bytes 2 22)))
  else .ok none

theorem matchesAt_eq {bytes : Bytes} {places : List (Nat × UInt8)}
    (inside : ∀ place ∈ places, place.1 < bytes.length) :
    matchesAt bytes places = .ok (places.all fun place => bytes[place.1]? == some place.2) := by
  induction places with
  | nil => rfl
  | cons place places ih =>
    obtain ⟨i, b⟩ := place
    obtain ⟨hi, rest⟩ := List.forall_mem_cons.mp inside
    have hget := List.getElem?_eq_getElem hi
    rw [matchesAt, index_eq hget, ok_bind, List.all_cons, hget]
    split
    · next h =>
      rw [ih rest, h]
      simp
    · next h => simp [h]

/-- A vector that is long enough has a front, a middle and a back. -/
theorem exists_frame {α : Type} {xs : List α} {m n k : Nat} (h : xs.length = m + n + k) :
    ∃ front middle back, xs = front ++ (middle ++ back) ∧ front.length = m ∧ middle.length = n ∧
      back.length = k :=
  ⟨xs.take m, (xs.drop m).take n, (xs.drop m).drop n,
    by rw [List.take_append_drop, List.take_append_drop], by simp; omega, by simp; omega,
    by simp; omega⟩

theorem getElem?_middle {α : Type} {middle back : List α} {n : Nat} (h : middle.length = n)
    (i : Nat) :
    (middle ++ back)[n + i]? = back[i]? := by
  rw [← List.getElem?_drop, List.drop_left' h]

theorem payToPubkeyHash_eq (s : Script) : payToPubkeyHash s.bytes = .ok s.isPayToPubkeyHash := by
  unfold payToPubkeyHash Script.isPayToPubkeyHash
  dsimp only
  generalize s.bytes = bytes
  split
  · next hlength =>
    rw [matchesAt_eq (by simp [hlength]), hlength]
    obtain ⟨front, middle, back, rfl, hfront, hmiddle, hback⟩ :=
      exists_frame (m := 3) (n := 20) (k := 2) hlength
    obtain ⟨a, b, c, rfl⟩ := List.length_eq_three.mp hfront
    obtain ⟨d, e, rfl⟩ := List.length_eq_two.mp hback
    have first : (middle ++ [d, e])[20]? = some d := getElem?_middle hmiddle 0
    have second : (middle ++ [d, e])[21]? = some e := getElem?_middle hmiddle 1
    simp [first, second, List.drop_left' hmiddle, Bool.and_assoc]
  · next hlength =>
    rw [beq_false_of_ne hlength]
    rfl

theorem payToScriptHash_eq (s : Script) : payToScriptHash s.bytes = .ok s.isPayToScriptHash := by
  unfold payToScriptHash Script.isPayToScriptHash
  dsimp only
  generalize s.bytes = bytes
  split
  · next hlength =>
    rw [matchesAt_eq (by simp [hlength]), hlength]
    obtain ⟨front, middle, back, rfl, hfront, hmiddle, hback⟩ :=
      exists_frame (m := 2) (n := 20) (k := 1) hlength
    obtain ⟨a, b, rfl⟩ := List.length_eq_two.mp hfront
    obtain ⟨d, rfl⟩ := List.length_eq_one_iff.mp hback
    have first : (middle ++ [d])[20]? = some d := getElem?_middle hmiddle 0
    simp [first, List.drop_left' hmiddle, Bool.and_assoc]
  · next hlength =>
    rw [beq_false_of_ne hlength]
    rfl

theorem copyHash_eq {bytes : Bytes} {start : Nat} (fits : start + 20 ≤ bytes.length) :
    (slice bytes start (start + 20) >>= fun part => copyHash part >>= fun hash => .ok (some hash)) =
      .ok (Digest.ofBytes? 20 ((bytes.drop start).take 20)) := by
  have hlength : ((bytes.drop start).take 20).length = 20 := by
    simp
    omega
  rw [slice_eq (Nat.le_add_right _ _) fits, ok_bind, List.drop_take, Nat.add_sub_cancel_left,
    copyHash, Digest.ofBytes?, dif_pos hlength]
  rfl

theorem hash160?_eq (s : Script) : hash160? s.bytes = .ok s.hash160? := by
  unfold hash160? Script.hash160?
  rw [payToPubkeyHash_eq, ok_bind]
  split
  · next h =>
    have hlength : s.bytes.length = 25 := by
      simp [Script.isPayToPubkeyHash] at h
      exact h.1.1
    exact copyHash_eq (by omega)
  rw [payToScriptHash_eq, ok_bind]
  split
  · next h =>
    have hlength : s.bytes.length = 23 := by
      simp [Script.isPayToScriptHash] at h
      exact h.1.1
    exact copyHash_eq (by omega)
  · rfl

/-! ## Redeem scripts -/

/-- The redeem script on top of a stack, if it has the hash that a locking script asks for. -/
def redeemScript (stack : List Bytes) (lock : Script) : Checked Script :=
  match stack with
  | [] => refuse (.structural .noRedeemScript)
  | item :: _ => do
    let redeem ← parse item
    match ← hash160? lock.bytes with
    | none => refuse (.structural .notScriptHash)
    | some expected =>
      if Hash.hash160 item = expected then .ok redeem else refuse (.negativeVerdict .redeemMismatch)

theorem redeemScript_eq (stack : List Bytes) (lock : Script) :
    redeemScript stack lock = of (CoinScript.redeemScript stack lock) := by
  unfold redeemScript CoinScript.redeemScript
  cases stack with
  | nil => rfl
  | cons item rest =>
    dsimp only
    rw [parse_eq, hash160?_eq, of_bind]
    refine congrArg (of (Script.parse item) >>= ·) (funext fun redeem => ?_)
    rw [ok_bind]
    cases lock.hash160? with
    | none => rfl
    | some expected =>
      dsimp only
      split <;> rfl

end CoinScript.Checked
