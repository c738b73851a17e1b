import CoinScript.Proofs.Reaching
import CoinScript.Proofs.Removal
/-!
# What builders put together

A builder appends tokens, so the script that it gives is known token by token: a template is the
row of its pieces, and an unlocking script is the row of its pushes.

* `Script.foldlM_eq_ok_iff`: a row of calls, which succeeds if every argument is allowed and there
  is room for all of them;
* `Exec.leaves_ofItems`: a script of few pushes, run;
* `Template.build_eq_ok_iff`: when a template is built, and its tokens;
* `pushed?_ofNumber`: a number is pushed as itself, by a constant or by its bytes.
-/

namespace CoinScript

/-! ## Forms of a push -/

namespace PushForm

/-- The number of bytes in front of a payload. -/
def width : PushForm → Nat
  | direct => 1
  | field1 => 2
  | field2 => 3
  | field4 => 5

theorem length_header (form : PushForm) (n : Nat) : (form.header n).length = form.width := by
  cases form <;> simp [header, width]

theorem width_injective {form form' : PushForm} (h : form.width = form'.width) : form = form' := by
  cases form <;> cases form' <;> first | rfl | cases h

/-- The first form with room for a payload is the narrowest one. -/
theorem width_minimal_le {form : PushForm} {n : Nat} (fits : n < form.capacity) :
    (minimal n).width ≤ form.width := by
  unfold minimal
  split
  · cases form <;> decide
  next long =>
  split
  · cases form with
    | direct => exact absurd fits long
    | _ => decide
  next longer =>
  split
  · cases form with
    | direct => exact absurd fits long
    | field1 => exact absurd fits longer
    | _ => decide
  next longest =>
  cases form with
  | direct => exact absurd fits long
  | field1 => exact absurd fits longer
  | field2 => exact absurd fits longest
  | field4 => exact Nat.le_refl 5

end PushForm

theorem Token.length_bytes_push (form : PushForm) (data : Bytes) :
    (Token.push form data).bytes.length = form.width + data.length := by
  rw [bytes, List.length_append, PushForm.length_header]

/-! ## Pushes of numbers -/

/-- The token that pushes a number, a constant where there is one. -/
def Token.ofNumber (value : Int) : Token :=
  if value = -1 then .op (.push .oneNegate)
  else if value < 0 then minimalPush (Number.encode value)
  else
    match Opcode.ofSmallInt? value.toNat with
    | some o => ofOpcode o
    | none => minimalPush (Number.encode value)

/-- The constant zero is the push of nothing, which is the number zero. -/
theorem pushed?_ofOpcode (n : Fin 17) :
    (Token.ofOpcode (.push (.smallInt n))).instruction.pushed? = some (Number.encode n.val) := by
  unfold Token.ofOpcode
  split
  · next zero =>
    cases zero
    simp [Token.instruction, Instruction.pushed?, Number.encode, Bytes.minimalLE]
  · rfl

theorem pushed?_ofNumber (value : Int) :
    (Token.ofNumber value).instruction.pushed? = some (Number.encode value) := by
  unfold Token.ofNumber
  split
  · next negative =>
    subst negative
    rfl
  split
  · rfl
  next nonnegative =>
  unfold Opcode.ofSmallInt?
  split
  · next o hsmall =>
    split at hsmall
    · cases hsmall
      rw [pushed?_ofOpcode, Int.toNat_of_nonneg (Int.not_lt.mp nonnegative)]
    · cases hsmall
  · rfl

theorem Token.direct_ofNumber {value : Int} (short : (Number.encode value).length < 0x4c) :
    (Token.ofNumber value).Direct := by
  unfold ofNumber
  split
  · trivial
  split
  · exact direct_minimalPush short
  split
  · exact direct_ofOpcode _
  · exact direct_minimalPush short

/-- What pushes an item belongs into a script of data only. -/
theorem Instruction.isPush_of_pushed? {i : Instruction} {data : Bytes} (h : i.pushed? = some data) :
    i.isPush = true := by
  unfold pushed? at h
  split at h
  · rfl
  · next n =>
    have low : ∀ n : Fin 17, (Instruction.op (.push (.smallInt n))).isPush = true := by decide
    exact low n
  · rfl
  · cases h

/-! ## Builders -/

namespace Script

theorem appendTokens_eq_ok_iff {s t : Script} {tokens : List Token} :
    s.appendTokens tokens = .ok t ↔
      (Script.mk (s.tokens ++ tokens)).size ≤ maxScriptSize ∧ t = ⟨s.tokens ++ tokens⟩ := by
  rw [size_append]
  unfold appendTokens
  split
  · next full =>
    constructor
    · intro h
      cases h
    · rintro ⟨room, _⟩
      exact absurd room (Nat.not_le.mpr full)
  · next room =>
    constructor
    · intro h
      cases h
      exact ⟨Nat.le_of_not_lt room, rfl⟩
    · rintro ⟨_, rfl⟩
      rfl

theorem appendData_eq_ok_iff {s t : Script} {data : Bytes} :
    s.appendData data = .ok t ↔ data.length ≤ maxItemSize ∧
      (Script.mk (s.tokens ++ [Token.minimalPush data])).size ≤ maxScriptSize ∧
      t = ⟨s.tokens ++ [Token.minimalPush data]⟩ := by
  rw [appendData, bind_eq_ok_iff]
  unfold dataToken
  constructor
  · rintro ⟨token, htoken, h⟩
    split at htoken
    · cases htoken
    · next short =>
      cases htoken
      exact ⟨Nat.le_of_not_lt short, appendTokens_eq_ok_iff.mp h⟩
  · rintro ⟨short, h⟩
    exact ⟨_, if_neg (Nat.not_lt.mpr short), appendTokens_eq_ok_iff.mpr h⟩

theorem opcodeToken_eq_ok {o : Opcode} {token : Token} (h : opcodeToken o = .ok token) :
    token = Token.ofOpcode o := by
  unfold opcodeToken at h
  split at h
  · cases h
  · cases h
  · cases h
  · cases h
    rfl

theorem append_eq_ok_iff {s t : Script} {o : Opcode} :
    s.append o = .ok t ↔ opcodeToken o = .ok (Token.ofOpcode o) ∧
      (Script.mk (s.tokens ++ [Token.ofOpcode o])).size ≤ maxScriptSize ∧
      t = ⟨s.tokens ++ [Token.ofOpcode o]⟩ := by
  rw [append, bind_eq_ok_iff]
  constructor
  · rintro ⟨token, htoken, h⟩
    cases opcodeToken_eq_ok htoken
    exact ⟨htoken, appendTokens_eq_ok_iff.mp h⟩
  · rintro ⟨htoken, h⟩
    exact ⟨_, htoken, appendTokens_eq_ok_iff.mpr h⟩

/-- A number is pushed if its bytes can be pushed, though a constant may stand for them. -/
theorem appendNumber_eq_ok_iff {s t : Script} {value : Int} :
    s.appendNumber value = .ok t ↔ (Number.encode value).length ≤ maxItemSize ∧
      (Script.mk (s.tokens ++ [Token.ofNumber value])).size ≤ maxScriptSize ∧
      t = ⟨s.tokens ++ [Token.ofNumber value]⟩ := by
  -- A constant stands for a short number only.
  unfold appendNumber Token.ofNumber
  split
  · have short : (Number.encode value).length ≤ maxItemSize := Number.short_encode (by omega)
    exact append_eq_ok_iff.trans (and_congr_left' (iff_of_true rfl short))
  split
  · exact appendData_eq_ok_iff
  unfold Opcode.ofSmallInt?
  by_cases small : value.toNat < 17
  · have short : (Number.encode value).length ≤ maxItemSize := Number.short_encode (by omega)
    rw [dif_pos small]
    exact append_eq_ok_iff.trans (and_congr_left' (iff_of_true rfl short))
  · rw [dif_neg small]
    exact appendData_eq_ok_iff

/-- A script that is part of another one is not larger. -/
theorem size_le_of_infix {s t : Script} (h : s.tokens <:+: t.tokens) : s.size ≤ t.size := by
  obtain ⟨front, back, h⟩ := h
  have whole : t.size = (Script.mk front).size + s.size + (Script.mk back).size := by
    rw [← size_append, ← size_append, h]
  rw [whole]
  exact Nat.le_trans (Nat.le_add_left _ _) (Nat.le_add_right _ _)

theorem size_le_append (a b : List Token) : (Script.mk a).size ≤ (Script.mk (a ++ b)).size := by
  rw [size_append]
  exact Nat.le_add_right _ _

/-- A row of calls of a builder. If a call succeeds whenever its argument is allowed and there is
room, so does the row, and the room that it takes is that of the whole script. -/
theorem foldlM_eq_ok_iff {α : Type} {add : Script → α → Except Error Script} {Allowed : α → Prop}
    {tokens : α → List Token}
    (add_eq_ok_iff : ∀ s a t, add s a = .ok t ↔ Allowed a ∧
      (Script.mk (s.tokens ++ tokens a)).size ≤ maxScriptSize ∧ t = ⟨s.tokens ++ tokens a⟩)
    {row : List α} {s t : Script} (hs : s.size ≤ maxScriptSize) :
    row.foldlM add s = .ok t ↔ (∀ a ∈ row, Allowed a) ∧
      (Script.mk (s.tokens ++ row.flatMap tokens)).size ≤ maxScriptSize ∧
      t = ⟨s.tokens ++ row.flatMap tokens⟩ := by
  induction row generalizing s with
  | nil =>
    rw [List.flatMap_nil, List.append_nil]
    constructor
    · intro h
      cases h
      exact ⟨by simp, hs, rfl⟩
    · rintro ⟨-, -, rfl⟩
      rfl
  | cons a row ih =>
    rw [List.foldlM_cons, bind_eq_ok_iff, List.forall_mem_cons, List.flatMap_cons,
      ← List.append_assoc]
    constructor
    · rintro ⟨u, hu, h⟩
      obtain ⟨allowed, room, rfl⟩ := (add_eq_ok_iff s a u).mp hu
      obtain ⟨others, whole, rfl⟩ := (ih room).mp h
      exact ⟨⟨allowed, others⟩, whole, rfl⟩
    · rintro ⟨⟨allowed, others⟩, whole, rfl⟩
      have room := Nat.le_trans (size_le_append _ _) whole
      exact ⟨_, (add_eq_ok_iff s a _).mpr ⟨allowed, room, rfl⟩, (ih room).mpr ⟨others, whole, rfl⟩⟩

theorem foldlM_appendData_eq_ok_iff {s t : Script} {items : List Bytes}
    (hs : s.size ≤ maxScriptSize) :
    items.foldlM appendData s = .ok t ↔ (∀ item ∈ items, item.length ≤ maxItemSize) ∧
      (Script.mk (s.tokens ++ items.map Token.minimalPush)).size ≤ maxScriptSize ∧
      t = ⟨s.tokens ++ items.map Token.minimalPush⟩ := by
  rw [List.map_eq_flatMap]
  exact foldlM_eq_ok_iff (fun s data t => @appendData_eq_ok_iff s t data) hs

/-- The pushes of some items, each in its shortest form. -/
def ofItems (items : List Bytes) : Script :=
  ⟨items.map Token.minimalPush⟩

theorem pushed?_ofItems (items : List Bytes) :
    (ofItems items).instructions.map Instruction.pushed? = items.map some := by
  rw [instructions, ofItems, List.map_map, List.map_map]
  rfl

theorem isDataOnly_of_pushed? {s : Script} {items : List Bytes}
    (h : s.instructions.map Instruction.pushed? = items.map some) : s.isDataOnly = true := by
  rw [isDataOnly, List.all_eq_true]
  intro i mem
  have pushed : i.pushed? ∈ items.map some := h ▸ List.mem_map_of_mem mem
  obtain ⟨item, -, same⟩ := List.mem_map.mp pushed
  exact Instruction.isPush_of_pushed? same.symm

theorem length_minimalPush_le {data : Bytes} (short : data.length ≤ maxItemSize) :
    (Token.minimalPush data).bytes.length ≤ 523 := by
  -- A length field of two bytes is enough for every item.
  have field : data.length < PushForm.field2.capacity := Nat.lt_of_le_of_lt short (by decide)
  rw [Token.minimalPush, Token.length_bytes_push]
  exact Nat.add_le_add (PushForm.width_minimal_le field) short

theorem size_ofItems_le {items : List Bytes} (short : ∀ item ∈ items, item.length ≤ maxItemSize) :
    (ofItems items).size ≤ 523 * items.length := by
  induction items with
  | nil => exact Nat.le_refl 0
  | cons item items ih =>
    rw [List.forall_mem_cons] at short
    have first := length_minimalPush_le short.1
    have rest := ih short.2
    have split : (ofItems (item :: items)).size =
        (Token.minimalPush item).bytes.length + (ofItems items).size := by
      simp [ofItems, size, bytes]
    rw [split, List.length_cons]
    omega

/-- Nineteen pushes always fit in a script. -/
theorem valid_ofItems {items : List Bytes} (short : ∀ item ∈ items, item.length ≤ maxItemSize)
    (few : items.length ≤ 19) : (ofItems items).Valid := by
  refine ⟨?_, Nat.le_trans (size_ofItems_le short) ?_⟩
  · simp only [ofItems, List.forall_mem_map]
    exact fun item h => minimalPush_wellFormed (Nat.lt_of_le_of_lt (short item h) (by decide))
  · simp only [maxScriptSize]
    omega

end Script

/-- A script of few pushes, run. -/
theorem Exec.leaves_ofItems {env : Env} {stack items : List Bytes}
    (short : ∀ item ∈ items, item.length ≤ maxItemSize) (few : items.length ≤ 19)
    (room : stack.length + items.length ≤ maxStackSize) :
    Leaves env (.ofItems items) stack (items.reverse ++ stack) :=
  leaves_pushes (Script.pushed?_ofItems items) (Script.valid_ofItems short few).size_le short room

namespace Template

/-- The tokens of a piece. -/
def Part.tokens : Part → List Token
  | op o => [Token.ofOpcode o]
  | data d => [Token.minimalPush d]
  | number value => [Token.ofNumber value]
  | script s => s.tokens

/-- What a piece must be, besides fitting in. -/
def Part.Allowed : Part → Prop
  | op o => Script.opcodeToken o = .ok (Token.ofOpcode o)
  | data d => d.length ≤ maxItemSize
  | number value => (Number.encode value).length ≤ maxItemSize
  | script _ => True

theorem Part.appendTo_eq_ok_iff {part : Part} {s t : Script} :
    part.appendTo s = .ok t ↔ part.Allowed ∧
      (Script.mk (s.tokens ++ part.tokens)).size ≤ maxScriptSize ∧
      t = ⟨s.tokens ++ part.tokens⟩ := by
  cases part with
  | op o => exact Script.append_eq_ok_iff
  | data d => exact Script.appendData_eq_ok_iff
  | number value => exact Script.appendNumber_eq_ok_iff
  | script other => exact Script.appendTokens_eq_ok_iff.trans (and_iff_right trivial).symm

/-- A template is built if its pieces are allowed and fit in together, and it is their row. -/
theorem build_eq_ok_iff {parts : List Part} {s : Script} :
    build parts = .ok s ↔ (∀ part ∈ parts, part.Allowed) ∧
      (Script.mk (parts.flatMap Part.tokens)).size ≤ maxScriptSize ∧
      s = ⟨parts.flatMap Part.tokens⟩ :=
  retag_eq_ok_iff.trans (Script.foldlM_eq_ok_iff
    (fun s part t => @Part.appendTo_eq_ok_iff part s t) (Nat.zero_le _))

theorem size_of_build {parts : List Part} {s : Script} (h : build parts = .ok s) :
    s.size ≤ maxScriptSize := by
  obtain ⟨-, room, rfl⟩ := build_eq_ok_iff.mp h
  exact room

theorem tokens_of_build {parts : List Part} {s : Script} (h : build parts = .ok s) :
    s.tokens = parts.flatMap Part.tokens := by
  obtain ⟨-, -, rfl⟩ := build_eq_ok_iff.mp h
  rfl

end Template

end CoinScript
