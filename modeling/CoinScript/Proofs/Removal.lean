import CoinScript.Proofs.Built
/-!
# Scripts without some of their tokens

Signatures commit to a script without their own pushes and without separators. What is removed is
told token by token and the others stay in their order, so a removal is a filter, and a row of
removals is one filter, too. Which tokens have the bytes of a shortest push depends on how the
script pushes: a push with a length field may have the payload and other bytes.

* `Script.deletePush_eq_filter`, `Script.withoutOpcode_eq_filter`: removals as filters;
* `Script.foldl_deletePush_eq_filter`: the pushes of several payloads;
* `Script.Valid.deletePush_eq_self`: a script that does not push the payload;
* `Script.Valid.deletePush_eq_filter_push`: a script whose pushes have no length field.
-/

namespace CoinScript

/-! ## Removals as filters -/

namespace Script

theorem withoutOpcode_eq_filter (s : Script) (o : Opcode) :
    s.withoutOpcode o = ⟨s.tokens.filter fun t => t.instruction ≠ .op o⟩ :=
  congrArg Script.mk (List.filter_congr fun t _ => by rw [bne, beq_eq_decide, decide_not])

theorem deletePush_eq_filter (s : Script) (data : Bytes) :
    s.deletePush data = ⟨s.tokens.filter fun t => t.bytes ≠ (Token.minimalPush data).bytes⟩ :=
  congrArg Script.mk (List.filter_congr fun t _ => by rw [bne, beq_eq_decide, decide_not])

/-- Removing the pushes of one payload after the other. -/
theorem foldl_deletePush_eq_filter (s : Script) (payloads : List Bytes) :
    payloads.foldl deletePush s = ⟨s.tokens.filter fun t =>
      ∀ data ∈ payloads, t.bytes ≠ (Token.minimalPush data).bytes⟩ := by
  induction payloads generalizing s with
  | nil =>
    have kept : (s.tokens.filter fun t => ∀ data ∈ ([] : List Bytes),
        t.bytes ≠ (Token.minimalPush data).bytes) = s.tokens := by
      simp
    rw [kept]
    rfl
  | cons data payloads ih =>
    rw [List.foldl_cons, ih, deletePush_eq_filter, List.filter_filter]
    simp only [List.forall_mem_cons, Bool.decide_and, Bool.and_comm]

theorem deletePush_self (s : Script) (data : Bytes) :
    (s.deletePush data).deletePush data = s.deletePush data := by
  simp only [deletePush, List.filter_filter, Bool.and_self]

theorem deletePush_comm (s : Script) (a b : Bytes) :
    (s.deletePush a).deletePush b = (s.deletePush b).deletePush a := by
  simp only [deletePush, List.filter_filter, Bool.and_comm]

theorem withoutOpcode_self (s : Script) (o : Opcode) :
    (s.withoutOpcode o).withoutOpcode o = s.withoutOpcode o := by
  simp only [withoutOpcode, List.filter_filter, Bool.and_self]

theorem deletePush_withoutOpcode (s : Script) (data : Bytes) (o : Opcode) :
    (s.deletePush data).withoutOpcode o = (s.withoutOpcode o).deletePush data := by
  simp only [deletePush, withoutOpcode, List.filter_filter, Bool.and_comm]

/-- The code for a signature, without the pushes of the signature and without an opcode. -/
theorem deletePush_withoutOpcode_eq_filter (s : Script) (data : Bytes) (o : Opcode) :
    (s.deletePush data).withoutOpcode o = ⟨s.tokens.filter fun t =>
      t.bytes ≠ (Token.minimalPush data).bytes ∧ t.instruction ≠ .op o⟩ := by
  rw [deletePush_eq_filter, withoutOpcode_eq_filter, List.filter_filter]
  simp only [Bool.decide_and, Bool.and_comm]

end Script

/-! ## Bytes of shortest pushes -/

namespace Token

/-- The bytes of a token that reads back as itself determine it. -/
theorem WellFormed.eq_of_bytes_eq {t t' : Token} (wf : t.WellFormed) (wf' : t'.WellFormed)
    (h : t.bytes = t'.bytes) : t = t' := by
  obtain ⟨code, input, hinput⟩ := List.exists_cons_of_ne_nil t.bytes_ne_nil
  have first : read code input = .ok (t, []) :=
    read_of_wellFormed wf (by rw [hinput, List.append_nil])
  have second : read code input = .ok (t', []) :=
    read_of_wellFormed wf' (by rw [← h, hinput, List.append_nil])
  cases first.symm.trans second
  rfl

/-- The first byte of a shortest push gives the length of the payload, unless it announces a field
for the length. -/
theorem eq_of_bytes_minimalPush {data rest : Bytes} {code : UInt8}
    (unmarked : code < 0x4c ∨ 0x4f ≤ code) (h : (minimalPush data).bytes = code :: rest) :
    data = rest ∧ code = UInt8.ofNat data.length := by
  unfold minimalPush bytes at h
  generalize PushForm.minimal data.length = form at h
  cases form with
  | direct => exact ⟨(List.cons.inj h).2, (List.cons.inj h).1.symm⟩
  | field1 => exact absurd unmarked ((List.cons.inj h).1 ▸ by decide)
  | field2 => exact absurd unmarked ((List.cons.inj h).1 ▸ by decide)
  | field4 => exact absurd unmarked ((List.cons.inj h).1 ▸ by decide)

theorem singleton_ne_bytes_minimalPush {code : UInt8} (high : 0x4f ≤ code) (data : Bytes) :
    [code] ≠ (minimalPush data).bytes := by
  intro same
  obtain ⟨rfl, rfl⟩ := eq_of_bytes_minimalPush (.inr high) same.symm
  exact absurd high (by decide)

/-- The token is no push with a length field. -/
def Direct : Token → Prop
  | push form _ => form = .direct
  | op _ => True
  | unknown _ => True

theorem direct_minimalPush {data : Bytes} (short : data.length < 0x4c) :
    (minimalPush data).Direct :=
  if_pos short

theorem direct_ofOpcode (o : Opcode) : (ofOpcode o).Direct := by
  unfold ofOpcode
  split
  · rfl
  · trivial

/-- Among such tokens, those with the bytes of a shortest push are the pushes of its payload. -/
theorem bytes_eq_minimalPush_iff {t : Token} {data : Bytes} (wf : t.WellFormed)
    (direct : t.Direct) : t.bytes = (minimalPush data).bytes ↔ t.instruction = .push data := by
  cases t with
  | push form payload =>
    cases direct
    have short : payload.length < 0x4c := wf
    constructor
    · intro same
      have unmarked : UInt8.ofNat payload.length < 0x4c := by
        rw [UInt8.lt_iff_toNat_lt, UInt8.toNat_ofNat_of_lt' (Nat.lt_trans short (by decide))]
        exact short
      rw [(eq_of_bytes_minimalPush (.inl unmarked) same.symm).1]
      rfl
    · intro same
      cases same
      rw [minimalPush, PushForm.minimal, if_pos short]
  | op o =>
    have none : [o.code] ≠ (minimalPush data).bytes := singleton_ne_bytes_minimalPush wf data
    exact iff_of_false none Instruction.noConfusion
  | unknown code =>
    have none : [code] ≠ (minimalPush data).bytes := singleton_ne_bytes_minimalPush wf.1 data
    exact iff_of_false none Instruction.noConfusion

end Token

/-! ## Pushes as instructions -/

namespace Script

/-- Nothing is removed from a script that does not push the payload at all. -/
theorem Valid.deletePush_eq_self {s : Script} {data : Bytes} (hs : s.Valid)
    (short : data.length ≤ maxItemSize) (absent : .push data ∉ s.instructions) :
    s.deletePush data = s := by
  have push : (Token.minimalPush data).WellFormed :=
    minimalPush_wellFormed (Nat.lt_of_le_of_lt short (by decide))
  have other (t : Token) (ht : t ∈ s.tokens) : t.bytes ≠ (Token.minimalPush data).bytes := by
    intro same
    obtain rfl := (hs.wellFormed t ht).eq_of_bytes_eq push same
    exact absent (List.mem_map_of_mem ht)
  rw [deletePush_eq_filter, List.filter_eq_self.mpr fun t ht => decide_eq_true (other t ht)]

/-- From a script whose pushes have no length field, all pushes of the payload are removed. -/
theorem Valid.deletePush_eq_filter_push {s : Script} (hs : s.Valid)
    (direct : ∀ t ∈ s.tokens, t.Direct) (data : Bytes) :
    s.deletePush data = ⟨s.tokens.filter fun t => t.instruction ≠ .push data⟩ := by
  rw [deletePush_eq_filter]
  exact congrArg Script.mk (List.filter_congr fun t ht => decide_eq_decide.mpr
    (not_congr (Token.bytes_eq_minimalPush_iff (hs.wellFormed t ht) (direct t ht))))

end Script

end CoinScript
