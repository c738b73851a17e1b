import CoinScript.Proofs.Building
/-!
# Pushes, written and run

An item can be pushed in several ways, and a number also by a constant. A builder picks the shortest
one, and the machine takes all of them for the same push. So a row of calls of the builders that
push gives a script that puts the items of the calls on the stack, in their order.

* `Script.minimalPush_unique_shortest`: the push that is picked, among all that push the same;
* `PushCall.foldlM_appendTo_eq_ok_iff`: when a row of calls succeeds, and what it gives then;
* `Machine.built_pushes_run`: what the script of a row of calls does.
-/

namespace CoinScript

/-! ## The shortest push -/

namespace Script

/-- What reads as a single push is one of its forms. -/
theorem exists_form_of_single {input data : Bytes} {s : Script} (h : parse input = .ok s)
    (single : s.instructions = [.push data]) :
    ∃ form, input = (Token.push form data).bytes ∧ data.length < form.capacity := by
  obtain ⟨valid, rfl⟩ := valid_of_parse h
  obtain ⟨t, tokens, pushed⟩ := List.map_eq_singleton_iff.mp single
  cases t with
  | push form payload =>
    cases pushed
    refine ⟨form, ?_, valid.wellFormed (.push form data) (by simp [tokens])⟩
    rw [bytes, tokens, List.flatMap_singleton]
  | op o => cases pushed
  | unknown code => cases pushed

/-- The push that a builder writes is read as itself, if it fits into a script. Whatever else reads
as a single push of the same payload is longer. -/
theorem minimalPush_unique_shortest (data : Bytes) :
    ((Token.minimalPush data).bytes.length ≤ maxScriptSize →
      ∃ s, parse (Token.minimalPush data).bytes = .ok s ∧ s.instructions = [.push data]) ∧
    ∀ input s, parse input = .ok s → s.instructions = [.push data] →
      (Token.minimalPush data).bytes.length ≤ input.length ∧
        (input.length = (Token.minimalPush data).bytes.length →
          input = (Token.minimalPush data).bytes) := by
  have length : (Token.minimalPush data).bytes.length =
      (PushForm.minimal data.length).width + data.length := Token.length_bytes_push _ data
  refine ⟨fun fits => ⟨⟨[Token.minimalPush data]⟩, ?_, rfl⟩, fun input s h single => ?_⟩
  · have short : data.length < 0x100000000 := by
      rw [length] at fits
      exact Nat.lt_of_le_of_lt (Nat.le_trans (Nat.le_add_left _ _) fits) (by decide)
    have bytes : (Script.mk [Token.minimalPush data]).bytes = (Token.minimalPush data).bytes :=
      List.flatMap_singleton ..
    have valid : (Script.mk [Token.minimalPush data]).Valid :=
      ⟨List.forall_mem_singleton.mpr (minimalPush_wellFormed short),
        by rw [size, bytes]; exact fits⟩
    rw [← bytes]
    exact valid.parse_bytes
  · obtain ⟨form, rfl, room⟩ := exists_form_of_single h single
    rw [length, Token.length_bytes_push]
    refine ⟨Nat.add_le_add_right (PushForm.width_minimal_le room) _, fun same => ?_⟩
    rw [PushForm.width_injective (Nat.add_right_cancel same)]
    rfl

/-- The shortest item that needs a length field of its own: with a wider field it reads as the same
push and is longer. -/
theorem minimalPush_unique_shortest_field :
    let data : Bytes := List.replicate 76 7
    (∃ s, parse (0x4c :: 76 :: data) = .ok s ∧ s.instructions = [.push data]) ∧
      (∃ s, parse (0x4d :: 76 :: 0 :: data) = .ok s ∧ s.instructions = [.push data] ∧
        (Token.minimalPush data).bytes.length ≤ (0x4d :: 76 :: 0 :: data).length) := by
  intro data
  have valid : (Script.mk [.push .field2 data]).Valid := ⟨by decide, by decide⟩
  have written : (Script.mk [.push .field2 data]).bytes = 0x4d :: 76 :: 0 :: data := by decide
  have wide : parse (0x4d :: 76 :: 0 :: data) = .ok ⟨[.push .field2 data]⟩ :=
    written ▸ valid.parse_bytes
  obtain ⟨reads, shortest⟩ := minimalPush_unique_shortest data
  exact ⟨reads (by decide), _, wide, rfl, (shortest _ _ wide rfl).1⟩

end Script

/-! ## Calls that push -/

/-- A call of a builder that pushes one item. -/
inductive PushCall where
  | data (data : Bytes)
  | number (value : Int64)

namespace PushCall

/-- The script with one more push. -/
def appendTo (s : Script) : PushCall → Except Error Script
  | data d => s.appendData d
  | number value => s.appendNumber value.toInt

/-- The item that is meant. -/
def item : PushCall → Bytes
  | data d => d
  | number value => Number.encode value.toInt

/-- How it is written. -/
def token : PushCall → Token
  | data d => Token.minimalPush d
  | number value => Token.ofNumber value.toInt

theorem pushed?_token (call : PushCall) : call.token.instruction.pushed? = some call.item := by
  cases call with
  | data d => rfl
  | number value => exact pushed?_ofNumber value.toInt

/-- Every number of 64 bits can be pushed, the least one with nine bytes. -/
theorem short_number (value : Int64) : (Number.encode value.toInt).length ≤ maxItemSize := by
  have low := value.le_toInt
  have high := value.toInt_lt
  exact Number.short_encode (by omega)

theorem appendTo_eq_ok_iff {call : PushCall} {s t : Script} :
    appendTo s call = .ok t ↔ call.item.length ≤ maxItemSize ∧
      (Script.mk (s.tokens ++ [call.token])).size ≤ maxScriptSize ∧
      t = ⟨s.tokens ++ [call.token]⟩ := by
  cases call with
  | data d => exact Script.appendData_eq_ok_iff
  | number value => exact Script.appendNumber_eq_ok_iff

/-- Calls one after the other. The room that they take is that of the whole script. -/
theorem foldlM_appendTo_eq_ok_iff {calls : List PushCall} {s t : Script}
    (hs : s.size ≤ maxScriptSize) :
    calls.foldlM appendTo s = .ok t ↔ (∀ call ∈ calls, call.item.length ≤ maxItemSize) ∧
      (Script.mk (s.tokens ++ calls.map token)).size ≤ maxScriptSize ∧
      t = ⟨s.tokens ++ calls.map token⟩ := by
  rw [List.map_eq_flatMap]
  exact Script.foldlM_eq_ok_iff (fun s call t => @appendTo_eq_ok_iff call s t) hs

/-- Where the payloads are not too long, room is all that can be missing. -/
theorem exists_foldlM_iff {calls : List PushCall}
    (short : ∀ payload, data payload ∈ calls → payload.length ≤ maxItemSize) :
    (∃ s, calls.foldlM appendTo .empty = .ok s) ↔
      (Script.mk (calls.map token)).size ≤ maxScriptSize := by
  have short_item : ∀ call ∈ calls, call.item.length ≤ maxItemSize := by
    intro call mem
    cases call with
    | data payload => exact short payload mem
    | number value => exact short_number value
  constructor
  · rintro ⟨s, built⟩
    exact ((foldlM_appendTo_eq_ok_iff (Nat.zero_le _)).mp built).2.1
  · intro fits
    exact ⟨_, (foldlM_appendTo_eq_ok_iff (Nat.zero_le _)).mpr ⟨short_item, fits, rfl⟩⟩

theorem valid_of_foldlM {calls : List PushCall} {s : Script}
    (h : calls.foldlM appendTo .empty = .ok s) : s.Valid := by
  refine Script.valid_empty.foldlM (fun call _ s t hs happend => ?_) h
  cases call with
  | data d => exact hs.appendData happend
  | number value => exact hs.appendNumber happend

end PushCall

namespace Machine

/-- Builders and machine agree on what a push is. A row of calls succeeds if the tokens for it fit
into a script. That script only pushes, reads back as itself, and puts the items of the calls on top
of the main stack, the last one on top. It runs wherever there is room for the items, and leaves the
other stacks empty. -/
theorem built_pushes_run {calls : List PushCall}
    (short : ∀ payload, PushCall.data payload ∈ calls → payload.length ≤ maxItemSize) :
    ((∃ s, calls.foldlM PushCall.appendTo .empty = .ok s) ↔
      (Script.mk (calls.map PushCall.token)).size ≤ maxScriptSize) ∧
    ∀ s, calls.foldlM PushCall.appendTo .empty = .ok s →
      s.isDataOnly = true ∧ Script.parse s.bytes = .ok s ∧
      ∀ (m : Machine) (c : Context), c.state.stack.length + calls.length ≤ maxStackSize →
        (m.run s c).1 = .ok () ∧
        (m.run s c).2.state.stack = (calls.map PushCall.item).reverse ++ c.state.stack ∧
        (m.run s c).2.state.alt = [] ∧ (m.run s c).2.state.conditions = [] := by
  refine ⟨PushCall.exists_foldlM_iff short, fun s built => ?_⟩
  have valid := PushCall.valid_of_foldlM built
  obtain ⟨short_item, -, rfl⟩ := (PushCall.foldlM_appendTo_eq_ok_iff (Nat.zero_le _)).mp built
  have pushes : (Script.mk (calls.map PushCall.token)).instructions.map Instruction.pushed? =
      (calls.map PushCall.item).map some := by
    rw [Script.instructions, List.map_map, List.map_map, List.map_map]
    exact List.map_congr_left fun call _ => call.pushed?_token
  refine ⟨Script.isDataOnly_of_pushed? pushes, valid.parse_bytes, fun m c room => ?_⟩
  obtain ⟨t, hrun, stack, alt, conditions⟩ :=
    @Exec.run_pushes (m.configure c.env) _ _ c.state pushes valid.size_le
      (List.forall_mem_map.mpr short_item) (by rw [List.length_map]; exact room)
  refine ⟨Context.perform_eq_ok_iff.mpr ⟨t, hrun⟩, ?_⟩
  rw [run, perform, Context.perform_state hrun]
  exact ⟨stack, alt, conditions⟩

/-- Every way in which a number and an item can be pushed, on a stack that is not empty. -/
theorem built_pushes_run_forms :
    let calls : List PushCall := [.data [], .number (-1), .number 0, .number 16, .number 17,
      .number Int64.minValue, .data [5], .data (List.replicate 76 7), .data (List.replicate 256 7)]
    let m : Machine := { verbose := true }
    let c : Context := { state := { stack := [[9]], alt := [[8]], conditions := [false] } }
    ∃ s, calls.foldlM PushCall.appendTo .empty = .ok s ∧ (m.run s c).1 = .ok () ∧
      (m.run s c).2.state.stack = [List.replicate 256 7, List.replicate 76 7, [5],
        [0, 0, 0, 0, 0, 0, 0, 0x80, 0x80], [17], [16], [], [0x81], [], [9]] := by
  intro calls m c
  have short : ∀ payload, PushCall.data payload ∈ calls → payload.length ≤ maxItemSize := by
    simp only [calls, List.mem_cons, List.not_mem_nil, PushCall.data.injEq, reduceCtorEq, or_false,
      false_or]
    rintro payload (rfl | rfl | rfl | rfl) <;> decide +kernel
  obtain ⟨succeeds, runs⟩ := built_pushes_run short
  obtain ⟨s, built⟩ := succeeds.mpr (by decide +kernel)
  obtain ⟨-, -, runs⟩ := runs s built
  obtain ⟨ok, stack, -⟩ := runs m c (by decide)
  exact ⟨s, built, ok, stack.trans (by decide +kernel)⟩

end Machine

end CoinScript
