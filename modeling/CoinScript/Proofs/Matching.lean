import CoinScript.Proofs.CheckedSignatures
import CoinScript.Proofs.Reaching
import Mathlib.Data.List.Forall2
/-!
# Matching signatures with keys

A multisignature check goes through the keys once and gives every signature the first key that fits.
If every question about a signature and a key has an answer, this finds a match whenever there is
one: signatures can be matched in order exactly if the greedy choice matches them.

* `matchKeys_eq`: the loop over the keys;
* `checkMultisig_eq`: the operands on the stack and what is left of them;
* `reaches_checkMultisig`: the instruction at the end of a script.
-/

namespace CoinScript.Exec

/-! ## The loop -/

section Matches

variable {R : Bytes → Bytes → Prop} {signature key : Bytes} {signatures keys : List Bytes}

theorem length_le_of_matches (h : signatures.SublistForall₂ R keys) :
    signatures.length ≤ keys.length := by
  obtain ⟨chosen, fit, sub⟩ := List.sublistForall₂_iff.mp h
  rw [fit.length_eq]
  exact sub.length_le

theorem matches_tail (h : (signature :: signatures).SublistForall₂ R keys) :
    signatures.SublistForall₂ R keys := by
  obtain ⟨chosen, fit, sub⟩ := List.sublistForall₂_iff.mp h
  obtain ⟨key, rest, _, fits, rfl⟩ := List.forall₂_cons_left_iff.mp fit
  exact List.sublistForall₂_iff.mpr ⟨rest, fits, (List.sublist_cons_self key rest).trans sub⟩

/-- A key that fits can be taken at once: whatever was matched with a later key in its place leaves
the later keys to the other signatures. -/
theorem matches_cons_iff_of_fit (fits : R signature key) :
    (signature :: signatures).SublistForall₂ R (key :: keys) ↔
      signatures.SublistForall₂ R keys := by
  constructor
  · intro h
    cases h with
    | cons _ rest => exact rest
    | cons_right rest => exact matches_tail rest
  · exact .cons fits

theorem matches_cons_iff_of_not (fails : ¬ R signature key) :
    (signature :: signatures).SublistForall₂ R (key :: keys) ↔
      (signature :: signatures).SublistForall₂ R keys := by
  constructor
  · intro h
    cases h with
    | cons fits _ => exact absurd fits fails
    | cons_right rest => exact rest
  · exact .cons_right

end Matches

/-- The loop asks questions and finds out whether the signatures fit some of the keys, in order. -/
theorem matchKeys_eq {check : Bytes → Bytes → Exec Bool} {answer : Bytes → Bytes → Bool}
    {signatures keys : List Bytes}
    (asks : ∀ signature ∈ signatures, ∀ key ∈ keys, ∀ s, ∃ calls,
      check signature key s = .ok (answer signature key) { s with calls := calls }) (s : State) :
    ∃ matched calls, matchKeys check signatures keys s = .ok matched { s with calls := calls } ∧
      (matched = true ↔
        signatures.SublistForall₂ (fun signature key => answer signature key = true) keys) := by
  -- Along the loop. A signature that found its key is not asked about again, which loses no match.
  fun_induction matchKeys check signatures keys generalizing s with
  | case1 => exact ⟨true, s.calls, rfl, iff_of_true rfl .nil⟩
  | case2 => exact ⟨false, s.calls, rfl, iff_of_false Bool.false_ne_true fun h => by cases h⟩
  | case3 signature signatures key keys more =>
    exact ⟨false, s.calls, rfl, iff_of_false Bool.false_ne_true fun h =>
      Nat.not_lt_of_le (length_le_of_matches h) more⟩
  | case4 signature signatures key keys _ found passed =>
    obtain ⟨calls, hcheck⟩ := asks signature List.mem_cons_self key List.mem_cons_self s
    have later : ∀ other ∈ signature :: signatures, ∀ key ∈ keys, ∀ s, ∃ calls,
        check other key s = .ok (answer other key) { s with calls := calls } :=
      fun other ho key hk => asks other ho key (List.mem_cons_of_mem _ hk)
    cases hanswer : answer signature key with
    | true =>
      rw [hanswer] at hcheck
      obtain ⟨matched, calls', hrest, decides⟩ :=
        found (fun other ho => later other (List.mem_cons_of_mem _ ho)) { s with calls := calls }
      exact ⟨matched, calls', bind_ok_iff.mpr ⟨true, _, hcheck, hrest⟩,
        decides.trans (matches_cons_iff_of_fit hanswer).symm⟩
    | false =>
      rw [hanswer] at hcheck
      obtain ⟨matched, calls', hrest, decides⟩ := passed later { s with calls := calls }
      refine ⟨matched, calls', bind_ok_iff.mpr ⟨false, _, hcheck, hrest⟩,
        decides.trans (matches_cons_iff_of_not ?_).symm⟩
      rw [hanswer]
      exact Bool.false_ne_true

/-! ## The operands -/

theorem peekNumber_at {s : State} {i : Nat} {item : Bytes} (h : s.stack[i]? = some item)
    (limit : Nat) : peekNumber (-(i + 1 : Nat)) limit s = lift (Number.decode limit item) s := by
  have depth : depthOf s.stack.length (-(i + 1 : Nat)) = .ok i :=
    if_pos (List.getElem?_eq_some_iff.mp h).1
  have peeked : peek (-(i + 1 : Nat)) s = .ok item s := by
    refine bind_ok_iff.mpr ⟨s, s, rfl, bind_ok_iff.mpr ⟨i, s, lift_ok_iff.mpr ⟨depth, rfl⟩, ?_⟩⟩
    unfold itemAt
    rw [h]
  show EStateM.bind (peek _) _ s = _
  unfold EStateM.bind
  rw [peeked]

/-- A number of operands that lies on the stack is found, and refused if it is too large. -/
theorem operandCount_of_decode {i n : Nat} {s : State} {item : Bytes} (h : s.stack[i]? = some item)
    (hitem : Number.decode maxNumberSize item = .ok n) (most : Nat) (cause : Int → Malformation) :
    Guarded.operandCount (i + 1) most cause s =
      if n ≤ most then .ok n s else .error (.structural (cause n)) s := by
  have enough : need (i + 1) s = .ok () s :=
    need_ok_iff.mpr ⟨(List.getElem?_eq_some_iff.mp h).1, rfl⟩
  have counted : peekNumber (-(i + 1 : Nat)) maxNumberSize s = .ok (n : Int) s := by
    rw [peekNumber_at h, hitem]
    rfl
  rw [Guarded.operandCount, bind_of_ok enough, bind_of_ok counted]
  by_cases allowed : n ≤ most
  · rw [if_neg (by omega), if_pos allowed]
    rfl
  · rw [if_pos (by omega), if_neg allowed]
    rfl

theorem operandCount_eq {i most n : Nat} {cause : Int → Malformation} {s : State} {item : Bytes}
    (h : s.stack[i]? = some item) (hitem : Number.decode maxNumberSize item = .ok n)
    (allowed : n ≤ most) : Guarded.operandCount (i + 1) most cause s = .ok n s := by
  rw [operandCount_of_decode h hitem, if_pos allowed]

/-- The operands of a multisignature check, as they lie on a stack. -/
def operands (keyNumber : Bytes) (keys : List Bytes) (signatureNumber : Bytes)
    (signatures : List Bytes) (dummy : Bytes) : List Bytes :=
  keyNumber :: (keys ++ signatureNumber :: (signatures ++ [dummy]))

section Operands

variable {env : Env} {keyNumber signatureNumber dummy : Bytes} {keys signatures rest : List Bytes}

theorem length_operands :
    (operands keyNumber keys signatureNumber signatures dummy).length =
      keys.length + signatures.length + 3 := by
  simp [operands]
  omega

theorem getElem?_operands :
    (operands keyNumber keys signatureNumber signatures dummy ++ rest)[
      keys.length + signatures.length + 2]? = some dummy := by
  have split : operands keyNumber keys signatureNumber signatures dummy ++ rest =
      (keyNumber :: (keys ++ signatureNumber :: signatures)) ++ dummy :: rest := by
    simp [operands]
  have length : keys.length + signatures.length + 2 =
      (keyNumber :: (keys ++ signatureNumber :: signatures)).length := by
    simp
    omega
  rw [split, length, List.getElem?_append_right (Nat.le_refl _), Nat.sub_self]
  rfl

theorem getElem?_signatureNumber :
    (operands keyNumber keys signatureNumber signatures dummy ++ rest)[keys.length + 1]? =
      some signatureNumber := by
  simp [operands]

theorem take_keys :
    ((operands keyNumber keys signatureNumber signatures dummy ++ rest).drop 1).take keys.length =
      keys := by
  simp [operands]

theorem take_signatures :
    ((operands keyNumber keys signatureNumber signatures dummy ++ rest).drop (keys.length + 2)).take
      signatures.length = signatures := by
  simp [operands]

/-- A check whose operands lie on the stack takes them all, whether the signatures match or not. -/
theorem checkMultisig_eq {s t : State} {matched : Bool}
    (hs : s.stack = operands keyNumber keys signatureNumber signatures dummy ++ rest)
    (hkeys : Number.decode maxNumberSize keyNumber = .ok keys.length)
    (hsignatures : Number.decode maxNumberSize signatureNumber = .ok signatures.length)
    (enough : signatures.length ≤ keys.length) (most : keys.length ≤ maxMultisigKeys)
    (few : s.operations + keys.length ≤ maxOperations)
    (allowed : env.flags.nullDummy = true → dummy = [])
    (hmatch : matchKeys (fun signature key =>
        checkSignature env signature key (codeWithout s.scriptCode signatures)) signatures keys
      { s with operations := s.operations + keys.length } = .ok matched t)
    (kept : t.stack = s.stack) :
    checkMultisig env s = .ok matched { t with stack := rest } := by
  have first : s.stack[0]? = some keyNumber := by
    rw [hs]
    rfl
  have second : s.stack[keys.length + 1]? = some signatureNumber := by
    rw [hs, getElem?_signatureNumber]
  have high : keys.length + signatures.length + 3 ≤ s.stack.length := by
    rw [hs, List.length_append, length_operands]
    exact Nat.le_add_right _ _
  have keyItems : (s.stack.drop 1).take keys.length = keys := by
    rw [hs, take_keys]
  have signatureItems : (s.stack.drop (keys.length + 2)).take signatures.length = signatures := by
    rw [hs, take_signatures]
  have last : itemAt (keys.length + signatures.length + 2) t = .ok dummy t := by
    unfold itemAt
    rw [kept, hs, getElem?_operands]
  have left : t.stack.drop (keys.length + signatures.length + 3) = rest := by
    rw [kept, hs]
    exact List.drop_left' length_operands
  unfold checkMultisig
  refine bind_ok_iff.mpr ⟨keys.length, s, operandCount_eq first hkeys most, ?_⟩
  refine bind_ok_iff.mpr ⟨(), _, countOperations_ok_iff.mpr ⟨few, rfl⟩, ?_⟩
  refine bind_ok_iff.mpr ⟨signatures.length, _, operandCount_eq second hsignatures enough, ?_⟩
  refine bind_ok_iff.mpr ⟨(), _, need_ok_iff.mpr ⟨high, rfl⟩, bind_ok_iff.mpr ⟨_, _, rfl, ?_⟩⟩
  dsimp only
  rw [keyItems, signatureItems]
  refine bind_ok_iff.mpr ⟨matched, t, hmatch, bind_ok_iff.mpr ⟨dummy, t, last, ?_⟩⟩
  refine bind_ok_iff.mpr ⟨(), { t with stack := rest }, by rw [← left]; rfl, ?_⟩
  rw [if_neg]
  · rfl
  · intro refused
    simp only [Bool.and_eq_true, decide_eq_true_eq] at refused
    exact refused.2 (allowed refused.1)

/-- The check at the end of a script, on a stack that holds its operands. -/
theorem reaches_checkMultisig {script : Script} {index operations : Nat}
    {answer : Bytes → Bytes → Bool}
    (hkeys : Number.decode maxNumberSize keyNumber = .ok keys.length)
    (hsignatures : Number.decode maxNumberSize signatureNumber = .ok signatures.length)
    (enough : signatures.length ≤ keys.length) (most : keys.length ≤ maxMultisigKeys)
    (few : operations + 1 + keys.length ≤ maxOperations)
    (allowed : env.flags.nullDummy = true → dummy = []) (room : rest.length < maxStackSize)
    (answers : ∀ signature ∈ signatures, ∀ key ∈ keys,
      env.signatureAnswer signature key (codeWithout script signatures) =
        .ok (answer signature key)) :
    Reaches env script index [.op (.signature .checkMultisig)] [] operations
        (operands keyNumber keys signatureNumber signatures dummy ++ rest) TopTrue ↔
      signatures.SublistForall₂ (fun signature key => answer signature key = true) keys := by
  have asks : ∀ signature ∈ signatures, ∀ key ∈ keys, ∀ s, ∃ calls,
      checkSignature env.quiet signature key (codeWithout script signatures) s =
        .ok (answer signature key) { s with calls := calls } := by
    intro signature hsignature key hkey s
    obtain ⟨calls, h⟩ := checkSignature_eq env.quiet signature key (codeWithout script signatures) s
    refine ⟨calls, h.trans ?_⟩
    exact lift_ok_iff.mpr ⟨answers signature hsignature key hkey, rfl⟩
  obtain ⟨matched, calls, hmatch, decides⟩ := matchKeys_eq asks
    { State.midway script index [] operations
        (operands keyNumber keys signatureNumber signatures dummy ++ rest) with
      position := index, operations := operations + 1 + keys.length }
  obtain ⟨t, hcheck, left, alt, closed⟩ : ∃ t, checkMultisig env.quiet
      { State.midway script index [] operations
          (operands keyNumber keys signatureNumber signatures dummy ++ rest) with
        position := index, operations := operations + 1 } = .ok matched t ∧
      t.stack = rest ∧ t.alt = [] ∧ t.conditions = [] :=
    ⟨_, checkMultisig_eq rfl hkeys hsignatures enough most few allowed hmatch rfl, rfl, rfl, rfl⟩
  have stepped : step env.quiet index (.op (.signature .checkMultisig))
      (.midway script index [] operations
        (operands keyNumber keys signatureNumber signatures dummy ++ rest)) =
      .ok () { t with stack := Truth.encode matched :: t.stack } := by
    refine (step_op_ok_iff rfl rfl (by decide)).mpr ⟨Nat.le_trans (Nat.le_add_right _ _) few,
      bind_ok_iff.mpr ⟨matched, t, hcheck, rfl⟩, ?_⟩
    rw [left, alt]
    exact room
  rw [reaches_last]
  constructor
  · rintro ⟨t', hstep, _, top⟩
    cases stepped.symm.trans hstep
    exact decides.mp (topTrue_encode_iff.mp top)
  · intro h
    exact ⟨_, stepped, closed, topTrue_encode_iff.mpr (decides.mpr h)⟩

end Operands

end CoinScript.Exec
