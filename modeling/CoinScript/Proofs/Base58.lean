import CoinScript.Proofs.Numerals
import CoinScript.Text.Base58
import Mathlib.Data.List.TakeWhile
import Mathlib.Data.Nat.Digits.Lemmas
/-!
# Base-58 text, both ways

A text spells a byte string if it has a `1` for each zero byte in front and, behind these, the
digits of the number that the other bytes are. Writing finds the one text that spells the bytes,
and reading inverts it as long as the number is not too large.

* `encode_eq_iff`: what is written spells the bytes, and nothing else does;
* `decode_eq_ok_iff`: reading finds what a text spells, below the limit;
* `decodeCheck_eq_ok_iff`: the same for a payload with its checksum.
-/

namespace CoinScript.Base58

/-! ## Digits -/

theorem value?_digit {v : Nat} (small : v < 58) : value? (digit v) = some v := by
  have every : ∀ v : Fin 58, value? (digit v) = some v.val := by
    decide
  exact every ⟨v, small⟩

theorem digit_of_value? {c : Char} {v : Nat} (h : value? c = some v) : v < 58 ∧ digit v = c := by
  obtain ⟨inside, found, -⟩ := List.findIdx?_eq_some_iff_getElem.mp h
  refine ⟨inside, ?_⟩
  rw [digit, List.getD_eq_getElem _ _ inside]
  exact beq_iff_eq.mp found

theorem digit_eq_one_iff {v : Nat} (small : v < 58) : digit v = '1' ↔ v = 0 := by
  constructor
  · intro one
    have read := value?_digit small
    rw [one] at read
    exact (Option.some.inj read).symm
  · rintro rfl
    rfl

/-- The digits of a number are those of the library, spelled. -/
theorem digitsLE_eq (n : Nat) : digitsLE n = (Nat.digits 58 n).map digit := by
  fun_induction digitsLE n with
  | case1 => rfl
  | case2 n nonzero ih =>
    rw [ih, Nat.digits_def' (by decide) (Nat.pos_of_ne_zero nonzero), List.map_cons]

/-- A digit moves from the front of a text to the end of the number before it. -/
theorem ofDigits_shift (n v : Nat) (values : List Nat) :
    Nat.ofDigits 58 ((v :: values).reverse ++ [n]) =
      Nat.ofDigits 58 (values.reverse ++ [58 * n + v]) := by
  simp only [List.reverse_cons, List.append_assoc, List.singleton_append, Nat.ofDigits_append,
    Nat.ofDigits_cons, Nat.ofDigits_nil]
  ring

theorem le_ofDigits_concat (values : List Nat) (n : Nat) :
    n ≤ Nat.ofDigits 58 (values ++ [n]) := by
  rw [Nat.ofDigits_append, Nat.ofDigits_singleton]
  exact Nat.le_trans (Nat.le_mul_of_pos_left n (Nat.pow_pos (by decide))) (Nat.le_add_left _ _)

/-- A row of digits is read as the number on top of which it stands, followed by the digits. -/
theorem numberFrom_eq_ok_iff {position n m : Nat} {text : List Char} (room : n < numberLimit) :
    numberFrom position n text = .ok m ↔ m < numberLimit ∧
      ∃ values : List Nat, (∀ v ∈ values, v < 58) ∧ text = values.map digit ∧
        m = Nat.ofDigits 58 (values.reverse ++ [n]) := by
  induction text generalizing position n with
  | nil =>
    rw [numberFrom, Except.ok.injEq]
    constructor
    · rintro rfl
      exact ⟨room, [], by simp, rfl, by simp⟩
    · rintro ⟨-, values, -, none, rfl⟩
      rw [List.map_eq_nil_iff.mp none.symm]
      simp
  | cons c rest ih =>
    rw [numberFrom]
    constructor
    · intro h
      split at h
      · cases h
      next v hv =>
      obtain ⟨small, rfl⟩ := digit_of_value? hv
      dsimp only at h
      split at h
      · next fits =>
        obtain ⟨bounded, values, smalls, rfl, rfl⟩ := (ih fits).mp h
        exact ⟨bounded, v :: values, List.forall_mem_cons.mpr ⟨small, smalls⟩, rfl,
          (ofDigits_shift n v values).symm⟩
      · cases h
    · rintro ⟨bounded, values, smalls, htext, rfl⟩
      obtain ⟨v, values, rfl, rfl, rfl⟩ := List.map_eq_cons_iff.mp htext.symm
      obtain ⟨small, smalls⟩ := List.forall_mem_cons.mp smalls
      have moved := ofDigits_shift n v values
      have fits : 58 * n + v < numberLimit :=
        Nat.lt_of_le_of_lt (le_ofDigits_concat _ _) (moved ▸ bounded)
      rw [value?_digit small]
      dsimp only
      rw [if_pos fits, ih fits]
      exact ⟨bounded, values, smalls, rfl, moved⟩

/-! ## Leading items -/

section Leading

variable {α : Type} [DecidableEq α] {a : α} {l : List α}

theorem exists_leading (a : α) (l : List α) :
    ∃ n rest, rest.head? ≠ some a ∧ l = List.replicate n a ++ rest := by
  have leading : l.takeWhile (· == a) = List.replicate (l.takeWhile (· == a)).length a :=
    List.eq_replicate_of_mem fun b h =>
      beq_iff_eq.mp (List.mem_takeWhile_imp (p := fun b => b == a) h)
  refine ⟨(l.takeWhile (· == a)).length, l.dropWhile (· == a), ?_, ?_⟩
  · intro same
    have head := List.head?_dropWhile_not (· == a) l
    rw [same] at head
    simp at head
  · rw [← leading, List.takeWhile_append_dropWhile]

theorem length_takeWhile_replicate_append (other : l.head? ≠ some a) (n : Nat) :
    ((List.replicate n a ++ l).takeWhile (· == a)).length = n := by
  have stop : l.takeWhile (· == a) = [] := by
    cases l with
    | nil => rfl
    | cons b rest =>
      refine List.takeWhile_cons_of_neg fun same => other ?_
      rw [List.head?_cons, beq_iff_eq.mp same]
  rw [List.takeWhile_append_of_pos (by simp), stop, List.append_nil, List.length_replicate]

end Leading

/-! ## What a text spells -/

/-- A text and the bytes that it spells, by their parts. -/
structure Spelled (text : List Char) (bytes : Bytes) (zeros : Nat) (values : List Nat)
    (rest : Bytes) : Prop where
  text_eq : text = List.replicate zeros '1' ++ values.map digit
  bytes_eq : bytes = List.replicate zeros 0 ++ rest
  digits : ∀ v ∈ values, v < 58
  leading : values.head? ≠ some 0
  nonzero : rest.head? ≠ some 0
  number : Nat.ofDigits 58 values.reverse = Bytes.toNatBE rest

/-- A text spells a byte string: one `1` for each zero byte in front, then the number of the other
bytes, highest digit first. -/
def Spells (text : List Char) (bytes : Bytes) : Prop :=
  ∃ zeros values rest, Spelled text bytes zeros values rest

/-! ## Writing -/

theorem encode_replicate_append {rest : Bytes} (nonzero : rest.head? ≠ some 0) (zeros : Nat) :
    encode (List.replicate zeros 0 ++ rest) =
      List.replicate zeros '1' ++ (Nat.digits 58 (Bytes.toNatBE rest)).reverse.map digit := by
  unfold encode
  rw [length_takeWhile_replicate_append nonzero, Bytes.toNatBE_replicate_append, digitsLE_eq,
    List.map_reverse]

theorem head?_reverse_digits (n : Nat) : (Nat.digits 58 n).reverse.head? ≠ some 0 := by
  rw [List.head?_reverse]
  intro zero
  have some_digit : Nat.digits 58 n ≠ [] := by
    intro none
    rw [none] at zero
    cases zero
  rw [List.getLast?_eq_some_getLast some_digit, Option.some.injEq] at zero
  exact Nat.getLast_digit_ne_zero 58 (Nat.digits_ne_nil_iff_ne_zero.mp some_digit) zero

/-- What is written is the one text that spells the bytes. -/
theorem encode_eq_iff {text : List Char} {bytes : Bytes} :
    encode bytes = text ↔ Spells text bytes := by
  constructor
  · rintro rfl
    obtain ⟨zeros, rest, nonzero, rfl⟩ := exists_leading 0 bytes
    refine ⟨zeros, (Nat.digits 58 (Bytes.toNatBE rest)).reverse, rest,
      encode_replicate_append nonzero zeros, rfl, ?_, head?_reverse_digits _, nonzero, ?_⟩
    · intro v hv
      exact Nat.digits_lt_base (by decide) (List.mem_reverse.mp hv)
    · rw [List.reverse_reverse, Nat.ofDigits_digits]
  · rintro ⟨zeros, values, rest, h⟩
    have last : ∀ some_digit : values.reverse ≠ [], values.reverse.getLast some_digit ≠ 0 := by
      intro some_digit zero
      refine h.leading ?_
      rw [← List.getLast?_reverse, List.getLast?_eq_some_getLast some_digit, zero]
    have digits : Nat.digits 58 (Bytes.toNatBE rest) = values.reverse := by
      rw [← h.number]
      exact Nat.digits_ofDigits 58 (by decide) _ (fun v hv => h.digits v (List.mem_reverse.mp hv))
        last
    rw [h.bytes_eq, encode_replicate_append h.nonzero, digits, List.reverse_reverse, h.text_eq]

/-! ## Reading -/

theorem decode_replicate_append {rest : List Char} (other : rest.head? ≠ some '1') (zeros : Nat) :
    decode (List.replicate zeros '1' ++ rest) =
      numberFrom zeros 0 rest >>= fun n =>
        .ok (List.replicate zeros 0 ++ (Bytes.minimalLE n).reverse) := by
  unfold decode
  rw [length_takeWhile_replicate_append other]
  dsimp only
  rw [List.drop_left' List.length_replicate]

theorem head?_map_digit {values : List Nat} (digits : ∀ v ∈ values, v < 58) :
    (values.map digit).head? = some '1' ↔ values.head? = some 0 := by
  cases values with
  | nil => simp
  | cons v values =>
    rw [List.map_cons, List.head?_cons, List.head?_cons, Option.some.injEq, Option.some.injEq,
      digit_eq_one_iff (digits v List.mem_cons_self)]

/-- Reading undoes writing, up to the limit, and reads nothing that is not written. -/
theorem decode_eq_ok_iff {text : List Char} {bytes : Bytes} :
    decode text = .ok bytes ↔ Spells text bytes ∧ Bytes.toNatBE bytes < numberLimit := by
  constructor
  · intro h
    obtain ⟨zeros, rest, other, rfl⟩ := exists_leading '1' text
    rw [decode_replicate_append other, bind_eq_ok_iff] at h
    obtain ⟨n, hn, hbytes⟩ := h
    cases hbytes
    obtain ⟨bounded, values, digits, rfl, number⟩ := (numberFrom_eq_ok_iff (by decide)).mp hn
    rw [Nat.ofDigits_append_zero] at number
    rw [Ne, head?_map_digit digits] at other
    rw [Bytes.toNatBE_replicate_append, Bytes.toNatBE_reverse_minimalLE]
    refine ⟨⟨zeros, values, _, rfl, rfl, digits, other, Bytes.head?_reverse_minimalLE n, ?_⟩,
      bounded⟩
    rw [Bytes.toNatBE_reverse_minimalLE, number]
  · rintro ⟨⟨zeros, values, rest, h⟩, bounded⟩
    have other : (values.map digit).head? ≠ some '1' := by
      rw [Ne, head?_map_digit h.digits]
      exact h.leading
    rw [h.bytes_eq, Bytes.toNatBE_replicate_append] at bounded
    rw [h.text_eq, decode_replicate_append other]
    refine bind_eq_ok_iff.mpr ⟨Bytes.toNatBE rest, ?_, ?_⟩
    · refine (numberFrom_eq_ok_iff (by decide)).mpr ⟨bounded, values, h.digits, rfl, ?_⟩
      rw [Nat.ofDigits_append_zero, h.number]
    · rw [Bytes.reverse_minimalLE_toNatBE h.nonzero, h.bytes_eq]

/-! ## With a checksum -/

theorem length_checksum (payload : Bytes) : (checksum payload).length = 4 := by
  rw [checksum, List.length_take, (Hash.sha256d payload).length_bytes]
  rfl

theorem encodeCheck_eq_iff {text : String} {payload : Bytes} :
    encodeCheck payload = text ↔ Spells text.toList (payload ++ checksum payload) := by
  rw [← encode_eq_iff, encodeCheck, ← String.toList_inj, String.toList_ofList]

/-- A payload is read from the text that is written for it and from no other, up to the limit. -/
theorem decodeCheck_eq_ok_iff {text : String} {payload : Bytes} :
    decodeCheck text = .ok payload ↔ payload ≠ [] ∧ encodeCheck payload = text ∧
      Bytes.toNatBE (payload ++ checksum payload) < numberLimit := by
  rw [encodeCheck_eq_iff, ← decode_eq_ok_iff]
  unfold decodeCheck
  rw [bind_eq_ok_iff]
  constructor
  · rintro ⟨bytes, hbytes, h⟩
    dsimp only at h
    split at h
    · cases h
    next accepted =>
    cases h
    obtain ⟨long, sum⟩ := not_or.mp accepted
    rw [not_not.mp sum, List.take_append_drop]
    refine ⟨?_, hbytes⟩
    intro none
    have length := congrArg List.length none
    rw [List.length_take, List.length_nil] at length
    omega
  · rintro ⟨some_byte, hbytes⟩
    refine ⟨_, hbytes, ?_⟩
    have positive := List.length_pos_of_ne_nil some_byte
    have front : (payload ++ checksum payload).length - 4 = payload.length := by
      rw [List.length_append, length_checksum, Nat.add_sub_cancel]
    dsimp only
    rw [front, List.take_left, List.drop_left, if_neg]
    refine not_or.mpr ⟨?_, not_not.mpr rfl⟩
    rw [List.length_append, length_checksum]
    exact Nat.not_lt.mpr (Nat.add_le_add_right positive 4)

end CoinScript.Base58
