import CoinScript.Proofs.CheckedItems
/-!
# Numbers and their items

An item is a little-endian magnitude whose last byte carries the sign in its top bit. So one number
has many items: zeros can follow its magnitude, and zero has two signs. The shortest one is what is
written, and it can be told from the others by its last two bytes.

* `value_encode`: the shortest item of a number stands for it;
* `length_encode_le_iff`: how large a number is that has an item of `k` bytes;
* `encode_value_eq_iff`: the shortest items are those whose last byte is needed;
* `Truth.decode_eq_true_iff`: an item is true if it does not stand for zero;
* `Bytes.toNatBE_dropZeros`: zeros in front of a number do not count, highest byte first.
-/

namespace CoinScript.Number

/-! ## Bytes and their signs -/

theorem and_sign_ne_zero_iff {b : UInt8} : b &&& 0x80 ≠ 0 ↔ b ≥ 0x80 := by
  rw [Ne, Checked.and_sign_eq_zero_iff, Nat.not_lt]
  exact (UInt8.le_iff_toNat_le (a := 0x80)).symm

theorem and_rest_eq_zero_iff {b : UInt8} : b &&& 0x7f = 0 ↔ b = 0 ∨ b = 0x80 := by
  have bits : ∀ n < 256, n &&& 127 = 0 ↔ n = 0 ∨ n = 128 := by decide +kernel
  rw [← UInt8.toNat_inj, ← UInt8.toNat_inj, ← UInt8.toNat_inj, UInt8.toNat_and]
  exact bits b.toNat b.toNat_lt

theorem not_sign_le_and_rest (b : UInt8) : ¬ b &&& 0x7f ≥ 0x80 := by
  rw [ge_iff_le, UInt8.le_iff_toNat_le, Checked.toNat_and_rest]
  have := b.toNat_lt
  show ¬ 128 ≤ _
  split <;> omega

theorem or_sign_and_rest (b : UInt8) : (b ||| 0x80) &&& 0x7f = b &&& 0x7f := by
  have bits : ∀ n < 256, (n ||| 128) &&& 127 = n &&& 127 := by decide +kernel
  rw [← UInt8.toNat_inj, UInt8.toNat_and, UInt8.toNat_and, UInt8.toNat_or]
  exact bits b.toNat b.toNat_lt

/-- A byte is put together from its sign and its other bits. -/
theorem sign_or_rest (b : UInt8) :
    (if 0x80 ≤ b then b &&& 0x7f ||| 0x80 else b &&& 0x7f) = b := by
  have bits : ∀ n < 256, (if 128 ≤ n then n &&& 127 ||| 128 else n &&& 127) = n := by
    decide +kernel
  have h := bits b.toNat b.toNat_lt
  rw [← UInt8.toNat_inj]
  simpa [apply_ite, UInt8.le_iff_toNat_le] using h

/-! ## Magnitudes -/

theorem toNatLE_concat (front : Bytes) (last : UInt8) :
    Bytes.toNatLE (front ++ [last]) = Bytes.toNatLE front + 256 ^ front.length * last.toNat := by
  rw [Checked.toNatLE_append, Bytes.toNatLE, Bytes.toNatLE, Nat.mul_zero, Nat.add_zero]

theorem toNatLE_minimalLE (n : Nat) : Bytes.toNatLE (Bytes.minimalLE n) = n := by
  fun_induction Bytes.minimalLE n with
  | case1 => rfl
  | case2 n nonzero ih =>
    rw [Bytes.toNatLE, ih, UInt8.toNat_ofNat']
    omega

/-- The last byte of a magnitude is not zero. -/
theorem last_minimalLE_ne_zero {n : Nat} {front : Bytes} {last : UInt8}
    (h : Bytes.minimalLE n = front ++ [last]) : last ≠ 0 := by
  fun_induction Bytes.minimalLE n generalizing front with
  | case1 => simp at h
  | case2 n nonzero ih =>
    cases front with
    | nil =>
      obtain ⟨rfl, rest⟩ := List.cons.inj h
      have small : n / 256 = 0 := by
        by_contra big
        exact Checked.minimalLE_ne_nil big rest
      rw [Ne, ← UInt8.toNat_inj, UInt8.toNat_ofNat']
      simp only [UInt8.toNat_zero]
      omega
    | cons b front => exact ih (List.cons.inj h).2

/-- Bytes that do not end in a zero are the shortest form of what they stand for. -/
theorem minimalLE_toNatLE {front : Bytes} {last : UInt8} (h : last ≠ 0) :
    Bytes.minimalLE (Bytes.toNatLE (front ++ [last])) = front ++ [last] := by
  induction front with
  | nil =>
    have nonzero : last.toNat ≠ 0 := fun zero => h (UInt8.toNat_inj.mp zero)
    have hlast := last.toNat_lt
    rw [List.nil_append, Bytes.toNatLE, Bytes.toNatLE, Nat.mul_zero, Nat.add_zero,
      Bytes.minimalLE, if_neg nonzero, UInt8.ofNat_toNat, Nat.div_eq_of_lt hlast, Bytes.minimalLE,
      if_pos rfl]
  | cons b front ih =>
    have hb := b.toNat_lt
    have nonzero : Bytes.toNatLE (front ++ [last]) ≠ 0 := by
      intro zero
      rw [zero, Bytes.minimalLE, if_pos rfl] at ih
      simp at ih
    have quotient : (b.toNat + 256 * Bytes.toNatLE (front ++ [last])) / 256 =
        Bytes.toNatLE (front ++ [last]) := by omega
    have low : UInt8.ofNat (b.toNat + 256 * Bytes.toNatLE (front ++ [last])) = b := by
      apply UInt8.toNat_inj.mp
      rw [UInt8.toNat_ofNat']
      omega
    rw [List.cons_append, Bytes.toNatLE, Bytes.minimalLE, if_neg (by omega), low, quotient, ih]

/-- The magnitude of a number is what its item stands for without the sign. -/
theorem natAbs_value_concat (front : Bytes) (last : UInt8) :
    (value (front ++ [last])).natAbs = Bytes.toNatLE (front ++ [last &&& 0x7f]) := by
  rw [Checked.value_concat, toNatLE_concat, Checked.toNat_and_rest]
  split
  · exact Int.natAbs_natCast _
  · rw [Int.natAbs_neg, Int.natAbs_natCast]

/-- The sign of a number is that of the last byte, unless the number is zero. -/
theorem value_concat_neg_iff {front : Bytes} {last : UInt8} :
    value (front ++ [last]) < 0 ↔ 0x80 ≤ last ∧ value (front ++ [last]) ≠ 0 := by
  have hsign : 0x80 ≤ last ↔ ¬ last.toNat < 128 := by
    rw [UInt8.le_iff_toNat_le, Nat.not_lt]
    rfl
  rw [hsign, Checked.value_concat]
  split <;> omega

/-! ## Reading back -/

/-- The shortest item of a number, by the last byte of its magnitude. -/
theorem encode_of_concat {v : Int} {front : Bytes} {last : UInt8}
    (h : Bytes.minimalLE v.natAbs = front ++ [last]) :
    encode v = if last ≥ 0x80 then front ++ [last] ++ [if v < 0 then 0x80 else 0x00]
      else if v < 0 then front ++ [last ||| 0x80] else front ++ [last] := by
  unfold encode
  dsimp only
  rw [h, List.getLast?_concat, List.dropLast_concat]

/-- The shortest item of a number stands for it. -/
theorem value_encode (v : Int) : value (encode v) = v := by
  by_cases zero : v = 0
  · subst zero
    simp [encode, Bytes.minimalLE, value]
  obtain ⟨front, last, hout⟩ := List.eq_nil_or_concat (Bytes.minimalLE v.natAbs) |>.resolve_left
    (Checked.minimalLE_ne_nil (Int.natAbs_ne_zero.mpr zero))
  rw [List.concat_eq_append] at hout
  have magnitude := toNatLE_minimalLE v.natAbs
  rw [hout, toNatLE_concat] at magnitude
  have hsign : last ≥ 0x80 ↔ 128 ≤ last.toNat := UInt8.le_iff_toNat_le
  rw [encode_of_concat hout]
  by_cases taken : last ≥ 0x80
  · -- One more byte carries the sign and nothing else.
    rw [if_pos taken, Checked.value_concat, toNatLE_concat, magnitude]
    by_cases negative : v < 0
    · rw [if_pos negative, if_neg (by decide)]
      simp only [UInt8.reduceToNat, Nat.sub_self, Nat.mul_zero, Nat.add_zero]
      omega
    · rw [if_neg negative, if_pos (by decide)]
      simp only [UInt8.toNat_zero, Nat.mul_zero, Nat.add_zero]
      omega
  · rw [if_neg taken]
    have small : last.toNat < 128 := Nat.lt_of_not_le fun h => taken (hsign.mpr h)
    by_cases negative : v < 0
    · have signed : (last ||| 0x80).toNat = last.toNat + 128 := by
        have bits : ∀ n < 128, n ||| 128 = n + 128 := by decide +kernel
        rw [UInt8.toNat_or]
        exact bits last.toNat small
      rw [if_pos negative, Checked.value_concat, signed, if_neg (by omega), Nat.add_sub_cancel,
        magnitude]
      omega
    · rw [if_neg negative, Checked.value_concat, if_pos small, magnitude]
      omega

/-- A number can be read back with one byte more than its magnitude takes. -/
theorem decode_encode {v : Int} {k : Nat} (h : v.natAbs < 256 ^ k) :
    decode (k + 1) (encode v) = .ok v := by
  rw [decode, if_neg (Nat.not_lt.mpr (length_encode_le h)), value_encode]

/-! ## How long the shortest item is -/

/-- Of the numbers of `n + 1` bytes, one half leaves room for the sign. -/
theorem two_pow_room (n : Nat) : 2 ^ (8 * (n + 1) - 1) = 128 * 256 ^ n := by
  have split : 8 * (n + 1) - 1 = 7 + 8 * n := by omega
  rw [split, Nat.pow_add, Checked.pow_eight]

theorem natAbs_value_lt_two_pow {item : Bytes} {n : Nat} (h : item.length ≤ n + 1) :
    (value item).natAbs < 2 ^ (8 * (n + 1) - 1) := by
  rw [two_pow_room]
  rcases List.eq_nil_or_concat item with rfl | ⟨front, last, rfl⟩
  · exact Nat.mul_pos (by decide) (Nat.pow_pos (by decide))
  rw [List.concat_eq_append] at h ⊢
  rw [List.length_append, List.length_singleton] at h
  have hfront := Bytes.toNatLE_lt front
  have hlast : (last &&& 0x7f).toNat ≤ 127 := by
    rw [Checked.toNat_and_rest]
    have := last.toNat_lt
    split <;> omega
  have hpow : 256 ^ front.length ≤ 256 ^ n := Nat.pow_le_pow_right (by decide) (by omega)
  have hhigh : 256 ^ front.length * (last &&& 0x7f).toNat ≤ 256 ^ front.length * 127 :=
    Nat.mul_le_mul_left _ hlast
  rw [natAbs_value_concat, toNatLE_concat]
  omega

theorem length_encode_le_of_lt {v : Int} {n : Nat} (h : v.natAbs < 2 ^ (8 * (n + 1) - 1)) :
    (encode v).length ≤ n + 1 := by
  rw [two_pow_room] at h
  have short : (Bytes.minimalLE v.natAbs).length ≤ n + 1 := by
    refine length_minimalLE_le (Nat.lt_trans h ?_)
    rw [Nat.pow_succ']
    exact Nat.mul_lt_mul_of_pos_right (by decide) (Nat.pow_pos (by decide))
  rcases List.eq_nil_or_concat (Bytes.minimalLE v.natAbs) with hnil | ⟨front, last, hout⟩
  · simp [encode, hnil]
  rw [List.concat_eq_append] at hout
  have magnitude := toNatLE_minimalLE v.natAbs
  rw [hout, toNatLE_concat] at magnitude
  rw [hout, List.length_append, List.length_singleton] at short
  rw [encode_of_concat hout]
  split
  · next taken =>
    -- A magnitude that leaves no room for the sign has a byte less than the bound allows.
    have high : 128 ≤ last.toNat := UInt8.le_iff_toNat_le.mp taken
    have shorter : front.length ≠ n := by
      rintro rfl
      have : 256 ^ front.length * 128 ≤ 256 ^ front.length * last.toNat :=
        Nat.mul_le_mul_left _ high
      omega
    simp only [List.length_append, List.length_singleton]
    omega
  · split <;> simpa using short

/-- A number has an item of `k` bytes exactly if its magnitude leaves room for the sign. -/
theorem length_encode_le_iff {v : Int} {k : Nat} (positive : 1 ≤ k) :
    (encode v).length ≤ k ↔ v.natAbs < 2 ^ (8 * k - 1) := by
  obtain ⟨n, rfl⟩ := Nat.exists_eq_add_of_le' positive
  constructor
  · intro h
    have fits := natAbs_value_lt_two_pow h
    rwa [value_encode] at fits
  · exact length_encode_le_of_lt

/-- No item of a number is shorter than the one that is written. -/
theorem length_encode_value_le (item : Bytes) : (encode (value item)).length ≤ item.length := by
  cases hlength : item.length with
  | zero =>
    rw [List.length_eq_zero_iff.mp hlength]
    simp [value, encode, Bytes.minimalLE]
  | succ n => exact length_encode_le_of_lt (natAbs_value_lt_two_pow (Nat.le_of_eq hlength))

/-! ## Minimal items -/

/-- The last byte of an item is needed: it holds a part of the magnitude, or the byte in front of it
leaves no room for the sign. -/
def Minimal (item : Bytes) : Prop :=
  match item.reverse with
  | [] => True
  | [last] => last &&& 0x7f ≠ 0
  | last :: before :: _ => last &&& 0x7f ≠ 0 ∨ before &&& 0x80 ≠ 0

instance (item : Bytes) : Decidable (Minimal item) :=
  match h : item.reverse with
  | [] => decidable_of_iff True (by simp [Minimal, h])
  | [last] => decidable_of_iff (last &&& 0x7f ≠ 0) (by simp [Minimal, h])
  | last :: before :: _ =>
    decidable_of_iff (last &&& 0x7f ≠ 0 ∨ before &&& 0x80 ≠ 0) (by simp [Minimal, h])

theorem minimal_concat_iff {front : Bytes} {before last : UInt8} :
    Minimal (front ++ [before] ++ [last]) ↔ last &&& 0x7f ≠ 0 ∨ before &&& 0x80 ≠ 0 := by
  unfold Minimal
  rw [List.reverse_append, List.reverse_append]
  rfl

theorem minimal_of_rest {front : Bytes} {last : UInt8} (h : last &&& 0x7f ≠ 0) :
    Minimal (front ++ [last]) := by
  rcases List.eq_nil_or_concat front with rfl | ⟨front, before, rfl⟩
  · exact h
  · rw [List.concat_eq_append, minimal_concat_iff]
    exact .inl h

theorem minimal_encode (v : Int) : Minimal (encode v) := by
  rcases List.eq_nil_or_concat (Bytes.minimalLE v.natAbs) with hnil | ⟨front, last, hout⟩
  · rw [encode, hnil]
    exact trivial
  rw [List.concat_eq_append] at hout
  have nonzero := last_minimalLE_ne_zero hout
  rw [encode_of_concat hout]
  by_cases taken : last ≥ 0x80
  · rw [if_pos taken, minimal_concat_iff]
    exact .inr (and_sign_ne_zero_iff.mpr taken)
  · have low : last &&& 0x7f ≠ 0 := by
      rw [Ne, and_rest_eq_zero_iff]
      rintro (zero | sign)
      · exact nonzero zero
      · rw [sign] at taken
        exact taken (by decide)
    rw [if_neg taken]
    split
    · exact minimal_of_rest (by rwa [or_sign_and_rest])
    · exact minimal_of_rest low

/-- A magnitude that is not empty is not that of zero. -/
theorem ne_zero_of_minimalLE {v : Int} {front : Bytes} {last : UInt8}
    (h : Bytes.minimalLE v.natAbs = front ++ [last]) : v ≠ 0 := by
  rintro rfl
  simp [Bytes.minimalLE] at h

theorem encode_value_of_minimal {item : Bytes} (h : Minimal item) : encode (value item) = item := by
  rcases List.eq_nil_or_concat item with rfl | ⟨front, last, rfl⟩
  · simp [value, encode, Bytes.minimalLE]
  rw [List.concat_eq_append] at h ⊢
  have magnitude := natAbs_value_concat front last
  by_cases rest : last &&& 0x7f = 0
  · -- The last byte carries the sign alone, so the byte in front of it ends the magnitude.
    rcases List.eq_nil_or_concat front with rfl | ⟨before, top, rfl⟩
    · exact absurd rest h
    rw [List.concat_eq_append] at h magnitude ⊢
    have taken : top ≥ 0x80 :=
      and_sign_ne_zero_iff.mp ((minimal_concat_iff.mp h).resolve_left (not_not.mpr rest))
    have nonzero : top ≠ 0 := by
      rintro rfl
      exact absurd taken (by decide)
    have hout : Bytes.minimalLE (value (before ++ [top] ++ [last])).natAbs = before ++ [top] := by
      rw [magnitude, rest, toNatLE_concat, UInt8.toNat_zero, Nat.mul_zero, Nat.add_zero,
        minimalLE_toNatLE nonzero]
    rw [encode_of_concat hout, if_pos taken]
    congr 2
    simp only [value_concat_neg_iff, ne_zero_of_minimalLE hout, ne_eq, not_false_eq_true, and_true]
    rcases and_rest_eq_zero_iff.mp rest with rfl | rfl <;> rfl
  · have hout : Bytes.minimalLE (value (front ++ [last])).natAbs = front ++ [last &&& 0x7f] := by
      rw [magnitude, minimalLE_toNatLE rest]
    rw [encode_of_concat hout, if_neg (not_sign_le_and_rest last)]
    simp only [value_concat_neg_iff, ne_zero_of_minimalLE hout, ne_eq, not_false_eq_true, and_true]
    conv_rhs => rw [← sign_or_rest last]
    split <;> rfl

/-- An item is the one that is written for its number exactly if it is minimal. -/
theorem encode_value_eq_iff {item : Bytes} : encode (value item) = item ↔ Minimal item :=
  ⟨fun h => h ▸ minimal_encode _, encode_value_of_minimal⟩

end CoinScript.Number

namespace CoinScript.Truth

/-! ## Truth values -/

theorem toNatLE_eq_zero_iff {bytes : Bytes} : Bytes.toNatLE bytes = 0 ↔ ∀ b ∈ bytes, b = 0 := by
  induction bytes with
  | nil => simp [Bytes.toNatLE]
  | cons b rest ih =>
    have byte : b.toNat = 0 ↔ b = 0 := UInt8.toNat_inj (b := 0)
    rw [Bytes.toNatLE, List.forall_mem_cons, ← ih, ← byte]
    omega

/-- The items that are not true are the zeros of either sign. -/
theorem decode_concat (front : Bytes) (last : UInt8) :
    decode (front ++ [last]) = false ↔ (∀ b ∈ front, b = 0) ∧ last &&& 0x7f = 0 := by
  rw [Number.and_rest_eq_zero_iff]
  induction front with
  | nil => simp [decode, or_iff_not_imp_left]
  | cons b front ih =>
    have unfolded : decode (b :: front ++ [last]) = (b != 0 || decode (front ++ [last])) := by
      cases front <;> rfl
    rw [unfolded, Bool.or_eq_false_iff, ih, List.forall_mem_cons, and_assoc, bne_eq_false_iff_eq]

/-- An item is true exactly if it does not stand for zero. -/
theorem decode_eq_true_iff {item : Bytes} : decode item = true ↔ Number.value item ≠ 0 := by
  rw [← not_iff_not, Bool.not_eq_true, not_not]
  rcases List.eq_nil_or_concat item with rfl | ⟨front, last, rfl⟩
  · exact iff_of_true rfl rfl
  rw [List.concat_eq_append, decode_concat, ← Int.natAbs_eq_zero, Number.natAbs_value_concat,
    toNatLE_eq_zero_iff, List.forall_mem_append, List.forall_mem_singleton]

end CoinScript.Truth

namespace CoinScript.Bytes

/-! ## Highest byte first -/

theorem toNatBE_cons (b : UInt8) (rest : Bytes) :
    toNatBE (b :: rest) = toNatBE rest + 256 ^ rest.length * b.toNat := by
  rw [toNatBE, toNatBE, List.reverse_cons, Number.toNatLE_concat, List.length_reverse]

/-- Zeros in front do not count. -/
theorem toNatBE_dropZeros (bytes : Bytes) :
    toNatBE (bytes.dropWhile (· == 0)) = toNatBE bytes := by
  induction bytes with
  | nil => rfl
  | cons b rest ih =>
    rw [List.dropWhile_cons]
    split
    · next zero =>
      rw [ih, toNatBE_cons, beq_iff_eq.mp zero]
      rfl
    · rfl

/-- Without zeros in front, a small number has few bytes. -/
theorem length_dropZeros_le {bytes : Bytes} {width : Nat} (h : toNatBE bytes < 256 ^ width) :
    (bytes.dropWhile (· == 0)).length ≤ width := by
  have nonzero := List.head?_dropWhile_not (· == 0) bytes
  rw [← toNatBE_dropZeros] at h
  cases hdigits : bytes.dropWhile (· == 0) with
  | nil => exact Nat.zero_le _
  | cons b rest =>
    rw [hdigits] at h nonzero
    have positive : 1 ≤ b.toNat := by
      have : b ≠ 0 := by simpa using nonzero
      rwa [Nat.one_le_iff_ne_zero, Ne, ← UInt8.toNat_zero, UInt8.toNat_inj]
    rw [toNatBE_cons] at h
    have power : 256 ^ rest.length < 256 ^ width := by
      calc 256 ^ rest.length ≤ 256 ^ rest.length * b.toNat := Nat.le_mul_of_pos_right _ positive
        _ ≤ toNatBE rest + 256 ^ rest.length * b.toNat := Nat.le_add_left _ _
        _ < 256 ^ width := h
    exact (Nat.pow_lt_pow_iff_right (by decide)).mp power

theorem toNatBE_replicate_append (n : Nat) (bytes : Bytes) :
    toNatBE (List.replicate n 0 ++ bytes) = toNatBE bytes := by
  induction n with
  | zero => rfl
  | succ n ih =>
    rw [List.replicate_succ, List.cons_append, toNatBE_cons, ih]
    rfl

theorem toNatBE_reverse_minimalLE (n : Nat) : toNatBE (minimalLE n).reverse = n := by
  rw [toNatBE, List.reverse_reverse, Number.toNatLE_minimalLE]

theorem head?_reverse_minimalLE (n : Nat) : (minimalLE n).reverse.head? ≠ some 0 := by
  rw [List.head?_reverse]
  intro zero
  obtain ⟨front, hfront⟩ := List.getLast?_eq_some_iff.mp zero
  exact Number.last_minimalLE_ne_zero hfront rfl

/-- Bytes without a zero in front are the shortest form of their number. -/
theorem reverse_minimalLE_toNatBE {bytes : Bytes} (h : bytes.head? ≠ some 0) :
    (minimalLE (toNatBE bytes)).reverse = bytes := by
  cases bytes with
  | nil =>
    show (minimalLE 0).reverse = []
    rw [minimalLE, if_pos rfl]
    rfl
  | cons b rest =>
    have nonzero : b ≠ 0 := fun zero => h (congrArg some zero)
    rw [toNatBE, List.reverse_cons, Number.minimalLE_toNatLE nonzero, ← List.reverse_cons,
      List.reverse_reverse]

end CoinScript.Bytes
