import CoinScript.Proofs.Numerals
import Mathlib.Algebra.Order.Group.Abs
import Mathlib.Algebra.Order.Group.Unbundled.Int
import Mathlib.Data.Set.Function
/-!
# Numbers in words of 64 bits

Numbers are read and written by shifts and masks on words of 64 bits with a sign. The last of eight
bytes is shifted into the sign of the word and masked out of it again; all the same, reading gives
the number that an item stands for, and writing gives its shortest item.

* `Long.toInt_value`, `Long.encode_eq`: reading and writing in words;
* `Number.encode_bijective`: numbers and minimal items stand for each other, one to one.
-/

namespace CoinScript.Long

/-! ## Reading and writing -/

/-- The bits of bytes of which the first is at place `i`, put to those of a word. -/
def orBytes : Nat → Int64 → Bytes → Int64
  | _, result, [] => result
  | i, result, b :: rest =>
    orBytes (i + 1) (result ||| b.toUInt64.toInt64 <<< Int64.ofNat (8 * i)) rest

/-- The number of an item. -/
def value (item : Bytes) : Int64 :=
  match item.getLast? with
  | none => 0
  | some last =>
    let result := orBytes 0 0 item
    if last &&& 0x80 ≠ 0 then
      -(result &&& ~~~((0x80 : Int64) <<< Int64.ofNat (8 * (item.length - 1))))
    else result

/-- Read a number of at most `limit` bytes. -/
def decode (limit : Nat) (item : Bytes) : Except Error Int64 :=
  if item.length > limit then .error (.structural (.numberTooLong item.length limit))
  else .ok (value item)

/-- The absolute value, which fits into a word without a sign. -/
def magnitude (v : Int64) : UInt64 :=
  if v < 0 then -v.toUInt64 else v.toUInt64

theorem toNat_shiftRight_byte (n : UInt64) : (n >>> 8).toNat = n.toNat / 256 := by
  rw [UInt64.toNat_shiftRight]
  exact Nat.shiftRight_eq_div_pow _ _

/-- The bytes of a word, from the lowest to the last one that is not zero. -/
def bytes (n : UInt64) : Bytes :=
  if n = 0 then [] else n.toUInt8 :: bytes (n >>> 8)
termination_by n.toNat
decreasing_by
  next nonzero =>
  have positive : n.toNat ≠ 0 := fun h => nonzero (UInt64.toNat_inj.mp h)
  rw [toNat_shiftRight_byte]
  omega

/-- Write a number. -/
def encode (v : Int64) : Bytes :=
  let out := bytes (magnitude v)
  match out.getLast? with
  | none => []
  | some last =>
    if last &&& 0x80 ≠ 0 then out ++ [if v < 0 then 0x80 else 0x00]
    else if v < 0 then out.dropLast ++ [last ||| 0x80]
    else out

/-! ## Words by their bits -/

theorem toInt_eq (v : Int64) :
    v.toInt = if v.toUInt64.toNat < 2 ^ 63 then (v.toUInt64.toNat : Int)
      else v.toUInt64.toNat - 2 ^ 64 := by
  have h := BitVec.toInt_eq_toNat_cond v.toBitVec
  have bits : v.toUInt64.toNat = v.toBitVec.toNat := rfl
  rw [Int64.toInt_toBitVec] at h
  rw [h, bits]
  split <;> split <;> omega

theorem toInt_neg_of_lt {v : Int64} (h : v.toUInt64.toNat < 2 ^ 63) :
    (-v).toInt = -(v.toUInt64.toNat : Int) := by
  rw [Int64.toInt_neg, toInt_eq v, if_pos h]
  exact Int.bmod_eq_of_le (by omega) (by omega)

theorem toNat_and_not (a b : Int64) :
    (a &&& ~~~b).toUInt64.toNat = Nat.ldiff a.toUInt64.toNat b.toUInt64.toNat := by
  apply Nat.eq_of_testBit_eq
  intro i
  show (a.toBitVec &&& ~~~b.toBitVec).toNat.testBit i =
    (Nat.ldiff a.toBitVec.toNat b.toBitVec.toNat).testBit i
  rw [Nat.testBit_ldiff, BitVec.testBit_toNat, BitVec.testBit_toNat, BitVec.testBit_toNat,
    BitVec.getLsbD_and, BitVec.getLsbD_not]
  by_cases inside : i < 64
  · simp [inside]
  · simp [BitVec.getLsbD_of_ge _ _ (Nat.le_of_not_lt inside)]

/-- A byte at one of the eight places of a word. -/
theorem toNat_shifted (b : UInt8) {i : Nat} (h : i < 8) :
    (b.toUInt64.toInt64 <<< Int64.ofNat (8 * i)).toUInt64.toNat = 256 ^ i * b.toNat := by
  have amounts : ∀ i < 8, (Int64.ofNat (8 * i)).toBitVec.smod 64 = BitVec.ofNat 64 (8 * i) := by
    decide
  have place : 8 * i % 2 ^ 64 = 8 * i := Nat.mod_eq_of_lt (by omega)
  have hpow : 256 ^ i ≤ 256 ^ 7 := Nat.pow_le_pow_right (by decide) (Nat.le_of_lt_succ h)
  have below : 256 ^ i * b.toNat ≤ 256 ^ 7 * 255 :=
    Nat.mul_le_mul hpow (Nat.le_of_lt_succ b.toNat_lt)
  have bits : b.toUInt64.toInt64.toBitVec.toNat = b.toNat := rfl
  show (b.toUInt64.toInt64 <<< Int64.ofNat (8 * i)).toBitVec.toNat = _
  rw [Int64.toBitVec_shiftLeft, amounts i h, BitVec.shiftLeft_eq', BitVec.toNat_ofNat, place,
    BitVec.toNat_shiftLeft, bits, Nat.shiftLeft_eq, Checked.pow_eight, Nat.mul_comm]
  exact Nat.mod_eq_of_lt (Nat.lt_of_le_of_lt below (by decide))

theorem toNat_orBytes {i : Nat} {result : Int64} {bytes : Bytes}
    (below : result.toUInt64.toNat < 256 ^ i) (fits : i + bytes.length ≤ 8) :
    (orBytes i result bytes).toUInt64.toNat =
      result.toUInt64.toNat + 256 ^ i * Bytes.toNatLE bytes := by
  induction bytes generalizing i result with
  | nil => simp [orBytes, Bytes.toNatLE]
  | cons b rest ih =>
    rw [List.length_cons] at fits
    have hb := b.toNat_lt
    have bits : (result ||| b.toUInt64.toInt64 <<< Int64.ofNat (8 * i)).toUInt64.toNat =
        result.toUInt64.toNat ||| (b.toUInt64.toInt64 <<< Int64.ofNat (8 * i)).toUInt64.toNat :=
      rfl
    have hor : (result ||| b.toUInt64.toInt64 <<< Int64.ofNat (8 * i)).toUInt64.toNat =
        result.toUInt64.toNat + 256 ^ i * b.toNat := by
      rw [bits, toNat_shifted b (by omega)]
      rw [← Checked.pow_eight] at below ⊢
      rw [Nat.or_comm, ← Nat.two_pow_add_eq_or_of_lt below, Nat.add_comm]
    have hnext : result.toUInt64.toNat + 256 ^ i * b.toNat < 256 ^ (i + 1) := by
      have : 256 ^ i * b.toNat ≤ 256 ^ i * 255 := Nat.mul_le_mul_left _ (by omega)
      rw [Nat.pow_succ]
      omega
    rw [orBytes, ih (hor ▸ hnext) (by omega), hor, Bytes.toNatLE, Nat.pow_succ, Nat.mul_add,
      Nat.mul_assoc, Nat.add_assoc]

/-! ## Words and numbers -/

/-- The bits of an item of at most eight bytes say its number. -/
theorem toInt_value {item : Bytes} (short : item.length ≤ 8) :
    (value item).toInt = Number.value item := by
  rcases List.eq_nil_or_concat item with rfl | ⟨front, last, rfl⟩
  · rfl
  rw [List.concat_eq_append] at short ⊢
  rw [List.length_append, List.length_singleton] at short
  have hfront := Bytes.toNatLE_lt front
  have hlast := last.toNat_lt
  have hpow : 256 ^ front.length ≤ 256 ^ 7 := Nat.pow_le_pow_right (by decide) (by omega)
  have hlength : (front ++ [last]).length - 1 = front.length := by simp
  have hresult : (orBytes 0 0 (front ++ [last])).toUInt64.toNat =
      Bytes.toNatLE front + 256 ^ front.length * last.toNat := by
    have none : (0 : Int64).toUInt64.toNat = 0 := rfl
    rw [toNat_orBytes (by decide) (by simpa using short), none, Nat.zero_add, Nat.pow_zero,
      Nat.one_mul, Number.toNatLE_concat]
  unfold value
  rw [List.getLast?_concat, hlength, Checked.value_concat]
  dsimp only
  by_cases positive : last.toNat < 128
  · have hhigh : 256 ^ front.length * last.toNat ≤ 256 ^ front.length * 127 :=
      Nat.mul_le_mul_left _ (by omega)
    rw [if_neg (not_not.mpr (Checked.and_sign_eq_zero_iff.mpr positive)), if_pos positive, toInt_eq,
      hresult, if_pos (by omega)]
  · -- Taking the sign away leaves what the other bits stand for.
    have hmask : ((0x80 : Int64) <<< Int64.ofNat (8 * front.length)).toUInt64.toNat =
        2 ^ (8 * front.length + 7) := by
      rw [Nat.pow_add, Checked.pow_eight]
      exact toNat_shifted 0x80 (by omega)
    have hhigh : 256 ^ front.length * (last.toNat - 128) ≤ 256 ^ front.length * 127 :=
      Nat.mul_le_mul_left _ (by omega)
    have hrest : Bytes.toNatLE front + 256 ^ front.length * (last.toNat - 128) <
        256 ^ front.length * 128 := by omega
    have hsplit : Bytes.toNatLE front + 256 ^ front.length * last.toNat =
        2 ^ (8 * front.length + 7) +
          (Bytes.toNatLE front + 256 ^ front.length * (last.toNat - 128)) := by
      have whole : last.toNat = 128 + (last.toNat - 128) := by omega
      conv_lhs => rw [whole, Nat.mul_add]
      rw [Nat.pow_add, Checked.pow_eight]
      omega
    have hmasked : (orBytes 0 0 (front ++ [last]) &&&
          ~~~((0x80 : Int64) <<< Int64.ofNat (8 * front.length))).toUInt64.toNat =
        Bytes.toNatLE front + 256 ^ front.length * (last.toNat - 128) := by
      rw [toNat_and_not, hresult, hmask, hsplit, Checked.ldiff_two_pow]
      rwa [Nat.pow_add, Checked.pow_eight]
    rw [if_pos (fun h => positive (Checked.and_sign_eq_zero_iff.mp h)), if_neg positive,
      toInt_neg_of_lt (by rw [hmasked]; omega), hmasked]

theorem toNat_magnitude (v : Int64) : (magnitude v).toNat = v.toInt.natAbs := by
  have h := toInt_eq v
  have hv := v.toUInt64.toNat_lt
  have negative : v < 0 ↔ v.toInt < 0 := Int64.lt_iff_toInt_lt
  unfold magnitude
  split
  · next below =>
    rw [negative] at below
    rw [UInt64.toNat_neg]
    simp only [UInt64.size]
    split at h <;> omega
  · next above =>
    rw [negative] at above
    split at h <;> omega

theorem bytes_eq (n : UInt64) : bytes n = Bytes.minimalLE n.toNat := by
  fun_induction bytes n with
  | case1 =>
    rw [Bytes.minimalLE]
    rfl
  | case2 n nonzero ih =>
    have positive : n.toNat ≠ 0 := fun h => nonzero (UInt64.toNat_inj.mp h)
    rw [ih, Bytes.minimalLE.eq_def n.toNat, if_neg positive, toNat_shiftRight_byte]
    rfl

/-- What is written is the shortest item of the number. -/
theorem encode_eq (v : Int64) : encode v = Number.encode v.toInt := by
  have negative : v < 0 ↔ v.toInt < 0 := Int64.lt_iff_toInt_lt
  unfold encode Number.encode
  rw [bytes_eq, toNat_magnitude]
  dsimp only
  cases (Bytes.minimalLE v.toInt.natAbs).getLast? with
  | none => rfl
  | some last => simp only [Number.and_sign_ne_zero_iff, negative]

/-- Every number of 64 bits but the least one has an item of eight bytes. -/
theorem natAbs_lt_of_ne {v : Int64} (h : v ≠ Int64.minValue) : v.toInt.natAbs < 2 ^ 63 := by
  have low := v.le_toInt
  have high := v.toInt_lt
  have least : v.toInt ≠ -2 ^ 63 := by
    rw [← Int64.toInt_minValue]
    exact fun same => h (Int64.toInt_inj.mp same)
  omega

theorem value_ne_minValue {item : Bytes} (short : item.length ≤ 8) :
    value item ≠ Int64.minValue := by
  intro least
  have bound := Number.natAbs_value_lt_two_pow (n := 7) short
  rw [← toInt_value short, least, Int64.toInt_minValue] at bound
  omega

end CoinScript.Long

namespace CoinScript.Number

/-- The numbers of 64 bits, without the least one, and the minimal items of at most eight bytes
stand for each other. What is written for a number reads back as the number wherever it is short
enough, and it has at most `k` bytes exactly if the magnitude leaves room for the sign in them. Of
the items of a number the one that is written is the shortest and the only minimal one, and they are
true unless the number is zero. Words of 64 bits are enough to read and to write. -/
theorem encode_bijective :
    (∀ v : Int64, v ≠ Int64.minValue →
      Long.encode v = encode v.toInt ∧
      (∀ limit, (encode v.toInt).length ≤ limit →
        decode limit (encode v.toInt) = .ok v.toInt ∧
          Long.decode limit (encode v.toInt) = .ok v) ∧
      ∀ k, 1 ≤ k → k ≤ 8 → ((encode v.toInt).length ≤ k ↔ |v.toInt| < 2 ^ (8 * k - 1))) ∧
    (∀ item : Bytes, item.length ≤ 8 → ∃ v : Int64, v ≠ Int64.minValue ∧
      decode 8 item = .ok v.toInt ∧ Long.decode 8 item = .ok v ∧
      (encode v.toInt).length ≤ item.length ∧
      (encode v.toInt = item ↔ Minimal item) ∧
      (Truth.decode item = true ↔ v ≠ 0)) ∧
    Set.BijOn (fun v : Int64 => encode v.toInt) {v | v ≠ Int64.minValue}
      {item | item.length ≤ 8 ∧ Minimal item} := by
  have short {v : Int64} (h : v ≠ Int64.minValue) : (encode v.toInt).length ≤ 8 :=
    (length_encode_le_iff (by decide)).mpr (Long.natAbs_lt_of_ne h)
  refine ⟨fun v hv => ⟨Long.encode_eq v, fun limit hlimit => ⟨?_, ?_⟩, fun k hk _ => ?_⟩,
    fun item hitem => ⟨Long.value item, Long.value_ne_minValue hitem, ?_⟩, ?_, ?_, ?_⟩
  · rw [decode, if_neg (Nat.not_lt.mpr hlimit), value_encode]
  · have read : Long.value (encode v.toInt) = v := by
      rw [← Int64.toInt_inj, Long.toInt_value (short hv), value_encode]
    rw [Long.decode, if_neg (Nat.not_lt.mpr hlimit), read]
  · rw [length_encode_le_iff hk, Int.abs_eq_natAbs]
    exact_mod_cast Iff.rfl
  · have zero : Long.value item ≠ 0 ↔ value item ≠ 0 := by
      rw [← Long.toInt_value hitem, Ne, Ne, ← Int64.toInt_inj]
      rfl
    rw [zero, Long.toInt_value hitem]
    exact ⟨if_neg (Nat.not_lt.mpr hitem), if_neg (Nat.not_lt.mpr hitem),
      length_encode_value_le item, encode_value_eq_iff, Truth.decode_eq_true_iff⟩
  · exact fun v hv => ⟨short hv, minimal_encode _⟩
  · intro v _ w _ same
    have values := congrArg value same
    rwa [value_encode, value_encode, Int64.toInt_inj] at values
  · rintro item ⟨hitem, minimal⟩
    refine ⟨Long.value item, Long.value_ne_minValue hitem, ?_⟩
    dsimp only
    rw [Long.toInt_value hitem, encode_value_of_minimal minimal]

/-- The sign and the magnitude of the least number fill eight bytes. -/
theorem encode_bijective_full :
    Long.encode (-0x7fffffffffffffff) = List.replicate 8 0xff ∧
      Long.decode 8 (List.replicate 8 0xff) = .ok (-0x7fffffffffffffff) := by
  have read : Long.decode 8 (List.replicate 8 0xff) = .ok (-0x7fffffffffffffff) := by decide
  obtain ⟨written, items, -⟩ := encode_bijective
  obtain ⟨v, hv, -, word, -, minimal, -⟩ := items (List.replicate 8 0xff) (by decide)
  obtain rfl : -0x7fffffffffffffff = v := Except.ok.inj (read.symm.trans word)
  exact ⟨(written _ hv).1.trans (minimal.mpr (by decide)), read⟩

end CoinScript.Number
