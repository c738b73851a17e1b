import CoinScript.Proofs.Checked
import Mathlib.Data.Nat.Bitwise
/-!
# Items on words and vectors

The functions that read and write stack items, done byte by byte: numbers and truth values, and
the form of a signature. None of them has a fault, and each gives what the machine uses.

* `decodeNumber_eq`, `encodeNumber_eq`, `truth_eq`: numbers and truth values;
* `checkSignature_eq`: the rules for the form of a signature.
-/

namespace CoinScript.Checked

/-! ## Numbers -/

/-- The bits of bytes of which the first is at place `i`, put to those of a number. -/
def orBytes : Nat → Nat → Bytes → Checked Nat
  | _, result, [] => .ok result
  | i, result, b :: rest => do
    let shifted ← shift b.toNat (8 * i)
    orBytes (i + 1) (result ||| shifted) rest

/-- The number of an item that is not empty. -/
def signedValue (item : Bytes) : Checked Int := do
  let result ← orBytes 0 0 item
  let last ← sub item.length 1
  let top ← index item last
  if top &&& 0x80 ≠ 0 then
    let sign ← shift 0x80 (8 * last)
    long (-(Nat.ldiff result sign : Nat))
  else long result

/-- Read a number. -/
def decodeNumber (limit : Nat) (item : Bytes) : Checked Int :=
  if item.length > limit then refuse (.structural (.numberTooLong item.length limit))
  else if item = [] then .ok 0
  else signedValue item

/-- Write a number. -/
def encodeNumber (v : Int) : Checked Bytes :=
  if v = 0 then .ok []
  else do
    let out := Bytes.minimalLE v.natAbs
    let last ← sub out.length 1
    let top ← index out last
    if top &&& 0x80 ≠ 0 then .ok (out ++ [if v < 0 then 0x80 else 0x00])
    else if v < 0 then update out last (top ||| 0x80)
    else .ok out

/-- The truth value of the bytes from place `i` on, in an item of `size` bytes. -/
def truthFrom (size : Nat) : Nat → Bytes → Checked Bool
  | _, [] => .ok false
  | i, b :: rest =>
    if b ≠ 0 then do
      let last ← sub size 1
      .ok !(i == last && b == 0x80)
    else truthFrom size (i + 1) rest

/-- The truth value of an item. -/
def truth (item : Bytes) : Checked Bool :=
  truthFrom item.length 0 item

theorem shift_eq {n amount : Nat} (h : n < 256) (fits : amount ≤ 48) :
    shift n amount = .ok (n * 2 ^ amount) := by
  have hpow : 2 ^ amount ≤ 2 ^ 48 := Nat.pow_le_pow_right (by decide) fits
  have hmul : n * 2 ^ amount ≤ 255 * 2 ^ 48 := Nat.mul_le_mul (by omega) hpow
  rw [shift, Nat.shiftLeft_eq, if_pos ⟨by omega, Nat.lt_of_le_of_lt hmul (by decide)⟩]

theorem pow_eight (i : Nat) : 2 ^ (8 * i) = 256 ^ i := by
  rw [Nat.pow_mul]

theorem orBytes_eq {i result : Nat} {bytes : Bytes} (below : result < 256 ^ i)
    (fits : i + bytes.length ≤ 6) :
    orBytes i result bytes = .ok (result + 256 ^ i * Bytes.toNatLE bytes) := by
  induction bytes generalizing i result with
  | nil => simp [orBytes, Bytes.toNatLE]
  | cons b rest ih =>
    rw [List.length_cons] at fits
    have hb := b.toNat_lt
    have hor : result ||| b.toNat * 2 ^ (8 * i) = result + 256 ^ i * b.toNat := by
      rw [← pow_eight] at below ⊢
      rw [Nat.or_comm, Nat.mul_comm, ← Nat.two_pow_add_eq_or_of_lt below, Nat.add_comm]
    have hnext : result + 256 ^ i * b.toNat < 256 ^ (i + 1) := by
      have : 256 ^ i * b.toNat ≤ 256 ^ i * 255 := Nat.mul_le_mul_left _ (by omega)
      rw [Nat.pow_succ]
      omega
    rw [orBytes, shift_eq hb (by omega), ok_bind, hor, ih hnext (by omega)]
    congr 1
    rw [Bytes.toNatLE, Nat.pow_succ, Nat.mul_add, Nat.mul_assoc, Nat.add_assoc]

/-- A number without its highest bit. -/
theorem ldiff_two_pow {p r : Nat} (h : r < 2 ^ p) : Nat.ldiff (2 ^ p + r) (2 ^ p) = r := by
  apply Nat.eq_of_testBit_eq
  intro i
  rw [Nat.testBit_ldiff]
  rcases Nat.lt_trichotomy i p with hi | rfl | hi
  · rw [Nat.testBit_two_pow_add_gt hi, Nat.testBit_two_pow_of_ne (by omega)]
    simp
  · rw [Nat.testBit_two_pow_self, Nat.testBit_lt_two_pow h]
    simp
  · have hpow : 2 ^ (p + 1) ≤ 2 ^ i := Nat.pow_le_pow_right (by decide) hi
    rw [Nat.pow_succ] at hpow
    rw [Nat.testBit_lt_two_pow (by omega : 2 ^ p + r < 2 ^ i),
      Nat.testBit_lt_two_pow (by omega : r < 2 ^ i)]
    rfl

theorem and_sign_eq_zero_iff {b : UInt8} : b &&& 0x80 = 0 ↔ b.toNat < 128 := by
  have bits : ∀ n < 256, n &&& 128 = 0 ↔ n < 128 := by decide +kernel
  rw [← UInt8.toNat_inj, UInt8.toNat_and]
  exact bits b.toNat b.toNat_lt

theorem toNat_and_rest (b : UInt8) :
    (b &&& 0x7f).toNat = if b.toNat < 128 then b.toNat else b.toNat - 128 := by
  have bits : ∀ n < 256, n &&& 127 = if n < 128 then n else n - 128 := by decide +kernel
  rw [UInt8.toNat_and]
  exact bits b.toNat b.toNat_lt

theorem toNatLE_append (a b : Bytes) :
    Bytes.toNatLE (a ++ b) = Bytes.toNatLE a + 256 ^ a.length * Bytes.toNatLE b := by
  induction a with
  | nil => simp [Bytes.toNatLE]
  | cons x a ih =>
    rw [List.cons_append, Bytes.toNatLE, Bytes.toNatLE, ih, List.length_cons, Nat.pow_succ',
      Nat.mul_add, Nat.mul_assoc, Nat.add_assoc]

/-- A number is what lies below its last byte, and the last byte without its sign. -/
theorem value_concat (front : Bytes) (last : UInt8) :
    Number.value (front ++ [last]) =
      if last.toNat < 128 then
        ((Bytes.toNatLE front + 256 ^ front.length * last.toNat : Nat) : Int)
      else -((Bytes.toNatLE front + 256 ^ front.length * (last.toNat - 128) : Nat) : Int) := by
  have hsign : last ≥ 0x80 ↔ ¬ last.toNat < 128 := by
    rw [ge_iff_le, UInt8.le_iff_toNat_le, Nat.not_lt]
    rfl
  rw [Number.value, List.getLast?_concat]
  dsimp only
  rw [List.dropLast_concat, toNatLE_append, Bytes.toNatLE, Bytes.toNatLE, toNat_and_rest]
  by_cases positive : last.toNat < 128
  · rw [if_neg (fun h => hsign.mp h positive), if_pos positive, if_pos positive, Nat.mul_zero,
      Nat.add_zero]
  · rw [if_pos (hsign.mpr positive), if_neg positive, if_neg positive, Nat.mul_zero, Nat.add_zero]

theorem signedValue_concat {front : Bytes} {last : UInt8} (short : front.length ≤ 4) :
    signedValue (front ++ [last]) = .ok (Number.value (front ++ [last])) := by
  have hlength : (front ++ [last]).length = front.length + 1 := by simp
  have hlast : (front ++ [last])[front.length]? = some last := by simp
  have hresult : Bytes.toNatLE (front ++ [last]) =
      Bytes.toNatLE front + 256 ^ front.length * last.toNat := by
    rw [toNatLE_append, Bytes.toNatLE, Bytes.toNatLE, Nat.mul_zero, Nat.add_zero]
  have hfront := Bytes.toNatLE_lt front
  have hlow : 256 ^ front.length ≤ 256 ^ 4 := Nat.pow_le_pow_right (by decide) short
  have hhigh : 256 ^ front.length * last.toNat ≤ 256 ^ 4 * 255 :=
    Nat.mul_le_mul hlow (by have := last.toNat_lt; omega)
  rw [signedValue, orBytes_eq (by decide) (by omega), ok_bind, Nat.pow_zero, Nat.one_mul,
    Nat.zero_add, hresult, value_concat, hlength, sub_eq (Nat.le_add_left _ _), ok_bind,
    Nat.add_sub_cancel, index_eq hlast, ok_bind]
  by_cases positive : last.toNat < 128
  · rw [if_neg (not_not.mpr (and_sign_eq_zero_iff.mpr positive)), if_pos positive]
    exact long_eq (by rw [Int.natAbs_natCast]; omega)
  · rw [if_pos (fun h => positive (and_sign_eq_zero_iff.mp h)), if_neg positive,
      shift_eq (by decide) (by omega), ok_bind]
    -- Taking the sign away leaves what the other bits stand for.
    have hpower : 128 * 2 ^ (8 * front.length) = 2 ^ (8 * front.length + 7) := by
      rw [Nat.pow_add]
      omega
    have hsplit : Bytes.toNatLE front + 256 ^ front.length * last.toNat =
        2 ^ (8 * front.length + 7) +
          (Bytes.toNatLE front + 256 ^ front.length * (last.toNat - 128)) := by
      rw [← hpower, pow_eight, Nat.mul_sub]
      have : 256 ^ front.length * 128 ≤ 256 ^ front.length * last.toNat :=
        Nat.mul_le_mul_left _ (by omega)
      omega
    have hrest : 256 ^ front.length * (last.toNat - 128) ≤ 256 ^ front.length * 127 :=
      Nat.mul_le_mul_left _ (by have := last.toNat_lt; omega)
    rw [hpower, hsplit, ldiff_two_pow (by rw [← hpower, pow_eight]; omega)]
    exact long_eq (by rw [Int.natAbs_neg, Int.natAbs_natCast]; omega)

theorem decodeNumber_eq {limit : Nat} (item : Bytes) (small : limit ≤ 5) :
    decodeNumber limit item = of (Number.decode limit item) := by
  unfold decodeNumber Number.decode
  split
  · rfl
  next short =>
  split
  · next empty =>
    subst empty
    rfl
  next nonempty =>
  obtain ⟨front, last, rfl⟩ := List.eq_nil_or_concat item |>.resolve_left nonempty
  rw [List.concat_eq_append] at short ⊢
  rw [List.length_append, List.length_singleton] at short
  exact signedValue_concat (by omega)

theorem minimalLE_ne_nil {n : Nat} (h : n ≠ 0) : Bytes.minimalLE n ≠ [] := by
  rw [Bytes.minimalLE, if_neg h]
  exact List.cons_ne_nil _ _

theorem encodeNumber_eq (v : Int) : encodeNumber v = .ok (Number.encode v) := by
  unfold encodeNumber Number.encode
  split
  · next zero =>
    rw [zero]
    simp [Bytes.minimalLE]
  next nonzero =>
  obtain ⟨front, last, hout⟩ := List.eq_nil_or_concat (Bytes.minimalLE v.natAbs) |>.resolve_left
    (minimalLE_ne_nil (Int.natAbs_ne_zero.mpr nonzero))
  rw [List.concat_eq_append] at hout
  dsimp only
  have hlast : (front ++ [last])[front.length]? = some last := by simp
  have hsign : last ≥ 0x80 ↔ ¬ last &&& 0x80 = 0 := by
    rw [and_sign_eq_zero_iff, ge_iff_le, UInt8.le_iff_toNat_le, Nat.not_lt]
    rfl
  rw [hout, List.length_append, List.length_singleton, sub_eq (Nat.le_add_left _ _), ok_bind,
    Nat.add_sub_cancel, index_eq hlast, ok_bind, List.getLast?_concat, List.dropLast_concat]
  dsimp only
  by_cases taken : last ≥ 0x80
  · rw [if_pos (hsign.mp taken), if_pos taken]
  · rw [if_neg (fun h => taken (hsign.mpr h)), if_neg taken]
    split
    · rw [update_eq (by simp)]
      simp
    · rfl

theorem truthFrom_eq (i : Nat) (bytes : Bytes) :
    truthFrom (i + bytes.length) i bytes = .ok (Truth.decode bytes) := by
  induction bytes generalizing i with
  | nil => rfl
  | cons b rest ih =>
    have hlength : i + (b :: rest).length = i + 1 + rest.length := by
      rw [List.length_cons]
      omega
    rw [truthFrom]
    split
    · next nonzero =>
      have hb : (b != 0) = true := by simpa using nonzero
      rw [hlength, sub_eq (by omega), ok_bind]
      cases rest with
      | nil => simp [Truth.decode, bne, nonzero]
      | cons c rest =>
        have hplace : (i == i + 1 + (c :: rest).length - 1) = false := by
          rw [List.length_cons, beq_eq_false_iff_ne]
          omega
        rw [hplace]
        simp [Truth.decode, hb]
    · next zero =>
      rw [hlength, ih]
      have hzero : b = 0 := not_not.mp zero
      subst hzero
      cases rest <;> simp [Truth.decode]

theorem truth_eq (item : Bytes) : truth item = .ok (Truth.decode item) := by
  have h := truthFrom_eq 0 item
  rwa [Nat.zero_add] at h

/-! ## Encodings of signatures -/

/-- Whether a signature with its hash type is strict DER. -/
def strictDer (sig : Bytes) : Checked Bool :=
  if sig.length < 9 ∨ sig.length > 73 then .ok false
  else do
    if (← index sig 0) ≠ 0x30 ∨ (← index sig 1).toNat ≠ (← sub sig.length 3) then return false
    let lenR := (← index sig 3).toNat
    if (← word (5 + lenR)) ≥ sig.length then return false
    let lenS := (← index sig (5 + lenR)).toNat
    if (← word (lenR + lenS + 7)) ≠ sig.length then return false
    if (← index sig 2) ≠ 0x02 ∨ lenR = 0 ∨ (← index sig 4) &&& 0x80 ≠ 0 then return false
    if lenR > 1 ∧ (← index sig 4) = 0x00 ∧ (← index sig 5) &&& 0x80 = 0 then return false
    if (← index sig (lenR + 4)) ≠ 0x02 ∨ lenS = 0 ∨ (← index sig (lenR + 6)) &&& 0x80 ≠ 0 then
      return false
    if lenS > 1 ∧ (← index sig (lenR + 6)) = 0x00 ∧ (← index sig (lenR + 7)) &&& 0x80 = 0 then
      return false
    return true

/-- A check that refuses something. -/
theorem ite_false_eq {c : Prop} [Decidable c] {x : Checked Bool} {b : Bool}
    (refused : c → b = false) (passed : ¬ c → x = .ok b) :
    (if c then pure false else x) = .ok b := by
  split
  · next h =>
    rw [refused h]
    rfl
  · next h => exact passed h

theorem strictDer_eq (sig : Bytes) :
    strictDer sig = .ok (SignatureEncoding.isStrictDer sig) := by
  obtain ⟨byte, hbyte⟩ : ∃ byte : Nat → UInt8, ∀ i, sig.getD i 0 = byte i := ⟨_, fun _ => rfl⟩
  have inside {i : Nat} (h : i < sig.length) : index sig i = .ok (byte i) := by
    refine index_eq ?_
    rw [← hbyte, List.getD_eq_getElem?_getD, List.getElem?_eq_getElem h]
    rfl
  unfold strictDer SignatureEncoding.isStrictDer
  simp only [hbyte]
  refine ite_false_eq (fun h => ?_) fun size => ?_
  · rcases h with h | h <;> simp [Nat.not_le.mpr h]
  rw [inside (by omega), ok_bind, inside (by omega), ok_bind, sub_eq (by omega), ok_bind]
  refine ite_false_eq (fun h => ?_) fun front => ?_
  · rcases h with h | h <;> simp [h]
  rw [inside (by omega), ok_bind]
  have hlenR : (byte 3).toNat < 256 := UInt8.toNat_lt _
  generalize (byte 3).toNat = lenR at hlenR ⊢
  rw [word_eq (by omega), ok_bind]
  refine ite_false_eq (fun h => ?_) fun room => ?_
  · simp [Nat.not_lt.mpr h]
  rw [inside (by omega), ok_bind]
  have hlenS : (byte (5 + lenR)).toNat < 256 := UInt8.toNat_lt _
  generalize (byte (5 + lenR)).toNat = lenS at hlenS ⊢
  rw [word_eq (by omega), ok_bind]
  refine ite_false_eq (fun h => ?_) fun fits => ?_
  · simp [h]
  rw [inside (by omega), ok_bind, inside (by omega), ok_bind]
  refine ite_false_eq (fun h => ?_) fun first => ?_
  · rcases h with h | h | h <;> simp [h]
  rw [ok_bind, inside (by omega), ok_bind]
  refine ite_false_eq (fun h => ?_) fun shortR => ?_
  · simp [h]
  rw [inside (by omega), ok_bind, inside (by omega), ok_bind]
  refine ite_false_eq (fun h => ?_) fun second => ?_
  · rcases h with h | h | h <;> simp [h]
  rw [ok_bind, inside (by omega), ok_bind]
  refine ite_false_eq (fun h => ?_) fun shortS => ?_
  · simp [h]
  -- Nothing was refused, so every rule holds.
  refine congrArg Except.ok (Eq.symm ?_)
  simp only [Bool.and_eq_true, Bool.not_eq_true', Bool.and_eq_false_iff, decide_eq_true_eq,
    decide_eq_false_iff_not, beq_iff_eq, beq_eq_false_iff_ne, bne_iff_ne]
  grind

/-- The rules for a signature. -/
def checkSignature (flags : Flags) (sig : Bytes) : Checked Unit :=
  if sig = [] then .ok ()
  else do
    let strict ← strictDer sig
    if (flags.strictEncoding || flags.lowS) && !strict then refuse (.cryptoDelegate .notStrictDer)
    else
      let der ← slice sig 0 (← sub sig.length 1)
      if flags.lowS && !SignatureEncoding.isLowDer der then refuse (.cryptoDelegate .highS)
      else if flags.strictEncoding && !SignatureEncoding.isDefinedHashType sig then
        refuse (.cryptoDelegate .undefinedHashType)
      else .ok ()

theorem checkSignature_eq (flags : Flags) (sig : Bytes) :
    checkSignature flags sig = of (SignatureEncoding.checkSignature flags sig) := by
  unfold checkSignature SignatureEncoding.checkSignature
  split
  · rfl
  next nonempty =>
  have hlength : 1 ≤ sig.length := List.length_pos_iff.mpr nonempty
  rw [strictDer_eq, ok_bind, sub_eq hlength, ok_bind, slice_eq (Nat.zero_le _) (Nat.sub_le _ _),
    ok_bind, List.drop_zero, ← List.dropLast_eq_take]
  split
  · rfl
  split
  · rfl
  split
  · rfl
  · rfl

end CoinScript.Checked
