import CoinScript.Proofs.Numerals
import CoinScript.Proofs.Radix
import CoinScript.Proofs.SignedInput
import CoinScript.Proofs.StrictForms
/-!
# Two readers of signatures

The strict test only says whether a signature is in strict form. Its two numbers are read by another
reader, which allows longer lengths, drops zeros in front and takes a pair with a number that is too
large for `(0, 0)`. The rule for low signatures and the verification go by what that one reads.

* `StrictForm.ofDerLax?_dropLast`: a strict form is read as its two numbers;
* `StrictForm.isLowDer_iff`: the strict forms that the rule for low signatures passes;
* `Signature.strictForm_toDer`, `Signature.ofDerLax?_toDer`: what is written is a strict form, and
  it is read back;
* `SignatureEncoding.readers_agree`: both readers find the same numbers.
-/

namespace CoinScript

namespace Signature

open Curve

theorem order_lt : order < 256 ^ 32 := by
  decide

theorem order_odd : order % 2 = 1 := by
  decide

/-- A number is taken over if it is below the order, whatever zeros stand in front of it. -/
theorem scalar?_eq (bytes : Bytes) :
    scalar? bytes = if Bytes.toNatBE bytes < order then some (Bytes.toNatBE bytes) else none := by
  unfold scalar?
  dsimp only
  rw [Bytes.toNatBE_dropZeros]
  refine if_congr (and_iff_right_of_imp fun below => ?_) rfl rfl
  exact Bytes.length_dropZeros_le (Nat.lt_trans below order_lt)

theorem readInteger_short {number : Bytes} {size : UInt8} (hsize : size.toNat = number.length)
    (short : number.length < 0x80) (rest : Bytes) :
    readInteger (0x02 :: size :: (number ++ rest)) = some (number, rest) := by
  have direct : size < 0x80 := by
    rw [UInt8.lt_iff_toNat_lt, hsize]
    exact short
  unfold readInteger readLength
  simp [direct, hsize]

/-- What the pair of two numbers is read as. -/
def ofNumbers (r s : Nat) : Signature :=
  if r < order ∧ s < order then ⟨r, s⟩ else ⟨0, 0⟩

/-- Two short numbers are read whatever follows them. -/
theorem ofDerLax?_short {r s : Bytes} {size sizeR sizeS : UInt8} (hsize : size < 0x80)
    (hr : sizeR.toNat = r.length) (hs : sizeS.toNat = s.length) (shortR : r.length < 0x80)
    (shortS : s.length < 0x80) (rest : Bytes) :
    ofDerLax? (0x30 :: size :: 0x02 :: sizeR :: (r ++ 0x02 :: sizeS :: (s ++ rest))) =
      some (ofNumbers (Bytes.toNatBE r) (Bytes.toNatBE s)) := by
  have skipped (rest : Bytes) : skipLength (size :: rest) = some rest := if_pos hsize
  simp only [ofDerLax?, if_true, skipped, Option.bind_eq_bind, Option.bind_some,
    readInteger_short hr shortR, readInteger_short hs shortS, scalar?_eq, ofNumbers]
  by_cases belowR : Bytes.toNatBE r < order
  · by_cases belowS : Bytes.toNatBE s < order
    · simp only [belowR, belowS, if_true, and_self]
    · simp only [belowR, belowS, if_true, if_false, and_false]
  · simp only [belowR, if_false, false_and]

end Signature

namespace SignatureEncoding

/-- A strict form is read as its two numbers. -/
theorem StrictForm.ofDerLax?_dropLast {sig r s : Bytes} {hashType : UInt8}
    (h : StrictForm sig r s hashType) :
    Signature.ofDerLax? sig.dropLast =
      some (Signature.ofNumbers (Bytes.toNatBE r) (Bytes.toNatBE s)) := by
  obtain ⟨size, sizeR, sizeS, hsize, hr, hs, rfl⟩ := h.bytes
  have small := h.size_le
  have body : 0x30 :: size :: 0x02 :: sizeR :: (r ++ 0x02 :: sizeS :: (s ++ [hashType])) =
      (0x30 :: size :: 0x02 :: sizeR :: (r ++ 0x02 :: sizeS :: s)) ++ [hashType] := by simp
  simp only [List.length_cons, List.length_append, List.length_nil] at small hsize
  have direct : size < 0x80 := by
    rw [UInt8.lt_iff_toNat_lt, hsize]
    show _ < 128
    omega
  have read := Signature.ofDerLax?_short direct hr hs (by omega) (by omega) []
  rw [List.append_nil] at read
  rwa [body, List.dropLast_concat]

end SignatureEncoding

/-! ## Low signatures -/

namespace Signature

open Curve

/-- A signature is low if its `s` is not above half of the order. -/
theorem isLow_iff {sig : Signature} : sig.isLow = true ↔ sig.s ≤ halfOrder := by
  have odd := order_odd
  unfold isLow normalize halfOrder
  generalize order = n at odd ⊢
  obtain ⟨r, s⟩ := sig
  simp only [beq_iff_eq]
  split
  · next high =>
    simp only [mk.injEq, true_and]
    omega
  · next low => simp only [true_iff]; omega

end Signature

namespace SignatureEncoding

open Curve

/-- The low rule also passes numbers that are too large, since they are read as `(0, 0)`. -/
theorem StrictForm.isLowDer_iff {sig r s : Bytes} {hashType : UInt8}
    (h : StrictForm sig r s hashType) :
    isLowDer sig.dropLast = true ↔ Bytes.toNatBE s ≤ (order - 1) / 2 ∨
      order ≤ Bytes.toNatBE r ∨ order ≤ Bytes.toNatBE s := by
  have half : halfOrder = (order - 1) / 2 := by decide
  unfold isLowDer
  rw [h.ofDerLax?_dropLast, ← half]
  show (Signature.ofNumbers _ _).isLow = true ↔ _
  rw [Signature.isLow_iff]
  unfold Signature.ofNumbers
  split
  · next below =>
    show Bytes.toNatBE s ≤ halfOrder ↔ _
    omega
  · next large =>
    show 0 ≤ halfOrder ↔ _
    omega

end SignatureEncoding

/-! ## What is written -/

namespace Signature

open Curve SignatureEncoding

/-- The bytes of a number are the ones of its shortest form and a zero if the top bit is set. -/
theorem derMagnitude_cases (n : Nat) :
    (n = 0 ∧ derMagnitude n = [0]) ∨ ∃ b rest, b ≠ 0 ∧ (Bytes.minimalLE n).reverse = b :: rest ∧
      derMagnitude n = if b ≥ 0x80 then 0 :: b :: rest else b :: rest := by
  by_cases zero : n = 0
  · subst zero
    exact .inl ⟨rfl, by simp [derMagnitude, Bytes.minimalLE]⟩
  · refine .inr ?_
    obtain ⟨front, last, hbytes⟩ := List.eq_nil_or_concat (Bytes.minimalLE n) |>.resolve_left
      (Checked.minimalLE_ne_nil zero)
    rw [List.concat_eq_append] at hbytes
    have reversed : (Bytes.minimalLE n).reverse = last :: front.reverse := by
      rw [hbytes, List.reverse_append, List.reverse_singleton, List.singleton_append]
    exact ⟨last, front.reverse, Number.last_minimalLE_ne_zero hbytes, reversed, by
      rw [derMagnitude, reversed]⟩

theorem strictNumber_derMagnitude (n : Nat) : StrictNumber (derMagnitude n) := by
  obtain ⟨_, hbytes⟩ | ⟨b, rest, nonzero, _, hbytes⟩ := derMagnitude_cases n
  · rw [hbytes]
    decide
  · rw [hbytes]
    split
    · next high => exact ⟨by decide, fun low => absurd low.2 (UInt8.not_lt.mpr high)⟩
    · next low =>
      cases rest with
      | nil => exact UInt8.not_le.mp low
      | cons c rest => exact ⟨UInt8.not_le.mp low, fun padded => nonzero padded.1⟩

theorem toNatBE_derMagnitude (n : Nat) : Bytes.toNatBE (derMagnitude n) = n := by
  have shortest : Bytes.toNatBE (Bytes.minimalLE n).reverse = n := by
    rw [Bytes.toNatBE, List.reverse_reverse, Number.toNatLE_minimalLE]
  obtain ⟨rfl, hbytes⟩ | ⟨b, rest, _, hshortest, hbytes⟩ := derMagnitude_cases n
  · rw [hbytes]
    rfl
  · rw [hshortest] at shortest
    rw [hbytes]
    split
    · rw [Bytes.toNatBE_cons, shortest]
      rfl
    · exact shortest

theorem length_derMagnitude_le {n width : Nat} (h : n < 256 ^ width) :
    (derMagnitude n).length ≤ width + 1 := by
  obtain ⟨_, hbytes⟩ | ⟨b, rest, _, hshortest, hbytes⟩ := derMagnitude_cases n
  · rw [hbytes]
    exact Nat.le_add_left _ _
  · have short := Number.length_minimalLE_le h
    rw [← List.length_reverse, hshortest] at short
    rw [hbytes]
    split
    · exact Nat.succ_le_succ short
    · exact Nat.le_succ_of_le short

theorem toDer_concat (r s : Nat) (hashType : UInt8) :
    (⟨r, s⟩ : Signature).toDer ++ [hashType] =
      0x30 :: UInt8.ofNat ((derMagnitude r).length + (derMagnitude s).length + 4) :: 0x02 ::
        UInt8.ofNat (derMagnitude r).length :: (derMagnitude r ++ 0x02 ::
          UInt8.ofNat (derMagnitude s).length :: (derMagnitude s ++ [hashType])) := by
  have body : (derInteger r ++ derInteger s).length =
      (derMagnitude r).length + (derMagnitude s).length + 4 := by
    simp only [derInteger, List.length_append, List.length_cons]
    omega
  unfold toDer
  dsimp only
  rw [body]
  simp [derInteger]

/-- Two numbers below the order are written in strict form, whatever hash type follows. -/
theorem strictForm_toDer {r s : Nat} (hr : r < order) (hs : s < order) (hashType : UInt8) :
    StrictForm ((⟨r, s⟩ : Signature).toDer ++ [hashType]) (derMagnitude r) (derMagnitude s)
      hashType := by
  have strictR := strictNumber_derMagnitude r
  have strictS := strictNumber_derMagnitude s
  have positiveR := strictR.length_pos
  have positiveS := strictS.length_pos
  have shortR := length_derMagnitude_le (Nat.lt_trans hr order_lt)
  have shortS := length_derMagnitude_le (Nat.lt_trans hs order_lt)
  have fits {n : Nat} (h : n ≤ 70) : (UInt8.ofNat n).toNat = n :=
    UInt8.toNat_ofNat_of_lt' (Nat.lt_of_le_of_lt h (by decide))
  have length : ((⟨r, s⟩ : Signature).toDer ++ [hashType]).length =
      (derMagnitude r).length + (derMagnitude s).length + 7 := by
    simp only [toDer_concat, List.length_cons, List.length_append, List.length_nil]
    omega
  refine ⟨by omega, by omega, ⟨_, _, _, ?_, fits (by omega), fits (by omega),
    toDer_concat r s hashType⟩, strictR, strictS⟩
  rw [length, fits (by omega)]
  omega

/-- What is written is read back. -/
theorem ofDerLax?_toDer {r s : Nat} (hr : r < order) (hs : s < order) :
    ofDerLax? (⟨r, s⟩ : Signature).toDer = some ⟨r, s⟩ := by
  have read := (strictForm_toDer hr hs 0).ofDerLax?_dropLast
  rwa [List.dropLast_concat, toNatBE_derMagnitude, toNatBE_derMagnitude, ofNumbers,
    if_pos ⟨hr, hs⟩] at read

end Signature

namespace SignatureEncoding

open Curve

/-- A strict form passes the low rule exactly if the test for low signatures does. -/
theorem checkSignature_ne_highS_iff {flags : Flags} {sig : Bytes} (low : flags.lowS = true)
    (strict : isStrictDer sig = true) :
    checkSignature flags sig ≠ .error (.cryptoDelegate .highS) ↔
      isLowDer sig.dropLast = true := by
  have nonempty : sig ≠ [] := by
    rintro rfl
    cases strict
  unfold checkSignature
  rw [if_neg nonempty, low, strict]
  cases isLowDer sig.dropLast <;> cases flags.strictEncoding <;> cases isDefinedHashType sig <;>
    simp

/-- The two readers agree. The lax one reads a strict form as the two numbers in it, or as `(0, 0)`
if one of them is too large, so the low rule refuses a strict form only if its `s` is above half of
the order and both numbers fit. Two numbers that fit are written in strict form and read back, and a
signer gives what is written with its hash type behind it. -/
theorem readers_agree :
    (∀ sig, isStrictDer sig = true → ∃ r s hashType,
      (∀ r' s' hashType', StrictForm sig r' s' hashType' ↔
        r' = r ∧ s' = s ∧ hashType' = hashType) ∧
      Signature.ofDerLax? sig.dropLast =
        some (if Bytes.toNatBE r < order ∧ Bytes.toNatBE s < order then
          ⟨Bytes.toNatBE r, Bytes.toNatBE s⟩ else ⟨0, 0⟩) ∧
      ∀ flags : Flags, flags.lowS = true →
        (checkSignature flags sig ≠ .error (.cryptoDelegate .highS) ↔
          Bytes.toNatBE s ≤ (order - 1) / 2 ∨ order ≤ Bytes.toNatBE r ∨
            order ≤ Bytes.toNatBE s)) ∧
    (∀ (r s : Nat) (hashType : SigHashType), 1 ≤ r → r < order → 1 ≤ s → s < order →
      isStrictDer ((⟨r, s⟩ : Signature).toDer ++ [hashType.code]) = true ∧
      isDefinedHashType ((⟨r, s⟩ : Signature).toDer ++ [hashType.code]) = true ∧
      Signature.ofDerLax? (⟨r, s⟩ : Signature).toDer = some ⟨r, s⟩) ∧
    ∀ (network : Network) (tx : Transaction) (index : Nat) (code : Script) (key : SigningKey)
      (hashType : SigHashType) (log : List LogRecord), index < tx.inputs.length →
      ∃ log', ({ network := network } : Signer).signInput tx index code key hashType log =
        .ok ((Ecdsa.sign key.secret
          (SigHash.digest tx index code hashType.code.toUInt32)).toDer ++ [hashType.code])
          log' := by
  refine ⟨fun sig strict => ?_, fun r s hashType _ hr _ hs => ?_, ?_⟩
  · obtain ⟨r, s, hashType, form⟩ := isStrictDer_iff.mp strict
    refine ⟨r, s, hashType, fun r' s' hashType' => ⟨form.unique, ?_⟩, form.ofDerLax?_dropLast,
      fun flags low => (checkSignature_ne_highS_iff low strict).trans form.isLowDer_iff⟩
    rintro ⟨rfl, rfl, rfl⟩
    exact form
  · exact ⟨isStrictDer_iff.mpr ⟨_, _, _, Signature.strictForm_toDer hr hs hashType.code⟩,
      isDefinedHashType_code _ hashType, Signature.ofDerLax?_toDer hr hs⟩
  · exact fun network tx index code key hashType log inside =>
      Signer.signInput_eq { network := network } code key hashType inside log

/-- A number with its top bit set has a zero in front, and an `s` just below the order is not
low. -/
theorem readers_agree_padded :
    let sig : Bytes := [0x30, 0x07, 0x02, 0x02, 0x00, 0x80, 0x02, 0x01, 0x07, 0x09]
    isStrictDer sig = true ∧ Signature.ofDerLax? sig.dropLast = some ⟨0x80, 7⟩ ∧
      (1 ≤ order - 1 ∧ order - 1 < order) ∧
      Signature.ofDerLax? (⟨0x80, order - 1⟩ : Signature).toDer = some ⟨0x80, order - 1⟩ := by
  intro sig
  have strict : isStrictDer sig = true := by decide
  obtain ⟨r, s, hashType, cut, read, _⟩ := readers_agree.1 sig strict
  obtain ⟨rfl, rfl, rfl⟩ := (cut [0x00, 0x80] [0x07] 0x09).mp
    ⟨by decide, by decide, ⟨0x07, 0x02, 0x01, rfl, rfl, rfl, rfl⟩, by decide, by decide⟩
  have range : 1 ≤ order - 1 ∧ order - 1 < order := by decide
  exact ⟨strict, read.trans (by decide), range,
    (readers_agree.2.1 0x80 (order - 1) .all (by decide) (by decide) range.1 range.2).2.2⟩

end SignatureEncoding

end CoinScript
