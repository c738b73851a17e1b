import CoinScript.Proofs.LaxReading
/-!
# Signatures and their negations

The negative of the `s` of a signature makes another signature, which the curve cannot tell from the
first: one of the two has the low `s`, and verification goes on with that one. So both are accepted
or none, unless there is a rule that tells them apart by their bytes.

* `Signature.isLow_neg_iff`, `Signature.normalize_neg`: exactly one of the two is low, and both
  have the same low form;
* `SignatureEncoding.negation_differs_in_low`: the low rule is all in which the two differ.
-/

namespace CoinScript

namespace Signature

open Curve

variable {r s : Nat}

/-- The order is odd, so exactly one of a number and its negative is in the lower half. -/
theorem isLow_neg_iff (below : s < order) :
    (⟨r, order - s⟩ : Signature).isLow = true ↔ ¬ (⟨r, s⟩ : Signature).isLow = true := by
  have odd := order_odd
  rw [isLow_iff, isLow_iff]
  show order - s ≤ order / 2 ↔ ¬ s ≤ order / 2
  generalize order = n at odd below ⊢
  omega

theorem normalize_neg (below : s < order) :
    (⟨r, order - s⟩ : Signature).normalize = (⟨r, s⟩ : Signature).normalize := by
  have odd := order_odd
  unfold normalize halfOrder
  generalize order = n at odd below ⊢
  split
  · next high =>
    have low : ¬ s > n / 2 := by
      simp only at high
      omega
    rw [if_neg low, mk.injEq]
    exact ⟨rfl, by simp only; omega⟩
  · next low =>
    have high : s > n / 2 := by
      simp only at low
      omega
    rw [if_pos high]

end Signature

/-! ## Answers about both -/

theorem SignatureEncoding.isLowDer_toDer {r s : Nat} (hr : r < Curve.order)
    (hs : s < Curve.order) :
    isLowDer (⟨r, s⟩ : Signature).toDer = (⟨r, s⟩ : Signature).isLow := by
  unfold isLowDer
  rw [Signature.ofDerLax?_toDer hr hs]

/-- Signatures with the same low form are accepted for the same digests and keys. -/
theorem Checker.secp256k1_congr {der der' : Bytes} {sig sig' : Signature}
    (read : Signature.ofDerLax? der = some sig) (read' : Signature.ofDerLax? der' = some sig')
    (same : sig.normalize = sig'.normalize) (digest : Digest 32) (key : Bytes) (flags : Flags) :
    Checker.secp256k1 digest der key flags = Checker.secp256k1 digest der' key flags := by
  unfold Checker.secp256k1 Ecdsa.verifyBytes
  rw [read, read']
  cases PublicKey.ofBytes? key with
  | none => rfl
  | some point => exact congrArg (fun low => Except.ok (Ecdsa.verify digest low point)) same

/-- Without encoding rules nothing but the answer of the checker depends on the bytes in front of
the hash type. -/
theorem Env.signatureAnswer_congr {env : Env} {der der' key : Bytes}
    (lax : env.flags.strictEncoding = false) (anyS : env.flags.lowS = false)
    (same : ∀ digest, env.checker digest der key env.flags = env.checker digest der' key env.flags)
    (hashType : UInt8) (code : Script) :
    env.signatureAnswer (der ++ [hashType]) key code =
      env.signatureAnswer (der' ++ [hashType]) key code := by
  have free (signature : Bytes) :
      SignatureEncoding.checkSignature env.flags signature = .ok () :=
    SignatureEncoding.checkSignature_eq_ok_iff.mpr (.inr (by simp [lax, anyS]))
  unfold signatureAnswer
  simp only [free, List.getLast?_concat, List.dropLast_concat, same]

/-- The answer of a context about a signature. -/
theorem Context.perform_checkSignature (c : Context) (signature key : Bytes) (code : Script) :
    (c.perform fun env => Exec.checkSignature env signature key code).1 =
      c.env.signatureAnswer signature key code := by
  obtain ⟨calls, h⟩ := Exec.checkSignature_eq c.env signature key code c.state
  unfold Context.perform
  dsimp only
  rw [h]
  cases c.env.signatureAnswer signature key code <;> rfl

namespace SignatureEncoding

open Curve

/-- With the low rule alone, a strict form with any hash type passes exactly if it is low. -/
theorem checkSignature_toDer_iff {flags : Flags} {r s : Nat} (low : flags.lowS = true)
    (undefined : flags.strictEncoding = false) (hr : r < order) (hs : s < order)
    (hashType : UInt8) :
    checkSignature flags ((⟨r, s⟩ : Signature).toDer ++ [hashType]) = .ok () ↔
      (⟨r, s⟩ : Signature).isLow = true := by
  have strict : isStrictDer ((⟨r, s⟩ : Signature).toDer ++ [hashType]) = true :=
    isStrictDer_iff.mpr ⟨_, _, _, Signature.strictForm_toDer hr hs hashType⟩
  rw [checkSignature_eq_ok_iff, List.dropLast_concat, isLowDer_toDer hr hs]
  simp [low, undefined, strict]

/-- A signature and its negation differ in the low rule and in nothing else. The curve accepts both
for the same digests and keys. Exactly one of them is low, and with the low rule alone exactly one
passes, whatever the hash type. Without encoding rules a context answers the same about both. -/
theorem negation_differs_in_low {r s : Nat} (hr : r < order) (hs : 1 ≤ s) (hs' : s < order) :
    let der := (⟨r, s⟩ : Signature).toDer
    let negated := (⟨r, order - s⟩ : Signature).toDer
    (∀ digest key flags,
      Checker.secp256k1 digest negated key flags = Checker.secp256k1 digest der key flags) ∧
    (isLowDer negated = true ↔ ¬ isLowDer der = true) ∧
    (∀ (flags : Flags) (hashType : UInt8), flags.lowS = true → flags.strictEncoding = false →
      (checkSignature flags (negated ++ [hashType]) = .ok () ↔
        ¬ checkSignature flags (der ++ [hashType]) = .ok ())) ∧
    ∀ (c : Context) (key : Bytes) (code : Script) (hashType : UInt8),
      c.env.flags.lowS = false → c.env.flags.strictEncoding = false →
      c.env.checker = Checker.secp256k1 →
      (c.perform fun env => Exec.checkSignature env (negated ++ [hashType]) key code).1 =
        (c.perform fun env => Exec.checkSignature env (der ++ [hashType]) key code).1 := by
  intro der negated
  have below : order - s < order := Nat.sub_lt (by decide) hs
  have accepted : ∀ digest key flags,
      Checker.secp256k1 digest negated key flags = Checker.secp256k1 digest der key flags :=
    Checker.secp256k1_congr (Signature.ofDerLax?_toDer hr below) (Signature.ofDerLax?_toDer hr hs')
      (Signature.normalize_neg hs')
  refine ⟨accepted, ?_, fun flags hashType low undefined => ?_,
    fun c key code hashType anyS lax curve => ?_⟩
  · rw [isLowDer_toDer hr below, isLowDer_toDer hr hs']
    exact Signature.isLow_neg_iff hs'
  · rw [checkSignature_toDer_iff low undefined hr below,
      checkSignature_toDer_iff low undefined hr hs']
    exact Signature.isLow_neg_iff hs'
  · rw [c.perform_checkSignature, c.perform_checkSignature]
    refine Env.signatureAnswer_congr lax anyS (fun digest => ?_) hashType code
    rw [curve]
    exact accepted digest key c.env.flags

/-- With the least `s` the negation has the largest, which the low rule refuses. Without rules a
spend gives the same answer about both. -/
theorem negation_differs_in_low_one :
    let der := (⟨1, 1⟩ : Signature).toDer
    let negated := (⟨1, order - 1⟩ : Signature).toDer
    (1 < order ∧ 1 ≤ 1) ∧ isLowDer der = true ∧ isLowDer negated = false ∧
      checkSignature { Flags.none with lowS := true } (negated ++ [0x01]) ≠ .ok () ∧
      ∀ (spend : Spend) (key : Bytes) (code : Script),
        let c := Context.ofSpend spend Flags.none Checker.secp256k1
        (c.perform fun env => Exec.checkSignature env (negated ++ [0x01]) key code).1 =
          (c.perform fun env => Exec.checkSignature env (der ++ [0x01]) key code).1 := by
  intro der negated
  have range : 1 < order ∧ 1 ≤ 1 := by decide
  have low : isLowDer der = true := by
    rw [isLowDer_toDer range.1 range.1]
    decide
  have passed : checkSignature { Flags.none with lowS := true } (der ++ [0x01]) = .ok () :=
    (checkSignature_toDer_iff rfl rfl range.1 range.1 0x01).mpr (by decide)
  obtain ⟨_, opposite, rule, answers⟩ := negation_differs_in_low range.1 range.2 range.1
  exact ⟨range, low, Bool.eq_false_iff.mpr fun both => opposite.mp both low,
    fun both => (rule _ 0x01 rfl rfl).mp both passed,
    fun spend key code => answers (.ofSpend spend Flags.none Checker.secp256k1) key code 0x01 rfl
      rfl rfl⟩

end SignatureEncoding

end CoinScript
