/-!
# Optional verification rules

Each flag switches on a rule that only restricts what is accepted.
-/

namespace CoinScript

/-- The optional rules of a verification. -/
structure Flags where
  /-- Signatures must be strict DER with a defined hash type, keys must have a standard form. -/
  strictEncoding : Bool := false
  /-- The `s` of a signature must lie in the lower half. -/
  lowS : Bool := false
  /-- The redeem script of a pay-to-script-hash output is evaluated. -/
  p2sh : Bool := true
  /-- Absolute lock times are checked. -/
  checkLockTimeVerify : Bool := true
  /-- Relative lock times are checked. -/
  checkSequenceVerify : Bool := true
  /-- The extra item of a multisignature check must be empty. -/
  nullDummy : Bool := false
deriving DecidableEq, Repr

namespace Flags

/-- Every rule on. -/
def standard : Flags := ⟨true, true, true, true, true, true⟩

/-- Every rule off. -/
def none : Flags := ⟨false, false, false, false, false, false⟩

/-- Every rule of `f` is a rule of `g`. -/
def Within (f g : Flags) : Prop :=
  f.strictEncoding ≤ g.strictEncoding ∧ f.lowS ≤ g.lowS ∧ f.p2sh ≤ g.p2sh ∧
    f.checkLockTimeVerify ≤ g.checkLockTimeVerify ∧
    f.checkSequenceVerify ≤ g.checkSequenceVerify ∧ f.nullDummy ≤ g.nullDummy

end Flags

end CoinScript
