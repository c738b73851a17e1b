import CoinScript.Proofs.Building
import CoinScript.Proofs.Commitment
import CoinScript.Proofs.FaultFree
import CoinScript.Signer
/-!
# Signatures of a signer

A signature is made on one state of a transaction and checked on another: in between, unlocking
scripts are filled in, its own and those of other inputs. None of them enters the digest, so the
machine asks its checker about the digest that was signed.

* `Signer.Reliable`: what is relied on of the signatures of a key;
* `Signer.Reliable.signatureAnswer_signature`: the encoding rules pass, and the checker answers;
* `Machine.result_of_scripts`: an input whose scripts are known.
-/

namespace CoinScript

/-- What is relied on of the signatures that a signer makes with a key: they pass the encoding
rules, and the checker of the machine accepts them for the key. -/
structure Signer.Reliable (signer : Signer) (m : Machine) (key : SigningKey) : Prop where
  strict : ∀ digest (hashType : SigHashType),
    SignatureEncoding.isStrictDer (signer.sign key.secret digest ++ [hashType.code]) = true
  low : ∀ digest, SignatureEncoding.isLowDer (signer.sign key.secret digest) = true
  accepted : ∀ digest,
    m.checker digest (signer.sign key.secret digest) key.publicKeyBytes m.flags = .ok true

/-! ## Forms of signatures and keys -/

namespace SignatureEncoding

theorem length_of_isStrictDer {sig : Bytes} (h : isStrictDer sig = true) :
    9 ≤ sig.length ∧ sig.length ≤ 73 := by
  unfold isStrictDer at h
  simp only [Bool.and_eq_true, decide_eq_true_eq] at h
  omega

theorem head?_of_isStrictDer {sig : Bytes} (h : isStrictDer sig = true) :
    sig.head? = some 0x30 := by
  have size := length_of_isStrictDer h
  cases sig with
  | nil => simp at size
  | cons b rest =>
    unfold isStrictDer at h
    simp only [Bool.and_eq_true, beq_iff_eq, List.getD_cons_zero, and_assoc] at h
    obtain ⟨_, _, tag, _⟩ := h
    rw [List.head?_cons, tag]

theorem isDefinedHashType_code (der : Bytes) (hashType : SigHashType) :
    isDefinedHashType (der ++ [hashType.code]) = true := by
  unfold isDefinedHashType
  rw [List.getLast?_concat]
  cases hashType <;> rfl

theorem isStandardKey_publicKeyBytes (key : SigningKey) :
    isStandardKey key.publicKeyBytes = true := by
  unfold SigningKey.publicKeyBytes PublicKey.serialize
  dsimp only
  split
  · simp [isStandardKey]
  · simp [isStandardKey]

end SignatureEncoding

/-! ## Filling in scripts -/

namespace Signer

theorem length_withScriptSig (tx : Transaction) (index : Nat) (script : Bytes) :
    (withScriptSig tx index script).inputs.length = tx.inputs.length :=
  List.length_modify ..

theorem getElem?_withScriptSig (tx : Transaction) (index : Nat) (script : Bytes) (i : Nat) :
    (withScriptSig tx index script).inputs[i]? =
      if index = i then tx.inputs[i]?.map fun input => { input with scriptSig := script }
      else tx.inputs[i]? := by
  unfold withScriptSig
  rw [List.getElem?_modify]
  split
  · rfl
  · simp

theorem unsigned_withScriptSig (tx : Transaction) (index : Nat) (script : Bytes) :
    (withScriptSig tx index script).unsigned = tx.unsigned := by
  unfold Transaction.unsigned
  congr 1
  refine List.ext_getElem? fun i => ?_
  rw [List.getElem?_map, List.getElem?_map, getElem?_withScriptSig]
  split
  · rw [Option.map_map]
    rfl
  · rfl

end Signer

/-! ## Signatures -/

theorem Logged.bind_of_ok {α β : Type} {x : Logged α} {f : α → Logged β} {log log' : List LogRecord}
    {a : α} (h : x log = .ok a log') : (x >>= f) log = f a log' := by
  show EStateM.bind x f log = _
  unfold EStateM.bind
  rw [h]

namespace Signer

/-- The signature, with its hash type, that a signer makes for an input. -/
def signature (signer : Signer) (tx : Transaction) (index : Nat) (code : Script)
    (key : SigningKey) (hashType : SigHashType) : Bytes :=
  signer.sign key.secret (SigHash.digest tx index code hashType.code.toUInt32) ++ [hashType.code]

theorem signInput_eq (signer : Signer) {tx : Transaction} {index : Nat} (code : Script)
    (key : SigningKey) (hashType : SigHashType) (inside : index < tx.inputs.length)
    (log : List LogRecord) :
    ∃ log', signer.signInput tx index code key hashType log =
      .ok (signer.signature tx index code key hashType) log' := by
  unfold signInput Transaction.signatureHash
  rw [if_pos inside]
  exact ⟨_, rfl⟩

/-- The scripts of the inputs do not count for a signature. -/
theorem signature_congr (signer : Signer) {tx tx' : Transaction} (same : tx'.unsigned = tx.unsigned)
    (index : Nat) (code : Script) (key : SigningKey) (hashType : SigHashType) :
    signer.signature tx' index code key hashType = signer.signature tx index code key hashType := by
  rw [signature, signature, ← SigHash.digest_unsigned tx', same, SigHash.digest_unsigned]

variable {signer : Signer} {m : Machine} {key : SigningKey}

theorem Reliable.length_signature (reliable : signer.Reliable m key) (tx : Transaction)
    (index : Nat) (code : Script) (hashType : SigHashType) :
    (signer.signature tx index code key hashType).length ≤ 73 :=
  (SignatureEncoding.length_of_isStrictDer (reliable.strict _ _)).2

/-- A signature of the signer passes the encoding rules with any key of a standard form. The digest
that the checker is asked about is the one that was signed, also if the scripts of the inputs have
been filled in since. -/
theorem Reliable.signatureAnswer_signature (reliable : signer.Reliable m key)
    {tx tx' : Transaction} {index : Nat} (inside : index < tx'.inputs.length)
    (same : tx'.unsigned = tx.unsigned) (code : Script) (hashType : SigHashType) {other : Bytes}
    (standard : SignatureEncoding.isStandardKey other = true) (prevOutput : TxOut)
    (blockTime : UInt32) :
    (m.configure (m.contextOf blockTime ⟨tx', ⟨index, inside⟩, prevOutput⟩).env).signatureAnswer
        (signer.signature tx index code key hashType) other code =
      m.checker (SigHash.digest tx index code hashType.code.toUInt32)
        (signer.sign key.secret (SigHash.digest tx index code hashType.code.toUInt32)) other
        m.flags := by
  have hsignature : SignatureEncoding.checkSignature m.flags
      (signer.signature tx index code key hashType) = .ok () := by
    refine SignatureEncoding.checkSignature_eq_ok_iff.mpr
      (.inr ⟨fun _ => ?_, fun _ => ?_, fun _ => ?_⟩)
    · exact reliable.strict _ _
    · rw [signature, List.dropLast_concat]
      exact reliable.low _
    · exact SignatureEncoding.isDefinedHashType_code _ _
  have hkey : SignatureEncoding.checkPublicKey m.flags other = .ok () :=
    SignatureEncoding.checkPublicKey_eq_ok_iff.mpr fun _ => standard
  have digest : SigHash.digest tx' index code hashType.code.toUInt32 =
      SigHash.digest tx index code hashType.code.toUInt32 := by
    rw [← SigHash.digest_unsigned tx', same, SigHash.digest_unsigned]
  refine (Env.signatureAnswer_concat rfl hsignature hkey code).trans ?_
  rw [← digest]
  rfl

end Signer

namespace Machine

/-- The verdict on an input is that on its scripts. -/
theorem result_of_scripts {m : Machine} {tx : Transaction} {index : Nat}
    (inside : index < tx.inputs.length) {unlock lock : Script} (hunlock : unlock.Valid)
    (hlock : lock.Valid) (filled : tx.inputs[index].scriptSig = unlock.bytes) (value : UInt64)
    (blockTime : UInt32) :
    (m.verifyTransaction tx index (.ofScript value lock) blockTime).result =
      (m.verify lock unlock
        (m.contextOf blockTime ⟨tx, ⟨index, inside⟩, .ofScript value lock⟩)).1 := by
  rw [result_of_lt _ _ _ inside, filled, hunlock.parse_bytes]
  show Script.parse lock.bytes >>= _ = _
  rw [hlock.parse_bytes]
  rfl

/-- The verdict on an input whose script has just been filled in. -/
theorem result_withScriptSig {m : Machine} {tx : Transaction} {index : Nat}
    (inside : index < tx.inputs.length) {unlock lock : Script} (hunlock : unlock.Valid)
    (hlock : lock.Valid) (value : UInt64) (blockTime : UInt32) :
    ∃ inside', (m.verifyTransaction (Signer.withScriptSig tx index unlock.bytes) index
        (.ofScript value lock) blockTime).result =
      (m.verify lock unlock (m.contextOf blockTime ⟨Signer.withScriptSig tx index unlock.bytes,
        ⟨index, inside'⟩, .ofScript value lock⟩)).1 := by
  have inside' : index < (Signer.withScriptSig tx index unlock.bytes).inputs.length := by
    rw [Signer.length_withScriptSig]
    exact inside
  have filled := Signer.getElem?_withScriptSig tx index unlock.bytes index
  rw [if_pos rfl, List.getElem?_eq_getElem inside, List.getElem?_eq_getElem inside',
    Option.map_some, Option.some_inj] at filled
  exact ⟨inside', result_of_scripts inside' hunlock hlock (congrArg TxIn.scriptSig filled) value
    blockTime⟩

end Machine

end CoinScript
