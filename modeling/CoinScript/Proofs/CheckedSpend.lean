import CoinScript.Proofs.CheckedScripts
/-!
# Spends on words and vectors

The digest that a signature commits to is taken from a copy of the transaction that is changed
place by place and written to a buffer; lock times look up the input that spends. There is a fault
in neither, if there is such an input.

* `signatureHash_eq`: the digest of a transaction;
* `checkLockTime_eq`, `checkSequence_eq`: lock times.
-/

namespace CoinScript.Checked

open Script (Rows)

/-! ## Writing to a buffer -/

/-- Puts bytes at the end of a buffer and tells their number. -/
abbrev Writing := StateT Bytes Checked Nat

namespace Writing

def bytes (data : Bytes) : Writing := fun buffer =>
  .ok (data.length, buffer ++ data)

/-- Write twice. The sum of the numbers counts bytes of the buffer. -/
def andThen (first second : Writing) : Writing := do
  let m ← first
  let n ← second
  let buffer ← get
  upTo buffer (m + n)

def compact (n : Nat) : Writing :=
  if n < 0xfd then bytes [UInt8.ofNat n]
  else if n < 0x10000 then andThen (bytes [0xfd]) (bytes (Bytes.ofNatLE 2 n))
  else if n < 0x100000000 then andThen (bytes [0xfe]) (bytes (Bytes.ofNatLE 4 n))
  else andThen (bytes [0xff]) (bytes (Bytes.ofNatLE 8 n))

def blob (data : Bytes) : Writing :=
  andThen (compact data.length) (bytes data)

def list {α : Type} (write : α → Writing) (items : List α) : Writing :=
  items.foldl (fun written item => andThen written (write item)) (compact items.length)

def outPoint (p : OutPoint) : Writing :=
  andThen (bytes p.txid.bytes) (bytes (Wire.word32 p.vout))

def input (i : TxIn) : Writing :=
  andThen (andThen (outPoint i.previousOutput) (blob i.scriptSig)) (bytes (Wire.word32 i.sequence))

def output (o : TxOut) : Writing :=
  andThen (bytes (Wire.word64 o.value)) (blob o.scriptPubkey)

def transaction (tx : Transaction) : Writing :=
  andThen (andThen (andThen (bytes (Wire.int32 tx.version)) (list input tx.inputs))
    (list output tx.outputs)) (bytes (Wire.word32 tx.lockTime))

/-- Writing has no fault and puts exactly `data` at the end of every buffer. -/
def Writes (w : Writing) (data : Bytes) : Prop :=
  ∀ buffer, w buffer = .ok (data.length, buffer ++ data)

theorem writes_bytes (data : Bytes) : Writes (bytes data) data :=
  fun _ => rfl

theorem Writes.andThen {v w : Writing} {a b : Bytes} (hv : Writes v a) (hw : Writes w b) :
    Writes (andThen v w) (a ++ b) := by
  intro buffer
  show (v buffer >>= fun (m, buffer) => w buffer >>= fun (n, buffer) =>
    upTo buffer (m + n) >>= fun total => .ok (total, buffer)) = _
  rw [hv, ok_bind]
  dsimp only
  rw [hw, ok_bind]
  dsimp only
  rw [upTo_eq (by simp), ok_bind, List.length_append, List.append_assoc]

theorem writes_compact (n : Nat) : Writes (compact n) (Wire.compact n) := by
  unfold compact Wire.compact
  split
  · exact writes_bytes _
  split
  · exact (writes_bytes [0xfd]).andThen (writes_bytes _)
  split
  · exact (writes_bytes [0xfe]).andThen (writes_bytes _)
  · exact (writes_bytes [0xff]).andThen (writes_bytes _)

theorem writes_blob (data : Bytes) : Writes (blob data) (Wire.blob data) :=
  (writes_compact _).andThen (writes_bytes data)

theorem Writes.foldl {α : Type} {write : α → Writing} {encode : α → Bytes}
    (h : ∀ item, Writes (write item) (encode item)) (items : List α) {w : Writing} {data : Bytes}
    (hw : Writes w data) :
    Writes (items.foldl (fun written item => Writing.andThen written (write item)) w)
      (data ++ items.flatMap encode) := by
  induction items generalizing w data with
  | nil => simpa using hw
  | cons item items ih =>
    rw [List.foldl_cons, List.flatMap_cons, ← List.append_assoc]
    exact ih (hw.andThen (h item))

theorem writes_list {α : Type} {write : α → Writing} {encode : α → Bytes}
    (h : ∀ item, Writes (write item) (encode item)) (items : List α) :
    Writes (list write items) (Wire.list encode items) :=
  (writes_compact _).foldl h items

theorem writes_input (i : TxIn) : Writes (input i) i.encode :=
  (((writes_bytes _).andThen (writes_bytes _)).andThen (writes_blob _)).andThen (writes_bytes _)

theorem writes_output (o : TxOut) : Writes (output o) o.encode :=
  (writes_bytes _).andThen (writes_blob _)

theorem writes_transaction (tx : Transaction) : Writes (transaction tx) tx.encode :=
  (((writes_bytes _).andThen (writes_list writes_input _)).andThen
    (writes_list writes_output _)).andThen (writes_bytes _)

end Writing

/-! ## Signature hashes -/

/-- The outputs as they are hashed. -/
def hashedOutputs (outputs : List TxOut) (i : Nat) : SigHash.Selection → Checked (List TxOut)
  | .all => .ok outputs
  | .none => .ok []
  | .single => do
    let kept := outputs.take (← upTo outputs (i + 1))
    .ok ((kept.take i).map (fun output => { output with
      value := 0xffffffffffffffff
      scriptPubkey := [] }) ++ kept.drop i)

def withScript (code : Bytes) (input : TxIn) : TxIn :=
  { input with scriptSig := code }

def withoutSequence (input : TxIn) : TxIn :=
  { input with sequence := 0 }

/-- The inputs without the sequences of the others, if a hash type drops those. -/
def hashedSequences (inputs : List TxIn) (i : Nat) (choice : SigHash.Selection) : List TxIn :=
  if choice = .all then inputs
  else inputs.mapIdx fun j input => if j ≠ i then withoutSequence input else input

/-- The inputs as they are hashed. -/
def hashedInputs (inputs : List TxIn) (i : Nat) (code : Bytes) (hashType : UInt32) :
    Checked (List TxIn) := do
  let cleared := inputs.map (withScript [])
  let signed ← update cleared i (withScript code (← index cleared i))
  let hashed := hashedSequences signed i (SigHash.selection hashType)
  if SigHash.dropsOthers hashType then .ok [← index hashed i] else .ok hashed

/-- The digest that a signature for input `i` commits to. -/
def signatureHash (tx : Transaction) (i : Nat) (code : Rows) (hashType : UInt32) :
    Checked (Digest 32) :=
  if i ≥ tx.inputs.length then refuse (.invalidInput (.inputIndex i tx.inputs.length))
  else if SigHash.selection hashType = .single ∧ i ≥ tx.outputs.length then .ok SigHash.one
  else do
    let code ← withoutOpcode code (.signature .codeSeparator)
    let inputs ← hashedInputs tx.inputs i code.bytes hashType
    let outputs ← hashedOutputs tx.outputs i (SigHash.selection hashType)
    let (_, serialized) ← Writing.transaction { tx with inputs := inputs, outputs := outputs } []
    .ok (Hash.sha256d (serialized ++ Wire.word32 hashType))

theorem hashedOutputs_eq {outputs : List TxOut} {i : Nat} {choice : SigHash.Selection}
    (h : choice = .single → i < outputs.length) :
    hashedOutputs outputs i choice = .ok (SigHash.hashedOutputs i outputs choice) := by
  cases choice with
  | all => rfl
  | none => rfl
  | single =>
    rw [hashedOutputs, upTo_eq (h rfl), ok_bind]
    dsimp only
    rw [List.take_take, Nat.min_eq_left (Nat.le_succ i), List.drop_take, Nat.succ_sub (Nat.le_refl i),
      Nat.sub_self]
    rfl

theorem getElem?_signed {inputs : List TxIn} {i : Nat} (h : i < inputs.length) (code : Bytes)
    (j : Nat) :
    ((inputs.map (withScript [])).set i (withScript code (withScript [] inputs[i])))[j]? =
      inputs[j]?.map (withScript (if j = i then code else [])) := by
  by_cases hj : j = i
  · rw [hj, List.getElem?_set_self (by simpa using h), List.getElem?_eq_getElem h, if_pos rfl]
    rfl
  · rw [List.getElem?_set_ne (Ne.symm hj), List.getElem?_map, if_neg hj]

theorem hashedSequences_eq {inputs : List TxIn} {i : Nat} (h : i < inputs.length) (code : Bytes)
    (choice : SigHash.Selection) :
    hashedSequences ((inputs.map (withScript [])).set i (withScript code (withScript [] inputs[i]))) i
      choice = inputs.mapIdx (SigHash.hashedInput i code choice) := by
  refine List.ext_getElem? fun j => ?_
  unfold hashedSequences
  split
  · next all =>
    rw [getElem?_signed h, List.getElem?_mapIdx, all]
    cases inputs[j]? with
    | none => rfl
    | some input =>
      by_cases hj : j = i <;> simp [SigHash.hashedInput, withScript, hj]
  · next some =>
    rw [List.getElem?_mapIdx, getElem?_signed h, List.getElem?_mapIdx]
    cases inputs[j]? with
    | none => rfl
    | some input =>
      by_cases hj : j = i <;>
        simp [SigHash.hashedInput, withScript, withoutSequence, hj, some]

theorem hashedInputs_eq {inputs : List TxIn} {i : Nat} (h : i < inputs.length) (code : Bytes)
    (hashType : UInt32) :
    hashedInputs inputs i code hashType =
      .ok (let hashed := inputs.mapIdx (SigHash.hashedInput i code (SigHash.selection hashType))
        if SigHash.dropsOthers hashType then (hashed.drop i).take 1 else hashed) := by
  have hcleared : (inputs.map (withScript []))[i]? = some (withScript [] inputs[i]) := by
    rw [List.getElem?_map, List.getElem?_eq_getElem h]
    rfl
  rw [hashedInputs, index_eq hcleared, ok_bind, update_eq (by simpa using h), ok_bind]
  dsimp only
  rw [hashedSequences_eq h]
  split
  · rw [index_eq (List.getElem?_eq_getElem (by simpa using h)), ok_bind,
      List.drop_eq_getElem_cons (by simpa using h)]
    rfl
  · rfl

theorem signatureHash_eq {tx : Transaction} {i : Nat} (h : i < tx.inputs.length) (code : Script)
    (hashType : UInt32) :
    signatureHash tx i code.rows hashType = .ok (SigHash.digest tx i code hashType) := by
  unfold signatureHash SigHash.digest
  rw [if_neg (Nat.not_le.mpr h)]
  split
  · rfl
  · next present =>
    have houtput : SigHash.selection hashType = .single → i < tx.outputs.length := fun single =>
      Nat.not_le.mp fun absent => present ⟨single, absent⟩
    rw [withoutOpcode_eq, ok_bind, hashedInputs_eq h, ok_bind, hashedOutputs_eq houtput, ok_bind,
      Writing.writes_transaction, ok_bind]
    rfl

/-! ## Lock times -/

/-- The rule of an absolute lock time. -/
def checkLockTime (spend : Spend) (blockTime : Option UInt32) (lockTime : Int) : Checked Unit :=
  let own := spend.transaction.lockTime
  let wanted := UInt32.ofNat lockTime.toNat
  if lockTime < 0 then refuse (.structural .negativeLockTime)
  else if lockTime > 0xffffffff then refuse (.negativeVerdict .lockTimeRange)
  else if Spend.isHeight own != Spend.isHeight wanted then refuse (.negativeVerdict .lockTimeKind)
  else if wanted > own then refuse (.negativeVerdict .lockTimeEarly)
  else do
    let input ← index spend.transaction.inputs spend.index
    if input.sequence = finalSequence then refuse (.negativeVerdict .finalInput)
    else
      match blockTime with
      | some time =>
        if !Spend.isHeight wanted && own > time then refuse (.negativeVerdict .afterBlockTime)
        else .ok ()
      | none => .ok ()

/-- The rule of a relative lock time. -/
def checkSequence (spend : Spend) (sequence : Int) : Checked Unit :=
  if sequence < 0 then refuse (.structural .negativeSequence)
  else if sequence > 0xffffffff then refuse (.negativeVerdict .sequenceRange)
  else if spend.transaction.version < 2 then refuse (.negativeVerdict .sequenceVersion)
  else do
    let own := (← index spend.transaction.inputs spend.index).sequence
    let wanted := UInt32.ofNat sequence.toNat &&& Spend.sequenceMask
    let actual := own &&& Spend.sequenceMask
    if own &&& Spend.sequenceDisableBit ≠ 0 then refuse (.negativeVerdict .sequenceDisabled)
    else if wanted &&& Spend.sequenceKindBit ≠ actual &&& Spend.sequenceKindBit then
      refuse (.negativeVerdict .sequenceKind)
    else if wanted > actual then refuse (.negativeVerdict .sequenceEarly)
    else .ok ()

theorem index_input (spend : Spend) :
    index spend.transaction.inputs spend.index = .ok spend.input :=
  index_eq (List.getElem?_eq_getElem spend.index.isLt)

theorem checkLockTime_eq (spend : Spend) (blockTime : Option UInt32) (lockTime : Int) :
    checkLockTime spend blockTime lockTime = of (spend.checkLockTime blockTime lockTime) := by
  unfold checkLockTime Spend.checkLockTime
  dsimp only
  rw [index_input, ok_bind]
  cases blockTime <;> simp only [apply_ite of, of_ok, of_error]

theorem checkSequence_eq (spend : Spend) (sequence : Int) :
    checkSequence spend sequence = of (spend.checkSequence sequence) := by
  unfold checkSequence Spend.checkSequence
  rw [index_input, ok_bind]
  simp only [apply_ite of, of_ok, of_error]

end CoinScript.Checked
