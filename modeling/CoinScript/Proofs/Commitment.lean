import CoinScript.Proofs.Delimited
import CoinScript.Proofs.Removal
import CoinScript.Transaction.SigHash
/-!
# What a signature hash commits to

The digest that a signature commits to is made from a changed copy of the transaction, so two
transactions can have the same one. `SigHash.Agree` lists the fields that survive for a hash type,
and they are the only ones that matter.

* `SigHash.preimage_eq_iff`: equal preimages are equal changed copies;
* `SigHash.hashedTransaction_eq_iff`: the changed copies are equal exactly if the fields agree;
* `SigHash.commits_exactly`: both together, and what follows for the digest.
-/

namespace CoinScript

namespace SigHash

/-! ## Bits of a hash type -/

theorem selection_eq_none_iff {h : UInt32} : selection h = .none ↔ h &&& 0x1f = 2 := by
  unfold selection
  dsimp only
  split
  · next h2 => simp [h2]
  · next h2 => split <;> simp [h2]

theorem selection_eq_single_iff {h : UInt32} : selection h = .single ↔ h &&& 0x1f = 3 := by
  unfold selection
  dsimp only
  split
  · next h2 => simp [h2]
  · next h2 => split <;> simp_all

theorem selection_eq_all_iff {h : UInt32} :
    selection h = .all ↔ h &&& 0x1f ≠ 2 ∧ h &&& 0x1f ≠ 3 := by
  rw [ne_eq, ne_eq, ← selection_eq_none_iff, ← selection_eq_single_iff]
  cases selection h <;> simp

theorem dropsOthers_eq_false_iff {h : UInt32} : dropsOthers h = false ↔ h &&& 0x80 = 0 := by
  unfold dropsOthers
  simp

/-! ## Inputs -/

section Inputs

variable {index : Nat} {code code' : Bytes} {choice : Selection} {a b : TxIn}

theorem hashedInput_signed_eq_iff :
    hashedInput index code choice index a = hashedInput index code' choice index b ↔
      code = code' ∧ a.previousOutput = b.previousOutput ∧ a.sequence = b.sequence := by
  unfold hashedInput
  rw [if_pos rfl, if_pos rfl, TxIn.mk.injEq]
  exact and_left_comm

theorem hashedInput_other_eq_iff {j : Nat} (other : j ≠ index) :
    hashedInput index code choice j a = hashedInput index code' choice j b ↔
      a.previousOutput = b.previousOutput ∧ (choice = .all → a.sequence = b.sequence) := by
  unfold hashedInput
  rw [if_neg other, if_neg other, TxIn.mk.injEq]
  by_cases all : choice = .all <;> simp [all]

/-- Between two lists of inputs with the signed one inside, the outputs that they spend are always
compared, and the sequences of the others only for an "all" hash. -/
theorem mapIdx_hashedInput_eq_iff {as bs : List TxIn} (ha : index < as.length)
    (hb : index < bs.length) :
    as.mapIdx (hashedInput index code choice) = bs.mapIdx (hashedInput index code' choice) ↔
      code = code' ∧ as[index].sequence = bs[index].sequence ∧
        as.map TxIn.previousOutput = bs.map TxIn.previousOutput ∧
        (choice = .all → as.map TxIn.sequence = bs.map TxIn.sequence) := by
  simp only [@List.ext_getElem_iff TxIn, @List.ext_getElem_iff OutPoint,
    @List.ext_getElem_iff UInt32, List.length_mapIdx, List.length_map, List.getElem_mapIdx,
    List.getElem_map]
  constructor
  · rintro ⟨length, same⟩
    obtain ⟨hcode, -, sequence⟩ := hashedInput_signed_eq_iff.mp (same index ha hb)
    have each (j : Nat) (hj : j < as.length) (hj' : j < bs.length) :
        as[j].previousOutput = bs[j].previousOutput ∧
          (choice = .all → as[j].sequence = bs[j].sequence) := by
      -- The sequence of the signed input is compared in any case.
      by_cases signed : j = index
      · subst signed
        obtain ⟨-, output, sequence⟩ := hashedInput_signed_eq_iff.mp (same j hj hj')
        exact ⟨output, fun _ => sequence⟩
      · exact (hashedInput_other_eq_iff signed).mp (same j hj hj')
    exact ⟨hcode, sequence, ⟨length, fun j hj hj' => (each j hj hj').1⟩,
      fun all => ⟨length, fun j hj hj' => (each j hj hj').2 all⟩⟩
  · rintro ⟨hcode, sequence, ⟨length, outputs⟩, sequences⟩
    refine ⟨length, fun j hj hj' => ?_⟩
    by_cases signed : j = index
    · subst signed
      exact hashedInput_signed_eq_iff.mpr ⟨hcode, outputs j hj hj', sequence⟩
    · exact (hashedInput_other_eq_iff signed).mpr
        ⟨outputs j hj hj', fun all => (sequences all).2 j hj hj'⟩

theorem take_drop_mapIdx {as : List TxIn} (ha : index < as.length) (f : Nat → TxIn → TxIn) :
    ((as.mapIdx f).drop index).take 1 = [f index as[index]] := by
  rw [List.drop_eq_getElem_cons (by simpa using ha), List.take_succ_cons, List.take_zero,
    List.getElem_mapIdx]

/-- Where the other inputs are dropped, the signed one alone is compared. -/
theorem hashedInputs_eq_iff {as bs : List TxIn} (drops : Bool) (ha : index < as.length)
    (hb : index < bs.length) :
    (if drops then ((as.mapIdx (hashedInput index code choice)).drop index).take 1
      else as.mapIdx (hashedInput index code choice)) =
    (if drops then ((bs.mapIdx (hashedInput index code' choice)).drop index).take 1
      else bs.mapIdx (hashedInput index code' choice)) ↔
      code = code' ∧ as[index].previousOutput = bs[index].previousOutput ∧
        as[index].sequence = bs[index].sequence ∧
        (drops = false → as.map TxIn.previousOutput = bs.map TxIn.previousOutput ∧
          (choice = .all → as.map TxIn.sequence = bs.map TxIn.sequence)) := by
  cases drops with
  | true =>
    simp only [if_true, take_drop_mapIdx ha, take_drop_mapIdx hb, List.singleton_inj,
      hashedInput_signed_eq_iff]
    simp
  | false =>
    simp only [Bool.false_eq_true, if_false, mapIdx_hashedInput_eq_iff ha hb, true_implies]
    constructor
    · rintro ⟨hcode, sequence, outputs, sequences⟩
      have output : as[index].previousOutput = bs[index].previousOutput := by
        have := congrArg (·[index]?) outputs
        simpa [ha, hb] using this
      exact ⟨hcode, output, sequence, outputs, sequences⟩
    · rintro ⟨hcode, -, sequence, outputs, sequences⟩
      exact ⟨hcode, sequence, outputs, sequences⟩

end Inputs

/-! ## Outputs -/

theorem hashedOutputs_single_eq_iff {index : Nat} {as bs : List TxOut} (ha : index < as.length)
    (hb : index < bs.length) :
    hashedOutputs index as .single = hashedOutputs index bs .single ↔ as[index]? = bs[index]? := by
  have blanks {outputs : List TxOut} (h : index < outputs.length) :
      hashedOutputs index outputs .single =
        List.replicate index blankOutput ++ [outputs[index]] := by
    rw [hashedOutputs, List.map_const', List.length_take, Nat.min_eq_left (Nat.le_of_lt h),
      List.drop_eq_getElem_cons h, List.take_succ_cons, List.take_zero]
  rw [blanks ha, blanks hb, List.append_cancel_left_eq, List.getElem?_eq_getElem ha,
    List.getElem?_eq_getElem hb, List.singleton_inj, Option.some_inj]

theorem hashedOutputs_eq_iff {index : Nat} {as bs : List TxOut} {choice : Selection}
    (present : choice = .single → index < as.length ∧ index < bs.length) :
    hashedOutputs index as choice = hashedOutputs index bs choice ↔
      (choice = .single → as[index]? = bs[index]?) ∧ (choice = .all → as = bs) := by
  cases choice with
  | all => simp [hashedOutputs]
  | none => simp [hashedOutputs]
  | single => simp [hashedOutputs_single_eq_iff (present rfl).1 (present rfl).2]

/-! ## Transactions -/

/-- The fields that count for the digest of input `index` under a hash type agree. The low five bits
of the hash type select outputs (2 for none, 3 for the one at the place of the input, anything
else for all of them), and the bit `80` drops the other inputs. -/
structure Agree (index : Nat) (tx tx' : Transaction) (code code' : Script) (hashType : UInt32) :
    Prop where
  version : tx.version = tx'.version
  lockTime : tx.lockTime = tx'.lockTime
  code : (code.tokens.filter fun t => t.instruction ≠ .op (.signature .codeSeparator)) =
    code'.tokens.filter fun t => t.instruction ≠ .op (.signature .codeSeparator)
  outpoint : tx.inputs[index]?.map TxIn.previousOutput = tx'.inputs[index]?.map TxIn.previousOutput
  sequence : tx.inputs[index]?.map TxIn.sequence = tx'.inputs[index]?.map TxIn.sequence
  outpoints : hashType &&& 0x80 = 0 →
    tx.inputs.map TxIn.previousOutput = tx'.inputs.map TxIn.previousOutput
  sequences : hashType &&& 0x80 = 0 → hashType &&& 0x1f ≠ 2 → hashType &&& 0x1f ≠ 3 →
    tx.inputs.map TxIn.sequence = tx'.inputs.map TxIn.sequence
  output : hashType &&& 0x1f = 3 → tx.outputs[index]? = tx'.outputs[index]?
  outputs : hashType &&& 0x1f ≠ 2 → hashType &&& 0x1f ≠ 3 → tx.outputs = tx'.outputs

section Transactions

variable {tx tx' : Transaction} {index : Nat} {code code' : Script} {hashType : UInt32}

/-- The changed copies are equal exactly if the fields agree. -/
theorem hashedTransaction_eq_iff (hcode : code.Valid) (hcode' : code'.Valid)
    (inside : index < tx.inputs.length) (inside' : index < tx'.inputs.length)
    (present : hashType &&& 0x1f = 3 → index < tx.outputs.length ∧ index < tx'.outputs.length) :
    hashedTransaction tx index code hashType = hashedTransaction tx' index code' hashType ↔
      Agree index tx tx' code code' hashType := by
  have codes : (code.withoutOpcode (.signature .codeSeparator)).bytes =
      (code'.withoutOpcode (.signature .codeSeparator)).bytes ↔
      (code.tokens.filter fun t => t.instruction ≠ .op (.signature .codeSeparator)) =
        code'.tokens.filter fun t => t.instruction ≠ .op (.signature .codeSeparator) := by
    rw [← Script.mk.injEq, ← Script.withoutOpcode_eq_filter, ← Script.withoutOpcode_eq_filter]
    exact ⟨(hcode.withoutOpcode _).eq_of_bytes_eq (hcode'.withoutOpcode _), congrArg _⟩
  unfold hashedTransaction
  simp only [Transaction.mk.injEq]
  rw [hashedInputs_eq_iff _ inside inside',
    hashedOutputs_eq_iff fun single => present (selection_eq_single_iff.mp single), codes]
  simp only [selection_eq_single_iff, selection_eq_all_iff, dropsOthers_eq_false_iff]
  constructor
  · rintro ⟨version, lockTime, ⟨hcode, outpoint, sequence, others⟩, output, outputs⟩
    exact {
      version := version
      lockTime := lockTime
      code := hcode
      outpoint := by simp [inside, inside', outpoint]
      sequence := by simp [inside, inside', sequence]
      outpoints := fun keeps => (others keeps).1
      sequences := fun keeps notNone notSingle => (others keeps).2 ⟨notNone, notSingle⟩
      output := output
      outputs := fun notNone notSingle => outputs ⟨notNone, notSingle⟩ }
  · intro agree
    refine ⟨agree.version, agree.lockTime, ⟨agree.code, ?_, ?_, fun keeps => ⟨agree.outpoints keeps,
      fun all => agree.sequences keeps all.1 all.2⟩⟩, agree.output,
      fun all => agree.outputs all.1 all.2⟩
    · simpa [inside, inside'] using agree.outpoint
    · simpa [inside, inside'] using agree.sequence

/-! ## Preimages -/

theorem mem_hashedOutputs {outputs : List TxOut} {choice : Selection} {output : TxOut}
    (h : output ∈ hashedOutputs index outputs choice) :
    output = blankOutput ∨ output ∈ outputs := by
  cases choice with
  | all => exact .inr h
  | none => cases h
  | single =>
    rcases List.mem_append.mp h with blank | selected
    · obtain ⟨_, -, rfl⟩ := List.mem_map.mp blank
      exact .inl rfl
    · exact .inr (List.mem_of_mem_drop (List.mem_of_mem_take selected))

theorem length_hashedOutputs_le (outputs : List TxOut) (choice : Selection) :
    (hashedOutputs index outputs choice).length ≤ outputs.length := by
  cases choice with
  | all => exact Nat.le_refl _
  | none => exact Nat.zero_le _
  | single =>
    simp only [hashedOutputs, List.length_append, List.length_map, List.length_take,
      List.length_drop]
    omega

theorem length_scriptSig_hashedInput_le (code : Bytes) (choice : Selection) (j : Nat)
    (input : TxIn) : (hashedInput index code choice j input).scriptSig.length ≤ code.length := by
  unfold hashedInput
  split
  · exact Nat.le_refl _
  · exact Nat.zero_le _

/-- The changed copy is no larger than the transaction, apart from the script in it. -/
theorem fits_hashedTransaction (fits : tx.Fits) (hcode : code.Valid) :
    (hashedTransaction tx index code hashType).Fits := by
  have short := (hcode.withoutOpcode (.signature .codeSeparator)).size_le
  have kept {input : TxIn} (h : input ∈ (hashedTransaction tx index code hashType).inputs) :
      input ∈ tx.inputs.mapIdx (hashedInput index
        (code.withoutOpcode (.signature .codeSeparator)).bytes (selection hashType)) := by
    unfold hashedTransaction at h
    dsimp only at h
    split at h
    · exact List.mem_of_mem_drop (List.mem_of_mem_take h)
    · exact h
  refine ⟨?_, ?_, ?_, ?_⟩
  · have := fits.inputs
    unfold hashedTransaction
    dsimp only
    split
    · simp only [List.length_take, List.length_drop, List.length_mapIdx]
      omega
    · rwa [List.length_mapIdx]
  · exact Nat.lt_of_le_of_lt (length_hashedOutputs_le _ _) fits.outputs
  · intro input h
    obtain ⟨j, hj, rfl⟩ := List.mem_mapIdx.mp (kept h)
    refine Nat.lt_of_le_of_lt (length_scriptSig_hashedInput_le _ _ _ _) ?_
    exact Nat.lt_of_le_of_lt short (by decide)
  · intro output h
    rcases mem_hashedOutputs h with rfl | h
    · decide
    · exact fits.scriptPubkey output h

/-- Equal preimages are equal changed copies under equal hash types: the hash type stands behind a
wire form, which tells where it ends. -/
theorem preimage_eq_iff {hashType' : UInt32} (fits : tx.Fits) (fits' : tx'.Fits)
    (hcode : code.Valid) (hcode' : code'.Valid) :
    preimage tx index code hashType = preimage tx' index code' hashType' ↔
      hashedTransaction tx index code hashType = hashedTransaction tx' index code' hashType' ∧
        hashType = hashType' := by
  constructor
  · intro same
    obtain ⟨copies, words⟩ := Transaction.delimited_encode (fits_hashedTransaction fits hcode)
      (fits_hashedTransaction fits' hcode') same
    have words : Wire.word32 hashType ++ [] = Wire.word32 hashType' ++ [] := by
      rw [words]
    exact ⟨copies, (Wire.delimited_word32 trivial trivial words).1⟩
  · rintro ⟨copies, rfl⟩
    rw [preimage, preimage, copies]

end Transactions

end SigHash

/-! ## Digests -/

/-- The transaction without the scripts of its inputs. -/
def Transaction.unsigned (tx : Transaction) : Transaction :=
  { tx with inputs := tx.inputs.map fun input => { input with scriptSig := [] } }

namespace SigHash

variable {tx tx' : Transaction} {index : Nat} {code code' : Script} {hashType : UInt32}

theorem hashedInput_unsigned (index : Nat) (code : Bytes) (choice : Selection) (j : Nat)
    (input : TxIn) :
    hashedInput index code choice j { input with scriptSig := [] } =
      hashedInput index code choice j input := by
  unfold hashedInput
  split <;> rfl

/-- The scripts of the inputs do not count. -/
theorem digest_unsigned (tx : Transaction) (index : Nat) (code : Script) (hashType : UInt32) :
    digest tx.unsigned index code hashType = digest tx index code hashType := by
  have inputs (code : Bytes) (choice : Selection) :
      tx.unsigned.inputs.mapIdx (hashedInput index code choice) =
        tx.inputs.mapIdx (hashedInput index code choice) := by
    refine List.ext_getElem? fun j => ?_
    rw [List.getElem?_mapIdx, List.getElem?_mapIdx, Transaction.unsigned, List.getElem?_map,
      Option.map_map]
    exact congrArg (Option.map · _) (funext fun input => hashedInput_unsigned ..)
  have copies : hashedTransaction tx.unsigned index code hashType =
      hashedTransaction tx index code hashType := by
    unfold hashedTransaction
    simp only [inputs]
    rfl
  unfold digest preimage
  rw [copies]
  rfl

theorem digest_of_present (h : ¬ (hashType &&& 0x1f = 3 ∧ tx.outputs.length ≤ index)) :
    digest tx index code hashType = Hash.sha256d (preimage tx index code hashType) := by
  rw [← selection_eq_single_iff] at h
  exact if_neg h

theorem digest_of_missing (h : hashType &&& 0x1f = 3 ∧ tx.outputs.length ≤ index) :
    digest tx index code hashType = one := by
  rw [← selection_eq_single_iff] at h
  exact if_pos h

/-- Nothing but the fields that count decides on the digest. -/
theorem digest_of_agree (hcode : code.Valid) (hcode' : code'.Valid)
    (inside : index < tx.inputs.length) (inside' : index < tx'.inputs.length)
    (agree : Agree index tx tx' code code' hashType) :
    digest tx index code hashType = digest tx' index code' hashType := by
  -- If the selected output is missing in one of the transactions, it is in the other, too.
  by_cases missing : hashType &&& 0x1f = 3 ∧ tx.outputs.length ≤ index
  · have missing' : tx'.outputs.length ≤ index := by
      rw [← List.getElem?_eq_none_iff, ← agree.output missing.1, List.getElem?_eq_none_iff]
      exact missing.2
    rw [digest_of_missing missing, digest_of_missing ⟨missing.1, missing'⟩]
  · have present (single : hashType &&& 0x1f = 3) :
        index < tx.outputs.length ∧ index < tx'.outputs.length := by
      have inside : index < tx.outputs.length :=
        Nat.lt_of_not_le fun outside => missing ⟨single, outside⟩
      refine ⟨inside, Nat.lt_of_not_le fun outside => ?_⟩
      rw [← List.getElem?_eq_none_iff, ← agree.output single, List.getElem?_eq_none_iff] at outside
      exact Nat.not_le_of_lt inside outside
    have missing' : ¬ (hashType &&& 0x1f = 3 ∧ tx'.outputs.length ≤ index) :=
      fun ⟨single, outside⟩ => Nat.not_le_of_lt (present single).2 outside
    rw [digest_of_present missing, digest_of_present missing', preimage, preimage,
      (hashedTransaction_eq_iff hcode hcode' inside inside' present).mpr agree]

/-- A signature hash commits to exactly the fields that agree. Unless a "single" hash has no output
to select, the digest is the double hash of a preimage, and two preimages are equal exactly if the
hash types are equal and the fields that count for them agree. The digest depends on these fields
alone, and so not on the scripts of the inputs. -/
theorem commits_exactly (fits : tx.Fits) (fits' : tx'.Fits) (inside : index < tx.inputs.length)
    (inside' : index < tx'.inputs.length) (built : code.Built) (built' : code'.Built)
    (h h' : UInt32) :
    (¬ (h &&& 0x1f = 3 ∧ tx.outputs.length ≤ index) →
      tx.signatureHash index code h = .ok (Hash.sha256d (preimage tx index code h))) ∧
    (h &&& 0x1f = 3 ∧ tx.outputs.length ≤ index → tx.signatureHash index code h = .ok one) ∧
    ((h &&& 0x1f = 3 ∨ h' &&& 0x1f = 3 →
        index < tx.outputs.length ∧ index < tx'.outputs.length) →
      (preimage tx index code h = preimage tx' index code' h' ↔
        h = h' ∧ Agree index tx tx' code code' h)) ∧
    (h = h' → Agree index tx tx' code code' h →
      tx.signatureHash index code h = tx'.signatureHash index code' h') ∧
    tx.unsigned.signatureHash index code h = tx.signatureHash index code h := by
  have answers {tx : Transaction} (inside : index < tx.inputs.length) (code : Script) (h : UInt32) :
      tx.signatureHash index code h = .ok (digest tx index code h) := if_pos inside
  refine ⟨fun present => ?_, fun missing => ?_, fun present => ?_, ?_, ?_⟩
  · rw [answers inside, digest_of_present present]
  · rw [answers inside, digest_of_missing missing]
  · rw [preimage_eq_iff fits fits' built.valid built'.valid, and_comm]
    refine and_congr_right ?_
    rintro rfl
    exact hashedTransaction_eq_iff built.valid built'.valid inside inside'
      fun single => present (.inl single)
  · rintro rfl agree
    rw [answers inside, answers inside',
      digest_of_agree built.valid built'.valid inside inside' agree]
  · rw [answers inside, answers (by simpa [Transaction.unsigned] using inside), digest_unsigned]

/-- For a "single" hash that drops the other inputs, transactions that share one input and the
output at its place have the same preimage, and a separator in the code does not count. If the other
inputs are kept, the outputs that they spend tell the transactions apart. -/
theorem commits_exactly_single :
    let spent (b : UInt8) : OutPoint := ⟨.replicate 32 b, 0⟩
    let shared : TxOut := ⟨20, [0x51]⟩
    let tx : Transaction :=
      ⟨1, 0, [⟨spent 1, [], 5⟩, ⟨spent 2, [0x51], 7⟩], [⟨10, []⟩, shared]⟩
    let tx' : Transaction :=
      ⟨1, 0, [⟨spent 3, [], 6⟩, ⟨spent 2, [], 7⟩], [⟨11, []⟩, shared, ⟨30, []⟩]⟩
    let code : Script := ⟨[.op (.signature .codeSeparator), .op (.signature .checkSig)]⟩
    let code' : Script := ⟨[.op (.signature .checkSig)]⟩
    preimage tx 1 code 0x83 = preimage tx' 1 code' 0x83 ∧
      preimage tx 1 code 0x03 ≠ preimage tx' 1 code' 0x03 := by
  intro spent shared tx tx' code code'
  have fits : tx.Fits := ⟨by decide, by decide, by decide, by decide⟩
  have fits' : tx'.Fits := ⟨by decide, by decide, by decide, by decide⟩
  have built : code.Built := .parse (show Script.parse [0xab, 0xac] = _ by decide +kernel)
  have built' : code'.Built := .parse (show Script.parse [0xac] = _ by decide +kernel)
  have commits :=
    @commits_exactly tx tx' 1 code code' fits fits' (by decide) (by decide) built built'
  refine ⟨?_, fun same => ?_⟩
  · refine ((commits 0x83 0x83).2.2.1 fun _ => by decide).mpr ⟨rfl, ?_⟩
    exact ⟨rfl, rfl, by decide, rfl, rfl, by decide, by decide, fun _ => rfl, by decide⟩
  · obtain ⟨-, agree⟩ := ((commits 0x03 0x03).2.2.1 fun _ => by decide).mp same
    exact absurd (agree.outpoints (by decide)) (by decide)

end SigHash

end CoinScript
