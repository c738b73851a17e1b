import CoinScript.Proofs.SignedInput
/-!
# Signing payments to keys

A payment to the hash of a key can be spent with a signature of that key and in no other way. The
inputs of a transaction that spend such payments can be signed one after the other, in any order. A
call leaves what was signed before in place, and fills in a script that the digests of the other
inputs do not depend on.

* `Exec.satisfies_payToPubkeyHash_iff`: the stacks that satisfy a payment to the hash of a key;
* `Machine.payToPubkeyHash_spent_by_key`: the spends that it authorizes;
* `Signer.signPubkeyHash_eq`: one call;
* `Signer.signEach_fills`: a row of calls;
* `Machine.signed_in_any_order`: the signed transaction is authorized.
-/

namespace CoinScript

/-! ## The locking script -/

namespace Script

theorem isPayToPubkeyHash_payToPubkeyHash (hash : Digest 20) :
    (payToPubkeyHash hash).isPayToPubkeyHash = true := by
  rw [isPayToPubkeyHash, bytes_payToPubkeyHash]
  simp [hash.length_bytes]

theorem isPayToScriptHash_payToPubkeyHash (hash : Digest 20) :
    (payToPubkeyHash hash).isPayToScriptHash = false := by
  rw [isPayToScriptHash, bytes_payToPubkeyHash]
  simp [hash.length_bytes]

/-- The script pushes its hash and nothing else. -/
theorem deletePush_payToPubkeyHash {hash : Digest 20} {data : Bytes} (long : 20 < data.length)
    (short : data.length ≤ maxItemSize) :
    (payToPubkeyHash hash).deletePush data = payToPubkeyHash hash := by
  refine (valid_payToPubkeyHash hash).deletePush_eq_self short fun pushed => ?_
  have same : data = hash.bytes := by
    simpa [instructions, payToPubkeyHash, Token.minimalPush, Token.instruction] using pushed
  rw [same, hash.length_bytes] at long
  exact Nat.lt_irrefl 20 long

/-- Without a payload the other instructions are left, and it can be the hash that goes. -/
theorem deletePush_payToPubkeyHash_eq_filter (hash : Digest 20) (data : Bytes) :
    (payToPubkeyHash hash).deletePush data =
      ⟨(payToPubkeyHash hash).tokens.filter fun t => t.instruction ≠ .push data⟩ := by
  have push : (Token.minimalPush hash.bytes).Direct :=
    Token.direct_minimalPush (by rw [hash.length_bytes]; decide)
  refine (valid_payToPubkeyHash hash).deletePush_eq_filter_push ?_ data
  simp only [payToPubkeyHash, List.forall_mem_cons]
  exact ⟨trivial, trivial, push, trivial, trivial, List.forall_mem_nil _⟩

end Script

/-- A payment to the hash of a key asks for the key and a signature. -/
theorem Exec.satisfies_payToPubkeyHash_iff {env : Env} {hash : Digest 20} {stack : List Bytes}
    (room : stack.length ≤ 998) :
    Satisfies env (Script.payToPubkeyHash hash) stack ↔
      ∃ key signature rest, stack = key :: signature :: rest ∧ Hash.hash160 key = hash ∧
        env.signatureAnswer signature key ((Script.payToPubkeyHash hash).deletePush signature) =
          .ok true := by
  rw [satisfies_iff_reaches (Script.valid_payToPubkeyHash hash).size_le]
  exact reaches_owner rfl (by decide) (by decide) (Nat.add_le_add_right room 2) fun _ _ => Iff.rfl

namespace Machine

/-- A payment to the hash of a key is spent by that key and no other. If the unlocking script leaves
a stack with room for two more items, the locking script accepts it exactly if it holds, above
anything, a signature and a key with the hash, and the signature is one of the key for the locking
script without the pushes of the signature. -/
theorem payToPubkeyHash_spent_by_key {m : Machine} {c : Context} {hash : Digest 20}
    {unlock : Script} {stack : List Bytes} (leaves : m.Leaves unlock c stack)
    (room : stack.length ≤ 998) :
    (m.verify (.payToPubkeyHash hash) unlock c).1 = .ok true ↔
      ∃ key signature rest, stack = key :: signature :: rest ∧ Hash.hash160 key = hash ∧
        (m.perform c fun env => Exec.checkSignature env signature key
          ⟨(Script.payToPubkeyHash hash).tokens.filter fun t =>
            t.instruction ≠ .push signature⟩).1 = .ok true := by
  rw [verify_iff_satisfies (Script.isPayToScriptHash_payToPubkeyHash hash) leaves,
    Exec.satisfies_payToPubkeyHash_iff room]
  simp only [Script.deletePush_payToPubkeyHash_eq_filter, perform_checkSignature_iff]

/-- A signature that is the hash of the key is checked for a script without the hash. With the same
signature another key is refused. -/
theorem payToPubkeyHash_spent_by_key_bare :
    let key : Bytes := 0x02 :: List.replicate 32 0x11
    let hash : Digest 20 := Hash.hash160 key
    let lock : Script := .payToPubkeyHash hash
    let bare : Script := ⟨[.op (.stack (.shuffle .dup)), .op (.hash .hash160), .op .equalVerify,
      .op (.signature .checkSig)]⟩
    let unlock (key : Bytes) : Script := ⟨[hash.bytes, key].map .minimalPush⟩
    let tx : Transaction := ⟨1, 0, [⟨⟨.replicate 32 1, 0⟩, [], 0⟩], []⟩
    let spend : Spend := ⟨tx, ⟨0, by decide⟩, .ofScript 1 lock⟩
    let m : Machine := { flags := Flags.none }
    let c : Context := .ofSpend spend .none fun digest _ _ _ =>
      .ok (digest = spend.signatureHash bare (hash.bytes.getLastD 0).toUInt32)
    (m.verify lock (unlock key) c).1 = .ok true ∧
      (m.verify lock (unlock [0x02]) c).1 ≠ .ok true := by
  intro key hash lock bare unlock tx spend m c
  refine ⟨?_, fun spent => ?_⟩
  · have removed : Script.mk (lock.tokens.filter fun t => t.instruction ≠ .push hash.bytes) =
        bare := by
      decide +kernel
    refine (payToPubkeyHash_spent_by_key ⟨rfl, rfl⟩ (by decide)).mpr
      ⟨key, hash.bytes, [], rfl, rfl, ?_⟩
    obtain empty | ⟨der, hashType, split⟩ := hash.bytes.eq_nil_or_concat'
    · exact absurd (hash.length_bytes.symm.trans (congrArg List.length empty)) (by decide)
    have free : SignatureEncoding.checkSignature Flags.none (der ++ [hashType]) = .ok () := by
      simp [SignatureEncoding.checkSignature, Flags.none]
    rw [removed, perform_checkSignature_iff, split, Env.signatureAnswer_concat rfl free rfl]
    show Except.ok (decide (_ = spend.signatureHash bare (hash.bytes.getLastD 0).toUInt32)) = _
    rw [split, List.getLastD_concat, decide_eq_true rfl]
  · obtain ⟨key', signature, rest, h, same, _⟩ :=
      (payToPubkeyHash_spent_by_key ⟨rfl, rfl⟩ (by decide)).mp spent
    cases h
    exact absurd same (by decide +kernel)

end Machine

/-! ## Payments to keys -/

/-- A payment to a key, and the hash type with which it is signed for. -/
structure KeyPayment where
  key : SigningKey
  value : UInt64
  hashType : SigHashType

namespace KeyPayment

/-- The locking script of the payment. -/
def lock (p : KeyPayment) : Script :=
  .payToPubkeyHash (Hash.hash160 p.key.publicKeyBytes)

/-- The output that is spent. -/
def output (p : KeyPayment) : TxOut :=
  .ofScript p.value p.lock

/-- The unlocking script for the payment at an input. -/
def unlock (p : KeyPayment) (signer : Signer) (tx : Transaction) (index : Nat) : Script :=
  .ofItems [signer.signature tx index p.lock p.key p.hashType, p.key.publicKeyBytes]

theorem short_items {p : KeyPayment} {signer : Signer} {m : Machine}
    (reliable : signer.Reliable m p.key) (tx : Transaction) (index : Nat) :
    ∀ item ∈ [signer.signature tx index p.lock p.key p.hashType, p.key.publicKeyBytes],
      item.length ≤ maxItemSize := by
  have signature := reliable.length_signature tx index p.lock p.hashType
  have key : p.key.publicKeyBytes.length = 33 := p.key.publicKey.serialize.length_bytes
  simp only [List.forall_mem_cons]
  exact ⟨Nat.le_trans signature (by decide), key ▸ by decide, by simp⟩

end KeyPayment

namespace Signer

/-- Sign inputs one after the other, each for the payment that stands with it. -/
def signEach (signer : Signer) (tx : Transaction) (calls : List (KeyPayment × Nat)) :
    Logged Transaction :=
  calls.foldlM (fun tx call =>
    signer.signPubkeyHash tx call.2 call.1.output call.1.key call.1.hashType) tx

/-- One call fills in the script of its input, if there is such an input. -/
theorem signPubkeyHash_eq {signer : Signer} {m : Machine} {p : KeyPayment}
    (reliable : signer.Reliable m p.key) {tx : Transaction} {index : Nat}
    (inside : index < tx.inputs.length) (log : List LogRecord) :
    ∃ log', signer.signPubkeyHash tx index p.output p.key p.hashType log =
      .ok (withScriptSig tx index (p.unlock signer tx index).bytes) log' := by
  have hlock : p.output.lockScript = .ok p.lock := (Script.valid_payToPubkeyHash _).parse_bytes
  have shape : p.lock.isPayToPubkeyHash = true := Script.isPayToPubkeyHash_payToPubkeyHash _
  obtain ⟨log', hsign⟩ := signInput_eq signer p.lock p.key p.hashType inside log
  have hunlock : Unlock.pubkeyHash (signer.signature tx index p.lock p.key p.hashType)
      p.key.publicKeyBytes = .ok (p.unlock signer tx index) := by
    have short := KeyPayment.short_items reliable tx index
    have room := (Script.valid_ofItems short (Nat.le_add_left 2 17)).size_le
    exact (Script.foldlM_appendData_eq_ok_iff (Nat.zero_le _)).mpr ⟨short, room, rfl⟩
  refine ⟨log', ?_⟩
  unfold signPubkeyHash
  rw [hlock, Logged.bind_of_ok (show Logged.lift (.ok p.lock) log = .ok p.lock log from rfl),
    if_neg (by rw [shape]; decide)]
  dsimp only
  rw [Logged.bind_of_ok hsign, hunlock]
  rfl

/-- A row of calls on different inputs. Whatever their order, every input is filled in with what the
first state of the transaction gives for it, and nothing else changes. -/
theorem signEach_fills {signer : Signer} {m : Machine} {calls : List (KeyPayment × Nat)}
    (different : (calls.map Prod.snd).Nodup)
    (reliable : ∀ call ∈ calls, signer.Reliable m call.1.key)
    {tx : Transaction} (inside : ∀ call ∈ calls, call.2 < tx.inputs.length) (log : List LogRecord) :
    ∃ signed log', signer.signEach tx calls log = .ok signed log' ∧
      signed.unsigned = tx.unsigned ∧
      (∀ i ∉ calls.map Prod.snd, signed.inputs[i]? = tx.inputs[i]?) ∧
      ∀ call ∈ calls, signed.inputs[call.2]?.map TxIn.scriptSig =
        some (call.1.unlock signer tx call.2).bytes := by
  induction calls generalizing tx log with
  | nil => exact ⟨tx, log, rfl, rfl, fun _ _ => rfl, by simp⟩
  | cons call calls ih =>
    obtain ⟨p, index⟩ := call
    rw [List.map_cons, List.nodup_cons] at different
    rw [List.forall_mem_cons] at reliable inside
    obtain ⟨log₁, first⟩ := signPubkeyHash_eq reliable.1 inside.1 log
    -- The calls that follow sign the digests of the first state: the script that is filled in here
    -- does not enter them.
    have same := unsigned_withScriptSig tx index (p.unlock signer tx index).bytes
    have inside' : ∀ call ∈ calls,
        call.2 < (withScriptSig tx index (p.unlock signer tx index).bytes).inputs.length := by
      rw [length_withScriptSig]
      exact inside.2
    obtain ⟨signed, log', rest, unsigned, others, filled⟩ := ih different.2 reliable.2 inside' log₁
    refine ⟨signed, log', ?_, unsigned.trans same, ?_, ?_⟩
    · unfold signEach
      rw [List.foldlM_cons, Logged.bind_of_ok first]
      exact rest
    · intro i hi
      rw [List.map_cons, List.mem_cons, not_or] at hi
      rw [others i hi.2, getElem?_withScriptSig, if_neg (Ne.symm hi.1)]
    · rw [List.forall_mem_cons]
      refine ⟨?_, fun call h => ?_⟩
      · rw [others index different.1, getElem?_withScriptSig, if_pos rfl,
          List.getElem?_eq_getElem inside.1]
        rfl
      · rw [filled call h, KeyPayment.unlock, signature_congr signer same]
        rfl

end Signer

/-! ## The signed transaction -/

namespace Machine

/-- An input that is filled in with the script of its payment is authorized. -/
theorem result_of_payment {m : Machine} {signer : Signer} {p : KeyPayment}
    (reliable : signer.Reliable m p.key) (long : ∀ digest (hashType : SigHashType),
      20 < (signer.sign p.key.secret digest ++ [hashType.code]).length)
    {tx signed : Transaction} {index : Nat} (inside : index < signed.inputs.length)
    (same : signed.unsigned = tx.unsigned)
    (filled : signed.inputs[index].scriptSig = (p.unlock signer tx index).bytes)
    (blockTime : UInt32) :
    (m.verifyTransaction signed index p.output blockTime).result = .ok true := by
  have short := KeyPayment.short_items reliable tx index
  have few : [signer.signature tx index p.lock p.key p.hashType,
      p.key.publicKeyBytes].length ≤ 19 := Nat.le_add_left 2 17
  have hlock : p.lock.Valid := Script.valid_payToPubkeyHash _
  rw [KeyPayment.output, result_of_scripts inside (Script.valid_ofItems short few) hlock filled]
  have leaves : m.Leaves (p.unlock signer tx index)
      (m.contextOf blockTime ⟨signed, ⟨index, inside⟩, .ofScript p.value p.lock⟩)
      [p.key.publicKeyBytes, signer.signature tx index p.lock p.key p.hashType] :=
    leaves_iff.mpr (Exec.leaves_ofItems short few (show 0 + 2 ≤ maxStackSize by decide))
  have kept : p.lock.deletePush (signer.signature tx index p.lock p.key p.hashType) = p.lock :=
    Script.deletePush_payToPubkeyHash (long _ _) (short _ List.mem_cons_self)
  refine (verify_iff_satisfies (Script.isPayToScriptHash_payToPubkeyHash _) leaves).mpr ?_
  refine (Exec.satisfies_payToPubkeyHash_iff ?_).mpr ⟨_, _, [], rfl, rfl, ?_⟩
  · exact (by decide : 2 ≤ 998)
  · rw [← KeyPayment.lock, kept]
    exact (reliable.signatureAnswer_signature inside same p.lock p.hashType
      (SignatureEncoding.isStandardKey_publicKeyBytes p.key) _ _).trans (reliable.accepted _)

/-- Signing the inputs in any order gives an authorized transaction. The calls are one for each
input, which spends a payment to the hash of its key; every hash type will do, also a "single" hash
without an output to select. -/
theorem signed_in_any_order {m : Machine} {signer : Signer} {payments : List KeyPayment}
    (reliable : ∀ p ∈ payments, signer.Reliable m p.key)
    (long : ∀ p ∈ payments, ∀ digest (hashType : SigHashType),
      20 < (signer.sign p.key.secret digest ++ [hashType.code]).length)
    {tx : Transaction} (count : payments.length = tx.inputs.length)
    {calls : List (KeyPayment × Nat)} (order : calls.Perm payments.zipIdx) (log : List LogRecord)
    (blockTime : UInt32) :
    ∃ signed log' verdicts, signer.signEach tx calls log = .ok signed log' ∧
      m.verifyInputs signed (payments.map KeyPayment.output) blockTime = .ok verdicts ∧
      verdicts.length = tx.inputs.length ∧ ∀ verdict ∈ verdicts, verdict.result = .ok true := by
  have place {p : KeyPayment} {i : Nat} : (p, i) ∈ calls ↔ payments[i]? = some p := by
    rw [order.mem_iff, List.mem_zipIdx_iff_getElem?]
  have different : (calls.map Prod.snd).Nodup := by
    rw [(order.map Prod.snd).nodup_iff, List.zipIdx_map_snd]
    exact List.nodup_range'
  have inside : ∀ call ∈ calls, call.2 < tx.inputs.length := by
    rintro ⟨p, i⟩ h
    rw [← count]
    exact (List.getElem?_eq_some_iff.mp (place.mp h)).1
  obtain ⟨signed, log', hsign, unsigned, _, filled⟩ := Signer.signEach_fills different
    (fun call h => reliable call.1 (List.mem_of_getElem? (place.mp h))) inside log
  have length : signed.inputs.length = tx.inputs.length := by
    have := congrArg (fun tx => tx.inputs.length) unsigned
    simpa [Transaction.unsigned] using this
  have verified : m.verifyInputs signed (payments.map KeyPayment.output) blockTime =
      .ok ((payments.map KeyPayment.output).mapIdx fun i output =>
        m.verifyTransaction signed i output blockTime) := by
    rw [verifyInputs, if_neg]
    rw [List.length_map, count, length, not_not]
  refine ⟨signed, log', _, hsign, verified, by rw [List.length_mapIdx, List.length_map, count], ?_⟩
  intro verdict hverdict
  obtain ⟨i, hi, rfl⟩ := List.mem_mapIdx.mp hverdict
  rw [List.getElem_map]
  rw [List.length_map] at hi
  have hp : payments[i]? = some payments[i] := List.getElem?_eq_getElem hi
  have mem : payments[i] ∈ payments := List.getElem_mem hi
  have inside : i < signed.inputs.length := by rw [length, ← count]; exact hi
  refine result_of_payment (reliable _ mem) (long _ mem) inside unsigned ?_ blockTime
  have hfilled := filled (payments[i], i) (place.mpr hp)
  rw [List.getElem?_eq_getElem inside] at hfilled
  exact Option.some_inj.mp hfilled

/-- Two payments to the key with the number one, of which the second is signed for first, and with a
hash that has no output to select. The signatures are those of this key on the two digests. -/
theorem signed_in_any_order_backwards :
    let key : SigningKey := ⟨⟨1, by decide, by decide⟩,
      ⟨55066263022277343669578718895168534326250603453777594175500187360389116729240,
        32670510020758816978083085130507043184471273380659243275938904335757337482424⟩⟩
    let sign : SecretKey → Digest 32 → Bytes := fun _ digest =>
      if digest = SigHash.one then Signature.toDer
        ⟨14295053964488743090340009838833186193957205491298546148700052350175735655842,
          53702227138552287259693019760212862889964200041204618244447180713670853374380⟩
      else Signature.toDer
        ⟨111353955466490149479330892245859665632136079104663072383883585157098216540762,
          39029649583352746439876478545989962221903606612419967273603486417009126782957⟩
    let signer : Signer := ⟨.mainnet, sign⟩
    let m : Machine := {
      flags := .standard
      checker := fun digest der other _ =>
        .ok (der = sign key.secret digest ∧ other = key.publicKeyBytes) }
    let first : KeyPayment := ⟨key, 5, .all⟩
    let second : KeyPayment := ⟨key, 6, .single⟩
    let tx : Transaction := ⟨1, 0, [⟨⟨.replicate 32 1, 0⟩, [], 0⟩, ⟨⟨.replicate 32 2, 0⟩, [], 0⟩],
      [⟨10, [0x51]⟩]⟩
    ∃ signed log verdicts, signer.signEach tx [(second, 1), (first, 0)] [] = .ok signed log ∧
      m.verifyInputs signed [first.output, second.output] 0 = .ok verdicts ∧
      verdicts.length = 2 ∧ ∀ verdict ∈ verdicts, verdict.result = .ok true := by
  intro key sign signer m first second tx
  have reliable : signer.Reliable m key := by
    refine ⟨fun digest hashType => ?_, fun digest => ?_, fun digest => ?_⟩
    · show SignatureEncoding.isStrictDer ((if digest = SigHash.one then _ else _) ++ _) = true
      split <;> cases hashType <;> decide +kernel
    · show SignatureEncoding.isLowDer (if digest = SigHash.one then _ else _) = true
      split <;> decide +kernel
    · show Except.ok (decide (_ ∧ _)) = .ok true
      rw [decide_eq_true ⟨rfl, rfl⟩]
  have long (digest : Digest 32) (hashType : SigHashType) :
      20 < (signer.sign key.secret digest ++ [hashType.code]).length := by
    show 20 < ((if digest = SigHash.one then _ else _) ++ _ : Bytes).length
    split <;> cases hashType <;> decide +kernel
  have payments : ∀ p ∈ [first, second], p.key = key := by
    simp [first, second]
  have count : [first, second].length = tx.inputs.length := rfl
  exact signed_in_any_order (fun p h => payments p h ▸ reliable) (fun p h => payments p h ▸ long)
    count (.swap ..) [] 0

end Machine

end CoinScript
