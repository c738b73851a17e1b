import CoinScript.Proofs.KeyHashSigning
/-!
# Scripts that carry a hash

A payment to a key and a payment to a script both carry a hash of 20 bytes, and one function reads
it out of either. The shapes look at a few bytes only. That is enough, since the bytes of a valid
script determine it, so no other instructions have bytes of these shapes.

The lookup of a redeem script asks for a hash and not for the template, so it also takes the hash of
a key for the hash of a script.

* `Script.Valid.isPayToPubkeyHash_iff`: the shape tells exactly the scripts that pay to a key;
* `Script.Valid.hash160?_eq_some_iff`: the scripts that a hash is read out of;
* `Script.eq_of_instructions`: a script with one push, given by its instructions;
* `Script.templates_recognised`: the shapes, the templates, and the rows of a script;
* `redeemScript_of_either`: the scripts that a redeem script is found for.
-/

namespace CoinScript

namespace Script

/-- Among the valid scripts, those of the shape are the ones that the template makes. -/
theorem Valid.isPayToPubkeyHash_iff {s : Script} (hs : s.Valid) :
    s.isPayToPubkeyHash = true ↔ ∃ hash, s = payToPubkeyHash hash := by
  constructor
  · intro shape
    unfold isPayToPubkeyHash at shape
    simp only [Bool.and_eq_true, beq_iff_eq] at shape
    obtain ⟨⟨length, front⟩, back⟩ := shape
    obtain ⟨hash, hbytes⟩ := exists_hash_between front back (by omega)
    exact ⟨hash, hs.eq_of_bytes_eq (valid_payToPubkeyHash hash)
      (hbytes.trans (bytes_payToPubkeyHash hash).symm)⟩
  · rintro ⟨hash, rfl⟩
    exact isPayToPubkeyHash_payToPubkeyHash hash

theorem hash160?_payToPubkeyHash (hash : Digest 20) :
    (payToPubkeyHash hash).hash160? = some hash := by
  have payload : ((payToPubkeyHash hash).bytes.drop 3).take 20 = hash.bytes := by
    rw [bytes_payToPubkeyHash]
    exact List.take_left' hash.length_bytes
  rw [hash160?, isPayToPubkeyHash_payToPubkeyHash, payload]
  exact dif_pos hash.length_bytes

/-- A hash is read out of the two templates and out of no other script. -/
theorem Valid.hash160?_eq_some_iff {s : Script} (hs : s.Valid) {hash : Digest 20} :
    s.hash160? = some hash ↔ s = payToScriptHash hash ∨ s = payToPubkeyHash hash := by
  constructor
  · intro h
    by_cases key : s.isPayToPubkeyHash = true
    · obtain ⟨hash', rfl⟩ := hs.isPayToPubkeyHash_iff.mp key
      rw [hash160?_payToPubkeyHash, Option.some.injEq] at h
      exact .inr (congrArg payToPubkeyHash h)
    by_cases script : s.isPayToScriptHash = true
    · obtain ⟨hash', rfl⟩ := hs.isPayToScriptHash_iff.mp script
      rw [hash160?_payToScriptHash, Option.some.injEq] at h
      exact .inl (congrArg payToScriptHash h)
    · rw [hash160?, if_neg key, if_neg script] at h
      cases h
  · rintro (rfl | rfl)
    · exact hash160?_payToScriptHash hash
    · exact hash160?_payToPubkeyHash hash

/-- The two templates make different scripts. -/
theorem payToPubkeyHash_ne_payToScriptHash (hash hash' : Digest 20) :
    payToPubkeyHash hash ≠ payToScriptHash hash' := by
  intro same
  have shape := isPayToScriptHash_payToScriptHash hash'
  rw [← same, isPayToScriptHash_payToPubkeyHash] at shape
  cases shape

end Script

/-! ## Templates by their instructions -/

theorem Token.eq_op_of_instruction {t : Token} {o : Opcode} (h : t.instruction = .op o) :
    t = .op o := by
  cases t with
  | push form data => cases h
  | op o' =>
    cases h
    rfl
  | unknown code => cases h

/-- Opcodes are written in one way. -/
theorem Token.eq_map_op {tokens : List Token} {ops : List Opcode}
    (h : tokens.map Token.instruction = ops.map .op) : tokens = ops.map .op := by
  induction ops generalizing tokens with
  | nil => exact List.map_eq_nil_iff.mp h
  | cons o ops ih =>
    obtain ⟨t, rest, rfl, ht, hrest⟩ := List.map_eq_cons_iff.mp h
    rw [eq_op_of_instruction ht, ih hrest, List.map_cons]

namespace Script

/-- A script whose instructions are opcodes and one more is known when the token of that one is. -/
theorem eq_of_instructions {s : Script} (front back : List Opcode) {t : Token}
    (h : s.instructions = front.map .op ++ t.instruction :: back.map .op)
    (written : s.tokens[front.length]? = some t) : s = ⟨front.map .op ++ t :: back.map .op⟩ := by
  obtain ⟨tokens⟩ := s
  obtain ⟨before, rest, rfl, hfront, hrest⟩ := List.map_eq_append_iff.mp h
  obtain ⟨u, behind, rfl, -, hback⟩ := List.map_eq_cons_iff.mp hrest
  obtain rfl := Token.eq_map_op hfront
  obtain rfl := Token.eq_map_op hback
  have place : (front.map Token.op).length = front.length := List.length_map _
  rw [← place, List.getElem?_append_right (Nat.le_refl _), Nat.sub_self] at written
  cases written
  rfl

/-- Valid scripts are the same if they have the same bytes, instructions and offsets. -/
theorem Valid.rows_eq_iff {s t : Script} (hs : s.Valid) (ht : t.Valid) :
    s.rows = t.rows ↔ s = t := by
  constructor
  · intro h
    exact hs.eq_of_bytes_eq ht (congrArg Rows.bytes h)
  · rintro rfl
    rfl

theorem exists_payToScriptHash_iff {s : Script} :
    (∃ hash, s = payToScriptHash hash) ↔ ∃ data, data.length = 20 ∧
      s.instructions = [.op (.hash .hash160), .push data, .op .equal] ∧
      s.tokens[1]? = some (Token.minimalPush data) := by
  constructor
  · rintro ⟨hash, rfl⟩
    exact ⟨hash.bytes, hash.length_bytes, rfl, rfl⟩
  · rintro ⟨data, length, instructions, written⟩
    exact ⟨⟨data, length⟩,
      eq_of_instructions [.hash .hash160] [.equal] instructions written⟩

theorem exists_payToPubkeyHash_iff {s : Script} :
    (∃ hash, s = payToPubkeyHash hash) ↔ ∃ data, data.length = 20 ∧
      s.instructions = [.op (.stack (.shuffle .dup)), .op (.hash .hash160), .push data,
        .op .equalVerify, .op (.signature .checkSig)] ∧
      s.tokens[2]? = some (Token.minimalPush data) := by
  constructor
  · rintro ⟨hash, rfl⟩
    exact ⟨hash.bytes, hash.length_bytes, rfl, rfl⟩
  · rintro ⟨data, length, instructions, written⟩
    exact ⟨⟨data, length⟩,
      eq_of_instructions [.stack (.shuffle .dup), .hash .hash160]
        [.equalVerify, .signature .checkSig] instructions written⟩

/-- The shapes tell the templates exactly. A script that can be built has the shape of a payment to
a script hash if it is one, row by row, and this is the case if its instructions are those of the
template and the push of the hash is written in its shortest form. It is the same with a payment to
a key, no script has both shapes, and a hash is read out of the two templates alone. -/
theorem templates_recognised {s : Script} (built : s.Built) :
    (s.isPayToScriptHash = true ↔ ∃ hash, s.rows = (payToScriptHash hash).rows) ∧
    (s.isPayToScriptHash = true ↔ ∃ data, data.length = 20 ∧
      s.instructions = [.op (.hash .hash160), .push data, .op .equal] ∧
      s.tokens[1]? = some (Token.minimalPush data)) ∧
    (s.isPayToPubkeyHash = true ↔ ∃ hash, s.rows = (payToPubkeyHash hash).rows) ∧
    (s.isPayToPubkeyHash = true ↔ ∃ data, data.length = 20 ∧
      s.instructions = [.op (.stack (.shuffle .dup)), .op (.hash .hash160), .push data,
        .op .equalVerify, .op (.signature .checkSig)] ∧
      s.tokens[2]? = some (Token.minimalPush data)) ∧
    ¬ (s.isPayToScriptHash = true ∧ s.isPayToPubkeyHash = true) ∧
    ∀ hash, s.hash160? = some hash ↔
      s.rows = (payToPubkeyHash hash).rows ∨ s.rows = (payToScriptHash hash).rows := by
  have valid := built.valid
  have scriptRows (hash : Digest 20) := valid.rows_eq_iff (valid_payToScriptHash hash)
  have keyRows (hash : Digest 20) := valid.rows_eq_iff (valid_payToPubkeyHash hash)
  simp only [scriptRows, keyRows]
  refine ⟨valid.isPayToScriptHash_iff, valid.isPayToScriptHash_iff.trans exists_payToScriptHash_iff,
    valid.isPayToPubkeyHash_iff, valid.isPayToPubkeyHash_iff.trans exists_payToPubkeyHash_iff, ?_,
    fun hash => valid.hash160?_eq_some_iff.trans or_comm⟩
  rintro ⟨script, key⟩
  obtain ⟨hash, rfl⟩ := valid.isPayToPubkeyHash_iff.mp key
  rw [isPayToScriptHash_payToPubkeyHash] at script
  cases script

/-- A payment to a script hash is recognised by its instructions. With a length field in front of
the hash these stay the same and the bytes do not, and the script has no shape. -/
theorem templates_recognised_longer :
    let hash : Digest 20 := .replicate 20 0x87
    let longer : Script := ⟨[.op (.hash .hash160), .push .field1 hash.bytes, .op .equal]⟩
    ((payToScriptHash hash).Built ∧ longer.Built) ∧
      (payToScriptHash hash).isPayToScriptHash = true ∧
      longer.instructions = (payToScriptHash hash).instructions ∧
      longer.isPayToScriptHash = false := by
  intro hash longer
  have read : parse longer.bytes = .ok longer := by decide +kernel
  have builtLonger : longer.Built := .parse read
  have built : (payToScriptHash hash).Built := .payToScriptHash hash
  refine ⟨⟨built, builtLonger⟩, ?_, rfl, ?_⟩
  · exact (templates_recognised built).2.1.mpr ⟨hash.bytes, hash.length_bytes, rfl, rfl⟩
  · rw [Bool.eq_false_iff]
    intro shape
    obtain ⟨data, -, instructions, written⟩ := (templates_recognised builtLonger).2.1.mp shape
    have pushed : longer.instructions[1]? = some (.push data) := by rw [instructions]; rfl
    cases pushed
    exact absurd written (by decide +kernel)

end Script

/-! ## Looking a redeem script up -/

/-- Without a hash to compare with, the lookup fails on the form of the scripts. -/
theorem structural_of_redeemScript {stack : List Bytes} {lock : Script}
    (none : lock.hash160? = none) :
    ∃ cause, redeemScript stack lock = .error (.structural cause) := by
  unfold redeemScript
  cases stack with
  | nil => exact ⟨_, rfl⟩
  | cons item rest =>
    dsimp only
    cases hparse : Script.parse item with
    | error e =>
      obtain ⟨cause, rfl⟩ := Script.structural_of_parse hparse
      exact ⟨cause, rfl⟩
    | ok redeem =>
      rw [none]
      exact ⟨_, rfl⟩

/-- A redeem script is found exactly if the top item reads as it and the lock pays to the hash of
the item, as the hash of a script or as the hash of a key. A lock of the shape that a verification
asks for leaves only the first, and a lock of neither template is an error. -/
theorem redeemScript_of_either {lock : Script} (built : lock.Built) (stack : List Bytes) :
    (∀ redeem, redeemScript stack lock = .ok redeem ↔
      ∃ item rest, stack = item :: rest ∧ Script.parse item = .ok redeem ∧
        (lock = Script.payToScriptHash (Hash.hash160 item) ∨
          lock = Script.payToPubkeyHash (Hash.hash160 item))) ∧
    (lock.isPayToScriptHash = true → ∀ redeem, redeemScript stack lock = .ok redeem ↔
      ∃ item rest, stack = item :: rest ∧ Script.parse item = .ok redeem ∧
        lock = Script.payToScriptHash (Hash.hash160 item)) ∧
    ((∀ hash, lock ≠ Script.payToScriptHash hash ∧ lock ≠ Script.payToPubkeyHash hash) →
      ∃ cause, redeemScript stack lock = .error (.structural cause)) := by
  have found (redeem : Script) : redeemScript stack lock = .ok redeem ↔
      ∃ item rest, stack = item :: rest ∧ Script.parse item = .ok redeem ∧
        (lock = Script.payToScriptHash (Hash.hash160 item) ∨
          lock = Script.payToPubkeyHash (Hash.hash160 item)) := by
    simp only [redeemScript_ok_iff, built.valid.hash160?_eq_some_iff, and_comm]
  refine ⟨found, fun shape redeem => ?_, fun other => ?_⟩
  · obtain ⟨hash, rfl⟩ := built.valid.isPayToScriptHash_iff.mp shape
    simp only [found, (Script.payToPubkeyHash_ne_payToScriptHash _ _).symm, or_false]
  · refine structural_of_redeemScript (Option.eq_none_iff_forall_ne_some.mpr fun hash read => ?_)
    rcases built.valid.hash160?_eq_some_iff.mp read with script | key
    · exact (other hash).1 script
    · exact (other hash).2 key

/-- A script that pushes a one is found for a payment to its hash, and none for an empty lock. -/
theorem redeemScript_of_either_one :
    let item : Bytes := [0x51]
    let lock := Script.payToScriptHash (Hash.hash160 item)
    (lock.Built ∧ Script.empty.Built) ∧
      redeemScript [item] lock = .ok ⟨[.op (.push (.smallInt 1))]⟩ ∧
      ∃ cause, redeemScript [item] Script.empty = .error (.structural cause) := by
  intro item lock
  have built : lock.Built := .payToScriptHash _
  have read : Script.parse item = .ok ⟨[.op (.push (.smallInt 1))]⟩ := by decide +kernel
  refine ⟨⟨built, .empty⟩, ?_, ?_⟩
  · exact ((redeemScript_of_either built [item]).2.1
      (Script.isPayToScriptHash_payToScriptHash _) _).mpr ⟨item, [], rfl, read, rfl⟩
  · exact (redeemScript_of_either .empty [item]).2.2 fun hash => ⟨nofun, nofun⟩

/-- A script is found for a payment to a key, though that pays to no script. -/
theorem redeemScript_of_key_hash :
    let item : Bytes := [0x51]
    let lock := Script.payToPubkeyHash (Hash.hash160 item)
    lock.Built ∧ (∀ hash, lock ≠ Script.payToScriptHash hash) ∧
      redeemScript [item] lock = .ok ⟨[.op (.push (.smallInt 1))]⟩ := by
  intro item lock
  exact ⟨.payToPubkeyHash _, fun hash => Script.payToPubkeyHash_ne_payToScriptHash _ hash,
    redeemScript_ok_iff.mpr ⟨item, [], rfl, Script.hash160?_payToPubkeyHash _, by decide +kernel⟩⟩

end CoinScript
