import CoinScript.Proofs.Building
/-!
# Spending a hashed time-locked contract

The script of a contract has two branches that meet in one check of a signature. Traced from an
arbitrary stack, it can be satisfied in two ways and no other: with the secret by the recipient,
and after the lock time by the sender.

* `Template.tokens_of_contract`: the script, token by token;
* `Exec.satisfies_contract_iff`: the stacks that satisfy it;
* `Machine.contract_spent_two_ways`: the spends that it authorizes.
-/

namespace CoinScript

theorem natAbs_lockTime_lt (lockTime : UInt32) : (lockTime.toNat : Int).natAbs < 256 ^ 4 := by
  rw [Int.natAbs_natCast]
  exact lockTime.toNat_lt

theorem length_encode_lockTime_le (lockTime : UInt32) :
    (Number.encode lockTime.toNat).length ≤ 5 :=
  Number.length_encode_le (natAbs_lockTime_lt lockTime)

namespace Template

/-- What the recipient has to satisfy, up to the comparison of the key. -/
def claimSide (recipient : Digest 20) (digest : Bytes) (op : HashOp) : List Instruction :=
  [.op (.hash op), .push digest, .op .equalVerify, .op (.stack (.shuffle .dup)),
    .op (.hash .hash160), .push recipient.bytes]

/-- What the sender has to satisfy, up to the comparison of the key. -/
def refundSide (sender : Digest 20) (lockTime : UInt32) : List Instruction :=
  [(Token.ofNumber lockTime.toNat).instruction, .op (.lockTime .absolute),
    .op (.stack (.shuffle .drop)), .op (.stack (.shuffle .dup)), .op (.hash .hash160),
    .push sender.bytes]

theorem HashOperator.exists_op (hash : HashOperator) :
    ∃ op : HashOp, hash.opcode = .hash op ∧ op.digest = hash.digest := by
  cases hash with
  | sha256 => exact ⟨.sha256, rfl, rfl⟩
  | hash160 => exact ⟨.hash160, rfl, rfl⟩

theorem tokens_of_contract {recipient sender : Address} {lockTime : UInt32} {digest : Bytes}
    {hash : HashOperator} {lock : Script}
    (h : contract recipient sender lockTime digest hash = .ok lock) :
    digest.length = hash.size ∧ lock.tokens =
      [.op (.flow .ifTrue), Token.ofOpcode hash.opcode, Token.minimalPush digest, .op .equalVerify,
        .op (.stack (.shuffle .dup)), .op (.hash .hash160), Token.minimalPush recipient.hash.bytes,
        .op (.flow .orElse), Token.ofNumber lockTime.toNat, .op (.lockTime .absolute),
        .op (.stack (.shuffle .drop)), .op (.stack (.shuffle .dup)), .op (.hash .hash160),
        Token.minimalPush sender.hash.bytes, .op (.flow .endIf), .op .equalVerify,
        .op (.signature .checkSig)] := by
  unfold contract at h
  split at h
  · cases h
  next size =>
  obtain ⟨_, _, h⟩ := bind_eq_ok_iff.mp h
  obtain ⟨_, _, h⟩ := bind_eq_ok_iff.mp h
  exact ⟨not_not.mp size, tokens_of_build h⟩

theorem HashOperator.size_le (hash : HashOperator) : hash.size ≤ 32 := by
  cases hash <;> decide

theorem instructions_of_contract {recipient sender : Address} {lockTime : UInt32} {digest : Bytes}
    {hash : HashOperator} {op : HashOp} {lock : Script} (hop : hash.opcode = .hash op)
    (h : contract recipient sender lockTime digest hash = .ok lock) :
    digest.length ≤ maxItemSize ∧ lock.instructions =
      .op (.flow .ifTrue) :: (claimSide recipient.hash digest op ++
        .op (.flow .orElse) :: (refundSide sender.hash lockTime ++
          [.op (.flow .endIf), .op .equalVerify, .op (.signature .checkSig)])) := by
  obtain ⟨size, tokens⟩ := tokens_of_contract h
  refine ⟨size ▸ Nat.le_trans hash.size_le (by decide), ?_⟩
  rw [Script.instructions, tokens, hop]
  rfl

/-- Digests and lock times are short, so a contract pushes them without a length field. -/
theorem direct_of_contract {recipient sender : Address} {lockTime : UInt32} {digest : Bytes}
    {hash : HashOperator} {lock : Script}
    (h : contract recipient sender lockTime digest hash = .ok lock) :
    ∀ t ∈ lock.tokens, t.Direct := by
  obtain ⟨size, tokens⟩ := tokens_of_contract h
  have pushDigest : (Token.minimalPush digest).Direct :=
    Token.direct_minimalPush (size ▸ Nat.lt_of_le_of_lt hash.size_le (by decide))
  have pushHash (hash : Digest 20) : (Token.minimalPush hash.bytes).Direct :=
    Token.direct_minimalPush (by rw [hash.length_bytes]; decide)
  have pushTime : (Token.ofNumber lockTime.toNat).Direct :=
    Token.direct_ofNumber (Nat.lt_of_le_of_lt (length_encode_lockTime_le lockTime) (by decide))
  rw [tokens]
  simp only [List.forall_mem_cons]
  exact ⟨trivial, Token.direct_ofOpcode _, pushDigest, trivial, trivial, trivial, pushHash _,
    trivial, pushTime, trivial, trivial, trivial, trivial, pushHash _, trivial, trivial, trivial,
    List.forall_mem_nil _⟩

end Template

namespace Exec

open Template

section Contract

variable {env : Env} {lock : Script} {recipient sender : Digest 20} {lockTime : UInt32}
  {digest : Bytes} {op : HashOp} {stack : List Bytes} {spend : Spend}

theorem skippable_claimSide (short : digest.length ≤ maxItemSize) :
    (∀ i ∈ claimSide recipient digest op, i.Plain ∧ i.Lawful) ∧
      (claimSide recipient digest op).countP Instruction.counted = 4 := by
  have hash : recipient.bytes.length ≤ maxItemSize := by
    rw [recipient.length_bytes]
    decide
  refine ⟨?_, ?_⟩
  · simp only [claimSide, List.forall_mem_cons]
    exact ⟨skippable_op rfl rfl, skippable_push short, skippable_op rfl rfl, skippable_op rfl rfl,
      skippable_op rfl rfl, skippable_push hash, by simp⟩
  · cases op <;> rfl

theorem skippable_refundSide :
    (∀ i ∈ refundSide sender lockTime, i.Plain ∧ i.Lawful) ∧
      (refundSide sender lockTime).countP Instruction.counted = 4 := by
  have hash : sender.bytes.length ≤ maxItemSize := by
    rw [sender.length_bytes]
    decide
  have short : (Number.encode lockTime.toNat).length ≤ maxItemSize :=
    Nat.le_trans (length_encode_lockTime_le lockTime) (by decide)
  obtain ⟨number, uncounted⟩ := skippable_pushed (pushed?_ofNumber lockTime.toNat) short
  refine ⟨?_, ?_⟩
  · simp only [refundSide, List.forall_mem_cons]
    exact ⟨number, skippable_op rfl rfl, skippable_op rfl rfl, skippable_op rfl rfl,
      skippable_op rfl rfl, skippable_push hash, by simp⟩
  · rw [refundSide, List.countP_cons, uncounted]
    rfl

/-- The branch of the recipient, from its first instruction to the end of the script. -/
theorem reaches_claim (short : digest.length ≤ maxItemSize) (room : stack.length ≤ 998) :
    Reaches env lock 1 (claimSide recipient digest op ++ .op (.flow .orElse) ::
        (refundSide sender lockTime ++
          [.op (.flow .endIf), .op .equalVerify, .op (.signature .checkSig)])) [true] 1 stack
        TopTrue ↔
      ∃ secret key signature rest, stack = secret :: key :: signature :: rest ∧
        op.digest secret = digest ∧ Hash.hash160 key = recipient ∧
        env.signatureAnswer signature key (lock.deletePush signature) = .ok true := by
  -- The side of the sender is skipped on the way to the check, and its opcodes are counted.
  have between (items : List Bytes) (few : items.length ≤ maxStackSize) :
      Reaches env lock 7 (.op (.flow .orElse) :: (refundSide sender lockTime ++
          [.op (.flow .endIf), .op .equalVerify, .op (.signature .checkSig)])) [true] 5 items
          TopTrue ↔
        Reaches env lock 15 [.op .equalVerify, .op (.signature .checkSig)] [] 11 items TopTrue := by
    obtain ⟨plain, counts⟩ := @skippable_refundSide sender lockTime
    rw [reaches_orElse (by decide) few, reaches_skipped rfl plain (by rw [counts]; decide) few,
      counts, reaches_endIf (by decide) few]
    rfl
  have owner {rest : List Bytes} (room : rest.length ≤ 998) :=
    @reaches_owner env lock 4 _ [true] 3 rest recipient 15 11 rfl (by decide) (by decide)
      (Nat.add_le_add_right room 2) between
  rw [claimSide, List.cons_append, List.cons_append, List.cons_append,
    reaches_reveal rfl (by decide) (Nat.lt_of_le_of_lt room (by decide)) short]
  constructor
  · rintro ⟨secret, rest, rfl, hsecret, hrest⟩
    obtain ⟨key, signature, below, rfl, hkey, hanswer⟩ := (owner (Nat.le_of_succ_le room)).mp hrest
    exact ⟨secret, key, signature, below, rfl, hsecret, hkey, hanswer⟩
  · rintro ⟨secret, key, signature, rest, rfl, hsecret, hkey, hanswer⟩
    exact ⟨secret, _, rfl, hsecret, (owner (Nat.le_of_succ_le room)).mpr
      ⟨key, signature, rest, rfl, hkey, hanswer⟩⟩

/-- The same for the branch of the sender, in front of which the other one is skipped. -/
theorem reaches_refund (on : env.flags.checkLockTimeVerify = true) (bound : env.spend = some spend)
    (short : digest.length ≤ maxItemSize) (room : stack.length ≤ 998) :
    Reaches env lock 1 (claimSide recipient digest op ++ .op (.flow .orElse) ::
        (refundSide sender lockTime ++
          [.op (.flow .endIf), .op .equalVerify, .op (.signature .checkSig)])) [false] 1 stack
        TopTrue ↔
      spend.checkLockTime env.blockTime lockTime.toNat = .ok () ∧
      ∃ key signature rest, stack = key :: signature :: rest ∧ Hash.hash160 key = sender ∧
        env.signatureAnswer signature key (lock.deletePush signature) = .ok true := by
  have room' : stack.length ≤ maxStackSize := Nat.le_trans room (by decide)
  have between (items : List Bytes) (few : items.length ≤ maxStackSize) :
      Reaches env lock 14 [.op (.flow .endIf), .op .equalVerify, .op (.signature .checkSig)]
          [true] 10 items TopTrue ↔
        Reaches env lock 15 [.op .equalVerify, .op (.signature .checkSig)] [] 11 items TopTrue :=
    reaches_endIf (by decide) few
  obtain ⟨plain, counts⟩ := @skippable_claimSide recipient digest op short
  rw [reaches_skipped rfl plain (by rw [counts]; decide) room', counts,
    reaches_orElse (by decide) room', refundSide, List.cons_append, List.cons_append,
    List.cons_append, reaches_gate (pushed?_ofNumber _) (Int.natCast_nonneg _)
      (natAbs_lockTime_lt lockTime) on bound rfl (by decide)
      (Nat.lt_of_le_of_lt room (by decide))]
  exact and_congr_right fun _ => reaches_owner rfl (by decide) (by decide)
    (Nat.add_le_add_right room 2) between

/-- The stacks that satisfy the script of a contract. -/
theorem satisfies_contract_iff {recipient sender : Address} {hash : HashOperator}
    (h : contract recipient sender lockTime digest hash = .ok lock)
    (on : env.flags.checkLockTimeVerify = true) (bound : env.spend = some spend)
    (room : stack.length ≤ 999) :
    Satisfies env lock stack ↔
      (∃ selector secret key signature rest,
        stack = selector :: secret :: key :: signature :: rest ∧ Truth.decode selector = true ∧
        hash.digest secret = digest ∧ Hash.hash160 key = recipient.hash ∧
        env.signatureAnswer signature key (lock.deletePush signature) = .ok true) ∨
      (∃ selector key signature rest,
        stack = selector :: key :: signature :: rest ∧ Truth.decode selector = false ∧
        spend.checkLockTime env.blockTime lockTime.toNat = .ok () ∧
        Hash.hash160 key = sender.hash ∧
        env.signatureAnswer signature key (lock.deletePush signature) = .ok true) := by
  obtain ⟨op, hop, hdigest⟩ := hash.exists_op
  obtain ⟨short, instructions⟩ := instructions_of_contract hop h
  rw [satisfies_iff_reaches (valid_of_contract h).size_le, instructions,
    reaches_ifTrue rfl (by decide) (Nat.le_trans room (by decide)), ← hdigest]
  constructor
  · rintro ⟨selector, rest, rfl, hrest⟩
    have room : rest.length ≤ 998 := Nat.le_of_succ_le_succ room
    cases chosen : Truth.decode selector with
    | true =>
      rw [chosen] at hrest
      obtain ⟨secret, key, signature, below, rfl, hsecret, hkey, hanswer⟩ :=
        (reaches_claim short room).mp hrest
      exact .inl ⟨selector, secret, key, signature, below, rfl, chosen, hsecret, hkey, hanswer⟩
    | false =>
      rw [chosen] at hrest
      obtain ⟨passed, key, signature, below, rfl, hkey, hanswer⟩ :=
        (reaches_refund on bound short room).mp hrest
      exact .inr ⟨selector, key, signature, below, rfl, chosen, passed, hkey, hanswer⟩
  · rintro (⟨selector, secret, key, signature, rest, rfl, chosen, hsecret, hkey, hanswer⟩ |
      ⟨selector, key, signature, rest, rfl, chosen, passed, hkey, hanswer⟩)
    · refine ⟨selector, _, rfl, ?_⟩
      rw [chosen]
      exact (reaches_claim short (Nat.le_of_succ_le_succ room)).mpr
        ⟨secret, key, signature, rest, rfl, hsecret, hkey, hanswer⟩
    · refine ⟨selector, _, rfl, ?_⟩
      rw [chosen]
      exact (reaches_refund on bound short (Nat.le_of_succ_le_succ room)).mpr
        ⟨passed, key, signature, rest, rfl, hkey, hanswer⟩

end Contract

end Exec

namespace Machine

/-- A contract does not pay to a script hash, whatever its digests are. -/
theorem isPayToScriptHash_contract {recipient sender : Address} {lockTime : UInt32}
    {digest : Bytes} {hash : Template.HashOperator} {lock : Script}
    (h : Template.contract recipient sender lockTime digest hash = .ok lock) :
    lock.isPayToScriptHash = false := by
  rw [Bool.eq_false_iff]
  intro shape
  obtain ⟨scriptHash, rfl⟩ := (Template.valid_of_contract h).isPayToScriptHash_iff.mp shape
  obtain ⟨op, hop, _⟩ := hash.exists_op
  cases (Template.instructions_of_contract hop h).2

/-- A contract can be spent in two ways and no other. If the unlocking script leaves a stack with
room for one more item, the locking script accepts it exactly if it holds, above anything, either a
signature and the key of the recipient, the secret and a true selector, or a signature and the key
of the sender and a false selector at a time when the lock time has passed. -/
theorem contract_spent_two_ways {m : Machine} {c : Context} {recipient sender : Address}
    {lockTime : UInt32} {digest : Bytes} {hash : Template.HashOperator} {lock unlock : Script}
    {spend : Spend} {stack : List Bytes}
    (h : Template.contract recipient sender lockTime digest hash = .ok lock)
    (on : m.flags.checkLockTimeVerify = true) (bound : c.env.spend = some spend)
    (leaves : m.Leaves unlock c stack) (room : stack.length ≤ 999) :
    (m.verify lock unlock c).1 = .ok true ↔
      (∃ selector secret key signature rest,
        stack = selector :: secret :: key :: signature :: rest ∧ Truth.decode selector = true ∧
        hash.digest secret = digest ∧ Hash.hash160 key = recipient.hash ∧
        (m.perform c fun env => Exec.checkSignature env signature key
          ⟨lock.tokens.filter fun t => t.instruction ≠ .push signature⟩).1 = .ok true) ∨
      (∃ selector key signature rest,
        stack = selector :: key :: signature :: rest ∧ Truth.decode selector = false ∧
        (m.perform c fun env => Exec.checkLockTime env lockTime.toNat).1 = .ok () ∧
        Hash.hash160 key = sender.hash ∧
        (m.perform c fun env => Exec.checkSignature env signature key
          ⟨lock.tokens.filter fun t => t.instruction ≠ .push signature⟩).1 = .ok true) := by
  have removed := (Template.valid_of_contract h).deletePush_eq_filter_push
    (Template.direct_of_contract h)
  rw [verify_iff_satisfies (isPayToScriptHash_contract h) leaves]
  simp only [← removed, perform_checkSignature_iff, perform_checkLockTime_iff bound]
  exact Exec.satisfies_contract_iff h on bound room

/-- The recipient can spend with the secret right away. The sender cannot, before the transaction
has a lock time that is late enough. -/
theorem contract_spent_two_ways_secret :
    let key : Bytes := 0x02 :: List.replicate 32 0x11
    let secret : Bytes := [0x73, 0x65, 0x63]
    let owner : Address := ⟨.mainnet, .pubkeyHash, Hash.hash160 key⟩
    let lock : Script := ⟨[.op (.flow .ifTrue), .op (.hash .sha256),
      .minimalPush (Hash.sha256 secret).bytes, .op .equalVerify, .op (.stack (.shuffle .dup)),
      .op (.hash .hash160), .minimalPush (Hash.hash160 key).bytes, .op (.flow .orElse),
      .minimalPush [0x80, 0xf0, 0xfa, 0x02], .op (.lockTime .absolute),
      .op (.stack (.shuffle .drop)), .op (.stack (.shuffle .dup)), .op (.hash .hash160),
      .minimalPush (Hash.hash160 key).bytes, .op (.flow .endIf), .op .equalVerify,
      .op (.signature .checkSig)]⟩
    let signature : Bytes := [0x30, 0x01]
    let claim : Script := ⟨[signature, key, secret, [1]].map .minimalPush⟩
    let refund : Script := ⟨[signature, key, []].map .minimalPush⟩
    let tx : Transaction := ⟨1, 49999999, [⟨⟨.replicate 32 1, 0⟩, [], 0⟩], []⟩
    let m : Machine := { flags := { Flags.none with checkLockTimeVerify := true } }
    let c : Context := .ofSpend ⟨tx, ⟨0, by decide⟩, .ofScript 1 lock⟩ .none
      fun _ der key' _ => .ok (der = [0x30] ∧ key' = key)
    Template.contract owner owner 50000000 (Hash.sha256 secret).bytes .sha256 = .ok lock ∧
      (m.verify lock claim c).1 = .ok true ∧ (m.verify lock refund c).1 ≠ .ok true := by
  intro key secret owner lock signature claim refund tx m c
  have built : Template.contract owner owner 50000000 (Hash.sha256 secret).bytes .sha256 =
      .ok lock := by
    decide +kernel
  have claimed : m.Leaves claim c [[1], secret, key, signature] := ⟨rfl, rfl⟩
  have refunded : m.Leaves refund c [[], key, signature] := ⟨rfl, rfl⟩
  refine ⟨built, ?_, fun spent => ?_⟩
  · exact (contract_spent_two_ways built rfl rfl claimed (by decide)).mpr
      (.inl ⟨[1], secret, key, signature, [], rfl, rfl, rfl, rfl, rfl⟩)
  · rcases (contract_spent_two_ways built rfl rfl refunded (by decide)).mp spent with
      ⟨selector, secret, key', signature', rest, h, _⟩ |
        ⟨selector, key', signature', rest, _, _, early, _⟩
    · cases h
    · cases early

end Machine

end CoinScript
