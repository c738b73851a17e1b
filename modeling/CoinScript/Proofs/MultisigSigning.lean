import CoinScript.Proofs.Matching
import CoinScript.Proofs.SignedInput
/-!
# Signing for several keys

A payment to the hash of a multisignature script is signed for with the first keys of a list, as
many as the script asks for. If their public keys stand in the script in this order, the signed
input is authorized, whatever the checker answers about a signature and the key of somebody else.

* `Script.exists_of_multisigParams?`: the instructions of a multisignature script;
* `Exec.satisfies_multisig_iff`: the stacks of signatures that satisfy it;
* `Signer.signMultisig_eq`: the unlocking script that the signer fills in;
* `Machine.signed_by_several`: the signed input is authorized.
-/

namespace CoinScript

/-! ## The redeem script -/

theorem pushed?_of_smallInt? {i : Instruction} {n : Nat} (h : i.smallInt? = some n) :
    i.pushed? = some (Number.encode n) ∧ n ≤ 16 := by
  unfold Instruction.smallInt? at h
  split at h
  · cases h
    simp [Instruction.pushed?, Number.encode, Bytes.minimalLE]
  · cases h
  · unfold Opcode.smallInt? at h
    split at h
    · next k =>
      cases h
      exact ⟨rfl, Nat.le_of_lt_succ k.isLt⟩
    · cases h
  · cases h

theorem pushed?_of_keyOf? {i : Instruction} {key : Bytes} (h : Script.keyOf? i = some key) :
    i.pushed? = some key := by
  unfold Script.keyOf? at h
  split at h
  · cases h
  · cases h
    rfl
  · cases h

theorem map_pushed?_of_keyOf? {row : List Instruction} {keys : List Bytes}
    (h : row.map Script.keyOf? = keys.map some) : row.map Instruction.pushed? = keys.map some := by
  induction keys generalizing row with
  | nil =>
    rw [List.map_eq_nil_iff.mp h]
    rfl
  | cons key keys ih =>
    obtain ⟨i, rest, rfl, hi, hrest⟩ := List.map_eq_cons_iff.mp h
    rw [List.map_cons, List.map_cons, pushed?_of_keyOf? hi, ih hrest]

/-- A constant from 1 to 16 is an opcode. -/
theorem ne_push_of_smallInt? {i : Instruction} {n : Nat} (h : i.smallInt? = some n)
    (positive : 0 < n) (data : Bytes) : i ≠ .push data := by
  rintro rfl
  cases data with
  | nil =>
    cases h
    exact Nat.lt_irrefl 0 positive
  | cons b rest => cases h

namespace Script

/-- A multisignature script: a threshold, keys, the number of the keys, and the check. -/
structure Multisig (s : Script) (required : Nat) (keys : List Bytes) (first last : Instruction)
    (row : List Instruction) : Prop where
  instructions : s.instructions = (first :: (row ++ [last])) ++ [.op (.signature .checkMultisig)]
  threshold : first.smallInt? = some required
  count : last.smallInt? = some keys.length
  pushes : row.map keyOf? = keys.map some
  positive : 0 < required
  enough : required ≤ keys.length

theorem mapM_eq_some_iff {α β : Type} {f : α → Option β} {as : List α} {bs : List β} :
    as.mapM f = some bs ↔ as.map f = bs.map some := by
  induction as generalizing bs with
  | nil => cases bs <;> simp
  | cons a as ih =>
    rw [List.mapM_cons, List.map_cons]
    constructor
    · intro h
      obtain ⟨b, hb, h⟩ := Option.bind_eq_some_iff.mp h
      obtain ⟨rest, hrest, h⟩ := Option.bind_eq_some_iff.mp h
      cases h
      rw [List.map_cons, hb, ih.mp hrest]
    · intro h
      obtain ⟨b, rest, rfl, hb, hrest⟩ := List.map_eq_cons_iff.mp h.symm
      rw [← hb, ih.mpr hrest.symm]
      rfl

theorem eq_of_ends {α : Type} {l : List α} {a b : α} (high : 3 ≤ l.length)
    (first : l.head? = some a) (last : l.getLast? = some b) :
    l = a :: (l.tail.dropLast ++ [b]) := by
  cases l with
  | nil => cases first
  | cons x tail =>
    cases first
    obtain rfl | ⟨front, y, rfl⟩ := List.eq_nil_or_concat tail
    · simp at high
    · rw [List.concat_eq_append, ← List.cons_append, List.getLast?_concat] at last
      cases last
      rw [List.concat_eq_append, List.tail_cons, List.dropLast_concat]

theorem exists_of_multisigParams? {s : Script} {required : Nat} {keys : List Bytes}
    (h : s.multisigParams? = some (required, keys)) :
    ∃ first last row, s.Multisig required keys first last row := by
  unfold multisigParams? at h
  obtain ⟨check, hcheck, h⟩ := Option.bind_eq_some_iff.mp h
  dsimp only at h
  split at h
  · next shape =>
    obtain ⟨rfl, high⟩ := shape
    obtain ⟨required', hrequired, h⟩ := Option.bind_eq_some_iff.mp h
    obtain ⟨count, hcount, h⟩ := Option.bind_eq_some_iff.mp h
    split at h
    · cases h
    · next allowed =>
      obtain ⟨keys', hkeys, h⟩ := Option.bind_eq_some_iff.mp h
      cases h
      obtain ⟨first, hfirst, hrequired⟩ := Option.bind_eq_some_iff.mp hrequired
      obtain ⟨last, hlast, hcount⟩ := Option.bind_eq_some_iff.mp hcount
      have pushes := mapM_eq_some_iff.mp hkeys
      have split := eq_of_ends high hfirst hlast
      have length : keys.length = s.instructions.dropLast.tail.dropLast.length := by
        simpa using (congrArg List.length pushes).symm
      rw [← length] at allowed
      simp only [not_or, Nat.not_lt, not_not] at allowed
      obtain ⟨positive, enough, rfl⟩ := allowed
      refine ⟨first, last, s.instructions.dropLast.tail.dropLast, ?_, hrequired, hcount, pushes,
        Nat.pos_of_ne_zero positive, enough⟩
      rw [← split, List.dropLast_append_getLast? _ hcheck]
  · cases h

end Script

/-- A small constant, read as a number of operands. -/
theorem decode_encode_small {n : Nat} (small : n ≤ 16) :
    Number.decode maxNumberSize (Number.encode n) = .ok n :=
  Number.decode_encode (k := 3) (by rw [Int.natAbs_natCast]; omega)

/-- With as many signatures as it asks for, a multisignature script is satisfied if they fit some of
its keys in order. Stacks have the last signature and the last key on top. -/
theorem Exec.satisfies_multisig_iff {env : Env} {redeem : Script} {required : Nat}
    {keys signatures rest : List Bytes} {first last : Instruction} {row : List Instruction}
    {dummy : Bytes} {answer : Bytes → Bytes → Bool}
    (shape : redeem.Multisig required keys first last row) (hredeem : redeem.Valid)
    (short : ∀ key ∈ keys, key.length ≤ maxItemSize) (count : signatures.length = required)
    (allowed : env.flags.nullDummy = true → dummy = [])
    (room : rest.length + signatures.length + keys.length + 3 ≤ maxStackSize)
    (answers : ∀ signature ∈ signatures, ∀ key ∈ keys,
      env.signatureAnswer signature key (codeWithout redeem signatures) =
        .ok (answer signature key)) :
    Satisfies env redeem (signatures ++ dummy :: rest) ↔
      signatures.SublistForall₂ (fun signature key => answer signature key = true)
        keys.reverse := by
  obtain ⟨hfirst, _⟩ := pushed?_of_smallInt? shape.threshold
  obtain ⟨hlast, small⟩ := pushed?_of_smallInt? shape.count
  have hrow := map_pushed?_of_keyOf? shape.pushes
  have pushes : (first :: (row ++ [last])).map Instruction.pushed? =
      (Number.encode required :: (keys ++ [Number.encode keys.length])).map some := by
    simp only [List.map_cons, List.map_append, List.map_nil, hfirst, hrow, hlast]
  have number {n : Nat} (h : n ≤ 16) : (Number.encode n).length ≤ maxItemSize :=
    Number.short_encode (by rw [Int.natAbs_natCast]; omega)
  have enough := shape.enough
  have items : ∀ item ∈ Number.encode required :: (keys ++ [Number.encode keys.length]),
      item.length ≤ maxItemSize := by
    rw [List.forall_mem_cons, List.forall_mem_append, List.forall_mem_singleton]
    exact ⟨number (by omega), short, number small⟩
  have stack : (Number.encode required :: (keys ++ [Number.encode keys.length])).reverse ++
      (signatures ++ dummy :: rest) =
        operands (Number.encode keys.length) keys.reverse (Number.encode required) signatures
          dummy ++ rest := by
    simp [operands]
  rw [satisfies_iff_reaches hredeem.size_le, shape.instructions,
    reaches_pushes pushes rfl items (by simp; omega), stack]
  refine reaches_checkMultisig ?_ ?_ ?_ ?_ ?_ allowed ?_ fun signature hs key hk =>
    answers signature hs key (List.mem_reverse.mp hk)
  · rw [List.length_reverse]
    exact decode_encode_small small
  · rw [count]
    exact decode_encode_small (by omega)
  · rw [List.length_reverse, count]
    exact enough
  · rw [List.length_reverse]
    exact Nat.le_trans small (by decide)
  · simp only [List.length_reverse, maxOperations]
    omega
  · omega

/-! ## The unlocking script -/

/-- What a multisignature script pushes is one of its keys. -/
theorem Script.Multisig.mem_of_push {s : Script} {required : Nat} {keys : List Bytes}
    {first last : Instruction} {row : List Instruction}
    (shape : s.Multisig required keys first last row) {data : Bytes}
    (h : .push data ∈ s.instructions) : data ∈ keys := by
  have positive := shape.positive
  have enough := shape.enough
  rw [shape.instructions] at h
  simp only [List.mem_append, List.mem_cons, List.not_mem_nil, or_false] at h
  rcases h with (h | h | h) | h
  · exact absurd h.symm (ne_push_of_smallInt? shape.threshold positive data)
  · have pushed : Instruction.pushed? (.push data) ∈ keys.map some := by
      rw [← map_pushed?_of_keyOf? shape.pushes]
      exact List.mem_map_of_mem h
    simpa [Instruction.pushed?] using pushed
  · exact absurd h.symm (ne_push_of_smallInt? shape.count (by omega) data)
  · cases h

/-- Nothing is removed from a script that pushes none of the signatures. -/
theorem Exec.codeWithout_eq_self {s : Script} (hs : s.Valid) {signatures : List Bytes}
    (short : ∀ signature ∈ signatures, signature.length ≤ maxItemSize)
    (absent : ∀ signature ∈ signatures, .push signature ∉ s.instructions) :
    codeWithout s signatures = s := by
  induction signatures with
  | nil => rfl
  | cons signature signatures ih =>
    rw [List.forall_mem_cons] at short absent
    show codeWithout (s.deletePush signature) signatures = s
    rw [hs.deletePush_eq_self short.1 absent.1, ih short.2 absent.2]

/-- The unlocking script, as the row of its pushes. -/
theorem Unlock.multisig_eq {signatures : List Bytes} {redeem : Script}
    (short : ∀ item ∈ ([] :: signatures) ++ [redeem.bytes], item.length ≤ maxItemSize)
    (few : signatures.length ≤ 16) :
    Unlock.multisig signatures redeem = .ok (.ofItems (([] :: signatures) ++ [redeem.bytes])) := by
  have room := (Script.valid_ofItems short (by simp; omega)).size_le
  have tokens : Script.ofItems (([] :: signatures) ++ [redeem.bytes]) =
      ⟨([Token.minimalPush []] ++ signatures.map Token.minimalPush) ++
        [Token.minimalPush redeem.bytes]⟩ := by
    simp [Script.ofItems]
  rw [List.forall_mem_append, List.forall_mem_cons, List.forall_mem_singleton] at short
  rw [tokens] at room ⊢
  have roomBefore := Nat.le_trans (Script.size_le_append _ _) room
  exact bind_eq_ok_iff.mpr ⟨⟨[Token.minimalPush []]⟩, rfl, bind_eq_ok_iff.mpr ⟨_,
    (Script.foldlM_appendData_eq_ok_iff (by decide)).mpr ⟨short.1.2, roomBefore, rfl⟩,
    Script.appendData_eq_ok_iff.mpr ⟨short.2, room, rfl⟩⟩⟩

namespace Signer

/-- The signatures of several keys for an input. -/
def signatures (signer : Signer) (tx : Transaction) (index : Nat) (code : Script)
    (keys : List SigningKey) (hashType : SigHashType) : List Bytes :=
  keys.map fun key => signer.signature tx index code key hashType

theorem length_signatures (signer : Signer) (tx : Transaction) (index : Nat) (code : Script)
    (keys : List SigningKey) (hashType : SigHashType) :
    (signer.signatures tx index code keys hashType).length = keys.length :=
  List.length_map _

theorem signAll_eq (signer : Signer) {tx : Transaction} {index : Nat} (code : Script)
    (hashType : SigHashType) (inside : index < tx.inputs.length) (keys : List SigningKey)
    (log : List LogRecord) :
    ∃ log', signer.signAll tx index code hashType keys log =
      .ok (signer.signatures tx index code keys hashType) log' := by
  induction keys generalizing log with
  | nil => exact ⟨log, rfl⟩
  | cons key keys ih =>
    obtain ⟨log₁, first⟩ := signInput_eq signer code key hashType inside log
    obtain ⟨log', rest⟩ := ih log₁
    refine ⟨log', ?_⟩
    rw [signAll, Logged.bind_of_ok first, Logged.bind_of_ok rest]
    rfl

/-- What is pushed to spend a multisignature payment: an empty item, which the check takes off
without a use for it, the signatures, and the script. -/
def multisigItems (signer : Signer) (tx : Transaction) (index : Nat) (redeem : Script)
    (keys : List SigningKey) (hashType : SigHashType) : List Bytes :=
  ([] :: signer.signatures tx index redeem keys hashType) ++ [redeem.bytes]

variable {signer : Signer} {redeem : Script} {tx : Transaction} {index : Nat}
  {keys : List SigningKey}

theorem short_multisigItems {m : Machine} (reliable : ∀ key ∈ keys, signer.Reliable m key)
    (size : redeem.size ≤ maxItemSize) (tx : Transaction) (index : Nat) (hashType : SigHashType) :
    ∀ item ∈ signer.multisigItems tx index redeem keys hashType, item.length ≤ maxItemSize := by
  rw [multisigItems, List.forall_mem_append, List.forall_mem_cons, List.forall_mem_singleton]
  refine ⟨⟨Nat.zero_le _, List.forall_mem_map.mpr fun key h => ?_⟩, size⟩
  exact Nat.le_trans ((reliable key h).length_signature ..) (by decide)

/-- A call fills in the script of the input. The first keys sign, as many as are required. -/
theorem signMultisig_eq {required : Nat} {ks : List Bytes}
    (params : redeem.multisigParams? = some (required, ks)) (supplied : required ≤ keys.length)
    (inside : index < tx.inputs.length) {hashType : SigHashType}
    (short : ∀ item ∈ signer.multisigItems tx index redeem (keys.take required) hashType,
      item.length ≤ maxItemSize) (few : required ≤ 16) (log : List LogRecord) :
    ∃ log', signer.signMultisig tx index redeem keys hashType log =
      .ok (withScriptSig tx index (Script.ofItems
        (signer.multisigItems tx index redeem (keys.take required) hashType)).bytes) log' := by
  obtain ⟨log', signed⟩ := signAll_eq signer redeem hashType inside (keys.take required) log
  have hunlock := Unlock.multisig_eq short (by
    rw [length_signatures, List.length_take_of_le supplied]
    exact few)
  refine ⟨log', ?_⟩
  unfold signMultisig
  rw [params]
  dsimp only
  rw [if_neg (Nat.not_lt.mpr supplied), Logged.bind_of_ok signed, hunlock]
  rfl

end Signer

/-! ## The signed input -/

/-- The short form of a public key. -/
def Compressed (key : Bytes) : Prop :=
  key.length = 33 ∧ (key.head? = some 0x02 ∨ key.head? = some 0x03)

theorem Compressed.isStandardKey {key : Bytes} (h : Compressed key) :
    SignatureEncoding.isStandardKey key = true := by
  obtain ⟨length, tag⟩ := h
  cases key with
  | nil => cases length
  | cons b body =>
    simp only [List.head?_cons, Option.some_inj] at tag
    rw [List.length_cons] at length
    rcases tag with rfl | rfl <;> simp [SignatureEncoding.isStandardKey] <;> omega

namespace Machine

variable {m : Machine} {redeem : Script}

/-- Pushes that satisfy a script, and the script itself behind them, spend a payment to its hash. If
the rule for it is off, the hash is enough. -/
theorem verify_ofItems {c : Context} {items : List Bytes} (hredeem : redeem.Valid)
    (short : ∀ item ∈ items ++ [redeem.bytes], item.length ≤ maxItemSize) (few : items.length ≤ 18)
    (fresh : c.state.stack = [])
    (satisfied : Exec.Satisfies (m.configure c.env) redeem items.reverse) :
    (m.verify redeem.toScriptHash (.ofItems (items ++ [redeem.bytes])) c).1 = .ok true := by
  have leaves : Exec.Leaves (m.configure c.env) (.ofItems (items ++ [redeem.bytes])) c.state.stack
      (redeem.bytes :: items.reverse) := by
    have pushed : Exec.Leaves (m.configure c.env) (.ofItems (items ++ [redeem.bytes])) [] _ :=
      Exec.leaves_ofItems short (by simp; omega) (by simp [maxStackSize]; omega)
    rw [fresh]
    simpa using pushed
  have room : items.reverse.length ≤ 998 := by
    rw [List.length_reverse]
    omega
  rw [verify_eq_ok_iff]
  by_cases on : m.flags.p2sh = true
  · obtain ⟨after, hafter, top⟩ := satisfied
    have dataOnly := Script.isDataOnly_of_pushed? (Script.pushed?_ofItems (items ++ [redeem.bytes]))
    exact (Exec.verify_payToScriptHash_ok_iff on).mpr ⟨dataOnly, items.reverse, redeem.bytes,
      redeem, after, leaves, room, rfl, hredeem.parse_bytes, hafter, top⟩
  · refine Exec.verify_ok_iff_phases.mpr ⟨_, _, leaves,
      Exec.leaves_payToScriptHash_iff.mpr ⟨_, _, rfl, room, rfl⟩, ?_, fun h => absurd h on⟩
    rw [Exec.topTrue_encode_iff, Script.scriptHash, beq_self_eq_true]

variable {signer : Signer} {answer : Digest 32 → Bytes → Bytes → Flags → Bool} {ks : List Bytes}
  {first last : Instruction} {row : List Instruction} {keys : List SigningKey}
  {tx signed : Transaction} {index : Nat}

/-- A signature starts with another byte than a key, so a check does not find it in the script. -/
theorem codeWithout_signatures {required : Nat}
    (shape : redeem.Multisig required ks first last row) (hredeem : redeem.Valid)
    (compressed : ∀ k ∈ ks, Compressed k) (reliable : ∀ key ∈ keys, signer.Reliable m key)
    (tx : Transaction) (index : Nat) (hashType : SigHashType) :
    Exec.codeWithout redeem (signer.signatures tx index redeem keys hashType).reverse = redeem := by
  refine Exec.codeWithout_eq_self hredeem (fun signature h => ?_) fun signature h pushed => ?_
  · obtain ⟨key, hkey, rfl⟩ := List.mem_map.mp (List.mem_reverse.mp h)
    exact Nat.le_trans ((reliable key hkey).length_signature ..) (by decide)
  · obtain ⟨key, hkey, rfl⟩ := List.mem_map.mp (List.mem_reverse.mp h)
    have tag := SignatureEncoding.head?_of_isStrictDer ((reliable key hkey).strict
      (SigHash.digest tx index redeem hashType.code.toUInt32) hashType)
    have tag' := (compressed _ (shape.mem_of_push pushed)).2
    rw [Signer.signature, tag] at tag'
    simp at tag'

/-- The signatures of keys that stand in the script in order satisfy it. -/
theorem satisfies_signatures (total : m.checker = .total answer)
    (shape : redeem.Multisig keys.length ks first last row) (hredeem : redeem.Valid)
    (compressed : ∀ k ∈ ks, Compressed k)
    (ordered : (keys.map SigningKey.publicKeyBytes).Sublist ks)
    (reliable : ∀ key ∈ keys, signer.Reliable m key) (inside : index < signed.inputs.length)
    (same : signed.unsigned = tx.unsigned) (hashType : SigHashType) (prevOutput : TxOut)
    (blockTime : UInt32) :
    Exec.Satisfies (m.configure (m.contextOf blockTime ⟨signed, ⟨index, inside⟩, prevOutput⟩).env)
      redeem ((signer.signatures tx index redeem keys hashType).reverse ++ [[]]) := by
  have small := (pushed?_of_smallInt? shape.count).2
  have enough := shape.enough
  have kept := codeWithout_signatures shape hredeem compressed reliable tx index hashType
  -- Every signature may be tried with every key. The encoding rules let all these pairs through.
  have answers : ∀ signature ∈ (signer.signatures tx index redeem keys hashType).reverse,
      ∀ k ∈ ks, Env.signatureAnswer
          (m.configure (m.contextOf blockTime ⟨signed, ⟨index, inside⟩, prevOutput⟩).env) signature k
          (Exec.codeWithout redeem (signer.signatures tx index redeem keys hashType).reverse) =
        .ok (answer (SigHash.digest tx index redeem hashType.code.toUInt32) signature.dropLast k
          m.flags) := by
    intro signature h k hk
    obtain ⟨key, hkey, rfl⟩ := List.mem_map.mp (List.mem_reverse.mp h)
    rw [kept, (reliable key hkey).signatureAnswer_signature inside same redeem hashType
      (compressed k hk).isStandardKey, total, Signer.signature, List.dropLast_concat]
    rfl
  refine (Exec.satisfies_multisig_iff shape hredeem (fun k h => ?_) ?_ (fun _ => rfl) ?_
    answers).mpr (List.sublistForall₂_iff.mpr
      ⟨(keys.map SigningKey.publicKeyBytes).reverse, ?_, ordered.reverse⟩)
  · rw [(compressed k h).1]
    decide
  · rw [List.length_reverse, Signer.length_signatures]
  · rw [List.length_nil, List.length_reverse, Signer.length_signatures, maxStackSize]
    omega
  · rw [Signer.signatures, List.forall₂_reverse_iff, List.forall₂_map_left_iff,
      List.forall₂_map_right_iff, List.forall₂_same]
    intro key hkey
    have accepted := (reliable key hkey).accepted
      (SigHash.digest tx index redeem hashType.code.toUInt32)
    rw [total] at accepted
    rw [Signer.signature, List.dropLast_concat]
    exact Except.ok.inj accepted

/-- Signing for a payment to the hash of a multisignature script gives an authorized input, under
any rules. The keys that sign stand in the script in the same order; the checker has to accept
their signatures, and may answer anything about a signature and another key. -/
theorem signed_by_several {m : Machine} {signer : Signer}
    {answer : Digest 32 → Bytes → Bytes → Flags → Bool} (total : m.checker = .total answer)
    {redeem : Script} (built : redeem.Built) (size : redeem.size ≤ 520) {required : Nat}
    {ks : List Bytes} (params : redeem.multisigParams? = some (required, ks))
    (compressed : ∀ k ∈ ks, Compressed k) {keys : List SigningKey}
    (supplied : required ≤ keys.length)
    (ordered : ((keys.take required).map SigningKey.publicKeyBytes).Sublist ks)
    (reliable : ∀ key ∈ keys.take required, signer.Reliable m key) {tx : Transaction} {index : Nat}
    (inside : index < tx.inputs.length) (hashType : SigHashType) (log : List LogRecord)
    (value : UInt64) (blockTime : UInt32) :
    ∃ signed log', signer.signMultisig tx index redeem keys hashType log = .ok signed log' ∧
      (m.verifyTransaction signed index (.ofScript value redeem.toScriptHash) blockTime).result =
        .ok true := by
  obtain ⟨first, last, row, shape⟩ := Script.exists_of_multisigParams? params
  have count : (keys.take required).length = required := List.length_take_of_le supplied
  have few : required ≤ 16 := Nat.le_trans shape.enough (pushed?_of_smallInt? shape.count).2
  have short := Signer.short_multisigItems reliable size tx index hashType
  have length : (signer.signatures tx index redeem (keys.take required) hashType).length ≤ 16 := by
    rw [Signer.length_signatures, count]
    exact few
  obtain ⟨log', hsign⟩ := Signer.signMultisig_eq params supplied inside short few log
  refine ⟨_, log', hsign, ?_⟩
  have hunlock := Script.valid_ofItems short (by simp [Signer.multisigItems]; omega)
  obtain ⟨inside', verdict⟩ := result_withScriptSig (m := m) inside hunlock
    (Script.valid_payToScriptHash redeem.scriptHash) value blockTime
  refine verdict.trans (verify_ofItems built.valid short (by simp; omega) rfl ?_)
  rw [List.reverse_cons]
  exact satisfies_signatures total (count.symm ▸ shape) built.valid compressed ordered reliable
    inside' (Signer.unsigned_withScriptSig ..) hashType _ _

/-- Two of the keys with the numbers one, two and three. The first and the last sign, and the
signatures are theirs on the digest; the key in the middle is supplied too and not asked. -/
theorem signed_by_several_two :
    let one : SigningKey := ⟨⟨1, by decide, by decide⟩,
      ⟨55066263022277343669578718895168534326250603453777594175500187360389116729240,
        32670510020758816978083085130507043184471273380659243275938904335757337482424⟩⟩
    let two : SigningKey := ⟨⟨2, by decide, by decide⟩,
      ⟨89565891926547004231252920425935692360644145829622209833684329913297188986597,
        12158399299693830322967808612713398636155367887041628176798871954788371653930⟩⟩
    let three : SigningKey := ⟨⟨3, by decide, by decide⟩,
      ⟨112711660439710606056748659173929673102114977341539408544630613555209775888121,
        25583027980570883691656905877401976406448868254816295069919888960541586679410⟩⟩
    let first : Bytes := Signature.toDer
      ⟨79368166989992872046652017266682258919610198871350517043113656230113924574243,
        6127549488600381998984858148089357311399109203513472741378307538523696780659⟩
    let second : Bytes := Signature.toDer
      ⟨68765921440968038660722890447396117926739296008550227025614348518791475167062,
        20078937811952517850758473218387995523261021115458143646000792203731470942333⟩
    let signer : Signer := ⟨.mainnet, fun secret _ => if secret.value = 1 then first else second⟩
    let m : Machine := {
      flags := .standard
      checker := .total fun _ der key _ =>
        der == first && key == one.publicKeyBytes || der == second && key == three.publicKeyBytes }
    let redeem : Script := ⟨[.ofNumber 2, .minimalPush one.publicKeyBytes,
      .minimalPush two.publicKeyBytes, .minimalPush three.publicKeyBytes, .ofNumber 3,
      .op (.signature .checkMultisig)]⟩
    let tx : Transaction := ⟨1, 0, [⟨⟨.replicate 32 1, 0⟩, [], 0⟩], [⟨10, [0x51]⟩]⟩
    ∃ signed log, signer.signMultisig tx 0 redeem [one, three, two] .all [] = .ok signed log ∧
      (m.verifyTransaction signed 0 (.ofScript 5 redeem.toScriptHash) 0).result = .ok true := by
  intro one two three first second signer m redeem tx
  have reliable : ∀ key ∈ [one, three], signer.Reliable m key := by
    rw [List.forall_mem_cons, List.forall_mem_singleton]
    constructor
    · refine ⟨fun _ hashType => ?_, fun _ => ?_, fun _ => ?_⟩
      · show SignatureEncoding.isStrictDer (first ++ _) = true
        cases hashType <;> decide +kernel
      · show SignatureEncoding.isLowDer first = true
        decide +kernel
      · show Except.ok (first == first && one.publicKeyBytes == one.publicKeyBytes || _) = .ok true
        simp
    · refine ⟨fun _ hashType => ?_, fun _ => ?_, fun _ => ?_⟩
      · show SignatureEncoding.isStrictDer (second ++ _) = true
        cases hashType <;> decide +kernel
      · show SignatureEncoding.isLowDer second = true
        decide +kernel
      · show Except.ok (_ || second == second && three.publicKeyBytes == three.publicKeyBytes) =
          .ok true
        simp
  have built : redeem.Built := by
    have parsed : Script.parse redeem.bytes = .ok redeem := by decide +kernel
    exact .parse parsed
  have params : redeem.multisigParams? = some (2, [one.publicKeyBytes, two.publicKeyBytes,
      three.publicKeyBytes]) := by
    decide +kernel
  have compressed : ∀ k ∈ [one.publicKeyBytes, two.publicKeyBytes, three.publicKeyBytes],
      Compressed k := by
    unfold Compressed
    decide +kernel
  have ordered : (([one, three, two].take 2).map SigningKey.publicKeyBytes).Sublist
      [one.publicKeyBytes, two.publicKeyBytes, three.publicKeyBytes] :=
    .cons_cons _ (.cons _ (.cons_cons _ .slnil))
  exact signed_by_several rfl built (by decide +kernel) params compressed (by decide) ordered
    reliable (by decide) .all [] 5 0

end Machine

end CoinScript
