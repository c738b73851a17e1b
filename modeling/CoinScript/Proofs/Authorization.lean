import CoinScript.Proofs.Built
import CoinScript.Proofs.Phases
/-!
# What authorizes a spend

A pay-to-script-hash locking script only compares a hash, so its phase can be described by
the stack that it starts from. With it the three phases of a verification come down to the
unlocking script and the redeem script.

* `Script.Valid.isPayToScriptHash_iff`: the shape tells exactly the scripts that pay to a
  script hash;
* `Exec.leaves_payToScriptHash_iff`: the phase of such a script;
* `Machine.authorizes_exactly`: when a pair of scripts authorizes a spend.
-/

namespace CoinScript

/-! ## Pay-to-script-hash scripts -/

namespace Script

theorem isPayToScriptHash_payToScriptHash (hash : Digest 20) :
    (payToScriptHash hash).isPayToScriptHash = true := by
  rw [isPayToScriptHash, bytes_payToScriptHash]
  simp [hash.length_bytes]

/-- Where 20 bytes are left between two known ends, they are a hash. -/
theorem exists_hash_between {bytes front back : Bytes} {start : Nat}
    (hfront : bytes.take start = front) (hback : bytes.drop (start + 20) = back)
    (room : start + 20 ≤ bytes.length) :
    ∃ hash : Digest 20, bytes = front ++ hash.bytes ++ back := by
  let hash : Digest 20 := ⟨(bytes.drop start).take 20, by
    rw [List.length_take, List.length_drop]
    omega⟩
  refine ⟨hash, ?_⟩
  calc
    bytes = bytes.take start ++ ((bytes.drop start).take 20 ++ (bytes.drop start).drop 20) := by
      rw [List.take_append_drop, List.take_append_drop]
    _ = front ++ hash.bytes ++ back := by
      rw [List.drop_drop, hfront, hback, List.append_assoc]

/-- Among the valid scripts, those of the shape are the ones that the template makes. -/
theorem Valid.isPayToScriptHash_iff {s : Script} (hs : s.Valid) :
    s.isPayToScriptHash = true ↔ ∃ hash, s = payToScriptHash hash := by
  constructor
  · intro shape
    unfold isPayToScriptHash at shape
    simp only [Bool.and_eq_true, beq_iff_eq] at shape
    obtain ⟨⟨length, front⟩, back⟩ := shape
    obtain ⟨hash, hbytes⟩ := exists_hash_between front back (by omega)
    exact ⟨hash, hs.eq_of_bytes_eq (valid_payToScriptHash hash)
      (hbytes.trans (bytes_payToScriptHash hash).symm)⟩
  · rintro ⟨hash, rfl⟩
    exact isPayToScriptHash_payToScriptHash hash

theorem hash160?_payToScriptHash (hash : Digest 20) :
    (payToScriptHash hash).hash160? = some hash := by
  have notPubkey : (payToScriptHash hash).isPayToPubkeyHash = false := by
    rw [isPayToPubkeyHash, bytes_payToScriptHash]
    simp [hash.length_bytes]
  have payload : ((payToScriptHash hash).bytes.drop 2).take 20 = hash.bytes := by
    rw [bytes_payToScriptHash]
    exact List.take_left' hash.length_bytes
  rw [hash160?, notPubkey, isPayToScriptHash_payToScriptHash, payload]
  exact dif_pos hash.length_bytes

end Script

/-- The redeem script is the top item, read as a script, if its hash is the one in the lock. -/
theorem redeemScript_ok_iff {stack : List Bytes} {lock redeem : Script} :
    redeemScript stack lock = .ok redeem ↔
      ∃ item rest, stack = item :: rest ∧ lock.hash160? = some (Hash.hash160 item) ∧
        Script.parse item = .ok redeem := by
  unfold redeemScript
  constructor
  · intro h
    split at h
    · cases h
    · next item rest =>
      obtain ⟨script, hparse, h⟩ := bind_eq_ok_iff.mp h
      split at h
      · cases h
      · next expected hlock =>
        split at h
        · next hhash =>
          cases h
          exact ⟨item, rest, rfl, by rw [hlock, hhash], hparse⟩
        · cases h
  · rintro ⟨item, rest, rfl, hlock, hparse⟩
    refine bind_eq_ok_iff.mpr ⟨redeem, hparse, ?_⟩
    rw [hlock]
    exact if_pos rfl

theorem redeemScript_eq_ok_iff {stack : List Bytes} {hash : Digest 20} {redeem : Script} :
    redeemScript stack (Script.payToScriptHash hash) = .ok redeem ↔
      ∃ item rest, stack = item :: rest ∧ Hash.hash160 item = hash ∧
        Script.parse item = .ok redeem := by
  rw [redeemScript_ok_iff, Script.hash160?_payToScriptHash]
  simp only [Option.some.injEq, eq_comm (a := hash)]

namespace Exec

/-! ## The phase of the locking script -/

/-- Logging changes nothing about a phase. -/
theorem leaves_quiet_iff {env : Env} {script : Script} {before after : List Bytes} :
    Leaves { env with verbose := false } script before after ↔ Leaves env script before after :=
  ⟨Leaves.relax ⟨Flags.Within.refl _, rfl, rfl, fun _ _ _ => rfl⟩,
    Leaves.relax ⟨Flags.Within.refl _, rfl, rfl, fun _ _ _ => rfl⟩⟩

/-- The three instructions of a pay-to-script-hash script, one after the other. Before the last one
there are two items above the rest of the stack, so it must have room for them. -/
theorem steps_payToScriptHash_ok_iff {env : Env} {hash : Digest 20} {s s' : State}
    (quiet : env.verbose = false) (closed : s.conditions = []) (uncounted : s.operations = 0)
    (alt : s.alt = []) :
    steps env 0 (Script.payToScriptHash hash).instructions s = .ok () s' ↔
      ∃ item rest, s.stack = item :: rest ∧ rest.length ≤ 998 ∧
        s' = { s with
          position := 2
          operations := 2
          stack := Truth.encode ((Hash.hash160 item).bytes == hash.bytes) :: rest } := by
  have executing {t : State} (h : t.conditions = []) : t.executing = true := by
    rw [State.executing, h]
    rfl
  have instructions : (Script.payToScriptHash hash).instructions =
      [.op (.hash .hash160), .push hash.bytes, .op .equal] := rfl
  rw [instructions]
  constructor
  · intro h
    obtain ⟨s₁, h₁, h⟩ := steps_cons_ok_iff.mp h
    obtain ⟨_, hhash, _⟩ := (step_op_ok_iff quiet (executing closed) (by decide)).mp h₁
    obtain ⟨item, rest, hs, rfl⟩ := hash_ok_iff.mp hhash
    obtain ⟨s₂, h₂, h⟩ := steps_cons_ok_iff.mp h
    -- Of the three size checks this one, with both items on the stack, is the strictest.
    obtain ⟨_, room, rfl⟩ := (step_push_ok_iff quiet (by exact executing closed)).mp h₂
    obtain ⟨s₃, h₃, h⟩ := steps_cons_ok_iff.mp h
    obtain ⟨_, hequal, _⟩ := (step_op_ok_iff quiet (by exact executing closed) (by decide)).mp h₃
    obtain ⟨b, a, below, hs', rfl⟩ := equal_ok_iff.mp hequal
    cases hs'
    cases h
    refine ⟨item, rest, hs, ?_, ?_⟩
    · simp only [alt, List.length_cons, List.length_nil, maxStackSize] at room
      omega
    · simp [uncounted, HashOp.digest]
  · rintro ⟨item, rest, hs, room, rfl⟩
    refine steps_cons_ok_iff.mpr ⟨_, (step_op_ok_iff quiet (executing closed) (by decide)).mpr
      ⟨?_, hash_ok_iff.mpr ⟨item, rest, hs, rfl⟩, ?_⟩, ?_⟩
    · simp [uncounted, maxOperations]
    · simp only [alt, List.length_cons, List.length_nil, maxStackSize]
      omega
    refine steps_cons_ok_iff.mpr ⟨_, (step_push_ok_iff quiet
      (by exact executing closed)).mpr ⟨?_, ?_, rfl⟩, ?_⟩
    · simp [hash.length_bytes, maxItemSize]
    · simp only [alt, List.length_cons, List.length_nil, maxStackSize]
      omega
    refine steps_cons_ok_iff.mpr ⟨_, (step_op_ok_iff quiet
      (by exact executing closed) (by decide)).mpr
        ⟨?_, equal_ok_iff.mpr ⟨hash.bytes, _, rest, rfl, rfl⟩, ?_⟩, ?_⟩
    · simp [uncounted, maxOperations]
    · simp only [alt, List.length_cons, List.length_nil, maxStackSize]
      omega
    · simp [uncounted, HashOp.digest]
      rfl

/-- A pay-to-script-hash script replaces the top item by whether it has the hash. -/
theorem leaves_payToScriptHash_iff {env : Env} {hash : Digest 20} {before after : List Bytes} :
    Leaves env (Script.payToScriptHash hash) before after ↔
      ∃ item rest, before = item :: rest ∧ rest.length ≤ 998 ∧
        after = Truth.encode ((Hash.hash160 item).bytes == hash.bytes) :: rest := by
  rw [← leaves_quiet_iff]
  constructor
  · rintro ⟨s, hrun, rfl⟩
    obtain ⟨_, ⟨s₀, hbegin, hsteps⟩, _⟩ := run_ok_iff.mp hrun
    cases hbegin
    obtain ⟨item, rest, hs, room, rfl⟩ := (steps_payToScriptHash_ok_iff rfl rfl rfl rfl).mp hsteps
    exact ⟨item, rest, hs, room, rfl⟩
  · rintro ⟨item, rest, rfl, room, rfl⟩
    exact ⟨_, run_ok_iff.mpr ⟨(Script.valid_payToScriptHash hash).size_le, ⟨_, rfl,
      (steps_payToScriptHash_ok_iff rfl rfl rfl rfl).mpr ⟨item, rest, rfl, room, rfl⟩⟩, rfl⟩, rfl⟩

theorem topTrue_encode_iff {b : Bool} {rest : List Bytes} :
    TopTrue (Truth.encode b :: rest) ↔ b = true := by
  constructor
  · rintro ⟨item, rest', h, top⟩
    cases h
    cases b with
    | true => rfl
    | false => cases top
  · rintro rfl
    exact ⟨[1], rest, rfl, rfl⟩

/-- What remains of the phases if the locking script pays to a script hash. -/
theorem verify_payToScriptHash_ok_iff {env : Env} {hash : Digest 20} {unlock : Script} {s : State}
    (on : env.flags.p2sh = true) :
    (∃ s', verify env (Script.payToScriptHash hash) unlock s = .ok true s') ↔
      unlock.isDataOnly = true ∧ ∃ rest item redeem after,
        Leaves env unlock s.stack (item :: rest) ∧ rest.length ≤ 998 ∧ Hash.hash160 item = hash ∧
        Script.parse item = .ok redeem ∧ Leaves env redeem rest after ∧ TopTrue after := by
  rw [verify_ok_iff_phases]
  constructor
  · rintro ⟨unlocked, locked, hunlock, hlock, _, redeems⟩
    obtain ⟨dataOnly, redeem, after, hredeem, leaves, top⟩ :=
      redeems on (Script.isPayToScriptHash_payToScriptHash hash)
    obtain ⟨item, rest, rfl, hhash, hparse⟩ := redeemScript_eq_ok_iff.mp hredeem
    obtain ⟨item', rest', hs, room, _⟩ := leaves_payToScriptHash_iff.mp hlock
    cases hs
    exact ⟨dataOnly, rest, item, redeem, after, hunlock, room, hhash, hparse, leaves, top⟩
  · rintro ⟨dataOnly, rest, item, redeem, after, hunlock, room, hhash, hparse, leaves, top⟩
    refine ⟨item :: rest, _, hunlock,
      leaves_payToScriptHash_iff.mpr ⟨item, rest, rfl, room, rfl⟩, ?_, ?_⟩
    · rw [topTrue_encode_iff, hhash, beq_self_eq_true]
    · intro _ _
      exact ⟨dataOnly, redeem, after,
        redeemScript_eq_ok_iff.mpr ⟨item, rest, rfl, hhash, hparse⟩, leaves, top⟩

end Exec

/-! ## The machine -/

/-- The context with another main stack. -/
def Context.withStack (c : Context) (stack : List Bytes) : Context :=
  { c with state := { c.state with stack := stack } }

namespace Machine

/-- The answer of a verification is never false, and this is when it is true. With the rule for it
on, a script that pays to a script hash is satisfied by pushes alone that leave a script with this
hash on top, if that script accepts what lies below; the locking script takes up two places. Any
other pair of scripts runs one after the other and has to leave a true item on top. -/
theorem authorizes_exactly {m : Machine} {c : Context} {lock unlock : Script}
    (built : lock.Built) :
    (m.verify lock unlock c).1 ≠ .ok false ∧
    (∀ hash, m.flags.p2sh = true → lock = Script.payToScriptHash hash →
      ((m.verify lock unlock c).1 = .ok true ↔
        unlock.isDataOnly = true ∧ ∃ rest item redeem after,
          m.Leaves unlock c (item :: rest) ∧ rest.length ≤ 998 ∧ Hash.hash160 item = hash ∧
          Script.parse item = .ok redeem ∧ m.Leaves redeem (c.withStack rest) after ∧
          TopTrue after)) ∧
    (¬ (m.flags.p2sh = true ∧ ∃ hash, lock = Script.payToScriptHash hash) →
      ((m.verify lock unlock c).1 = .ok true ↔ ∃ unlocked locked,
        m.Leaves unlock c unlocked ∧ m.Leaves lock (c.withStack unlocked) locked ∧
        TopTrue locked)) := by
  simp only [leaves_iff]
  refine ⟨?_, ?_, ?_⟩
  · intro h
    obtain ⟨s, hverify⟩ := verify_eq_ok_iff.mp h
    cases Exec.eq_true_of_verify hverify
  · rintro hash on rfl
    rw [verify_eq_ok_iff]
    exact Exec.verify_payToScriptHash_ok_iff on
  · intro other
    rw [verify_eq_ok_iff, Exec.verify_ok_iff_phases]
    -- The shape is tested on bytes, and only the template makes built scripts of this shape.
    have noRedeem : m.flags.p2sh = true → lock.isPayToScriptHash = true → False :=
      fun on shape => other ⟨on, built.valid.isPayToScriptHash_iff.mp shape⟩
    constructor
    · rintro ⟨unlocked, locked, hunlock, hlock, top, _⟩
      exact ⟨unlocked, locked, hunlock, hlock, top⟩
    · rintro ⟨unlocked, locked, hunlock, hlock, top⟩
      exact ⟨unlocked, locked, hunlock, hlock, top, fun on shape => (noRedeem on shape).elim⟩

/-- A script that pushes a true item redeems a payment to its hash. With the rule off, the same pair
of scripts passes by the hash alone. -/
theorem authorizes_exactly_true :
    let redeem : Script := ⟨[.push .direct [1]]⟩
    let lock := redeem.toScriptHash
    let unlock : Script := ⟨[.push .direct redeem.bytes]⟩
    (verify { flags := .standard } lock unlock {}).1 = .ok true ∧
      (verify { flags := .none } lock unlock {}).1 = .ok true := by
  intro redeem lock unlock
  have hredeem : redeem.Built := .appendData .empty (show Script.appendData _ [1] = _ from rfl)
  have hlock : lock.Built := .toScriptHash hredeem
  refine ⟨?_, ?_⟩
  · exact ((authorizes_exactly hlock).2.1 redeem.scriptHash rfl rfl).mpr
      ⟨rfl, [], redeem.bytes, redeem, [[1]], ⟨rfl, rfl⟩, by decide, rfl,
        hredeem.valid.parse_bytes, ⟨rfl, rfl⟩, [1], [], rfl, rfl⟩
  · have off : ¬ (Flags.none.p2sh = true ∧ ∃ hash, lock = Script.payToScriptHash hash) := by
      rintro ⟨on, _⟩
      cases on
    have locked :
        Leaves { flags := .none } lock (({} : Context).withStack [redeem.bytes]) [[1]] := by
      refine leaves_iff.mpr (Exec.leaves_payToScriptHash_iff.mpr
        ⟨redeem.bytes, [], rfl, by decide, ?_⟩)
      rw [Script.scriptHash, beq_self_eq_true]
      rfl
    exact ((authorizes_exactly hlock).2.2 off).mpr
      ⟨[redeem.bytes], [[1]], ⟨rfl, rfl⟩, locked, [1], [], rfl, rfl⟩

end Machine

end CoinScript
