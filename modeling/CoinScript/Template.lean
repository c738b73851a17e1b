import CoinScript.Address
/-!
# Templates for locking scripts

Builders for standard outputs and for contracts. A builder that fails reports a
construction error, whatever went wrong inside; the time, where one matters, is an
argument.
-/

namespace CoinScript.Template

/-- Report any failure of a builder as a failure of the template. -/
def retag {α : Type} : Except Error α → Except Error α
  | .ok a => .ok a
  | .error (.construction cause) => .error (.construction cause)
  | .error e => .error (.construction (.other e.message))

/-- A piece of a template. -/
inductive Part where
  | op (op : Opcode)
  | data (data : Bytes)
  | number (value : Int)
  | script (script : Script)

/-- Append a piece. -/
def Part.appendTo (s : Script) : Part → Except Error Script
  | op o => s.append o
  | data d => s.appendData d
  | number value => s.appendNumber value
  | script other => s.appendScript other

/-- The script of some pieces. -/
def build (parts : List Part) : Except Error Script :=
  retag (parts.foldlM Part.appendTo Script.empty)

/-! ## Standard outputs -/

/-- Pay to a key. -/
def payToPubkey (key : PublicKey) : Except Error Script :=
  build [.data key.serialize.bytes, .op (.signature .checkSig)]

/-- Pay to the holder of the key of an address. -/
def payToPubkeyHash (address : Address) : Except Error Script := do
  address.requirePubkeyHash
  return Script.payToPubkeyHash address.hash

/-- Pay to the holder of the key of an address given by its payload. -/
def ofPayload (payload : Bytes) : Except Error Script := do
  payToPubkeyHash (← Address.ofPayload payload)

/-- Pay to any `required` holders of these keys. -/
def multisig (keys : List PublicKey) (required : Nat) : Except Error Script :=
  retag (Script.multisig (keys.map fun key => key.serialize.bytes) required)

/-- Pay to all holders of these keys together. -/
def multisigAll (keys : List PublicKey) : Except Error Script :=
  multisig keys keys.length

/-! ## Lock times -/

/-- The time `interval` after `now`, if it fits 32 bits. -/
def unlockTime (now interval : UInt32) : Except Error UInt32 :=
  if now.toNat + interval.toNat < UInt32.size then .ok (now + interval)
  else .error (.construction .lockTimeOverflow)

/-- The pieces that hold a script back until a lock time. -/
def gate (lockTime : UInt32) : List Part :=
  [.number lockTime.toNat, .op (.lockTime .absolute), .op (.stack (.shuffle .drop))]

/-- A script that cannot be spent before a lock time. -/
def lockTime (script : Script) (lockTime : UInt32) : Except Error Script :=
  build (gate lockTime ++ [.script script])

/-- A script that cannot be spent before an interval has passed. -/
def lockTimeAfter (script : Script) (now interval : UInt32) : Except Error Script := do
  lockTime script (← unlockTime now interval)

/-- Pay to the key of an address, not before a lock time. -/
def lockTimeAddress (address : Address) (time : UInt32) : Except Error Script := do
  lockTime (← payToPubkeyHash address) time

/-- Pay to the key of an address, not before an interval has passed. -/
def lockTimeAddressAfter (address : Address) (now interval : UInt32) : Except Error Script := do
  let script ← payToPubkeyHash address
  lockTime script (← unlockTime now interval)

/-! ## Data outputs -/

/-- An output that carries data and cannot be spent. -/
def carrier (data : Bytes) : Except Error Script :=
  if data.length > maxCarrierSize then .error (.construction (.carrierTooLong data.length))
  else build [.op (.flow .giveUp), .data data]

/-- An output that carries a text. -/
def carrierText (text : String) : Except Error Script :=
  carrier (text.toList.flatMap String.utf8EncodeChar)

/-! ## Alternatives -/

/-- Join neighbours of a level: the first of two if the selector is true, else the second. A script
without a neighbour drops its selector. -/
def joinPairs : List Script → Except Error (List Script)
  | [] => .ok []
  | [last] => do
    let joined ← build [.op (.stack (.shuffle .drop)), .script last]
    return [joined]
  | a :: b :: rest => do
    let joined ← build
      [.op (.flow .ifTrue), .script a, .op (.flow .orElse), .script b, .op (.flow .endIf)]
    return joined :: (← joinPairs rest)

theorem length_of_joinPairs {level joined : List Script} (h : joinPairs level = .ok joined) :
    joined.length = (level.length + 1) / 2 := by
  fun_induction joinPairs level generalizing joined with
  | case1 => cases h; rfl
  | case2 last =>
    revert h
    cases build [.op (.stack (.shuffle .drop)), .script last] with
    | error e => intro h; cases h
    | ok s => intro h; cases h; simp
  | case3 a b rest ih =>
    revert h
    cases build [.op (.flow .ifTrue), .script a, .op (.flow .orElse), .script b,
      .op (.flow .endIf)] with
    | error e => intro h; cases h
    | ok s =>
      cases hr : joinPairs rest with
      | error e => intro h; cases h
      | ok tail =>
        intro h
        cases h
        have := ih hr
        simp only [List.length_cons, this]
        omega

/-- Join level by level until one script is left. -/
def joinAll (level : List Script) : Except Error Script :=
  match level with
  | [] => .error (.construction .noScripts)
  | [script] => .ok script
  | a :: b :: rest =>
    match h : joinPairs (a :: b :: rest) with
    | .error e => .error e
    | .ok joined =>
      have shorter : joined.length < (a :: b :: rest).length := by
        have := length_of_joinPairs h
        simp only [List.length_cons] at this ⊢
        omega
      joinAll joined
termination_by level.length
decreasing_by exact shorter

/-- A script that is satisfied by any of these scripts. -/
def alternatives (scripts : List Script) : Except Error Script :=
  joinAll scripts

/-! ## Hashed time-locked contracts -/

/-- The digest of a contract's secret. -/
inductive HashOperator where
  | sha256
  | hash160
deriving DecidableEq, Repr

namespace HashOperator

/-- The name of an operator. -/
def name : HashOperator → String
  | sha256 => "Sha256"
  | hash160 => "Hash160"

/-- The opcode that computes the digest. -/
def opcode : HashOperator → Opcode
  | sha256 => .hash .sha256
  | hash160 => .hash .hash160

/-- The number of bytes of the digest. -/
def size : HashOperator → Nat
  | sha256 => 32
  | hash160 => 20

/-- The digest of a secret. -/
def digest : HashOperator → Bytes → Bytes
  | sha256, data => (Hash.sha256 data).bytes
  | hash160, data => (Hash.hash160 data).bytes

end HashOperator

/-- A contract that pays the recipient for the secret of a digest, and the sender after a lock
time. -/
def contract (recipient sender : Address) (lockTime : UInt32) (digest : Bytes)
    (hash : HashOperator) : Except Error Script := do
  if digest.length ≠ hash.size then
    .error (.construction (.digestSize hash.name hash.size digest.length))
  else
    recipient.requirePubkeyHash
    sender.requirePubkeyHash
    build ([.op (.flow .ifTrue), .op hash.opcode, .data digest, .op .equalVerify,
        .op (.stack (.shuffle .dup)), .op (.hash .hash160), .data recipient.hash.bytes,
        .op (.flow .orElse)] ++ gate lockTime ++
      [.op (.stack (.shuffle .dup)), .op (.hash .hash160), .data sender.hash.bytes,
        .op (.flow .endIf), .op .equalVerify, .op (.signature .checkSig)])

/-- A contract for a given secret. -/
def contractForSecret (recipient sender : Address) (lockTime : UInt32) (secret : Bytes)
    (hash : HashOperator) : Except Error Script :=
  contract recipient sender lockTime (hash.digest secret) hash

/-- A contract whose lock time is an interval after `now`. -/
def contractAfter (recipient sender : Address) (now interval : UInt32) (digest : Bytes)
    (hash : HashOperator) : Except Error Script := do
  contract recipient sender (← unlockTime now interval) digest hash

end CoinScript.Template
