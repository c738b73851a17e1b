import CoinScript.Proofs.Radix
import CoinScript.Proofs.Success
/-!
# What the rule of an opcode can do

The rule of an opcode works on the stacks alone: it leaves the open branches, the running
script and the position as they are, counts no operations but the keys of a multisignature
check, and lengthens the stacks by three items at most. `Work` says this of a state that a
rule has reached, and a rule is followed step by step, whether it goes on or fails.

Three facts come out of one pass over all opcodes: what is left of the state, how long items
get, and which errors can come up.

* `execute_work`: the rules of all opcodes outside branch bookkeeping.
-/

namespace CoinScript

/-! ## Sizes of numbers -/

namespace Number

theorem length_minimalLE_le {n k : Nat} (h : n < 256 ^ k) : (Bytes.minimalLE n).length ≤ k := by
  induction k generalizing n with
  | zero =>
    have hn : n = 0 := by simpa using h
    simp [hn, Bytes.minimalLE]
  | succ k ih =>
    rw [Bytes.minimalLE]
    split
    · simp
    · rw [Nat.pow_succ'] at h
      have := ih (n := n / 256) (by omega)
      simpa using this

theorem length_encode_le {v : Int} {k : Nat} (h : v.natAbs < 256 ^ k) :
    (encode v).length ≤ k + 1 := by
  have hm := length_minimalLE_le h
  unfold encode
  dsimp only
  split
  · simp
  · split
    · simp
      omega
    · split
      · simp
        omega
      · omega

/-- A number of up to eight bytes is no longer than what a script may push. -/
theorem short_encode {v : Int} (h : v.natAbs < 256 ^ 8) : (encode v).length ≤ maxItemSize := by
  have := length_encode_le h
  simp only [maxItemSize]
  omega

theorem natAbs_value_lt (item : Bytes) : (value item).natAbs < 256 ^ item.length := by
  unfold value
  split
  · next h => simp [List.getLast?_eq_none_iff.mp h]
  · next last h =>
    have hne : item ≠ [] := by
      rintro rfl
      simp at h
    have hlt := Bytes.toNatLE_lt (item.dropLast ++ [last &&& 0x7f])
    have hlen : (item.dropLast ++ [last &&& 0x7f]).length = item.length := by
      have := List.length_pos_iff.mpr hne
      simp
      omega
    rw [hlen] at hlt
    dsimp only
    split
    · rwa [Int.natAbs_neg, Int.natAbs_natCast]
    · rwa [Int.natAbs_natCast]

theorem natAbs_of_decode {limit : Nat} {item : Bytes} {v : Int} (h : decode limit item = .ok v) :
    v.natAbs < 256 ^ limit := by
  unfold decode at h
  split at h
  · cases h
  · next hl =>
    cases h
    exact Nat.lt_of_lt_of_le (natAbs_value_lt item) (Nat.pow_le_pow_right (by decide) (by omega))

end Number

theorem Truth.short_encode (b : Bool) : (Truth.encode b).length ≤ maxItemSize := by
  cases b <;> decide

theorem HashOp.short_digest (op : HashOp) (data : Bytes) :
    (op.digest data).length ≤ maxItemSize := by
  cases op <;> simp [HashOp.digest, Digest.length_bytes, maxItemSize]

/-! ## Results of arithmetic -/

theorem Truth.natAbs_toInt (b : Bool) : (Truth.toInt b).natAbs ≤ 1 := by
  cases b <;> decide

theorem UnaryOp.natAbs_eval (op : UnaryOp) (a : Int) : (op.eval a).natAbs ≤ a.natAbs + 1 := by
  have hnot := Truth.natAbs_toInt (a == 0)
  have hzero := Truth.natAbs_toInt (a != 0)
  cases op <;> simp only [UnaryOp.eval] <;> omega

theorem BinaryOp.natAbs_eval (op : BinaryOp) (a b : Int) :
    (op.eval a b).natAbs ≤ a.natAbs + b.natAbs + 1 := by
  have truth (c : Bool) : (Truth.toInt c).natAbs ≤ a.natAbs + b.natAbs + 1 := by
    have := Truth.natAbs_toInt c
    omega
  cases op <;> simp only [BinaryOp.eval]
  case add => omega
  case sub => omega
  case min => split <;> omega
  case max => split <;> omega
  all_goals exact truth _

/-! ## The states that a rule reaches -/

namespace State

/-- The number of items on both stacks. -/
def height (s : State) : Nat :=
  s.stack.length + s.alt.length

/-- No item is longer than what a script may push. -/
def Short (s : State) : Prop :=
  ∀ item, item ∈ s.stack ∨ item ∈ s.alt → item.length ≤ maxItemSize

/-- The stacks are within the limits between two instructions. -/
def Tidy (s : State) : Prop :=
  s.Short ∧ s.height ≤ maxStackSize

/-- The number on top of the stack, if it is not negative. -/
def topCount (s : State) : Nat :=
  match s.stack with
  | [] => 0
  | item :: _ => (Number.value item).toNat

/-- What a rule that started in `s` leaves alone in the state `t`, wherever it stops. The stacks have
at most `grown` items more, and short items stay short. -/
structure Kept (s : State) (grown : Nat) (t : State) : Prop where
  conditions : t.conditions = s.conditions
  script : t.script = s.script
  position : t.position = s.position
  height : t.height ≤ s.height + grown
  short : s.Tidy → t.Short

/-- A state `t` that a rule goes on from: it has counted `keys` operations within the limit. -/
structure Work (s : State) (keys grown : Nat) (t : State) : Prop extends Kept s grown t where
  operations : t.operations = s.operations + keys
  limit : keys = 0 ∨ t.operations ≤ maxOperations

theorem Work.refl (s : State) : s.Work 0 0 s where
  conditions := rfl
  script := rfl
  position := rfl
  height := Nat.le_refl _
  short tidy := tidy.1
  operations := rfl
  limit := .inl rfl

theorem Work.mono {s t : State} {keys g g' : Nat} (h : s.Work keys g t) (hg : g ≤ g') :
    s.Work keys g' t :=
  { h with height := Nat.le_trans h.height (Nat.add_le_add_left hg _) }

/-- A change of the stacks that adds no item which was not there before. -/
theorem Work.restack {s t : State} {keys g : Nat} (h : s.Work keys 0 t) {stack alt : List Bytes}
    (hitems : ∀ item, item ∈ stack ∨ item ∈ alt → item ∈ t.stack ∨ item ∈ t.alt)
    (hheight : stack.length + alt.length ≤ t.height + g) :
    s.Work keys g { t with stack := stack, alt := alt } :=
  { h with
    height := Nat.le_trans hheight (Nat.add_le_add_right h.height g)
    short := fun tidy item hitem => h.short tidy item (hitems item hitem) }

end State

/-! ## Errors that can come up -/

/-- The errors of rules in an environment. Beside those of the signature checker there are errors
about the script, the stack and the verdict; encodings are refused under a rule for them, and
nothing else goes wrong if there is a spend to verify. -/
def Env.MayRaise (env : Env) (e : Error) : Prop :=
  (∃ digest signature key, env.checker digest signature key env.flags = .error e) ∨
    match e.kind with
    | .structural | .stackUnderflow | .negativeVerdict => True
    | .cryptoDelegate => env.flags.strictEncoding = true ∨ env.flags.lowS = true
    | .construction => False
    | .other => env.spend = none

namespace Env

variable {env : Env}

theorem mayRaise_structural (cause : Malformation) : env.MayRaise (.structural cause) :=
  .inr trivial

theorem mayRaise_underflow (required : Nat) : env.MayRaise (.stackUnderflow required) :=
  .inr trivial

theorem mayRaise_negativeVerdict (cause : Refusal) : env.MayRaise (.negativeVerdict cause) :=
  .inr trivial

theorem mayRaise_of_decode {limit : Nat} {item : Bytes} {e : Error}
    (h : Number.decode limit item = .error e) : env.MayRaise e := by
  unfold Number.decode at h
  split at h
  · cases h
    exact mayRaise_structural _
  · cases h

theorem mayRaise_of_depthOf {height : Nat} {index : Int} {e : Error}
    (h : Exec.depthOf height index = .error e) : env.MayRaise e := by
  unfold Exec.depthOf at h
  split at h
  all_goals
    split at h
    · cases h
    · cases h
      exact mayRaise_underflow _

theorem mayRaise_of_checkSignature {sig : Bytes} {e : Error}
    (h : SignatureEncoding.checkSignature env.flags sig = .error e) : env.MayRaise e := by
  unfold SignatureEncoding.checkSignature at h
  split at h
  · cases h
  split at h
  · next rule =>
    cases h
    simp only [Bool.and_eq_true, Bool.or_eq_true] at rule
    exact .inr rule.1
  split at h
  · next rule =>
    cases h
    simp only [Bool.and_eq_true] at rule
    exact .inr (.inr rule.1)
  split at h
  · next rule =>
    cases h
    simp only [Bool.and_eq_true] at rule
    exact .inr (.inl rule.1)
  · cases h

theorem mayRaise_of_checkPublicKey {key : Bytes} {e : Error}
    (h : SignatureEncoding.checkPublicKey env.flags key = .error e) : env.MayRaise e := by
  unfold SignatureEncoding.checkPublicKey at h
  split at h
  · next rule =>
    cases h
    simp only [Bool.and_eq_true] at rule
    exact .inr (.inl rule.1)
  · cases h

theorem mayRaise_of_checkLockTime {spend : Spend} {time : Option UInt32} {n : Int} {e : Error}
    (h : spend.checkLockTime time n = .error e) : env.MayRaise e := by
  unfold Spend.checkLockTime at h
  dsimp only at h
  repeat' split at h
  all_goals cases h
  all_goals exact .inr trivial

theorem mayRaise_of_checkSequence {spend : Spend} {n : Int} {e : Error}
    (h : spend.checkSequence n = .error e) : env.MayRaise e := by
  unfold Spend.checkSequence at h
  dsimp only at h
  repeat' split at h
  all_goals cases h
  all_goals exact .inr trivial

end Env

namespace Exec

variable {α β : Type}

/-! ## Following a rule -/

/-- A result is an answer with `Q` or an error with `E`. -/
def Ends (Q : α → State → Prop) (E : Error → State → Prop) : EStateM.Result Error State α → Prop
  | .ok a s => Q a s
  | .error e s => E e s

/-- A rule that started in `s` has failed with `e` in the state `t`. -/
def Fails (env : Env) (s : State) (e : Error) (t : State) : Prop :=
  env.MayRaise e ∧ s.Kept 0 t

/-- In the course of a rule that started in `s`, the step `x` lengthens no stack, counts nothing and
gives an answer with `Q`. -/
def Keeps (env : Env) (s : State) (keys : Nat) (x : Exec α) (Q : α → Prop) : Prop :=
  ∀ t, s.Work keys 0 t → Ends (fun a t' => Q a ∧ s.Work keys 0 t') (Fails env s) (x t)

/-- In the course of a rule that started in `s`, the step `x` is the last one. -/
def Closes (env : Env) (s : State) (keys : Nat) (x : Exec Unit) : Prop :=
  ∀ t, s.Work keys 0 t → Ends (fun _ t' => s.Work keys 3 t') (Fails env s) (x t)

theorem Ends.mono {Q Q' : α → State → Prop} {E E' : Error → State → Prop}
    {r : EStateM.Result Error State α} (h : Ends Q E r) (hq : ∀ a s, Q a s → Q' a s)
    (he : ∀ e s, E e s → E' e s) : Ends Q' E' r := by
  cases r with
  | ok a s => exact hq a s h
  | error e s => exact he e s h

theorem Ends.imp {Q Q' : α → State → Prop} {E : Error → State → Prop}
    {r : EStateM.Result Error State α} (h : Ends Q E r) (hq : ∀ a s, Q a s → Q' a s) :
    Ends Q' E r :=
  h.mono hq fun _ _ he => he

theorem Ends.bind {Q : α → State → Prop} {R : β → State → Prop} {E : Error → State → Prop}
    {x : Exec α} {f : α → Exec β} {s : State} (hx : Ends Q E (x s))
    (hf : ∀ a t, Q a t → Ends R E (f a t)) : Ends R E ((x >>= f) s) := by
  show Ends R E (EStateM.bind x f s)
  unfold EStateM.bind
  cases h : x s with
  | ok a t =>
    rw [h] at hx
    exact hf a t hx
  | error e t =>
    rw [h] at hx
    exact hx

section Rules

variable {env : Env} {s : State} {keys : Nat} {Q : α → Prop} {R : β → Prop}

theorem Keeps.bind {x : Exec α} {f : α → Exec β} (hx : Keeps env s keys x Q)
    (hf : ∀ a, Q a → Keeps env s keys (f a) R) : Keeps env s keys (x >>= f) R :=
  fun t ht => (hx t ht).bind fun a t' ha => hf a ha.1 t' ha.2

theorem Keeps.closes {x : Exec α} {f : α → Exec Unit} (hx : Keeps env s keys x Q)
    (hf : ∀ a, Q a → Closes env s keys (f a)) : Closes env s keys (x >>= f) :=
  fun t ht => (hx t ht).bind fun a t' ha => hf a ha.1 t' ha.2

theorem Keeps.ite {c : Prop} [Decidable c] {x y : Exec α} (hx : c → Keeps env s keys x Q)
    (hy : ¬ c → Keeps env s keys y Q) : Keeps env s keys (if c then x else y) Q := by
  split
  · next hc => exact hx hc
  · next hc => exact hy hc

theorem Closes.ite {c : Prop} [Decidable c] {x y : Exec Unit} (hx : Closes env s keys x)
    (hy : Closes env s keys y) : Closes env s keys (if c then x else y) := by
  split
  · exact hx
  · exact hy

theorem keeps_pure {a : α} (h : Q a) : Keeps env s keys (pure a) Q :=
  fun _ ht => ⟨h, ht⟩

theorem keeps_throw {e : Error} (h : env.MayRaise e) : Keeps env s keys (throw e : Exec α) Q :=
  fun _ ht => ⟨h, ht.toKept⟩

theorem closes_pure : Closes env s keys (pure ()) :=
  fun _ ht => ht.mono (by decide)

theorem closes_throw {e : Error} (h : env.MayRaise e) : Closes env s keys (throw e) :=
  fun _ ht => ⟨h, ht.toKept⟩

theorem keeps_lift {r : Except Error α} (hok : ∀ a, r = .ok a → Q a)
    (herror : ∀ e, r = .error e → env.MayRaise e) : Keeps env s keys (lift r) Q := by
  cases r with
  | ok a => exact keeps_pure (hok a rfl)
  | error e => exact keeps_throw (herror e rfl)

theorem closes_lift {r : Except Error Unit} (herror : ∀ e, r = .error e → env.MayRaise e) :
    Closes env s keys (lift r) := by
  cases r with
  | ok a => exact closes_pure
  | error e => exact closes_throw (herror e rfl)

theorem keeps_get : Keeps env s keys get fun t => s.Work keys 0 t :=
  fun _ ht => ⟨ht, ht⟩

/-! ## Primitive steps -/

theorem keeps_need (count : Nat) : Keeps env s keys (need count) fun _ => True := by
  intro t ht
  unfold need
  split
  · exact ⟨Env.mayRaise_underflow _, ht.toKept⟩
  · exact ⟨trivial, ht⟩

theorem keeps_pop : Keeps env s keys pop fun item => s.Tidy → item.length ≤ maxItemSize := by
  intro t ht
  unfold pop
  split
  · exact ⟨Env.mayRaise_underflow _, ht.toKept⟩
  · next item rest hs =>
    refine ⟨fun tidy => ht.short tidy item (.inl (by simp [hs])), ht.restack ?_ ?_⟩
    · simp only [hs]
      grind
    · simp only [State.height, hs, List.length_cons]
      omega

theorem keeps_itemAt (depth : Nat) :
    Keeps env s keys (itemAt depth) fun item => s.Tidy → item.length ≤ maxItemSize := by
  intro t ht
  unfold itemAt
  split
  · next item hs =>
    exact ⟨fun tidy => ht.short tidy item (.inl (List.mem_of_getElem? hs)), ht⟩
  · exact ⟨Env.mayRaise_underflow _, ht.toKept⟩

theorem keeps_removeAt (depth : Nat) :
    Keeps env s keys (removeAt depth) fun item => s.Tidy → item.length ≤ maxItemSize := by
  intro t ht
  unfold removeAt
  split
  · next item hs =>
    refine ⟨fun tidy => ht.short tidy item (.inl (List.mem_of_getElem? hs)), ht.restack ?_ ?_⟩
    · exact fun item hitem => hitem.imp_left List.mem_of_mem_eraseIdx
    · have := List.length_eraseIdx_le t.stack depth
      simp only [State.height]
      omega
  · exact ⟨Env.mayRaise_underflow _, ht.toKept⟩

theorem keeps_popAlt : Keeps env s keys popAlt fun item => s.Tidy → item.length ≤ maxItemSize := by
  intro t ht
  unfold popAlt
  split
  · exact ⟨Env.mayRaise_structural _, ht.toKept⟩
  · next item rest hs =>
    refine ⟨fun tidy => ht.short tidy item (.inr (by simp [hs])), ht.restack ?_ ?_⟩
    · simp only [hs]
      grind
    · simp only [State.height, hs, List.length_cons]
      omega

theorem closes_push {item : Bytes} (hitem : s.Tidy → item.length ≤ maxItemSize) :
    Closes env s keys (push item) := by
  intro t ht
  refine { ht with height := ?_, short := ?_ }
  · have := ht.height
    simp only [State.height, List.length_cons] at this ⊢
    omega
  · intro tidy other hother
    rcases hother with hother | hother
    · rcases List.mem_cons.mp hother with rfl | hother
      · exact hitem tidy
      · exact ht.short tidy other (.inl hother)
    · exact ht.short tidy other (.inr hother)

theorem closes_pushAlt {item : Bytes} (hitem : s.Tidy → item.length ≤ maxItemSize) :
    Closes env s keys (pushAlt item) := by
  intro t ht
  refine { ht with height := ?_, short := ?_ }
  · have := ht.height
    simp only [State.height, List.length_cons] at this ⊢
    omega
  · intro tidy other hother
    rcases hother with hother | hother
    · exact ht.short tidy other (.inl hother)
    · rcases List.mem_cons.mp hother with rfl | hother
      · exact hitem tidy
      · exact ht.short tidy other (.inr hother)

theorem shuffle?_bound {op : ShuffleOp} {stack stack' : List Bytes}
    (h : op.shuffle? stack = some stack') :
    (∀ item ∈ stack', item ∈ stack) ∧ stack'.length ≤ stack.length + 3 := by
  unfold ShuffleOp.shuffle? at h
  split at h
  all_goals cases h
  all_goals
    constructor
    · grind
    · simp only [List.length_cons]
      omega

theorem closes_shuffle (op : ShuffleOp) : Closes env s keys op.execute := by
  intro t ht
  unfold ShuffleOp.execute
  split
  · next stack hs =>
    obtain ⟨hmem, hlength⟩ := shuffle?_bound hs
    refine ht.restack (fun item hitem => hitem.imp_left (hmem item)) ?_
    simp only [State.height]
    omega
  · exact ⟨Env.mayRaise_underflow _, ht.toKept⟩

theorem closes_markSeparator : Closes env s keys markSeparator :=
  fun _ ht => { ht.mono (by decide : 0 ≤ 3) with }

/-! ## Numbers -/

theorem closes_pushBool (b : Bool) : Closes env s keys (pushBool b) :=
  closes_push fun _ => Truth.short_encode b

theorem closes_pushNumber {v : Int} (h : s.Tidy → v.natAbs < 256 ^ 8) :
    Closes env s keys (pushNumber v) :=
  closes_push fun tidy => Number.short_encode (h tidy)

theorem keeps_popNumber (limit : Nat) :
    Keeps env s keys (popNumber limit) fun v => v.natAbs < 256 ^ limit :=
  keeps_pop.bind fun _ _ =>
    keeps_lift (fun _ => Number.natAbs_of_decode) fun _ => Env.mayRaise_of_decode

theorem keeps_peekNumber (index : Int) (limit : Nat) :
    Keeps env s keys (peekNumber index limit) fun v => v.natAbs < 256 ^ limit := by
  have peeked : Keeps env s keys (peek index) fun item => s.Tidy → item.length ≤ maxItemSize :=
    keeps_get.bind fun _ _ =>
      (keeps_lift (fun _ _ => trivial) fun _ => Env.mayRaise_of_depthOf).bind fun _ _ =>
        keeps_itemAt _
  exact peeked.bind fun _ _ =>
    keeps_lift (fun _ => Number.natAbs_of_decode) fun _ => Env.mayRaise_of_decode

theorem keeps_depthOperand (op : Opcode) :
    Keeps env s keys (depthOperand op) fun _ => True :=
  (keeps_need 2).bind fun _ _ => (keeps_popNumber _).bind fun _ _ =>
    Keeps.ite
      (fun _ => (keeps_throw (Env.mayRaise_structural _) : Keeps env s keys _ fun _ => True).bind
        fun _ _ => keeps_pure trivial)
      fun _ => keeps_pure trivial

theorem keeps_popEqual : Keeps env s keys popEqual fun _ => True :=
  (keeps_need 2).bind fun _ _ => keeps_pop.bind fun _ _ => keeps_pop.bind fun _ _ =>
    keeps_pure trivial

/-! ## Signatures and lock times -/

theorem keeps_spend : Keeps env s keys (spend env) fun _ => True := by
  unfold spend
  cases hs : env.spend with
  | some spend => exact keeps_pure trivial
  | none => exact keeps_throw (.inr hs)

theorem keeps_ask (call : Call) : Keeps env s keys (ask env call) fun _ => True := by
  intro t ht
  have asked : s.Work keys 0 { t with calls := call :: t.calls } := { ht with }
  exact keeps_lift (fun _ _ => trivial) (fun e h => .inl ⟨_, _, _, h⟩) _ asked

theorem keeps_checkSignature (signature key : Bytes) (code : Script) :
    Keeps env s keys (checkSignature env signature key code) fun _ => True := by
  refine (keeps_lift (fun _ _ => trivial) fun _ => Env.mayRaise_of_checkSignature).bind fun _ _ =>
    (keeps_lift (fun _ _ => trivial) fun _ => Env.mayRaise_of_checkPublicKey).bind fun _ _ => ?_
  cases signature.getLast? with
  | none => exact keeps_pure trivial
  | some hashType => exact keeps_spend.bind fun _ _ => keeps_ask _

theorem keeps_matchKeys {check : Bytes → Bytes → Exec Bool}
    (h : ∀ signature key, Keeps env s keys (check signature key) fun _ => True)
    (signatures pubkeys : List Bytes) :
    Keeps env s keys (matchKeys check signatures pubkeys) fun _ => True := by
  fun_induction matchKeys check signatures pubkeys with
  | case1 => exact keeps_pure trivial
  | case2 => exact keeps_pure trivial
  | case3 => exact keeps_pure trivial
  | case4 signature signatures key pubkeys _ found passed =>
    refine (h signature key).bind fun answer _ => ?_
    cases answer with
    | true => exact found
    | false => exact passed

theorem keeps_checkSingle : Keeps env s keys (checkSingle env) fun _ => True :=
  (keeps_need 2).bind fun _ _ => keeps_pop.bind fun _ _ => keeps_pop.bind fun _ _ =>
    keeps_get.bind fun _ _ => keeps_checkSignature _ _ _

theorem closes_settle (op : SignatureOp) (push outcome : Bool) :
    Closes env s keys (settle op push outcome) :=
  (closes_pushBool outcome).ite
    (closes_pure.ite (closes_throw (Env.mayRaise_negativeVerdict _)))

theorem closes_checkLockTime (n : Int) : Closes env s keys (checkLockTime env n) :=
  keeps_spend.closes fun _ _ => closes_lift fun _ => Env.mayRaise_of_checkLockTime

theorem closes_checkSequence (n : Int) : Closes env s keys (checkSequence env n) :=
  keeps_spend.closes fun _ _ => closes_lift fun _ => Env.mayRaise_of_checkSequence

/-! ## Rules of the families -/

theorem closes_pushOp (op : PushOp) : Closes env s keys op.execute := by
  cases op with
  | smallInt n => exact closes_pushNumber fun _ => by have := n.isLt; omega
  | oneNegate => exact closes_pushNumber fun _ => by decide
  | payload1 => exact closes_throw (Env.mayRaise_structural _)
  | payload2 => exact closes_throw (Env.mayRaise_structural _)
  | payload4 => exact closes_throw (Env.mayRaise_structural _)

theorem closes_stackOp (op : StackOp) : Closes env s keys op.execute := by
  cases op with
  | toAlt =>
    exact (keeps_need 1).closes fun _ _ => keeps_pop.closes fun _ hitem => closes_pushAlt hitem
  | fromAlt => exact keeps_popAlt.closes fun _ hitem => closes_push hitem
  | shuffle op => exact closes_shuffle op
  | ifDup =>
    exact (keeps_need 1).closes fun _ _ => (keeps_itemAt 0).closes fun _ hitem =>
      (closes_push hitem).ite closes_pure
  | depth =>
    refine keeps_get.closes fun t ht => closes_pushNumber fun tidy => ?_
    have hheight := ht.height
    have hlimit := tidy.2
    simp only [State.height, maxStackSize] at hheight hlimit
    omega
  | pick =>
    exact (keeps_depthOperand _).closes fun _ _ => (keeps_itemAt _).closes fun _ hitem =>
      closes_push hitem
  | roll =>
    exact (keeps_depthOperand _).closes fun _ _ => (keeps_removeAt _).closes fun _ hitem =>
      closes_push hitem

theorem closes_arithmeticOp (op : ArithmeticOp) : Closes env s keys op.execute := by
  cases op with
  | unary op =>
    refine (keeps_need 1).closes fun _ _ => (keeps_popNumber _).closes fun a ha =>
      closes_pushNumber fun _ => ?_
    have := op.natAbs_eval a
    simp only [maxNumberSize] at ha
    omega
  | binary op =>
    refine (keeps_need 2).closes fun _ _ => (keeps_popNumber _).closes fun b hb =>
      (keeps_popNumber _).closes fun a ha => closes_pushNumber fun _ => ?_
    have := op.natAbs_eval a b
    simp only [maxNumberSize] at ha hb
    omega
  | equalVerify =>
    exact (keeps_need 2).closes fun _ _ => (keeps_popNumber _).closes fun _ _ =>
      (keeps_popNumber _).closes fun _ _ =>
        (closes_throw (Env.mayRaise_negativeVerdict _)).ite closes_pure
  | within =>
    exact (keeps_need 3).closes fun _ _ => (keeps_popNumber _).closes fun _ _ =>
      (keeps_popNumber _).closes fun _ _ => (keeps_popNumber _).closes fun _ _ => closes_pushBool _

theorem closes_lockTimeOp (op : LockTimeOp) : Closes env s keys (op.execute env) := by
  unfold LockTimeOp.execute
  refine Closes.ite ((keeps_need 1).closes fun _ _ => (keeps_peekNumber _ _).closes fun value _ => ?_)
    closes_pure
  refine Closes.ite (closes_throw (Env.mayRaise_structural _)) ?_
  cases op with
  | absolute => exact closes_checkLockTime value
  | relative => exact closes_pure.ite (closes_checkSequence value)

/-! ## Multisignature checks -/

theorem keeps_signatureCount (count : Nat) :
    Keeps env s keys (signatureCount count) fun _ => True :=
  (keeps_need _).bind fun _ _ => (keeps_peekNumber _ _).bind fun _ _ =>
    Keeps.ite
      (fun _ => (keeps_throw (Env.mayRaise_structural _) : Keeps env s keys _ fun _ => True).bind
        fun _ _ => keeps_pure trivial)
      fun _ => keeps_pure trivial

theorem keeps_drop (count : Nat) :
    Keeps env s keys (modify fun t => { t with stack := t.stack.drop count }) fun _ => True := by
  intro t ht
  refine ⟨trivial, ht.restack (fun item hitem => hitem.imp_left List.mem_of_mem_drop) ?_⟩
  simp only [State.height, List.length_drop]
  omega

theorem peekNumber_top {s : State} {item : Bytes} {rest : List Bytes} (hs : s.stack = item :: rest)
    (limit : Nat) : peekNumber (-1) limit s = lift (Number.decode limit item) s := by
  obtain ⟨stack⟩ := s
  cases hs
  rfl

/-- The first operand is the number of keys; it stays on the stack. -/
theorem keyCount_ends (env : Env) (s : State) :
    Ends (fun n t => t = s ∧ n = s.topCount) (Fails env s) (keyCount s) := by
  have failed {e : Error} (h : env.MayRaise e) : Fails env s e s := ⟨h, (State.Work.refl s).toKept⟩
  have needed : Ends (fun _ t => t = s ∧ s.stack ≠ []) (Fails env s) (need 1 s) := by
    unfold need
    split
    · exact failed (Env.mayRaise_underflow _)
    · next h => exact ⟨rfl, fun hs => h (by simp [hs])⟩
  refine needed.bind ?_
  rintro _ t ⟨ht, hne⟩
  rw [ht]
  obtain ⟨item, rest, hs⟩ := List.exists_cons_of_ne_nil hne
  have peeked : Ends (fun v t => t = s ∧ v = Number.value item) (Fails env s)
      (peekNumber (-1) maxNumberSize s) := by
    rw [peekNumber_top hs]
    cases hd : Number.decode maxNumberSize item with
    | error e => exact failed (Env.mayRaise_of_decode hd)
    | ok v =>
      unfold Number.decode at hd
      split at hd
      · cases hd
      · cases hd
        exact ⟨rfl, rfl⟩
  refine peeked.bind ?_
  rintro v t ⟨ht, hv⟩
  rw [ht, hv]
  dsimp only
  split
  · exact failed (Env.mayRaise_structural _)
  · exact ⟨rfl, by simp [State.topCount, hs]⟩

theorem countOperations_ends {t : State} (count : Nat) (ht : s.Work 0 0 t) :
    Ends (fun _ t' => s.Work count 0 t') (Fails env s) (countOperations count t) := by
  unfold countOperations
  dsimp only
  split
  · exact ⟨Env.mayRaise_structural _, { ht.toKept with }⟩
  · next few =>
    exact { ht with
      operations := by rw [ht.operations, Nat.add_zero]
      limit := .inr (Nat.le_of_not_lt few) }

theorem checkMultisig_ends (env : Env) (s : State) :
    Ends (fun _ t => s.Work s.topCount 0 t) (Fails env s) (checkMultisig env s) := by
  refine (keyCount_ends env s).bind ?_
  rintro n t ⟨ht, hn⟩
  rw [ht, hn]
  refine (countOperations_ends _ (.refl s)).bind fun _ t ht => ?_
  refine (Keeps.bind (R := fun _ => True) (keeps_signatureCount s.topCount)
    (fun signatures _ => ?_) t ht).imp fun _ _ h => h.2
  refine (keeps_need _).bind fun _ _ => keeps_get.bind fun st _ =>
    (keeps_matchKeys (fun _ _ => keeps_checkSignature _ _ _) _ _).bind fun success _ =>
      (keeps_itemAt _).bind fun dummy _ => (keeps_drop _).bind fun _ _ => ?_
  exact Keeps.ite (fun _ => keeps_throw (Env.mayRaise_structural _)) fun _ => keeps_pure trivial

end Rules

/-! ## All opcodes -/

/-- The keys that the rule of an opcode counts as operations. -/
def ruleKeys (op : Opcode) (s : State) : Nat :=
  match op with
  | .signature .checkMultisig | .signature .checkMultisigVerify => s.topCount
  | _ => 0

theorem signatureOp_ends (env : Env) (op : SignatureOp) (s : State) :
    Ends (fun _ t => s.Work (ruleKeys (.signature op) s) 3 t) (Fails env s) (op.execute env s) := by
  have single (push : Bool) : Closes env s 0 (checkSingle env >>= settle op push) :=
    keeps_checkSingle.closes fun _ _ => closes_settle _ _ _
  have multi (push : Bool) : Ends (fun _ t => s.Work s.topCount 3 t) (Fails env s)
      ((checkMultisig env >>= settle op push) s) :=
    (checkMultisig_ends env s).bind fun _ t ht => closes_settle _ _ _ t ht
  cases op with
  | codeSeparator => exact closes_markSeparator s (.refl s)
  | checkSig => exact single true s (.refl s)
  | checkSigVerify => exact single false s (.refl s)
  | checkMultisig => exact multi true
  | checkMultisigVerify => exact multi false

/-- What the rule of an opcode does, if it is not one of the four that open, turn and close
branches. -/
theorem execute_work (env : Env) {op : Opcode} (s : State)
    (hop : ∀ flow, op = .flow flow → flow = .verify ∨ flow = .giveUp) :
    Ends (fun _ t => s.Work (ruleKeys op s) 3 t) (Fails env s) (op.execute env s) := by
  have closed {x : Exec Unit} (h : Closes env s 0 x) :
      Ends (fun _ t => s.Work 0 3 t) (Fails env s) (x s) := h s (.refl s)
  cases op with
  | push op => exact closed (closes_pushOp op)
  | flow op =>
    rcases hop op rfl with rfl | rfl
    · exact closed ((keeps_need 1).closes fun _ _ => keeps_pop.closes fun _ _ =>
        (closes_throw (Env.mayRaise_negativeVerdict _)).ite closes_pure)
    · exact closed (closes_throw (Env.mayRaise_negativeVerdict _))
  | stack op => exact closed (closes_stackOp op)
  | size =>
    refine closed ((keeps_need 1).closes fun _ _ => (keeps_itemAt 0).closes fun item hitem =>
      closes_pushNumber fun tidy => ?_)
    have := hitem tidy
    simp only [maxItemSize] at this
    omega
  | equal => exact closed (keeps_popEqual.closes fun _ _ => closes_pushBool _)
  | equalVerify =>
    exact closed (keeps_popEqual.closes fun _ _ =>
      (closes_throw (Env.mayRaise_negativeVerdict _)).ite closes_pure)
  | arithmetic op => exact closed (closes_arithmeticOp op)
  | hash op =>
    exact closed ((keeps_need 1).closes fun _ _ => keeps_pop.closes fun data _ =>
      closes_push fun _ => op.short_digest data)
  | signature op => exact signatureOp_ends env op s
  | lockTime op => exact closed (closes_lockTimeOp op)
  | noOp op => exact closed closes_pure
  | disabled op => exact closed (closes_throw (Env.mayRaise_structural _))
  | reserved op => exact closed (closes_throw (Env.mayRaise_structural _))

end Exec
end CoinScript
