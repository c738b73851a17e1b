import CoinScript.Proofs.Matching
import CoinScript.Proofs.Removal
import Mathlib.Data.List.NodupEquivFin
import Mathlib.Data.List.OfFn
/-!
# What a multisignature check decides

Where every signature of a multisignature check can be compared with every key, the check is a
decision: it passes exactly if the signatures can be given keys in the same order, each a different
one. The loop behind it takes at most one look at every key.

* `matches_iff_strictMono`: matches in order as increasing choices of keys;
* `matchKeys_eq_attempts`: the loop is a row of checks, which is known beforehand;
* `multisig_decides`: both opcodes, on every stack that has their operands.
-/

namespace CoinScript

/-! ## Code without signatures -/

namespace Exec

theorem codeWithout_eq_filter (code : Script) (signatures : List Bytes) :
    codeWithout code signatures = ⟨code.tokens.filter fun t =>
      ∀ signature ∈ signatures, t.bytes ≠ (Token.minimalPush signature).bytes⟩ :=
  code.foldl_deletePush_eq_filter signatures

/-- The order in which the pushes of signatures are deleted does not matter. -/
theorem codeWithout_perm (code : Script) {signatures signatures' : List Bytes}
    (h : signatures.Perm signatures') :
    codeWithout code signatures = codeWithout code signatures' := by
  simp only [codeWithout_eq_filter, h.mem_iff]

/-! ## Matches in order -/

theorem matches_reverse_iff {R : Bytes → Bytes → Prop} {signatures keys : List Bytes} :
    signatures.reverse.SublistForall₂ R keys.reverse ↔ signatures.SublistForall₂ R keys := by
  have turned {xs ys : List Bytes} (h : xs.SublistForall₂ R ys) :
      xs.reverse.SublistForall₂ R ys.reverse := by
    obtain ⟨chosen, fit, sub⟩ := List.sublistForall₂_iff.mp h
    exact List.sublistForall₂_iff.mpr
      ⟨chosen.reverse, List.forall₂_reverse_iff.mpr fit, sub.reverse⟩
  refine ⟨fun h => ?_, turned⟩
  have twice := turned h
  rwa [List.reverse_reverse, List.reverse_reverse] at twice

/-- Signatures match keys in order exactly if each can be given a key of its own, later ones later
keys. -/
theorem matches_iff_strictMono {R : Bytes → Bytes → Prop} {signatures keys : List Bytes} :
    signatures.SublistForall₂ R keys ↔ ∃ f : Fin signatures.length → Fin keys.length,
      StrictMono f ∧ ∀ i, R (signatures.get i) (keys.get (f i)) := by
  constructor
  · intro h
    obtain ⟨chosen, fit, sub⟩ := List.sublistForall₂_iff.mp h
    obtain ⟨place, hplace⟩ := List.sublist_iff_exists_fin_orderEmbedding_get_eq.mp sub
    obtain ⟨length, fits⟩ := List.forall₂_iff_get.mp fit
    refine ⟨fun i => place (i.cast length), fun i j hij => place.strictMono hij, fun i => ?_⟩
    rw [← hplace]
    exact fits i.val i.isLt _
  · rintro ⟨f, increasing, fits⟩
    let chosen := List.ofFn fun i => keys.get (f i)
    have length : chosen.length = signatures.length := List.length_ofFn
    refine List.sublistForall₂_iff.mpr ⟨chosen, List.forall₂_iff_get.mpr ⟨length.symm, ?_⟩, ?_⟩
    · intro i hi _
      rw [List.get_ofFn]
      exact fits ⟨i, hi⟩
    · refine List.sublist_iff_exists_fin_orderEmbedding_get_eq.mpr
        ⟨OrderEmbedding.ofStrictMono (fun i => f (i.cast length)) fun i j hij => increasing hij, ?_⟩
      intro i
      exact List.get_ofFn _ _

/-! ## The loop -/

/-- The checks that the loop makes, in order, where the check of a pair gives this answer. -/
def attempts (answer : Bytes → Bytes → Bool) : List Bytes → List Bytes → List (Bytes × Bytes)
  | signature :: signatures, key :: keys =>
    if (signature :: signatures).length > (key :: keys).length then []
    else if answer signature key then (signature, key) :: attempts answer signatures keys
    else (signature, key) :: attempts answer (signature :: signatures) keys
  | _, _ => []

/-- Every check is about the next key. -/
theorem attempts_keys_prefix (answer : Bytes → Bytes → Bool) (signatures keys : List Bytes) :
    (attempts answer signatures keys).map Prod.snd <+: keys := by
  fun_induction attempts answer signatures keys with
  | case1 => exact List.nil_prefix
  | case2 signature signatures key keys _ _ ih => exact (List.prefix_cons_inj key).mpr ih
  | case3 signature signatures key keys _ _ ih => exact (List.prefix_cons_inj key).mpr ih
  | case4 => exact List.nil_prefix

/-- No more checks succeed than there are signatures. -/
theorem countP_attempts_le (answer : Bytes → Bytes → Bool) (signatures keys : List Bytes) :
    (attempts answer signatures keys).countP (fun tried => answer tried.1 tried.2) ≤
      signatures.length := by
  fun_induction attempts answer signatures keys with
  | case1 => exact Nat.zero_le _
  | case2 signature signatures key keys _ fits ih =>
    rw [List.countP_cons, if_pos fits]
    exact Nat.succ_le_succ ih
  | case3 signature signatures key keys _ fails ih =>
    rw [List.countP_cons, if_neg fails]
    exact ih
  | case4 => exact Nat.zero_le _

section Loop

variable {check : Bytes → Bytes → Exec Bool} {signature key : Bytes} {matched : Bool}

/-- A check whose answer is known selects how the loop goes on. -/
theorem check_bind_of_answer (asks : ∀ s, ∃ t, check signature key s = .ok matched t)
    (go : Bool → Exec Bool) :
    check signature key >>= go = check signature key >>= fun _ => go matched := by
  funext s
  obtain ⟨t, ht⟩ := asks s
  rw [bind_of_ok ht, bind_of_ok ht]

/-- One more check in front of a row. -/
theorem check_bind_mapM {next : Exec Bool} {rest : List (Bytes × Bytes)}
    (h : next = rest.mapM (fun tried => check tried.1 tried.2) >>= fun _ => pure matched) :
    check signature key >>= (fun _ => next) =
      ((signature, key) :: rest).mapM (fun tried => check tried.1 tried.2) >>= fun _ =>
        pure matched := by
  rw [List.mapM_cons, bind_assoc]
  refine bind_congr fun _ => ?_
  rw [bind_assoc, h]
  rfl

end Loop

/-- The loop makes its checks one after the other, and says whether the signatures match. -/
theorem matchKeys_eq_attempts (answer : Bytes → Bytes → Bool) (signatures keys : List Bytes) :
    ∃ matched : Bool, (matched = true ↔
        signatures.SublistForall₂ (fun signature key => answer signature key = true) keys) ∧
      ∀ check : Bytes → Bytes → Exec Bool,
        (∀ signature ∈ signatures, ∀ key ∈ keys, ∀ s, ∃ t,
          check signature key s = .ok (answer signature key) t) →
        matchKeys check signatures keys =
          (attempts answer signatures keys).mapM (fun tried => check tried.1 tried.2) >>= fun _ =>
            pure matched := by
  fun_induction attempts answer signatures keys with
  | case1 signature signatures key keys more =>
    refine ⟨false, iff_of_false Bool.false_ne_true fun h =>
      Nat.not_lt_of_le (length_le_of_matches h) more, fun check _ => ?_⟩
    rw [matchKeys, if_pos more]
    rfl
  | case2 signature signatures key keys enough fits ih =>
    obtain ⟨matched, decides, same⟩ := ih
    refine ⟨matched, decides.trans (matches_cons_iff_of_fit fits).symm, fun check asks => ?_⟩
    have first := asks signature List.mem_cons_self key List.mem_cons_self
    have later := same check fun other ho k hk =>
      asks other (List.mem_cons_of_mem _ ho) k (List.mem_cons_of_mem _ hk)
    rw [matchKeys, if_neg enough, check_bind_of_answer first, if_pos fits]
    exact check_bind_mapM later
  | case3 signature signatures key keys enough fails ih =>
    obtain ⟨matched, decides, same⟩ := ih
    refine ⟨matched, decides.trans (matches_cons_iff_of_not fails).symm, fun check asks => ?_⟩
    have first := asks signature List.mem_cons_self key List.mem_cons_self
    have later := same check fun other ho k hk => asks other ho k (List.mem_cons_of_mem _ hk)
    rw [matchKeys, if_neg enough, check_bind_of_answer first, if_neg fails]
    exact check_bind_mapM later
  | case4 keys signatures ended =>
    rcases signatures with _ | ⟨signature, signatures⟩
    · refine ⟨true, iff_of_true rfl .nil, fun check _ => ?_⟩
      rw [matchKeys]
      rfl
    rcases keys with _ | ⟨key, keys⟩
    · refine ⟨false, iff_of_false Bool.false_ne_true (fun h => by cases h), fun check _ => ?_⟩
      rw [matchKeys]
      rfl
    · exact (ended signature signatures key keys rfl rfl).elim

/-! ## Both opcodes -/

/-- In the state, the check of a signature against a key gives this answer. -/
def Answers (env : Env) (code : Script) (s : State) (signature key : Bytes) (answer : Bool) :
    Prop :=
  ∃ t, checkSignature env signature key code s = .ok answer t

/-- The answer is the same in every state, and only the question is recorded. -/
theorem Answers.anywhere {env : Env} {code : Script} {s : State} {signature key : Bytes}
    {answer : Bool} (h : Answers env code s signature key answer) (t : State) :
    ∃ calls, checkSignature env signature key code t = .ok answer { t with calls := calls } := by
  obtain ⟨calls, ht⟩ := checkSignature_eq env signature key code t
  exact ⟨calls, ht.trans (lift_ok_iff.mpr ⟨checkSignature_ok_iff.mp h, rfl⟩)⟩

/-- The loop over signatures and keys makes the checks `tried`, one after the other, if checks give
these answers. The numbers of keys and signatures that are left go down by one for each check and
for each success. -/
structure LoopTries (answer : Bytes → Bytes → Bool) (signatures keys : List Bytes) (matched : Bool)
    (tried : List (Bytes × Bytes)) : Prop where
  runs : ∀ check : Bytes → Bytes → Exec Bool,
    (∀ signature ∈ signatures, ∀ key ∈ keys, ∀ s, ∃ t,
      check signature key s = .ok (answer signature key) t) →
    matchKeys check signatures keys =
      tried.mapM (fun pair => check pair.1 pair.2) >>= fun _ => pure matched
  few : tried.length ≤ keys.length
  once : tried.map Prod.snd <+: keys
  counters : ∀ done, done <+: tried → 0 ≤ (keys.length : Int) - done.length ∧
    0 ≤ (signatures.length : Int) - done.countP fun pair => answer pair.1 pair.2

theorem loopTries_attempts {answer : Bytes → Bytes → Bool} {signatures keys : List Bytes}
    {matched : Bool}
    (runs : ∀ check : Bytes → Bytes → Exec Bool,
      (∀ signature ∈ signatures, ∀ key ∈ keys, ∀ s, ∃ t,
        check signature key s = .ok (answer signature key) t) →
      matchKeys check signatures keys =
        (attempts answer signatures keys).mapM (fun pair => check pair.1 pair.2) >>= fun _ =>
          pure matched) :
    LoopTries answer signatures keys matched (attempts answer signatures keys) := by
  have once := attempts_keys_prefix answer signatures keys
  have few : (attempts answer signatures keys).length ≤ keys.length := by
    rw [← List.length_map Prod.snd]
    exact once.length_le
  refine ⟨runs, few, once, fun done hdone => ⟨?_, ?_⟩⟩
  · have := Nat.le_trans hdone.length_le few
    omega
  · have := Nat.le_trans (hdone.sublist.countP_le (p := fun pair => answer pair.1 pair.2))
      (countP_attempts_le answer signatures keys)
    omega

/-- What a multisignature check decides. On a stack with its operands, given here from the bottom,
and with an answer for every signature and every key on the code without the tokens that are the
shortest push of any of the signatures, the check takes the operands off. It passes exactly if the
signatures fit keys in the same order, each a different one. Its loop checks every key at most
once. -/
theorem multisig_decides {env : Env} {s : State} {below signatures keys : List Bytes}
    {dummy signatureNumber keyNumber : Bytes} {answer : Bytes → Bytes → Bool}
    (hs : s.stack.reverse =
      below ++ [dummy] ++ signatures ++ [signatureNumber] ++ keys ++ [keyNumber])
    (hkeys : Number.decode 4 keyNumber = .ok keys.length)
    (hsignatures : Number.decode 4 signatureNumber = .ok signatures.length)
    (enough : signatures.length ≤ keys.length) (most : keys.length ≤ 20)
    (few : s.operations + keys.length ≤ 201) (allowed : env.flags.nullDummy = true → dummy = [])
    (answers : ∀ signature ∈ signatures, ∀ key ∈ keys,
      Answers env ⟨s.scriptCode.tokens.filter fun t =>
        ∀ pushed ∈ signatures, t.bytes ≠ (Token.minimalPush pushed).bytes⟩ s signature key
        (answer signature key)) :
    ∃ matched calls,
      let left (stack : List Bytes) : State :=
        { s with stack := stack, operations := s.operations + keys.length, calls := calls }
      (matched = true ↔ ∃ f : Fin signatures.length → Fin keys.length,
        StrictMono f ∧ ∀ i, answer (signatures.get i) (keys.get (f i)) = true) ∧
      Opcode.execute env (.signature .checkMultisig) s =
        .ok () (left (Truth.encode matched :: below.reverse)) ∧
      Opcode.execute env (.signature .checkMultisigVerify) s =
        (if matched then .ok () (left below.reverse)
        else .error (.negativeVerdict (.checkFailed (.signature .checkMultisigVerify)))
          (left below.reverse)) ∧
      ∃ tried, LoopTries answer signatures.reverse keys.reverse matched tried := by
  obtain ⟨matched, decides, runs⟩ := matchKeys_eq_attempts answer signatures.reverse keys.reverse
  have stack : s.stack = operands keyNumber keys.reverse signatureNumber signatures.reverse dummy ++
      below.reverse := by
    rw [← s.stack.reverse_reverse, hs]
    simp [operands]
  -- The loop hashes the code for signatures from the top; their order makes no difference.
  have code : codeWithout s.scriptCode signatures.reverse = ⟨s.scriptCode.tokens.filter fun t =>
      ∀ pushed ∈ signatures, t.bytes ≠ (Token.minimalPush pushed).bytes⟩ := by
    rw [codeWithout_perm s.scriptCode signatures.reverse_perm, codeWithout_eq_filter]
  have asks : ∀ signature ∈ signatures.reverse, ∀ key ∈ keys.reverse, ∀ t : State, ∃ calls,
      checkSignature env signature key (codeWithout s.scriptCode signatures.reverse) t =
        .ok (answer signature key) { t with calls := calls } := by
    intro signature hsignature key hkey t
    rw [code]
    exact (answers signature (List.mem_reverse.mp hsignature) key
      (List.mem_reverse.mp hkey)).anywhere t
  obtain ⟨matched', calls, hmatch, decides'⟩ :=
    matchKeys_eq asks { s with operations := s.operations + keys.reverse.length }
  obtain rfl : matched' = matched := Bool.eq_iff_iff.mpr (decides'.trans decides.symm)
  have checked : checkMultisig env s = .ok matched'
      { s with stack := below.reverse, operations := s.operations + keys.reverse.length,
               calls := calls } := by
    rw [← keys.length_reverse] at hkeys enough most few
    rw [← signatures.length_reverse] at hsignatures enough
    exact checkMultisig_eq stack hkeys hsignatures enough most few allowed hmatch rfl
  rw [keys.length_reverse] at checked
  refine ⟨matched', calls, ?_, ?_, ?_, _, loopTries_attempts runs⟩
  · exact decides.trans (matches_reverse_iff.trans matches_iff_strictMono)
  · exact bind_of_ok checked
  · refine (bind_of_ok checked).trans ?_
    cases matched' <;> rfl

/-- One signature and two keys, of which the second one fits the code without the shortest push of
the signature. A push with a length field stays in the code. -/
theorem multisig_decides_second_key :
    let signature : Bytes := [0x30, 1]
    let check : Token := .op (.signature .checkMultisig)
    let script : Script := ⟨[.push .direct signature, .push .field1 signature, check]⟩
    let bare : Script := ⟨[.push .field1 signature, check]⟩
    let tx : Transaction := ⟨1, 0, [⟨⟨.replicate 32 1, 0⟩, [], 5⟩], [⟨10, []⟩]⟩
    let spend : Spend := ⟨tx, 0, ⟨20, []⟩⟩
    let env : Env :=
      { flags := .none, spend := some spend,
        checker := fun digest _ key _ => .ok (digest = spend.signatureHash bare 1 ∧ key = [3]) }
    let s : State := { script := script, stack := [[2], [3], [2], [1], signature, [], [7]] }
    ∃ calls, Opcode.execute env (.signature .checkMultisig) s =
      .ok () { s with stack := [[1], [7]], operations := 2, calls := calls } := by
  intro signature check script bare tx spend env s
  have removed : Script.mk (s.scriptCode.tokens.filter fun t =>
      ∀ pushed ∈ [signature], t.bytes ≠ (Token.minimalPush pushed).bytes) = bare := by
    decide
  have answers : ∀ other ∈ [signature], ∀ key ∈ [[2], [3]],
      Answers env ⟨s.scriptCode.tokens.filter fun t =>
        ∀ pushed ∈ [signature], t.bytes ≠ (Token.minimalPush pushed).bytes⟩ s other key
        (key = [3]) := by
    intro other hother key _
    obtain rfl := List.mem_singleton.mp hother
    have split : signature = [0x30] ++ [1] := rfl
    rw [removed, split]
    refine checkSignature_ok_iff.mpr ((Env.signatureAnswer_concat rfl rfl rfl _).trans ?_)
    simp [env]
  have stack : s.stack.reverse = [[7]] ++ [[]] ++ [signature] ++ [[1]] ++ [[2], [3]] ++ [[2]] := rfl
  obtain ⟨matched, calls, decides, executed, _⟩ := multisig_decides stack rfl rfl (by decide)
    (by decide) (by decide) (fun _ => rfl) answers
  let last (_ : Fin [signature].length) : Fin [[(2 : UInt8)], [3]].length := 1
  have increasing : StrictMono last := by
    intro i j hij
    have only : j.val < 1 := j.isLt
    omega
  obtain rfl : matched = true := decides.mpr ⟨last, increasing, fun _ => rfl⟩
  exact ⟨calls, executed⟩

end Exec
end CoinScript
