import CoinScript.Proofs.HashTemplates
import CoinScript.Proofs.MultisigSigning
/-!
# Multisignature scripts, built and read

The builder writes a threshold, keys, the number of the keys and the check. The reader takes the
threshold and the keys out of the instructions, where the keys are told apart by their place alone.
Each undoes the other on the scripts that the builder can make.

* `Script.standardMultisig`: the tokens of such a script;
* `Script.multisig_eq_ok_iff`: when the builder succeeds, and what it gives then;
* `Script.multisigParams?_eq_some_iff`: what the reader accepts;
* `Script.multisig_builds_what_is_read`: the two are inverse.
-/

namespace CoinScript

/-! ## Counts -/

theorem Token.ofNumber_of_small {n : Nat} (small : n ≤ 16) :
    ofNumber n = ofOpcode (.push (.smallInt ⟨n, Nat.lt_succ_of_le small⟩)) := by
  unfold ofNumber
  rw [if_neg (by omega), if_neg (by omega), Int.toNat_natCast, Opcode.ofSmallInt?,
    dif_pos (Nat.lt_succ_of_le small)]

theorem Token.smallInt?_ofNumber {n : Nat} (small : n ≤ 16) :
    (ofNumber n).instruction.smallInt? = some n := by
  rw [ofNumber_of_small small]
  unfold ofOpcode
  split
  · next zero =>
    cases zero
    rfl
  · rfl

/-- Zero is also written as an empty push with a length field, the other constants in one way. -/
theorem Token.eq_ofNumber_of_smallInt? {t : Token} {n : Nat}
    (h : t.instruction.smallInt? = some n) (positive : 0 < n) : t = ofNumber n := by
  have small := (pushed?_of_smallInt? h).2
  cases t with
  | push form data => exact absurd rfl (ne_push_of_smallInt? h positive data)
  | unknown code => cases h
  | op o =>
    rw [ofNumber_of_small small]
    unfold instruction Instruction.smallInt? Opcode.smallInt? at h
    dsimp only at h
    split at h
    · next k =>
      cases h
      rw [ofOpcode, if_neg]
      intro zero
      injection zero with zero
      injection zero with zero
      exact Nat.ne_of_gt positive (congrArg Fin.val zero)
    · cases h

theorem Script.size_ofNumber {n : Nat} (small : n ≤ 16) :
    (Script.mk [Token.ofNumber n]).size = 1 := by
  rw [Token.ofNumber_of_small small]
  unfold Token.ofOpcode
  split
  · rfl
  · rfl

/-! ## Keys -/

theorem keyOf?_push {key : Bytes} (filled : key ≠ []) : Script.keyOf? (.push key) = some key := by
  cases key with
  | nil => exact absurd rfl filled
  | cons b rest => rfl

/-- Pushes in their shortest forms are known by what they push. -/
theorem eq_map_minimalPush {tokens : List Token} {keys : List Bytes}
    (minimal : ∀ form data, .push form data ∈ tokens → form = .minimal data.length)
    (h : (tokens.map Token.instruction).map Script.keyOf? = keys.map some) :
    tokens = keys.map Token.minimalPush := by
  induction keys generalizing tokens with
  | nil => simpa using h
  | cons key keys ih =>
    rw [List.map_map] at h
    obtain ⟨t, rest, rfl, ht, hrest⟩ := List.map_eq_cons_iff.mp h
    rw [← List.map_map] at hrest
    rw [ih (fun form data hm => minimal form data (List.mem_cons_of_mem _ hm)) hrest]
    cases t with
    | push form data =>
      obtain rfl : data = key := Option.some.inj (pushed?_of_keyOf? ht)
      rw [minimal form data List.mem_cons_self]
      rfl
    | op o => cases ht
    | unknown code => cases ht

namespace Script

/-! ## Reading -/

/-- The reader accepts the multisignature scripts and nothing else. -/
theorem multisigParams?_eq_some_iff {s : Script} {required : Nat} {keys : List Bytes} :
    s.multisigParams? = some (required, keys) ↔
      ∃ first last row, s.Multisig required keys first last row := by
  refine ⟨exists_of_multisigParams?, ?_⟩
  rintro ⟨first, last, row, shape⟩
  have count : keys.length = row.length := by
    simpa using (congrArg List.length shape.pushes).symm
  have positive := shape.positive
  have enough := shape.enough
  have ends : (first :: (row ++ [last])).getLast? = some last := by
    rw [← List.cons_append, List.getLast?_concat]
  have high : 3 ≤ (first :: (row ++ [last])).length := by
    simp only [List.length_cons, List.length_append, List.length_nil]
    omega
  unfold multisigParams?
  rw [shape.instructions, List.getLast?_concat, List.dropLast_concat]
  show (if _ ∧ _ then _ else _) = _
  rw [if_pos ⟨rfl, high⟩, ends, List.head?_cons, List.tail_cons, List.dropLast_concat]
  show (first.smallInt? >>= fun _ => last.smallInt? >>= fun _ => _) = _
  rw [shape.threshold, shape.count]
  show (if _ then _ else _) = _
  rw [if_neg (by omega), mapM_eq_some_iff.mpr shape.pushes]
  rfl

/-! ## Building -/

/-- The script that asks for signatures of any `required` of these keys. -/
def standardMultisig (keys : List Bytes) (required : Nat) : Script :=
  ⟨[Token.ofNumber required] ++ keys.map Token.minimalPush ++ [Token.ofNumber keys.length] ++
    [.op (.signature .checkMultisig)]⟩

theorem size_standardMultisig_le {keys : List Bytes} {required : Nat}
    (enough : required ≤ keys.length) (few : keys.length ≤ maxStandardKeys)
    (short : ∀ key ∈ keys, key.length ≤ maxItemSize) :
    (standardMultisig keys required).size ≤ maxScriptSize := by
  have pushes : (Script.mk (keys.map Token.minimalPush)).size ≤ 523 * keys.length :=
    size_ofItems_le short
  have check : (Script.mk [.op (.signature .checkMultisig)]).size = 1 := rfl
  have few : keys.length ≤ 15 := few
  rw [standardMultisig, size_append, size_append, size_append, size_ofNumber (by omega),
    size_ofNumber (by omega), check]
  simp only [maxScriptSize]
  omega

/-- The builder succeeds if the threshold can be met, the keys are few and each can be pushed. Room
is never missing then. -/
theorem multisig_eq_ok_iff {keys : List Bytes} {required : Nat} {s : Script} :
    multisig keys required = .ok s ↔
      (1 ≤ required ∧ required ≤ keys.length ∧ keys.length ≤ maxStandardKeys) ∧
      (∀ key ∈ keys, key.length ≤ maxItemSize) ∧ s = standardMultisig keys required := by
  by_cases standard : 1 ≤ required ∧ required ≤ keys.length ∧ keys.length ≤ maxStandardKeys
  · have standard' := standard
    obtain ⟨positive, enough, few⟩ := standard'
    have count : keys.length ≤ 16 := Nat.le_trans few (by decide)
    have threshold : required ≤ 16 := Nat.le_trans enough count
    unfold multisig
    rw [if_neg (by omega)]
    constructor
    · intro h
      obtain ⟨s₁, h₁, h⟩ := bind_eq_ok_iff.mp h
      obtain ⟨s₂, h₂, h⟩ := bind_eq_ok_iff.mp h
      obtain ⟨s₃, h₃, h⟩ := bind_eq_ok_iff.mp h
      obtain ⟨-, room₁, rfl⟩ := appendNumber_eq_ok_iff.mp h₁
      obtain ⟨short, -, rfl⟩ := (foldlM_appendData_eq_ok_iff room₁).mp h₂
      obtain ⟨-, -, rfl⟩ := appendNumber_eq_ok_iff.mp h₃
      obtain ⟨-, -, rfl⟩ := append_eq_ok_iff.mp h
      exact ⟨standard, short, rfl⟩
    · rintro ⟨-, short, rfl⟩
      have room := size_standardMultisig_le enough few short
      have room₃ := Nat.le_trans (size_le_append _ _) room
      have room₂ := Nat.le_trans (size_le_append _ _) room₃
      have room₁ := Nat.le_trans (size_le_append _ _) room₂
      have first : empty.appendNumber required = .ok _ :=
        appendNumber_eq_ok_iff.mpr ⟨Number.short_encode (by omega), room₁, rfl⟩
      refine bind_eq_ok_iff.mpr ⟨_, first, ?_⟩
      refine bind_eq_ok_iff.mpr ⟨_, (foldlM_appendData_eq_ok_iff room₁).mpr ⟨short, room₂, rfl⟩, ?_⟩
      have last : (Script.mk _).appendNumber keys.length = .ok _ :=
        appendNumber_eq_ok_iff.mpr ⟨Number.short_encode (by omega), room₃, rfl⟩
      exact bind_eq_ok_iff.mpr ⟨_, last, append_eq_ok_iff.mpr ⟨rfl, room, rfl⟩⟩
  · unfold multisig
    rw [if_pos (by omega)]
    constructor
    · intro h
      cases h
    · rintro ⟨h, -⟩
      exact absurd h standard

/-! ## There and back -/

theorem multisig_standardMultisig {keys : List Bytes} {required : Nat}
    (filled : ∀ key ∈ keys, key ≠ []) (positive : 0 < required) (enough : required ≤ keys.length)
    (few : keys.length ≤ 16) :
    (standardMultisig keys required).Multisig required keys (Token.ofNumber required).instruction
      (Token.ofNumber keys.length).instruction (keys.map .push) where
  instructions := by
    simp [instructions, standardMultisig, Token.minimalPush, Token.instruction]
  threshold := Token.smallInt?_ofNumber (Nat.le_trans enough few)
  count := Token.smallInt?_ofNumber few
  pushes := by
    rw [List.map_map]
    exact List.map_congr_left fun key h => keyOf?_push (filled key h)
  positive := positive
  enough := enough

/-- Where all pushes have their shortest form, what is read determines the script. -/
theorem Multisig.eq_standardMultisig {s : Script} {required : Nat} {keys : List Bytes}
    {first last : Instruction} {row : List Instruction}
    (shape : s.Multisig required keys first last row)
    (minimal : ∀ form data, .push form data ∈ s.tokens → form = .minimal data.length) :
    s = standardMultisig keys required := by
  obtain ⟨tokens⟩ := s
  obtain ⟨front, check, rfl, hfront, hcheck⟩ := List.map_eq_append_iff.mp shape.instructions
  obtain ⟨t, behind, rfl, rfl, hbehind⟩ := List.map_eq_cons_iff.mp hfront
  obtain ⟨pushes, count, rfl, rfl, hcount⟩ := List.map_eq_append_iff.mp hbehind
  obtain ⟨u, rfl, rfl⟩ := List.map_eq_singleton_iff.mp hcount
  obtain ⟨v, rfl, hv⟩ := List.map_eq_singleton_iff.mp hcheck
  have positive : 0 < keys.length := Nat.lt_of_lt_of_le shape.positive shape.enough
  obtain rfl := Token.eq_ofNumber_of_smallInt? shape.threshold shape.positive
  obtain rfl := Token.eq_ofNumber_of_smallInt? shape.count positive
  obtain rfl := Token.eq_op_of_instruction hv
  obtain rfl := eq_map_minimalPush (fun form data h => minimal form data (by simp [h])) shape.pushes
  simp [standardMultisig]

/-- Building a multisignature script and reading its threshold and its keys are inverse. What the
builder gives for keys that are not empty is read as these keys, also after it was written to
bytes. The builder succeeds for every threshold that can be met by at most fifteen keys. And a
script that reads as a threshold and at most fifteen keys, all of whose pushes are the shortest and
not too long, is what the builder gives for them. -/
theorem multisig_builds_what_is_read :
    (∀ keys required s, (∀ key ∈ keys, key ≠ []) → multisig keys required = .ok s →
      s.multisigParams? = some (required, keys) ∧
      ∃ t, parse s.bytes = .ok t ∧ t.multisigParams? = some (required, keys)) ∧
    (∀ (keys : List Bytes) (required : Nat), (∀ key ∈ keys, key.length ≤ 520) →
      ((∃ s, multisig keys required = .ok s) ↔
        1 ≤ required ∧ required ≤ keys.length ∧ keys.length ≤ 15)) ∧
    (∀ (s : Script) (required : Nat) (keys : List Bytes),
      s.multisigParams? = some (required, keys) → keys.length ≤ 15 →
      (∀ form data, .push form data ∈ s.tokens →
        form = .minimal data.length ∧ data.length ≤ 520) →
      multisig keys required = .ok s) := by
  refine ⟨fun keys required s filled built => ?_,
    fun keys required short => ⟨?_, fun standard => ?_⟩, fun s required keys read few pushes => ?_⟩
  · have reread := (valid_of_multisig built).parse_bytes
    obtain ⟨⟨positive, enough, few⟩, -, rfl⟩ := multisig_eq_ok_iff.mp built
    have few : keys.length ≤ 16 := Nat.le_trans few (by decide)
    have params := multisigParams?_eq_some_iff.mpr
      ⟨_, _, _, multisig_standardMultisig filled positive enough few⟩
    exact ⟨params, _, reread, params⟩
  · rintro ⟨s, built⟩
    exact (multisig_eq_ok_iff.mp built).1
  · exact ⟨_, multisig_eq_ok_iff.mpr ⟨standard, short, rfl⟩⟩
  · obtain ⟨first, last, row, shape⟩ := exists_of_multisigParams? read
    obtain rfl := shape.eq_standardMultisig fun form data h => (pushes form data h).1
    refine multisig_eq_ok_iff.mpr ⟨⟨shape.positive, shape.enough, few⟩, fun key hkey => ?_, rfl⟩
    refine (pushes (.minimal key.length) key ?_).2
    have pushed : Token.minimalPush key ∈ keys.map Token.minimalPush := List.mem_map_of_mem hkey
    simp only [standardMultisig, List.mem_append]
    exact .inl (.inl (.inr pushed))

/-- One of two keys, the second of which is pushed with a length field. -/
theorem multisig_builds_what_is_read_two :
    let keys : List Bytes := [.replicate 33 2, .replicate 80 4]
    let s := standardMultisig keys 1
    (∀ key ∈ keys, key ≠ [] ∧ key.length ≤ 520) ∧
      (∀ form data, .push form data ∈ s.tokens →
        form = .minimal data.length ∧ data.length ≤ 520) ∧
      (∃ t, multisig keys 1 = .ok t) ∧ multisig keys 1 = .ok s ∧
      s.multisigParams? = some (1, keys) ∧
      ∃ t, parse s.bytes = .ok t ∧ t.multisigParams? = some (1, keys) := by
  intro keys s
  have sizes : ∀ key ∈ keys, key ≠ [] ∧ key.length ≤ 520 := by
    decide +kernel
  have pushes : ∀ form data, .push form data ∈ s.tokens →
      form = .minimal data.length ∧ data.length ≤ 520 := by
    have tokens : s.tokens = [.op (.push (.smallInt 1)), .minimalPush (.replicate 33 2),
        .minimalPush (.replicate 80 4), .op (.push (.smallInt 2)),
        .op (.signature .checkMultisig)] := by
      decide +kernel
    intro form data h
    rw [tokens] at h
    simp only [List.mem_cons, reduceCtorEq, List.not_mem_nil, or_false, false_or] at h
    rcases h with h | h
    · cases h
      decide +kernel
    · cases h
      decide +kernel
  have read : s.multisigParams? = some (1, keys) := by
    decide +kernel
  have built : multisig keys 1 = .ok s :=
    multisig_builds_what_is_read.2.2 s 1 keys read (by decide) pushes
  have exists_built : ∃ t, multisig keys 1 = .ok t :=
    (multisig_builds_what_is_read.2.1 keys 1 fun key h => (sizes key h).2).mpr (by decide)
  exact ⟨sizes, pushes, exists_built, built,
    multisig_builds_what_is_read.1 keys 1 s (fun key h => (sizes key h).1) built⟩

end Script

end CoinScript
