import CoinScript.Proofs.Grammar
import CoinScript.Script.Assembly
import CoinScript.Template
import Mathlib.Data.List.Flatten
/-!
# Scripts that can be built

`Script.Built` collects the scripts that come from any sequence of reading, appending,
removing and filling in templates. Each of these keeps `Script.Valid`: all tokens are well
formed and the script has no more bytes than allowed. A valid script is what its bytes
read as.

* `valid_iff_parse`: valid scripts are those that read back as themselves;
* `Built.valid`: what is built is valid;
* `built_reads_back`: what is built is short enough and reads back as itself, row by row.
-/

namespace CoinScript

theorem bind_eq_ok_iff {ε α β : Type} {x : Except ε α} {f : α → Except ε β} {b : β} :
    x >>= f = .ok b ↔ ∃ a, x = .ok a ∧ f a = .ok b := by
  cases x with
  | error e =>
    constructor
    · intro h
      cases h
    · rintro ⟨a, h, _⟩
      cases h
  | ok a =>
    constructor
    · intro h
      exact ⟨a, rfl, h⟩
    · rintro ⟨a', h, hf⟩
      cases h
      exact hf

namespace Script

/-! ## Valid scripts -/

/-- All tokens read back as themselves, and the script is not too long. -/
structure Valid (s : Script) : Prop where
  wellFormed : ∀ t ∈ s.tokens, t.WellFormed
  size_le : s.size ≤ maxScriptSize

theorem valid_of_parse {input : Bytes} {s : Script} (h : parse input = .ok s) :
    s.Valid ∧ s.bytes = input := by
  obtain ⟨short, hread⟩ := parse_eq_ok_iff.mp h
  obtain ⟨wf, hbytes⟩ := Token.readAll_eq_ok_iff.mp hread
  have hbytes' : s.bytes = input := hbytes
  refine ⟨⟨wf, ?_⟩, hbytes'⟩
  rw [size, hbytes']
  exact short

theorem Valid.parse_bytes {s : Script} (h : s.Valid) : parse s.bytes = .ok s :=
  parse_eq_ok_iff.mpr ⟨h.size_le, Token.readAll_of_wellFormed h.wellFormed⟩

/-- The valid scripts are those that read back as themselves. -/
theorem valid_iff_parse {s : Script} : s.Valid ↔ parse s.bytes = .ok s :=
  ⟨Valid.parse_bytes, fun h => (valid_of_parse h).1⟩

/-- The bytes of a valid script determine it. -/
theorem Valid.eq_of_bytes_eq {s t : Script} (hs : s.Valid) (ht : t.Valid)
    (h : s.bytes = t.bytes) : s = t := by
  have hread := hs.parse_bytes
  rw [h, ht.parse_bytes] at hread
  exact (Except.ok.inj hread).symm

/-! ## Tokens of builders -/

/-- Only zero and the marks of a payload have codes that start a push. -/
theorem code_of_not_push {o : Opcode}
    (h : o ∉ [.zero, .push .payload1, .push .payload2, .push .payload4]) : 0x4f ≤ o.code := by
  have listed : ∀ o ∈ Opcode.all,
      o ∉ [.zero, .push .payload1, .push .payload2, .push .payload4] → 0x4f ≤ o.code := by decide
  exact listed o (List.mem_of_find?_eq_some (Opcode.ofCode?_code o)) h

theorem wellFormed_of_opcodeToken {o : Opcode} {t : Token} (h : opcodeToken o = .ok t) :
    t.WellFormed := by
  by_cases hpush : o ∈ [.zero, .push .payload1, .push .payload2, .push .payload4]
  · simp only [List.mem_cons, List.not_mem_nil, or_false] at hpush
    obtain rfl | rfl | rfl | rfl := hpush
    · cases h
      decide
    · cases h
    · cases h
    · cases h
  · have hzero : o ≠ .zero := fun he => hpush (by simp [he])
    unfold opcodeToken at h
    split at h
    · cases h
    · cases h
    · cases h
    · cases h
      rw [Token.ofOpcode, if_neg hzero]
      exact code_of_not_push hpush

theorem minimalPush_wellFormed {data : Bytes} (h : data.length < 0x100000000) :
    (Token.minimalPush data).WellFormed := by
  show data.length < (PushForm.minimal data.length).capacity
  unfold PushForm.minimal
  split
  · assumption
  split
  · assumption
  split
  · assumption
  · exact h

theorem wellFormed_of_dataToken {data : Bytes} {t : Token} (h : dataToken data = .ok t) :
    t.WellFormed := by
  unfold dataToken maxItemSize at h
  split at h
  · cases h
  · cases h
    exact minimalPush_wellFormed (by omega)

/-! ## Appending -/

theorem size_append (a b : List Token) :
    (Script.mk (a ++ b)).size = (Script.mk a).size + (Script.mk b).size := by
  simp [size, bytes]

theorem Valid.appendTokens {s t : Script} {tokens : List Token} (hs : s.Valid)
    (wf : ∀ t ∈ tokens, t.WellFormed) (h : s.appendTokens tokens = .ok t) : t.Valid := by
  unfold Script.appendTokens at h
  split at h
  · cases h
  · next room =>
    cases h
    refine ⟨?_, ?_⟩
    · intro t ht
      rcases List.mem_append.mp ht with ht | ht
      · exact hs.wellFormed t ht
      · exact wf t ht
    · rw [size_append]
      exact Nat.le_of_not_lt room

theorem Valid.append {s t : Script} {o : Opcode} (hs : s.Valid) (h : s.append o = .ok t) :
    t.Valid := by
  obtain ⟨token, htoken, h⟩ := bind_eq_ok_iff.mp h
  refine hs.appendTokens ?_ h
  rw [List.forall_mem_singleton]
  exact wellFormed_of_opcodeToken htoken

theorem Valid.appendData {s t : Script} {data : Bytes} (hs : s.Valid)
    (h : s.appendData data = .ok t) : t.Valid := by
  obtain ⟨token, htoken, h⟩ := bind_eq_ok_iff.mp h
  refine hs.appendTokens ?_ h
  rw [List.forall_mem_singleton]
  exact wellFormed_of_dataToken htoken

theorem Valid.appendNumber {s t : Script} {value : Int} (hs : s.Valid)
    (h : s.appendNumber value = .ok t) : t.Valid := by
  unfold Script.appendNumber at h
  split at h
  · exact hs.append h
  split at h
  · exact hs.appendData h
  split at h
  · exact hs.append h
  · exact hs.appendData h

theorem Valid.appendScript {s other t : Script} (hs : s.Valid) (ho : other.Valid)
    (h : s.appendScript other = .ok t) : t.Valid :=
  hs.appendTokens ho.wellFormed h

/-- What every step of a chain of builders keeps, the chain keeps. -/
theorem Valid.foldlM {α : Type} {f : Script → α → Except Error Script} {parts : List α}
    (keeps : ∀ a ∈ parts, ∀ s t : Script, s.Valid → f s a = .ok t → t.Valid) {s t : Script}
    (hs : s.Valid) (h : parts.foldlM f s = .ok t) : t.Valid := by
  induction parts generalizing s with
  | nil =>
    cases h
    exact hs
  | cons a parts ih =>
    rw [List.foldlM_cons] at h
    obtain ⟨u, hu, h⟩ := bind_eq_ok_iff.mp h
    obtain ⟨keepsA, keepsParts⟩ := List.forall_mem_cons.mp keeps
    exact ih keepsParts (keepsA s u hs hu) h

/-! ## Removing -/

theorem Valid.of_sublist {s : Script} {tokens : List Token} (hs : s.Valid)
    (h : tokens.Sublist s.tokens) : (Script.mk tokens).Valid := by
  refine ⟨fun t ht => hs.wellFormed t (h.subset ht), ?_⟩
  exact Nat.le_trans (h.flatMap Token.bytes).length_le hs.size_le

theorem Valid.withoutOpcode {s : Script} (hs : s.Valid) (o : Opcode) :
    (s.withoutOpcode o).Valid :=
  hs.of_sublist List.filter_sublist

theorem Valid.deletePush {s : Script} (hs : s.Valid) (data : Bytes) : (s.deletePush data).Valid :=
  hs.of_sublist List.filter_sublist

theorem Valid.dropFront {s : Script} (hs : s.Valid) (index : Nat) : (s.dropFront index).Valid :=
  hs.of_sublist (List.drop_sublist index s.tokens)

/-! ## Assembly text -/

theorem wellFormed_of_wordToken {word : List Char} {t : Token} (h : wordToken word = .ok t) :
    t.WellFormed := by
  unfold wordToken at h
  split at h
  · exact wellFormed_of_opcodeToken h
  split at h
  · dsimp only at h
    split at h
    · exact wellFormed_of_opcodeToken h
    · cases h
  · split at h
    · exact wellFormed_of_dataToken h
    · cases h

theorem valid_of_wordTokens {words : List (List Char)} {used : Nat} {tokens : List Token}
    (room : used ≤ maxScriptSize) (h : wordTokens used words = .ok tokens) :
    (∀ t ∈ tokens, t.WellFormed) ∧ used + (Script.mk tokens).size ≤ maxScriptSize := by
  -- The room that earlier words took is carried along, since a word is checked against the whole.
  induction words generalizing used tokens with
  | nil =>
    cases h
    exact ⟨by simp, room⟩
  | cons word words ih =>
    obtain ⟨token, htoken, h⟩ := bind_eq_ok_iff.mp h
    dsimp only at h
    split at h
    · cases h
    · next fits =>
      obtain ⟨rest, hrest, h⟩ := bind_eq_ok_iff.mp h
      cases h
      obtain ⟨wf, hsize⟩ := ih (Nat.le_of_not_lt fits) hrest
      refine ⟨List.forall_mem_cons.mpr ⟨wellFormed_of_wordToken htoken, wf⟩, ?_⟩
      rw [← List.singleton_append, size_append, ← Nat.add_assoc]
      simpa [size, bytes] using hsize

theorem valid_of_ofAssembly {text : String} {s : Script} (h : ofAssembly text = .ok s) :
    s.Valid := by
  unfold ofAssembly at h
  cases hwords : wordTokens 0 (Text.words text.toList) with
  | error e =>
    rw [hwords] at h
    cases h
  | ok tokens =>
    rw [hwords] at h
    cases h
    obtain ⟨wf, hsize⟩ := valid_of_wordTokens (Nat.zero_le _) hwords
    exact ⟨wf, by simpa using hsize⟩

/-! ## Templates -/

theorem valid_empty : empty.Valid :=
  ⟨by simp [empty], Nat.zero_le _⟩

theorem minimalPush_hash (hash : Digest 20) :
    (Token.minimalPush hash.bytes).bytes = 0x14 :: hash.bytes := by
  simp [Token.minimalPush, Token.bytes, PushForm.minimal, PushForm.header, hash.length_bytes]

theorem minimalPush_hash_wellFormed (hash : Digest 20) :
    (Token.minimalPush hash.bytes).WellFormed :=
  minimalPush_wellFormed (by rw [hash.length_bytes]; decide)

theorem bytes_payToPubkeyHash (hash : Digest 20) :
    (payToPubkeyHash hash).bytes = [0x76, 0xa9, 0x14] ++ hash.bytes ++ [0x88, 0xac] := by
  show [0x76] ++ ([0xa9] ++ ((Token.minimalPush hash.bytes).bytes ++ [0x88, 0xac])) = _
  rw [minimalPush_hash]
  simp

theorem bytes_payToScriptHash (hash : Digest 20) :
    (payToScriptHash hash).bytes = [0xa9, 0x14] ++ hash.bytes ++ [0x87] := by
  show [0xa9] ++ ((Token.minimalPush hash.bytes).bytes ++ [0x87]) = _
  rw [minimalPush_hash]
  simp

theorem valid_payToPubkeyHash (hash : Digest 20) : (payToPubkeyHash hash).Valid := by
  refine ⟨?_, ?_⟩
  · simp only [payToPubkeyHash, List.forall_mem_cons]
    refine ⟨by decide, by decide, minimalPush_hash_wellFormed hash, by decide, by decide, by simp⟩
  · rw [size, bytes_payToPubkeyHash]
    simp [hash.length_bytes, maxScriptSize]

theorem valid_payToScriptHash (hash : Digest 20) : (payToScriptHash hash).Valid := by
  refine ⟨?_, ?_⟩
  · simp only [payToScriptHash, List.forall_mem_cons]
    refine ⟨by decide, minimalPush_hash_wellFormed hash, by decide, by simp⟩
  · rw [size, bytes_payToScriptHash]
    simp [hash.length_bytes, maxScriptSize]

theorem valid_lockScript (a : Address) : a.lockScript.Valid := by
  unfold Address.lockScript
  split
  · exact valid_payToPubkeyHash a.hash
  · exact valid_payToScriptHash a.hash

theorem valid_of_multisig {keys : List Bytes} {required : Nat} {s : Script}
    (h : multisig keys required = .ok s) : s.Valid := by
  unfold multisig at h
  split at h
  · cases h
  · obtain ⟨s1, h1, h⟩ := bind_eq_ok_iff.mp h
    obtain ⟨s2, h2, h⟩ := bind_eq_ok_iff.mp h
    obtain ⟨s3, h3, h⟩ := bind_eq_ok_iff.mp h
    have v1 := valid_empty.appendNumber h1
    have v2 := v1.foldlM (fun _ _ _ _ hs => hs.appendData) h2
    exact (v2.appendNumber h3).append h

end Script

/-! ## Templates with parts -/

namespace Template

open Script

theorem retag_eq_ok_iff {α : Type} {x : Except Error α} {a : α} :
    retag x = .ok a ↔ x = .ok a := by
  unfold retag
  split
  · exact Iff.rfl
  · constructor <;> intro h <;> cases h
  · constructor <;> intro h <;> cases h

/-- Whether the script in a part, if there is one, is valid. -/
def Part.Valid : Part → Prop
  | .script s => s.Valid
  | _ => True

theorem Part.Valid.appendTo {part : Part} {s t : Script} (hp : part.Valid) (hs : s.Valid)
    (h : part.appendTo s = .ok t) : t.Valid := by
  cases part with
  | op o => exact Script.Valid.append hs h
  | data d => exact Script.Valid.appendData hs h
  | number value => exact Script.Valid.appendNumber hs h
  | script other => exact Script.Valid.appendScript hs hp h

theorem valid_of_build {parts : List Part} {s : Script} (hp : ∀ part ∈ parts, part.Valid)
    (h : build parts = .ok s) : s.Valid := by
  have h := retag_eq_ok_iff.mp h
  exact Script.Valid.foldlM (fun part hmem _ _ hs => (hp part hmem).appendTo hs) valid_empty h

theorem gate_valid (time : UInt32) : ∀ part ∈ gate time, part.Valid := by
  simp [gate, Part.Valid]

theorem valid_of_payToPubkey {key : PublicKey} {s : Script} (h : payToPubkey key = .ok s) :
    s.Valid :=
  valid_of_build (by simp [Part.Valid]) h

theorem valid_of_payToPubkeyHash {address : Address} {s : Script}
    (h : payToPubkeyHash address = .ok s) : s.Valid := by
  obtain ⟨_, _, h⟩ := bind_eq_ok_iff.mp h
  cases h
  exact valid_payToPubkeyHash address.hash

theorem valid_of_ofPayload {payload : Bytes} {s : Script} (h : ofPayload payload = .ok s) :
    s.Valid := by
  obtain ⟨_, _, h⟩ := bind_eq_ok_iff.mp h
  exact valid_of_payToPubkeyHash h

theorem valid_of_multisig {keys : List PublicKey} {required : Nat} {s : Script}
    (h : multisig keys required = .ok s) : s.Valid :=
  Script.valid_of_multisig (retag_eq_ok_iff.mp h)

theorem valid_of_lockTime {script s : Script} {time : UInt32} (hs : script.Valid)
    (h : lockTime script time = .ok s) : s.Valid := by
  refine valid_of_build ?_ h
  intro part hpart
  rcases List.mem_append.mp hpart with hpart | hpart
  · exact gate_valid time part hpart
  · rw [List.mem_singleton.mp hpart]
    exact hs

theorem valid_of_lockTimeAfter {script s : Script} {now interval : UInt32} (hs : script.Valid)
    (h : lockTimeAfter script now interval = .ok s) : s.Valid := by
  obtain ⟨_, _, h⟩ := bind_eq_ok_iff.mp h
  exact valid_of_lockTime hs h

theorem valid_of_lockTimeAddress {address : Address} {time : UInt32} {s : Script}
    (h : lockTimeAddress address time = .ok s) : s.Valid := by
  obtain ⟨script, hscript, h⟩ := bind_eq_ok_iff.mp h
  exact valid_of_lockTime (valid_of_payToPubkeyHash hscript) h

theorem valid_of_lockTimeAddressAfter {address : Address} {now interval : UInt32} {s : Script}
    (h : lockTimeAddressAfter address now interval = .ok s) : s.Valid := by
  obtain ⟨script, hscript, h⟩ := bind_eq_ok_iff.mp h
  obtain ⟨_, _, h⟩ := bind_eq_ok_iff.mp h
  exact valid_of_lockTime (valid_of_payToPubkeyHash hscript) h

theorem valid_of_carrier {data : Bytes} {s : Script} (h : carrier data = .ok s) : s.Valid := by
  unfold carrier at h
  split at h
  · cases h
  · exact valid_of_build (by simp [Part.Valid]) h

/-- The pieces that join two neighbours. -/
def pair (a b : Script) : List Part :=
  [.op (.flow .ifTrue), .script a, .op (.flow .orElse), .script b, .op (.flow .endIf)]

/-- The pieces of a script without a neighbour. -/
def unpaired (last : Script) : List Part :=
  [.op (.stack (.shuffle .drop)), .script last]

theorem forall_of_joinPairs {P Q : Script → Prop}
    (lone : ∀ last s, P last → build (unpaired last) = .ok s → Q s)
    (two : ∀ a b s, P a → P b → build (pair a b) = .ok s → Q s) {level joined : List Script}
    (hl : ∀ s ∈ level, P s) (h : joinPairs level = .ok joined) : ∀ s ∈ joined, Q s := by
  fun_induction joinPairs level generalizing joined with
  | case1 =>
    cases h
    simp
  | case2 last =>
    obtain ⟨s, hs, h⟩ := bind_eq_ok_iff.mp h
    cases h
    rw [List.forall_mem_singleton] at hl ⊢
    exact lone last s hl hs
  | case3 a b rest ih =>
    obtain ⟨s, hs, h⟩ := bind_eq_ok_iff.mp h
    obtain ⟨tail, htail, h⟩ := bind_eq_ok_iff.mp h
    cases h
    obtain ⟨ha, hl⟩ := List.forall_mem_cons.mp hl
    obtain ⟨hb, hl⟩ := List.forall_mem_cons.mp hl
    exact List.forall_mem_cons.mpr ⟨two a b s ha hb hs, ih hl htail⟩

/-- What joining preserves holds of the script that is left. -/
theorem of_joinAll {P : Script → Prop}
    (lone : ∀ last s, P last → build (unpaired last) = .ok s → P s)
    (two : ∀ a b s, P a → P b → build (pair a b) = .ok s → P s) {level : List Script} {s : Script}
    (hl : ∀ s ∈ level, P s) (h : joinAll level = .ok s) : P s := by
  fun_induction joinAll level with
  | case1 => cases h
  | case2 script =>
    cases h
    exact List.forall_mem_singleton.mp hl
  | case3 => cases h
  | case4 a b rest joined hjoined _ ih => exact ih (forall_of_joinPairs lone two hl hjoined) h

theorem valid_of_joinAll {level : List Script} {s : Script} (hl : ∀ s ∈ level, s.Valid)
    (h : joinAll level = .ok s) : s.Valid :=
  of_joinAll (fun _ _ hlast => valid_of_build (by simpa [unpaired, Part.Valid] using hlast))
    (fun _ _ _ ha hb => valid_of_build (by simp [pair, Part.Valid, ha, hb])) hl h

theorem valid_of_contract {recipient sender : Address} {time : UInt32} {digest : Bytes}
    {hash : HashOperator} {s : Script} (h : contract recipient sender time digest hash = .ok s) :
    s.Valid := by
  unfold contract at h
  split at h
  · cases h
  · obtain ⟨_, _, h⟩ := bind_eq_ok_iff.mp h
    obtain ⟨_, _, h⟩ := bind_eq_ok_iff.mp h
    exact valid_of_build (by simp [Part.Valid, gate]) h

theorem valid_of_contractAfter {recipient sender : Address} {now interval : UInt32}
    {digest : Bytes} {hash : HashOperator} {s : Script}
    (h : contractAfter recipient sender now interval digest hash = .ok s) : s.Valid := by
  obtain ⟨_, _, h⟩ := bind_eq_ok_iff.mp h
  exact valid_of_contract h

end Template

/-! ## Everything that can be built -/

namespace Script

/-- The scripts that come from any sequence of reading, appending, removing and filling in
templates. -/
inductive Built : Script → Prop
  | empty : Built empty
  | parse {input : Bytes} {s : Script} : Script.parse input = .ok s → Built s
  | ofAssembly {text : String} {s : Script} : Script.ofAssembly text = .ok s → Built s
  | append {s t : Script} {o : Opcode} : Built s → s.append o = .ok t → Built t
  | appendData {s t : Script} {data : Bytes} : Built s → s.appendData data = .ok t → Built t
  | appendNumber {s t : Script} {value : Int} : Built s → s.appendNumber value = .ok t → Built t
  | appendScript {s other t : Script} :
      Built s → Built other → s.appendScript other = .ok t → Built t
  | withoutOpcode {s : Script} (o : Opcode) : Built s → Built (s.withoutOpcode o)
  | deletePush {s : Script} (data : Bytes) : Built s → Built (s.deletePush data)
  | dropFront {s : Script} (index : Nat) : Built s → Built (s.dropFront index)
  | payToPubkeyHash (hash : Digest 20) : Built (payToPubkeyHash hash)
  | payToScriptHash (hash : Digest 20) : Built (payToScriptHash hash)
  | toScriptHash {s : Script} : Built s → Built s.toScriptHash
  | lockScript (a : Address) : Built a.lockScript
  | multisig {keys : List Bytes} {required : Nat} {s : Script} :
      Script.multisig keys required = .ok s → Built s
  | keyTemplate {key : PublicKey} {s : Script} : Template.payToPubkey key = .ok s → Built s
  | addressTemplate {a : Address} {s : Script} : Template.payToPubkeyHash a = .ok s → Built s
  | payloadTemplate {payload : Bytes} {s : Script} : Template.ofPayload payload = .ok s → Built s
  | multisigTemplate {keys : List PublicKey} {required : Nat} {s : Script} :
      Template.multisig keys required = .ok s → Built s
  | multisigAllTemplate {keys : List PublicKey} {s : Script} :
      Template.multisigAll keys = .ok s → Built s
  | lockTime {script s : Script} {time : UInt32} :
      Built script → Template.lockTime script time = .ok s → Built s
  | lockTimeAfter {script s : Script} {now interval : UInt32} :
      Built script → Template.lockTimeAfter script now interval = .ok s → Built s
  | lockTimeAddress {a : Address} {time : UInt32} {s : Script} :
      Template.lockTimeAddress a time = .ok s → Built s
  | lockTimeAddressAfter {a : Address} {now interval : UInt32} {s : Script} :
      Template.lockTimeAddressAfter a now interval = .ok s → Built s
  | carrier {data : Bytes} {s : Script} : Template.carrier data = .ok s → Built s
  | carrierText {text : String} {s : Script} : Template.carrierText text = .ok s → Built s
  | alternatives {scripts : List Script} {s : Script} :
      (∀ script ∈ scripts, Built script) → Template.alternatives scripts = .ok s → Built s
  | contract {recipient sender : Address} {time : UInt32} {digest : Bytes}
      {hash : Template.HashOperator} {s : Script} :
      Template.contract recipient sender time digest hash = .ok s → Built s
  | contractForSecret {recipient sender : Address} {time : UInt32} {secret : Bytes}
      {hash : Template.HashOperator} {s : Script} :
      Template.contractForSecret recipient sender time secret hash = .ok s → Built s
  | contractAfter {recipient sender : Address} {now interval : UInt32} {digest : Bytes}
      {hash : Template.HashOperator} {s : Script} :
      Template.contractAfter recipient sender now interval digest hash = .ok s → Built s

theorem Built.valid {s : Script} (h : s.Built) : s.Valid := by
  induction h with
  | empty => exact valid_empty
  | parse h => exact (valid_of_parse h).1
  | ofAssembly h => exact valid_of_ofAssembly h
  | append _ h ih => exact ih.append h
  | appendData _ h ih => exact ih.appendData h
  | appendNumber _ h ih => exact ih.appendNumber h
  | appendScript _ _ h ih iho => exact ih.appendScript iho h
  | withoutOpcode o _ ih => exact ih.withoutOpcode o
  | deletePush data _ ih => exact ih.deletePush data
  | dropFront index _ ih => exact ih.dropFront index
  | payToPubkeyHash hash => exact valid_payToPubkeyHash hash
  | payToScriptHash hash => exact valid_payToScriptHash hash
  | toScriptHash _ _ => exact valid_payToScriptHash _
  | lockScript a => exact valid_lockScript a
  | multisig h => exact valid_of_multisig h
  | keyTemplate h => exact Template.valid_of_payToPubkey h
  | addressTemplate h => exact Template.valid_of_payToPubkeyHash h
  | payloadTemplate h => exact Template.valid_of_ofPayload h
  | multisigTemplate h => exact Template.valid_of_multisig h
  | multisigAllTemplate h => exact Template.valid_of_multisig h
  | lockTime _ h ih => exact Template.valid_of_lockTime ih h
  | lockTimeAfter _ h ih => exact Template.valid_of_lockTimeAfter ih h
  | lockTimeAddress h => exact Template.valid_of_lockTimeAddress h
  | lockTimeAddressAfter h => exact Template.valid_of_lockTimeAddressAfter h
  | carrier h => exact Template.valid_of_carrier h
  | carrierText h => exact Template.valid_of_carrier h
  | alternatives _ h ih => exact Template.valid_of_joinAll ih h
  | contract h => exact Template.valid_of_contract h
  | contractForSecret h => exact Template.valid_of_contract h
  | contractAfter h => exact Template.valid_of_contractAfter h

/-- A script that is built has no more bytes than allowed and is what its bytes read as: reading
them gives the script back, and reading them by position gives its bytes, its instructions and its
offsets. -/
theorem built_reads_back {s : Script} (h : s.Built) :
    s.size ≤ maxScriptSize ∧ parse s.bytes = .ok s ∧
      parseRows s.bytes = ExceptT.mk (some (.ok ⟨s.bytes, s.instructions, s.offsets⟩)) := by
  have valid := h.valid
  refine ⟨valid.size_le, valid.parse_bytes, ?_⟩
  rw [parseRows_eq, valid.parse_bytes]
  rfl

/-- A script that was appended to itself and then lost a push reads back. -/
theorem built_reads_back_doubled :
    let s : Script := ⟨[.push .direct [], .push .direct [], .op .equal]⟩
    (s.appendScript s).map (·.deletePush []) = .ok ⟨[.op .equal, .op .equal]⟩ ∧
      parse (Script.mk [.op .equal, .op .equal]).bytes = .ok ⟨[.op .equal, .op .equal]⟩ := by
  intro s
  have h1 : Built ⟨[.push .direct []]⟩ := .append .empty (show empty.append .zero = _ from rfl)
  have h2 : Built ⟨[.push .direct [], .push .direct []]⟩ :=
    .appendData h1 (show Script.appendData _ [] = _ from rfl)
  have hs : Built s := .append h2 (show Script.append _ .equal = _ from rfl)
  have hd : Built ⟨[.op .equal, .op .equal]⟩ := .deletePush [] (.appendScript hs hs rfl)
  exact ⟨rfl, (built_reads_back hd).2.1⟩

end Script

end CoinScript
