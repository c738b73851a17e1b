import CoinScript.Proofs.CheckedScripts
import CoinScript.Proofs.Counting
import CoinScript.Proofs.Removal
import Mathlib.Data.List.Induction
/-!
# Code behind the last separator

A signature commits to the running script from behind the separator that was executed last. The
machine keeps the index of an instruction for it, which one opcode sets and the checks of
signatures read. Here the index is followed through a run and turned into a place among the bytes
of the script.

* `step_separator`, `step_other`: what one instruction does to the index;
* `steps_tracked`: the index behind a row, wherever the row stops;
* `signatures_commit_behind_separator`: whole scripts, and the digests that are asked about.
-/

namespace CoinScript

open Instruction

/-- The instruction from behind which signatures hash the script. -/
def Instruction.separator : Instruction :=
  .op (.signature .codeSeparator)

namespace Exec

/-! ## One instruction -/

/-- The part of a state that says what signatures hash. -/
def codePlace (s : State) : Script × Nat :=
  (s.script, s.codeStart)

theorem blind_codePlace : Blind codePlace where
  stack _ _ := rfl
  alt _ _ := rfl
  conditions _ _ := rfl
  operations _ _ := rfl
  log _ _ := rfl

/-- In the state, a separator is executed: its branch is taken and one more operation is allowed. -/
def Marks (s : State) : Prop :=
  s.executing = true ∧ s.operations < maxOperations

variable {env : Env}

theorem apply_codePlace (i : Instruction) (hi : i ≠ separator) (executing : Bool) :
    Preserves codePlace (apply env executing i) := by
  have b := blind_codePlace
  refine b.apply (fun op hop => b.execute fun rule hrule => ?_) executing
  refine b.signatureOp env (fun _ _ => rfl) ?_
  rintro rfl
  rw [hrule] at hop
  exact hi hop

/-- A separator counts as an operation, whether it is executed or not. -/
theorem apply_separator (executing : Bool) :
    apply env executing separator = countOperations 1 >>= fun _ =>
      if executing then markSeparator else pure () := by
  cases executing <;> rfl

/-- A separator that is executed puts the index behind itself. -/
theorem step_separator {index : Nat} {s : State} (marks : Marks s) :
    Always (codePlace · = (s.script, index + 1)) (step env index separator s) := by
  obtain ⟨executing, few⟩ := marks
  refine Always.finish (P := (· = (s.script, index + 1))) blind_codePlace.toStackBlind ?_
  have counted : countOperations 1 { s with position := index } =
      .ok () { s with position := index, operations := s.operations + 1 } :=
    countOperations_ok_iff.mpr ⟨few, rfl⟩
  rw [apply_separator, executing, bind_of_ok counted]
  rfl

/-- Everywhere else the index stays where it is, also behind a separator that is not executed. -/
theorem step_other {index : Nat} {i : Instruction} {s : State} (h : ¬ (i = separator ∧ Marks s)) :
    Always (codePlace · = codePlace s) (step env index i s) := by
  refine Always.finish (P := (· = codePlace s)) blind_codePlace.toStackBlind ?_
  have counted := blind_codePlace.countOperations 1
  by_cases hi : i = separator
  · subst hi
    rw [apply_separator]
    cases hexec : s.executing with
    | true =>
      -- The branch is taken, so it is the count that has no room for the separator.
      have many : ¬ s.operations + 1 ≤ maxOperations := fun few => h ⟨rfl, hexec, few⟩
      refine Ends.bind (Q := fun _ _ => False) ?_ fun _ _ => False.elim
      unfold countOperations
      rw [if_pos (Nat.lt_of_not_le many)]
      rfl
    | false => exact (counted.bind fun _ => .pure ()) { s with position := index }
  · exact apply_codePlace i hi _ { s with position := index }

/-! ## A row of instructions -/

/-- Instruction `k` of a row is a separator that is executed: the run gets there, and marks it. -/
def Separates (env : Env) (row : List Instruction) (s : State) (k : Nat) : Prop :=
  row[k]? = some separator ∧ ∃ t, steps env 0 (row.take k) s = .ok () t ∧ Marks t

/-- Separators that are executed behind a row with one more instruction. -/
theorem separates_concat_iff {row : List Instruction} {i : Instruction} {s : State} {k : Nat} :
    Separates env (row ++ [i]) s k ↔ Separates env row s k ∨
      k = row.length ∧ i = separator ∧ ∃ t, steps env 0 row s = .ok () t ∧ Marks t := by
  unfold Separates
  rcases Nat.lt_trichotomy k row.length with before | rfl | behind
  · rw [List.getElem?_append_left before, List.take_append_of_le_length (Nat.le_of_lt before)]
    constructor
    · exact .inl
    · rintro (h | ⟨rfl, _⟩)
      · exact h
      · exact absurd before (Nat.lt_irrefl _)
  · rw [List.getElem?_concat_length, List.take_left, Option.some_inj,
      List.getElem?_eq_none (Nat.le_refl _)]
    constructor
    · rintro ⟨hi, h⟩
      exact .inr ⟨rfl, hi, h⟩
    · rintro (⟨⟨⟩, _⟩ | ⟨_, hi, h⟩)
      exact ⟨hi, h⟩
  · have outside : (row ++ [i])[k]? = none := by
      rw [List.getElem?_eq_none_iff, List.length_append]
      exact behind
    rw [outside, List.getElem?_eq_none (Nat.le_of_lt behind)]
    constructor
    · rintro ⟨⟨⟩, _⟩
    · rintro (⟨⟨⟩, _⟩ | ⟨rfl, _⟩)
      exact absurd behind (Nat.lt_irrefl _)

/-- The index for signatures is 0, or it is behind the last of the executed separators. -/
def Tracked (executed : Nat → Prop) (codeStart : Nat) : Prop :=
  (∀ k, ¬ executed k) ∧ codeStart = 0 ∨
    ∃ k, executed k ∧ (∀ j, executed j → j ≤ k) ∧ codeStart = k + 1

theorem lt_of_separates {row : List Instruction} {s : State} {k : Nat}
    (h : Separates env row s k) : k < row.length :=
  (List.getElem?_eq_some_iff.mp h.1).1

/-- One more instruction that is no executed separator. -/
theorem separates_concat_of_not {row : List Instruction} {i : Instruction} {s : State}
    (h : ∀ t, steps env 0 row s = .ok () t → ¬ (i = separator ∧ Marks t)) :
    Separates env (row ++ [i]) s = Separates env row s := by
  funext k
  rw [separates_concat_iff, eq_iff_iff, or_iff_left]
  rintro ⟨_, hi, t, ht, marks⟩
  exact h t ht ⟨hi, marks⟩

/-- One more separator that is executed is the last one. -/
theorem tracked_concat {row : List Instruction} {s t : State}
    (ht : steps env 0 row s = .ok () t) (marks : Marks t) :
    Tracked (Separates env (row ++ [separator]) s) (row.length + 1) := by
  refine .inr ⟨row.length, separates_concat_iff.mpr (.inr ⟨rfl, rfl, t, ht, marks⟩), ?_, rfl⟩
  intro j hj
  rcases separates_concat_iff.mp hj with before | ⟨rfl, _⟩
  · exact Nat.le_of_lt (lt_of_separates before)
  · exact Nat.le_refl _

/-- Wherever a row stops, the index is behind the last separator that was executed. -/
theorem steps_tracked (env : Env) (row : List Instruction) {s : State} (fresh : s.codeStart = 0) :
    let tracked (t : State) : Prop :=
      t.script = s.script ∧ Tracked (Separates env row s) t.codeStart
    Always tracked (steps env 0 row s) := by
  induction row using List.reverseRecOn with
  | nil =>
    refine ⟨rfl, .inl ⟨?_, fresh⟩⟩
    rintro k ⟨⟨⟩, _⟩
  | append_singleton row i ih =>
    intro tracked
    rw [steps_append, Nat.zero_add]
    cases hrow : steps env 0 row s with
    | error e t =>
      rw [hrow] at ih
      rw [bind_of_error hrow]
      have same : Separates env (row ++ [i]) s = Separates env row s :=
        separates_concat_of_not fun u hu => by cases hrow.symm.trans hu
      exact ⟨ih.1, same ▸ ih.2⟩
    | ok _ t =>
      rw [hrow] at ih
      rw [bind_of_ok hrow]
      suffices stepped : Always tracked (step env row.length i t) from
        Ends.bind stepped fun _ u hu => hu
      have moved {u : State} {place : Script × Nat} (hu : codePlace u = place) :
          u.script = place.1 ∧ u.codeStart = place.2 := by
        rw [← hu]
        exact ⟨rfl, rfl⟩
      by_cases h : i = separator ∧ Marks t
      · obtain ⟨rfl, marks⟩ := h
        have marked (u : State) (hu : codePlace u = (t.script, row.length + 1)) : tracked u :=
          ⟨(moved hu).1.trans ih.1, (moved hu).2 ▸ tracked_concat hrow marks⟩
        exact Always.mono (step_separator marks) marked
      · have same : Separates env (row ++ [i]) s = Separates env row s := by
          refine separates_concat_of_not fun u hu => ?_
          cases hrow.symm.trans hu
          exact h
        have kept (u : State) (hu : codePlace u = codePlace t) : tracked u :=
          ⟨(moved hu).1.trans ih.1, same ▸ (moved hu).2 ▸ ih.2⟩
        exact Always.mono (step_other h) kept

end Exec

/-! ## Bytes behind a separator -/

/-- The code is what the script reads as from right behind the last executed separator on, or the
whole script if none was executed. -/
def Script.FollowsLast (script : Script) (executed : Nat → Prop) (code : Script) : Prop :=
  (∀ k, ¬ executed k) ∧ Script.parse script.bytes = .ok code ∨
    ∃ k place, executed k ∧ (∀ j, executed j → j ≤ k) ∧ script.offsets[k]? = some place ∧
      script.bytes[place]? = some 0xab ∧ Script.parse (script.bytes.drop (place + 1)) = .ok code

/-- A separator is a single byte, and the part of a script behind it is what the bytes behind it
read as. -/
theorem Script.Valid.behind_separator {script : Script} (valid : script.Valid) {k : Nat}
    (hk : script.instructions[k]? = some separator) :
    ∃ place, script.offsets[k]? = some place ∧ script.bytes[place]? = some 0xab ∧
      Script.parse (script.bytes.drop (place + 1)) = .ok (script.dropFront (k + 1)) := by
  obtain ⟨tokens⟩ := script
  obtain ⟨t, ht, hi⟩ : ∃ t, tokens[k]? = some t ∧ t.instruction = separator := by
    rwa [Script.instructions, List.getElem?_map, Option.map_eq_some_iff] at hk
  obtain rfl : t = .op (.signature .codeSeparator) := by
    cases t <;> cases hi
    rfl
  obtain ⟨inside, hget⟩ := List.getElem?_eq_some_iff.mp ht
  have hsplit : tokens =
      tokens.take k ++ .op (.signature .codeSeparator) :: tokens.drop (k + 1) := by
    rw [← hget, ← List.drop_eq_getElem_cons inside, List.take_append_drop]
  have hfront : (tokens.take k).length = k := List.length_take_of_le (Nat.le_of_lt inside)
  have hbytes : (⟨tokens⟩ : Script).bytes = (tokens.take k).flatMap Token.bytes ++
      0xab :: (tokens.drop (k + 1)).flatMap Token.bytes := by
    conv_lhs => rw [Script.bytes, hsplit, List.flatMap_append, List.flatMap_cons]
    rfl
  have hoffset := Checked.offsets_at (tokens.take k)
    (.op (.signature .codeSeparator) :: tokens.drop (k + 1))
  rw [← hsplit, hfront] at hoffset
  refine ⟨_, hoffset, ?_, ?_⟩
  · rw [hbytes, List.getElem?_append_right (Nat.le_refl _), Nat.sub_self]
    rfl
  · rw [hbytes, List.drop_append, List.drop_of_length_le (Nat.le_succ _), Nat.add_sub_cancel_left]
    exact (valid.dropFront (k + 1)).parse_bytes

theorem Script.Valid.followsLast {script : Script} (valid : script.Valid) {executed : Nat → Prop}
    (separators : ∀ k, executed k → script.instructions[k]? = some separator) {codeStart : Nat}
    (tracked : Exec.Tracked executed codeStart) :
    script.FollowsLast executed (script.dropFront codeStart) := by
  rcases tracked with ⟨none, rfl⟩ | ⟨k, hk, last, rfl⟩
  · exact .inl ⟨none, valid.parse_bytes⟩
  · obtain ⟨place, hoffset, hbyte, hparse⟩ := valid.behind_separator (separators k hk)
    exact .inr ⟨k, place, hk, last, hoffset, hbyte, hparse⟩

/-! ## Questions to the signature checker -/

/-- The digest of a script does not depend on its separators. -/
theorem SigHash.digest_withoutOpcode (tx : Transaction) (index : Nat) (code : Script)
    (hashType : UInt32) :
    digest tx index (code.withoutOpcode (.signature .codeSeparator)) hashType =
      digest tx index code hashType := by
  unfold digest preimage hashedTransaction
  rw [Script.withoutOpcode_self]

namespace Exec

/-- At most one question was asked since the state `s`. It is about the two items on top of its
stack, and its digest is that of the code without the tokens that are the shortest push of the
signature byte by byte, and without separators. -/
def AsksAbout (env : Env) (code : Script) (s : State) (calls : List Call) : Prop :=
  calls = s.calls ∨ ∃ key signature below spend hashType,
    s.stack = key :: signature :: below ∧ env.spend = some spend ∧
      signature.getLast? = some hashType ∧
      calls = ⟨SigHash.digest spend.transaction spend.index
          ⟨code.tokens.filter fun t => t.bytes ≠ (Token.minimalPush signature).bytes ∧
            t.instruction ≠ separator⟩
          hashType.toUInt32, signature.dropLast, key⟩ :: s.calls

theorem checkSignature_asks (env : Env) (signature key : Bytes) (code : Script) (s : State) :
    let asked (t : State) : Prop := t.calls = s.calls ∨ ∃ spend hashType,
      env.spend = some spend ∧ signature.getLast? = some hashType ∧
        t.calls = ⟨SigHash.digest spend.transaction spend.index code hashType.toUInt32,
          signature.dropLast, key⟩ :: s.calls
    Always asked (checkSignature env signature key code s) := by
  intro asked
  have lifted {α : Type} (r : Except Error α) {t : State} (ht : asked t) :
      Ends (fun _ u => u = t) (fun _ u => asked u) (lift r t) := by
    cases r with
    | ok a => rfl
    | error e => exact ht
  have start : asked s := .inl rfl
  refine (lifted _ start).bind ?_
  rintro _ _ rfl
  refine (lifted _ start).bind ?_
  rintro _ t rfl
  cases hlast : signature.getLast? with
  | none => exact start
  | some hashType =>
    unfold Exec.spend
    cases hspend : env.spend with
    | none => exact start
    | some spent =>
      have recorded : asked { t with calls := ⟨spent.signatureHash code hashType.toUInt32,
          signature.dropLast, key⟩ :: t.calls } := .inr ⟨spent, hashType, hspend, hlast, rfl⟩
      refine (lifted _ recorded).imp ?_
      rintro _ _ rfl
      exact recorded

theorem checkSingle_asks (env : Env) (s : State) :
    Always (fun t => AsksAbout env s.scriptCode s t.calls) (checkSingle env s) := by
  have start : AsksAbout env s.scriptCode s s.calls := .inl rfl
  unfold checkSingle
  by_cases high : 2 ≤ s.stack.length
  · rw [bind_of_ok (need_ok_iff.mpr ⟨high, rfl⟩)]
    match hs : s.stack with
    | [] | [_] => simp [hs] at high
    | key :: signature :: below =>
      rw [bind_of_ok (pop_ok_iff.mpr ⟨_, hs, rfl⟩), bind_of_ok (pop_ok_iff.mpr ⟨below, rfl, rfl⟩)]
      have asks (t : State) (h : t.calls = s.calls ∨ ∃ spend hashType,
          env.spend = some spend ∧ signature.getLast? = some hashType ∧
            t.calls = ⟨SigHash.digest spend.transaction spend.index
              (s.scriptCode.deletePush signature) hashType.toUInt32, signature.dropLast, key⟩ ::
                s.calls) : AsksAbout env s.scriptCode s t.calls := by
        rcases h with h | ⟨spend, hashType, bound, hlast, h⟩
        · exact .inl h
        · rw [← SigHash.digest_withoutOpcode, Script.deletePush_withoutOpcode_eq_filter] at h
          exact .inr ⟨key, signature, below, spend, hashType, hs, bound, hlast, h⟩
      exact Always.mono (checkSignature_asks env signature key _ { s with stack := below }) asks
  · have short : need 2 s = .error (.stackUnderflow 2) s := if_pos (Nat.lt_of_not_le high)
    rw [bind_of_error short]
    exact start

theorem blind_calls : Blind State.calls where
  stack _ _ := rfl
  alt _ _ := rfl
  conditions _ _ := rfl
  operations _ _ := rfl
  log _ _ := rfl

/-- A check of one signature, executed or not, asks at most one question. -/
theorem step_asks (env : Env) (index : Nat) {op : SignatureOp}
    (single : op = .checkSig ∨ op = .checkSigVerify) (s : State) :
    Always (fun t => AsksAbout env s.scriptCode s t.calls)
      (step env index (.op (.signature op)) s) := by
  let asked (t : State) : Prop := AsksAbout env s.scriptCode s t.calls
  have start : AsksAbout env s.scriptCode s s.calls := .inl rfl
  refine Always.finish (P := AsksAbout env s.scriptCode s) blind_calls.toStackBlind ?_
  obtain ⟨push, happly⟩ : ∃ push, apply env s.executing (.op (.signature op)) =
      countOperations 1 >>= fun _ =>
        if s.executing then checkSingle env >>= settle op push else pure () := by
    rcases single with rfl | rfl
    · exact ⟨true, by cases s.executing <;> rfl⟩
    · exact ⟨false, by cases s.executing <;> rfl⟩
  rw [happly]
  refine Ends.bind (Q := fun _ t => ∃ operations,
    t = { s with position := index, operations := operations }) ?_ ?_
  · unfold countOperations
    dsimp only
    split
    · exact start
    · exact ⟨_, rfl⟩
  · rintro _ _ ⟨operations, rfl⟩
    -- The stack and the code for signatures are what they were in front of the instruction.
    cases s.executing with
    | true =>
      refine (checkSingle_asks env _).bind fun outcome t ht => ?_
      refine Always.mono (Q := asked) (blind_calls.settle op push outcome t) fun u hu => ?_
      show AsksAbout env s.scriptCode s u.calls
      rw [hu]
      exact ht
    | false => exact start

/-! ## Whole scripts -/

/-- Signatures commit to the code behind the last separator that was executed. At every place of a
run, also where it fails, the code for signatures is what the script reads as from behind that
separator on; skipped separators and those of earlier scripts do not count. A check of one
signature asks about the digest of this code without pushes of the signature and without
separators, and about nothing else. -/
theorem signatures_commit_behind_separator {script : Script} (built : script.Built) (env : Env)
    (start : State) :
    (∀ done rest, script.instructions = done ++ rest →
      script.FollowsLast (Separates env done (start.started script))
        (endState (steps env 0 done (start.started script))).scriptCode) ∧
    script.FollowsLast (Separates env script.instructions (start.started script))
      (endState (run env script start)).scriptCode ∧
    ∀ done op rest s, script.instructions = done ++ .op (.signature op) :: rest →
      op = .checkSig ∨ op = .checkSigVerify →
      steps env 0 done (start.started script) = .ok () s →
      ∃ code, script.FollowsLast (Separates env done (start.started script)) code ∧
        AsksAbout env code s (endState (step env done.length (.op (.signature op)) s)).calls := by
  have left {P : State → Prop} {r : EStateM.Result Error State Unit} (h : Always P r) :
      P (endState r) := by
    cases r <;> exact h
  have follows (done rest : List Instruction) (hsplit : script.instructions = done ++ rest) :
      script.FollowsLast (Separates env done (start.started script))
        (endState (steps env 0 done (start.started script))).scriptCode := by
    obtain ⟨hscript, tracked⟩ := left (steps_tracked env done (s := start.started script) rfl)
    rw [State.scriptCode, hscript]
    refine built.valid.followsLast (fun k hk => ?_) tracked
    rw [hsplit, List.getElem?_append_left (lt_of_separates hk)]
    exact hk.1
  refine ⟨follows, ?_, ?_⟩
  · rw [endState_run env built.valid.size_le]
    exact follows script.instructions [] (List.append_nil _).symm
  · intro done op rest s hsplit single hs
    have code := follows done _ hsplit
    rw [hs] at code
    exact ⟨s.scriptCode, code, left (step_asks env done.length single s)⟩

theorem eq_ok_endState {r : EStateM.Result Error State Unit}
    (h : (match r with | .ok _ _ => true | .error _ _ => false) = true) :
    r = .ok () (endState r) := by
  cases r with
  | ok _ s => rfl
  | error e s => cases h

/-- In front of the check of a signature one separator is executed and one is skipped, and the
signature is pushed and dropped again. Neither the skipped separator nor the push is hashed. -/
theorem signatures_commit_behind_separator_skipped :
    let separator : Token := .op (.signature .codeSeparator)
    let drop : Token := .op (.stack (.shuffle .drop))
    let check : Token := .op (.signature .checkSig)
    let signature : Bytes := [0x30, 1]
    let script : Script := ⟨[separator, .push .direct [], .op (.flow .ifTrue), separator,
      .op (.flow .endIf), .push .direct signature, drop, check]⟩
    let hashed : Script :=
      ⟨[.push .direct [], .op (.flow .ifTrue), .op (.flow .endIf), drop, check]⟩
    let tx : Transaction := ⟨1, 0, [⟨⟨.replicate 32 1, 0⟩, [], 5⟩], [⟨10, []⟩]⟩
    let env : Env := { spend := some ⟨tx, 0, ⟨20, []⟩⟩, checker := fun _ _ _ _ => .ok true }
    let start : State := { stack := [[2], signature], codeStart := 7 }
    let before : State :=
      { start.started script with codeStart := 1, position := 6, operations := 5 }
    let after := endState (step env 7 (.op (.signature .checkSig)) before)
    steps env 0 (script.instructions.take 7) (start.started script) = .ok () before ∧
      after.calls = [⟨SigHash.digest tx 0 hashed 1, [0x30], [2]⟩] ∧
      ∃ code, script.FollowsLast
          (Separates env (script.instructions.take 7) (start.started script)) code ∧
        AsksAbout env code before after.calls := by
  intro separator drop check signature script hashed tx env start before after
  have built : script.Built := by
    have valid : script.Valid := ⟨by decide, by decide⟩
    exact .parse valid.parse_bytes
  have ended : endState (steps env 0 (script.instructions.take 7) (start.started script)) =
      before := by
    decide +kernel
  have reached : steps env 0 (script.instructions.take 7) (start.started script) =
      .ok () before := by
    rw [← ended]
    refine eq_ok_endState ?_
    decide +kernel
  have kept : hashed = (Script.mk [.push .direct [], .op (.flow .ifTrue), separator,
      .op (.flow .endIf), drop, check]).withoutOpcode (.signature .codeSeparator) := rfl
  -- The code that is hashed still has the separator. Digests are compared without computing them.
  have asked : after.calls = [⟨SigHash.digest tx 0 hashed 1, [0x30], [2]⟩] := by
    rw [kept, SigHash.digest_withoutOpcode]
    rfl
  exact ⟨reached, asked, (signatures_commit_behind_separator built env start).2.2 _ .checkSig []
    before rfl (.inl rfl) reached⟩

end Exec
end CoinScript
