import CoinScript.Proofs.MultisigDecision
import CoinScript.Proofs.Separators
/-!
# Deletion among bytes

Signatures commit to a script without their own pushes. Here the pushes are deleted token by token.
The rule that all machines have to agree on is about bytes: a scan goes from instruction to
instruction, told where the next one starts by the bytes alone, and leaves out the bytes of the push
wherever they stand in front. Both come to the same, since no push is the beginning of anything else
at such a place.

* `Token.minimalPush_isPrefix_iff`: where the bytes of a push stand in front;
* `Script.bytes_filter_eq`: deleting by tokens and by the scan;
* `Exec.multisig_asksFor`: what multisignature checks ask about;
* `Script.deletion_scans`: built scripts, and the code of multisignature checks.
-/

namespace CoinScript

/-! ## The scan -/

/-- The number of bytes of the instruction that starts with `code`, told by this byte and the length
field behind it. -/
def spanLength (code : UInt8) (input : Bytes) : Nat :=
  if code < 0x4c then 1 + code.toNat
  else if code = 0x4c then 2 + Bytes.toNatLE (input.take 1)
  else if code = 0x4d then 3 + Bytes.toNatLE (input.take 2)
  else if code = 0x4e then 5 + Bytes.toNatLE (input.take 4)
  else 1

theorem spanLength_pos (code : UInt8) (input : Bytes) : 0 < spanLength code input := by
  unfold spanLength
  repeat' split
  all_goals omega

/-- The bytes without those of `needle` where they start an instruction. In front of each
instruction they are left out as long as there are more of them; then the instruction is copied, and
the scan goes on behind it. -/
def scanDelete (needle : Bytes) : Bytes → Bytes
  | [] => []
  | code :: input =>
    if needle ≠ [] ∧ needle <+: code :: input then
      scanDelete needle ((code :: input).drop needle.length)
    else
      (code :: input).take (spanLength code input) ++
        scanDelete needle ((code :: input).drop (spanLength code input))
termination_by input => input.length
decreasing_by
  · next found =>
    have := List.length_pos_iff.mpr found.1
    simp only [List.length_drop, List.length_cons]
    omega
  · have := spanLength_pos code input
    simp only [List.length_drop, List.length_cons]
    omega

namespace Token

/-- What the bytes say about the length of a token is its length. -/
theorem spanLength_eq {t : Token} {code : UInt8} {input rest : Bytes} (wf : t.WellFormed)
    (h : code :: input = t.bytes ++ rest) : spanLength code input = t.bytes.length := by
  have hread := read_of_wellFormed wf h
  have field {form : PushForm} {width : Nat}
      (hfield : readField form width input = .ok (t, rest))
      (header : ∀ n, (form.header n).length = 1 + width) :
      1 + width + Bytes.toNatLE (input.take width) = t.bytes.length := by
    obtain ⟨field, data, rfl, rfl, hn, rfl⟩ := readField_eq_ok_iff.mp hfield
    rw [List.take_left, bytes, List.length_append, header, hn]
  obtain ⟨low, he⟩ | ⟨rfl, he⟩ | ⟨rfl, he⟩ | ⟨rfl, he⟩ | ⟨high, he⟩ := read_cases code input
  · obtain ⟨data, rfl, hn, rfl⟩ := readData_eq_ok_iff.mp (he ▸ hread)
    rw [spanLength, if_pos low, bytes, List.length_append, hn]
    rfl
  · exact field (he ▸ hread) fun n => rfl
  · exact field (he ▸ hread) fun n => rfl
  · exact field (he ▸ hread) fun n => rfl
  · have no (mark : UInt8) (low : mark < 0x4f) : code ≠ mark :=
      fun same => absurd high (UInt8.not_le.mpr (same ▸ low))
    rw [he] at hread
    cases hread
    rw [spanLength, if_neg (UInt8.not_lt.mpr (UInt8.le_trans (by decide) high)),
      if_neg (no _ (by decide)), if_neg (no _ (by decide)), if_neg (no _ (by decide)),
      bytes_ofCode]
    rfl

/-- The bytes of a shortest push stand in front of a token exactly if the token is this push. -/
theorem minimalPush_isPrefix_iff {t : Token} {data rest : Bytes} (wf : t.WellFormed)
    (fits : (t.bytes ++ rest).length < 0x100000000) :
    (minimalPush data).bytes <+: t.bytes ++ rest ↔ t.bytes = (minimalPush data).bytes := by
  constructor
  · rintro ⟨more, h⟩
    have short : data.length < 0x100000000 := by
      rw [← h, minimalPush, bytes, List.length_append, List.length_append] at fits
      omega
    obtain ⟨code, input, hinput⟩ := List.exists_cons_of_ne_nil
      (List.append_ne_nil_of_left_ne_nil (bytes_ne_nil t) rest)
    -- Both tokens are what is read at this place.
    have first := read_of_wellFormed wf hinput.symm
    have second := read_of_wellFormed (Script.minimalPush_wellFormed short)
      (hinput.symm.trans h.symm)
    cases first.symm.trans second
    rfl
  · intro same
    rw [same]
    exact List.prefix_append _ _

end Token

namespace Script

theorem scanDelete_token {t : Token} {data rest : Bytes} (wf : t.WellFormed)
    (fits : (t.bytes ++ rest).length < 0x100000000) :
    scanDelete (Token.minimalPush data).bytes (t.bytes ++ rest) =
      if t.bytes = (Token.minimalPush data).bytes then
        scanDelete (Token.minimalPush data).bytes rest
      else t.bytes ++ scanDelete (Token.minimalPush data).bytes rest := by
  obtain ⟨code, input, hinput⟩ := List.exists_cons_of_ne_nil
    (List.append_ne_nil_of_left_ne_nil t.bytes_ne_nil rest)
  have span := Token.spanLength_eq wf hinput.symm
  have found : (Token.minimalPush data).bytes <+: t.bytes ++ rest ↔
      t.bytes = (Token.minimalPush data).bytes :=
    Token.minimalPush_isPrefix_iff wf fits
  rw [hinput, scanDelete, ← hinput, span, List.take_left, List.drop_left]
  by_cases same : t.bytes = (Token.minimalPush data).bytes
  · rw [if_pos ⟨Token.bytes_ne_nil _, found.mpr same⟩, if_pos same, ← same, List.drop_left]
  · rw [if_neg fun h => same (found.mp h.2), if_neg same]

/-- Leaving tokens out is the same as scanning their bytes. -/
theorem bytes_filter_eq {tokens : List Token} (data : Bytes) (wf : ∀ t ∈ tokens, t.WellFormed)
    (fits : (tokens.flatMap Token.bytes).length < 0x100000000) :
    (tokens.filter fun t => t.bytes != (Token.minimalPush data).bytes).flatMap Token.bytes =
      scanDelete (Token.minimalPush data).bytes (tokens.flatMap Token.bytes) := by
  induction tokens with
  | nil =>
    rw [List.filter_nil, List.flatMap_nil, scanDelete]
  | cons t tokens ih =>
    obtain ⟨wft, wfs⟩ := List.forall_mem_cons.mp wf
    rw [List.flatMap_cons] at fits
    rw [List.flatMap_cons, scanDelete_token wft fits]
    rw [List.length_append] at fits
    have later := ih wfs (by omega)
    by_cases same : t.bytes = (Token.minimalPush data).bytes
    · rw [if_pos same, List.filter_cons_of_neg (by simp [same]), later]
    · rw [if_neg same, List.filter_cons_of_pos (by simp [same]), List.flatMap_cons, later]

theorem Valid.bytes_deletePush {s : Script} (valid : s.Valid) (data : Bytes) :
    (s.deletePush data).bytes = scanDelete (Token.minimalPush data).bytes s.bytes :=
  bytes_filter_eq data valid.wellFormed (Nat.lt_of_le_of_lt valid.size_le (by decide))

/-- Deleting one push after the other is scanning as many times. -/
theorem Valid.bytes_foldl_deletePush {s : Script} (valid : s.Valid) (payloads : List Bytes) :
    (payloads.foldl Script.deletePush s).bytes =
      payloads.foldl (fun input data => scanDelete (Token.minimalPush data).bytes input)
        s.bytes := by
  induction payloads generalizing s with
  | nil => rfl
  | cons data payloads ih =>
    rw [List.foldl_cons, List.foldl_cons, ih (valid.deletePush data), valid.bytes_deletePush]

/-! ## What is left -/

/-- The place of an instruction is behind the bytes of those in front of it. -/
theorem exists_of_mem_offsets {s : Script} {place : Nat} (h : place ∈ s.offsets) :
    ∃ done t rest, s.tokens = done ++ t :: rest ∧ place = (done.flatMap Token.bytes).length := by
  rw [offsets, GrammarLemmas.offsetsFrom_eq, List.mem_map] at h
  obtain ⟨i, hi, rfl⟩ := h
  have inside : i < s.tokens.length := List.mem_range.mp hi
  refine ⟨s.tokens.take i, s.tokens[i], s.tokens.drop (i + 1), ?_, Nat.zero_add _⟩
  rw [← List.drop_eq_getElem_cons inside, List.take_append_drop]

/-- No instruction of what is left starts with the bytes of the push. -/
theorem Valid.not_isPrefix_of_mem_offsets {s : Script} (valid : s.Valid) {data : Bytes}
    {place : Nat} (h : place ∈ (s.deletePush data).offsets) :
    ¬ (Token.minimalPush data).bytes <+: (s.deletePush data).bytes.drop place := by
  obtain ⟨done, t, rest, hsplit, rfl⟩ := exists_of_mem_offsets h
  have left := valid.deletePush data
  have mem : t ∈ (s.deletePush data).tokens := by
    rw [hsplit]
    exact List.mem_append_right _ List.mem_cons_self
  have hbytes : (s.deletePush data).bytes.drop (done.flatMap Token.bytes).length =
      t.bytes ++ rest.flatMap Token.bytes := by
    rw [bytes, hsplit, List.flatMap_append, List.drop_left, List.flatMap_cons]
  have fits : (t.bytes ++ rest.flatMap Token.bytes).length < 0x100000000 := by
    rw [← hbytes, List.length_drop]
    exact Nat.lt_of_le_of_lt (Nat.sub_le _ _) (Nat.lt_of_le_of_lt left.size_le (by decide))
  rw [hbytes, Token.minimalPush_isPrefix_iff (left.wellFormed t mem) fits]
  have kept : (t.bytes != (Token.minimalPush data).bytes) = true := (List.mem_filter.mp mem).2
  exact bne_iff_ne.mp kept

end Script

/-! ## Questions of multisignature checks -/

namespace Exec

/-- The questions that are asked between two records are about signatures of a row, and their
digests are those of the code. -/
def AsksFor (env : Env) (code : Script) (signatures : List Bytes) (before after : List Call) :
    Prop :=
  ∃ asked, after = asked ++ before ∧ ∀ call ∈ asked, ∃ signature ∈ signatures, ∃ spend hashType,
    env.spend = some spend ∧ signature.getLast? = some hashType ∧
      call.signature = signature.dropLast ∧
      call.digest = SigHash.digest spend.transaction spend.index code hashType.toUInt32

section Questions

variable {env : Env} {code : Script} {signatures : List Bytes}

theorem AsksFor.refl (calls : List Call) : AsksFor env code signatures calls calls :=
  ⟨[], rfl, nofun⟩

theorem AsksFor.trans {a b c : List Call} (h : AsksFor env code signatures a b)
    (h' : AsksFor env code signatures b c) : AsksFor env code signatures a c := by
  obtain ⟨asked, rfl, first⟩ := h
  obtain ⟨asked', rfl, second⟩ := h'
  refine ⟨asked' ++ asked, (List.append_assoc _ _ _).symm, fun call mem => ?_⟩
  exact (List.mem_append.mp mem).elim (second call) (first call)

/-- A step that asks nothing, behind some questions. -/
theorem AsksFor.bind {α β : Type} {x : Exec α} {f : α → Exec β} {s : State} {calls : List Call}
    (h : Always (fun t => AsksFor env code signatures calls t.calls) (x s))
    (quiet : ∀ a, Preserves State.calls (f a)) :
    Always (fun t => AsksFor env code signatures calls t.calls) ((x >>= f) s) :=
  Ends.bind h fun a t ht => (quiet a t).mono fun u hu => by
    rw [hu]
    exact ht

theorem checkSignature_asksFor {signature : Bytes} (mem : signature ∈ signatures) (key : Bytes)
    (s : State) : Always (fun t => AsksFor env code signatures s.calls t.calls)
      (checkSignature env signature key code s) := by
  refine Always.mono (checkSignature_asks env signature key code s) ?_
  rintro t (same | ⟨spend, hashType, hspend, hlast, recorded⟩)
  · rw [same]
    exact .refl _
  · rw [recorded]
    refine ⟨[_], rfl, List.forall_mem_singleton.mpr ?_⟩
    exact ⟨signature, mem, spend, hashType, hspend, hlast, rfl, rfl⟩

/-- Along the loop, whichever way it goes. -/
theorem matchKeys_asksFor {row : List Bytes} (keys : List Bytes)
    (sub : ∀ signature ∈ row, signature ∈ signatures) (s : State) :
    Always (fun t => AsksFor env code signatures s.calls t.calls)
      (matchKeys (fun signature key => checkSignature env signature key code) row keys s) := by
  fun_induction matchKeys (fun signature key => checkSignature env signature key code) row keys
    generalizing s with
  | case1 => exact .refl _
  | case2 => exact .refl _
  | case3 => exact .refl _
  | case4 signature row key keys _ found passed =>
    refine Ends.bind (checkSignature_asksFor (sub signature List.mem_cons_self) key s) ?_
    rintro answer t asked
    cases answer with
    | true =>
      exact Always.mono (found (fun other mem => sub other (List.mem_cons_of_mem _ mem)) t)
        fun u later => asked.trans later
    | false => exact Always.mono (passed sub t) fun u later => asked.trans later

end Questions

theorem operandCount_ends {i n : Nat} {s : State} {item : Bytes} (h : s.stack[i]? = some item)
    (hitem : Number.decode maxNumberSize item = .ok n) (most : Nat) (cause : Int → Malformation) :
    Ends (fun m t => m = n ∧ t = s) (fun _ t => t = s)
      (Guarded.operandCount (i + 1) most cause s) := by
  rw [operandCount_of_decode h hitem]
  split
  · exact ⟨rfl, rfl⟩
  · rfl

section Operands

variable {env : Env} {keyNumber signatureNumber dummy : Bytes} {keys signatures rest : List Bytes}
  {s : State}

theorem matchOperands_asksFor
    (hs : s.stack = operands keyNumber keys signatureNumber signatures dummy ++ rest)
    (hsignatures : Number.decode maxNumberSize signatureNumber = .ok signatures.length) :
    Always (fun t => AsksFor env (codeWithout s.scriptCode signatures) signatures s.calls t.calls)
      (matchOperands env keys.length s) := by
  have second : s.stack[keys.length + 1]? = some signatureNumber := by
    rw [hs, getElem?_signatureNumber]
  have signatureItems : (s.stack.drop (keys.length + 2)).take signatures.length = signatures := by
    rw [hs, take_signatures]
  have start : AsksFor env (codeWithout s.scriptCode signatures) signatures s.calls s.calls :=
    .refl _
  refine Ends.bind (Q := fun m t => m = signatures.length ∧ t = s)
    ((operandCount_ends second hsignatures _ _).mono (fun _ _ h => h) fun _ _ h => h ▸ start) ?_
  rintro _ t ⟨rfl, rfl⟩
  refine Ends.bind (Q := fun _ u => u = t) ?_ ?_
  · unfold need
    split
    · exact start
    · rfl
  · rintro _ u rfl
    refine Ends.bind (Q := fun st v => st = u ∧ v = u) ⟨rfl, rfl⟩ ?_
    rintro _ v ⟨rfl, rfl⟩
    rw [signatureItems]
    have b := blind_calls
    refine AsksFor.bind (matchKeys_asksFor _ (fun _ mem => mem) v) fun success => ?_
    exact (Preserves.itemAt _).bind fun _ => (Preserves.modify fun w => b.stack w _).bind fun _ =>
      ((Preserves.throw _).bind fun _ => .pure _).ite (.pure _)

theorem checkMultisig_asksFor
    (hs : s.stack = operands keyNumber keys signatureNumber signatures dummy ++ rest)
    (hkeys : Number.decode maxNumberSize keyNumber = .ok keys.length)
    (hsignatures : Number.decode maxNumberSize signatureNumber = .ok signatures.length) :
    Always (fun t => AsksFor env (codeWithout s.scriptCode signatures) signatures s.calls t.calls)
      (checkMultisig env s) := by
  have first : s.stack[0]? = some keyNumber := by
    rw [hs]
    rfl
  have start : AsksFor env (codeWithout s.scriptCode signatures) signatures s.calls s.calls :=
    .refl _
  rw [checkMultisig_counts]
  refine Ends.bind (Q := fun m t => m = keys.length ∧ t = s)
    ((operandCount_ends first hkeys _ _).mono (fun _ _ h => h) fun _ _ h => h ▸ start) ?_
  rintro _ t ⟨rfl, rfl⟩
  refine Ends.bind (Q := fun _ u => u = { t with operations := t.operations + keys.length }) ?_ ?_
  · unfold countOperations
    dsimp only
    split
    · exact start
    · rfl
  · rintro _ _ rfl
    exact matchOperands_asksFor (s := { t with operations := t.operations + keys.length }) hs
      hsignatures

end Operands

/-- What multisignature checks ask about. On a stack with their operands, given here from the
bottom, both opcodes ask about the code without the pushes of the signatures and about no other, in
whichever order the signatures are. -/
theorem multisig_asksFor (env : Env) {op : SignatureOp} {s : State}
    {below order signatures keys : List Bytes} {dummy signatureNumber keyNumber : Bytes}
    (multi : op = .checkMultisig ∨ op = .checkMultisigVerify)
    (hs : s.stack.reverse =
      below ++ [dummy] ++ order ++ [signatureNumber] ++ keys ++ [keyNumber])
    (hkeys : Number.decode maxNumberSize keyNumber = .ok keys.length)
    (hsignatures : Number.decode maxNumberSize signatureNumber = .ok order.length)
    (same : signatures.Perm order) :
    Always (fun t => AsksFor env (signatures.foldl Script.deletePush s.scriptCode) signatures
      s.calls t.calls) (Opcode.execute env (.signature op) s) := by
  have stack : s.stack = operands keyNumber keys.reverse signatureNumber order.reverse dummy ++
      below.reverse := by
    rw [← s.stack.reverse_reverse, hs]
    simp [operands]
  have reordered : order.reverse.Perm signatures := order.reverse_perm.trans same.symm
  have code : codeWithout s.scriptCode order.reverse =
      signatures.foldl Script.deletePush s.scriptCode :=
    codeWithout_perm s.scriptCode reordered
  rw [← keys.length_reverse] at hkeys
  rw [← order.length_reverse] at hsignatures
  have checked : Always (fun t => AsksFor env (signatures.foldl Script.deletePush s.scriptCode)
      signatures s.calls t.calls) (checkMultisig env s) := by
    refine Always.mono (checkMultisig_asksFor stack hkeys hsignatures) fun t asked => ?_
    obtain ⟨calls, hcalls, about⟩ := asked
    refine ⟨calls, hcalls, fun call mem => ?_⟩
    obtain ⟨signature, hmem, asks⟩ := about call mem
    exact ⟨signature, reordered.mem_iff.mp hmem, code ▸ asks⟩
  rcases multi with rfl | rfl
  · exact AsksFor.bind checked fun outcome => blind_calls.settle _ _ outcome
  · exact AsksFor.bind checked fun outcome => blind_calls.settle _ _ outcome

end Exec

namespace Script

/-- Deleting the pushes of a payload from a built script is the scan of its bytes for the shortest
push. What is left has no more of them where an instruction starts, deleting them again changes
nothing, and deletions commute with each other and with the removal of an opcode. So the code that
multisignature checks ask about, whose bytes are scanned for every signature, is the same for every
order of the signatures. -/
theorem deletion_scans {s : Script} (built : s.Built) (data : Bytes) :
    (s.deletePush data).bytes = scanDelete (Token.minimalPush data).bytes s.bytes ∧
    (∀ place ∈ (s.deletePush data).offsets,
      ¬ (Token.minimalPush data).bytes <+: (s.deletePush data).bytes.drop place) ∧
    (s.deletePush data).deletePush data = s.deletePush data ∧
    (∀ other, (s.deletePush data).deletePush other = (s.deletePush other).deletePush data) ∧
    (∀ o, (s.deletePush data).withoutOpcode o = (s.withoutOpcode o).deletePush data) ∧
    ∀ signatures : List Bytes,
      (signatures.foldl deletePush s).bytes = signatures.foldl
        (fun input signature => scanDelete (Token.minimalPush signature).bytes input) s.bytes ∧
      ∀ (order keys below : List Bytes) (dummy signatureNumber keyNumber : Bytes) (env : Env)
        (st : State) (op : SignatureOp), signatures.Perm order → st.scriptCode = s →
        st.stack.reverse =
          below ++ [dummy] ++ order ++ [signatureNumber] ++ keys ++ [keyNumber] →
        Number.decode 4 keyNumber = .ok keys.length →
        Number.decode 4 signatureNumber = .ok order.length →
        op = .checkMultisig ∨ op = .checkMultisigVerify →
        Exec.AsksFor env (signatures.foldl deletePush s) signatures st.calls
          (Exec.endState (Opcode.execute env (.signature op) st)).calls := by
  refine ⟨built.valid.bytes_deletePush data,
    fun place mem => built.valid.not_isPrefix_of_mem_offsets mem, s.deletePush_self data,
    fun other => s.deletePush_comm data other, s.deletePush_withoutOpcode data,
    fun signatures => ⟨built.valid.bytes_foldl_deletePush signatures, ?_⟩⟩
  rintro order keys below dummy signatureNumber keyNumber env st op same rfl hs hkeys hsignatures
    multi
  exact Exec.endState_of_always (Exec.multisig_asksFor env multi hs hkeys hsignatures same)

/-- A longer push of the payload stays, and so does one whose own payload holds the bytes that are
deleted elsewhere. -/
theorem deletion_scans_kept :
    let s : Script := ⟨[.push .direct [7], .push .direct [7], .push .field1 [7],
      .push .direct [1, 7], .op .equal, .push .direct [7]]⟩
    s.Built ∧ scanDelete [1, 7] s.bytes = [0x4c, 1, 7, 2, 1, 7, 0x87] := by
  intro s
  have valid : s.Valid := ⟨by decide, by decide⟩
  have built : s.Built := .parse valid.parse_bytes
  exact ⟨built, (deletion_scans built [7]).1.symm.trans (by decide)⟩

end Script

end CoinScript
