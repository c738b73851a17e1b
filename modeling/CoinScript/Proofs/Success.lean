import CoinScript.Machine
/-!
# What a successful step does

For a step that can fail, these lemmas say when it succeeds, with which answer and in which
state. A run is then taken apart step by step, without opening the definitions again.

* `step_push_ok_iff`, `step_op_ok_iff`: one executed instruction, without a log;
* `run_ok_iff`: a whole script.
-/

namespace CoinScript.Exec

/-! ## Chains and primitive steps -/

theorem bind_ok_iff {α β : Type} {x : Exec α} {f : α → Exec β} {s s' : State} {b : β} :
    (x >>= f) s = .ok b s' ↔ ∃ a s₁, x s = .ok a s₁ ∧ f a s₁ = .ok b s' := by
  show EStateM.bind x f s = .ok b s' ↔ _
  unfold EStateM.bind
  cases x s with
  | ok a s₁ =>
    constructor
    · intro h
      exact ⟨a, s₁, rfl, h⟩
    · rintro ⟨a', s₁', h, hf⟩
      cases h
      exact hf
  | error e s₁ =>
    constructor
    · intro h
      cases h
    · rintro ⟨a, s₁', h, _⟩
      cases h

theorem bind_of_ok {α β : Type} {x : Exec α} {f : α → Exec β} {s s' : State} {a : α}
    (h : x s = .ok a s') : (x >>= f) s = f a s' := by
  show EStateM.bind x f s = _
  rw [EStateM.bind, h]

theorem bind_of_error {α β : Type} {x : Exec α} {f : α → Exec β} {s s' : State} {e : Error}
    (h : x s = .error e s') : (x >>= f) s = .error e s' := by
  show EStateM.bind x f s = _
  rw [EStateM.bind, h]

theorem lift_ok_iff {α : Type} {r : Except Error α} {s s' : State} {a : α} :
    lift r s = .ok a s' ↔ r = .ok a ∧ s' = s := by
  cases r with
  | ok b =>
    constructor
    · intro h
      cases h
      exact ⟨rfl, rfl⟩
    · rintro ⟨h, rfl⟩
      cases h
      rfl
  | error e =>
    constructor
    · intro h
      cases h
    · rintro ⟨h, _⟩
      cases h

/-- A check that leaves the state as it is. -/
theorem check_ok_iff {bad : Prop} [Decidable bad] {e : Error} {s s' : State} :
    (if bad then .error e s else .ok () s : EStateM.Result Error State Unit) = .ok () s' ↔
      ¬ bad ∧ s' = s := by
  split
  · next h =>
    constructor
    · intro hs
      cases hs
    · rintro ⟨hn, _⟩
      exact absurd h hn
  · next h =>
    constructor
    · intro hs
      cases hs
      exact ⟨h, rfl⟩
    · rintro ⟨_, rfl⟩
      rfl

theorem need_ok_iff {count : Nat} {s s' : State} :
    need count s = .ok () s' ↔ count ≤ s.stack.length ∧ s' = s := by
  unfold need
  rw [check_ok_iff, Nat.not_lt]

theorem pop_ok_iff {s s' : State} {item : Bytes} :
    pop s = .ok item s' ↔ ∃ rest, s.stack = item :: rest ∧ s' = { s with stack := rest } := by
  unfold pop
  constructor
  · intro h
    split at h
    · cases h
    · next top rest hs =>
      cases h
      exact ⟨rest, hs, rfl⟩
  · rintro ⟨rest, hs, rfl⟩
    rw [hs]

theorem popNumber_ok_iff {limit : Nat} {s t : State} {v : Int} :
    popNumber limit s = .ok v t ↔ ∃ item rest, s.stack = item :: rest ∧ item.length ≤ limit ∧
      v = Number.value item ∧ t = { s with stack := rest } := by
  have decoded (item : Bytes) :
      Number.decode limit item = .ok v ↔ item.length ≤ limit ∧ v = Number.value item := by
    unfold Number.decode
    split <;> simp <;> omega
  unfold popNumber
  constructor
  · intro h
    obtain ⟨item, _, hpop, hlift⟩ := bind_ok_iff.mp h
    obtain ⟨rest, hs, rfl⟩ := pop_ok_iff.mp hpop
    obtain ⟨hdecode, rfl⟩ := lift_ok_iff.mp hlift
    obtain ⟨short, rfl⟩ := (decoded item).mp hdecode
    exact ⟨item, rest, hs, short, rfl, rfl⟩
  · rintro ⟨item, rest, hs, short, rfl, rfl⟩
    exact bind_ok_iff.mpr ⟨item, _, pop_ok_iff.mpr ⟨rest, hs, rfl⟩,
      lift_ok_iff.mpr ⟨(decoded item).mpr ⟨short, rfl⟩, rfl⟩⟩

theorem itemAt_ok_iff {depth : Nat} {s s' : State} {item : Bytes} :
    itemAt depth s = .ok item s' ↔ s.stack[depth]? = some item ∧ s' = s := by
  unfold itemAt
  constructor
  · intro h
    split at h
    · next hs =>
      cases h
      exact ⟨hs, rfl⟩
    · cases h
  · rintro ⟨hs, rfl⟩
    rw [hs]

theorem countOperations_ok_iff {count : Nat} {s s' : State} :
    countOperations count s = .ok () s' ↔ s.operations + count ≤ maxOperations ∧
      s' = { s with operations := s.operations + count } := by
  unfold countOperations
  rw [check_ok_iff, Nat.not_lt]

theorem checkStackSize_ok_iff {s s' : State} :
    checkStackSize s = .ok () s' ↔
      s.stack.length + s.alt.length ≤ maxStackSize ∧ s' = s := by
  unfold checkStackSize
  rw [check_ok_iff, Nat.not_lt]

theorem checkClosed_ok_iff {s s' : State} :
    checkClosed s = .ok () s' ↔ s.conditions = [] ∧ s' = s := by
  unfold checkClosed
  rw [← ite_not, check_ok_iff, Classical.not_not, List.isEmpty_iff]

/-! ## Executed instructions -/

/-- The log of an executed instruction is written between its rule and the size check. -/
theorem step_eq (env : Env) (index : Nat) (instruction : Instruction) :
    step env index instruction = goTo index >>= fun _ => get >>= fun st =>
      Exec.apply env st.executing instruction >>= fun _ =>
        (if env.verbose && st.executing then traceInstruction index instruction else pure ()) >>=
          fun _ => checkStackSize := by
  unfold step
  dsimp only
  refine bind_congr fun _ => bind_congr fun st => bind_congr fun _ => ?_
  split <;> rfl

/-- An executed instruction without a log: its rule, and the size check behind it. -/
theorem step_ok_iff {env : Env} {index : Nat} {instruction : Instruction} {s s' : State}
    (quiet : env.verbose = false) (executing : s.executing = true) :
    step env index instruction s = .ok () s' ↔
      apply env true instruction { s with position := index } = .ok () s' ∧
        s'.stack.length + s'.alt.length ≤ maxStackSize := by
  have hexec : ({ s with position := index } : State).executing = true := executing
  rw [step_eq]
  constructor
  · intro h
    obtain ⟨_, _, hgo, h₁⟩ := bind_ok_iff.mp h
    cases hgo
    obtain ⟨_, _, hget, h₂⟩ := bind_ok_iff.mp h₁
    cases hget
    obtain ⟨_, s₁, happly, h₃⟩ := bind_ok_iff.mp h₂
    obtain ⟨_, s₂, hlog, hsize⟩ := bind_ok_iff.mp h₃
    rw [quiet] at hlog
    cases hlog
    obtain ⟨hle, rfl⟩ := checkStackSize_ok_iff.mp hsize
    exact ⟨hexec ▸ happly, hle⟩
  · rintro ⟨happly, hle⟩
    refine bind_ok_iff.mpr ⟨(), _, rfl, bind_ok_iff.mpr ⟨_, _, rfl, bind_ok_iff.mpr
      ⟨(), s', ?_, bind_ok_iff.mpr ⟨(), s', ?_, checkStackSize_ok_iff.mpr ⟨hle, rfl⟩⟩⟩⟩⟩
    · exact hexec.symm ▸ happly
    · rw [quiet]
      rfl

theorem step_push_ok_iff {env : Env} {index : Nat} {data : Bytes} {s s' : State}
    (quiet : env.verbose = false) (executing : s.executing = true) :
    step env index (.push data) s = .ok () s' ↔
      data.length ≤ maxItemSize ∧ s.stack.length + 1 + s.alt.length ≤ maxStackSize ∧
        s' = { s with position := index, stack := data :: s.stack } := by
  rw [step_ok_iff quiet executing]
  unfold apply
  dsimp only
  constructor
  · rintro ⟨h, hsize⟩
    split at h
    · cases h
    · next short =>
      cases h
      exact ⟨Nat.le_of_not_lt short, hsize, rfl⟩
  · rintro ⟨short, hsize, rfl⟩
    rw [if_neg (Nat.not_lt.mpr short)]
    exact ⟨rfl, hsize⟩

theorem step_op_ok_iff {env : Env} {index : Nat} {op : Opcode} {s s' : State}
    (quiet : env.verbose = false) (executing : s.executing = true) (counted : op.code > 0x60) :
    step env index (.op op) s = .ok () s' ↔
      s.operations + 1 ≤ maxOperations ∧
        op.execute env { s with position := index, operations := s.operations + 1 } = .ok () s' ∧
        s'.stack.length + s'.alt.length ≤ maxStackSize := by
  rw [step_ok_iff quiet executing]
  unfold apply
  dsimp only
  rw [if_pos counted]
  constructor
  · rintro ⟨h, hsize⟩
    obtain ⟨_, s₁, hcount, hexec⟩ := bind_ok_iff.mp h
    obtain ⟨few, rfl⟩ := countOperations_ok_iff.mp hcount
    exact ⟨few, hexec, hsize⟩
  · rintro ⟨few, hexec, hsize⟩
    exact ⟨bind_ok_iff.mpr ⟨(), _, countOperations_ok_iff.mpr ⟨few, rfl⟩, hexec⟩, hsize⟩

/-! ## Rules -/

theorem hash_ok_iff {op : HashOp} {s s' : State} :
    op.execute s = .ok () s' ↔
      ∃ item rest, s.stack = item :: rest ∧ s' = { s with stack := op.digest item :: rest } := by
  unfold HashOp.execute
  constructor
  · intro h
    obtain ⟨_, _, hneed, h₁⟩ := bind_ok_iff.mp h
    obtain ⟨_, rfl⟩ := need_ok_iff.mp hneed
    obtain ⟨item, _, hpop, h₂⟩ := bind_ok_iff.mp h₁
    obtain ⟨rest, hs, rfl⟩ := pop_ok_iff.mp hpop
    cases h₂
    exact ⟨item, rest, hs, rfl⟩
  · rintro ⟨item, rest, hs, rfl⟩
    exact bind_ok_iff.mpr ⟨(), s, need_ok_iff.mpr ⟨by simp [hs], rfl⟩,
      bind_ok_iff.mpr ⟨item, _, pop_ok_iff.mpr ⟨rest, hs, rfl⟩, rfl⟩⟩

theorem popEqual_ok_iff {s s' : State} {answer : Bool} :
    popEqual s = .ok answer s' ↔
      ∃ b a rest, s.stack = b :: a :: rest ∧ answer = (a == b) ∧ s' = { s with stack := rest } := by
  unfold popEqual
  constructor
  · intro h
    obtain ⟨_, _, hneed, h₁⟩ := bind_ok_iff.mp h
    obtain ⟨_, rfl⟩ := need_ok_iff.mp hneed
    obtain ⟨b, _, hpop, h₂⟩ := bind_ok_iff.mp h₁
    obtain ⟨below, hs, rfl⟩ := pop_ok_iff.mp hpop
    obtain ⟨a, _, hpop', h₃⟩ := bind_ok_iff.mp h₂
    obtain ⟨rest, hs', rfl⟩ := pop_ok_iff.mp hpop'
    cases h₃
    have hbelow : below = a :: rest := hs'
    exact ⟨b, a, rest, hbelow ▸ hs, rfl, rfl⟩
  · rintro ⟨b, a, rest, hs, rfl, rfl⟩
    exact bind_ok_iff.mpr ⟨(), s, need_ok_iff.mpr ⟨by simp [hs], rfl⟩,
      bind_ok_iff.mpr ⟨b, _, pop_ok_iff.mpr ⟨a :: rest, hs, rfl⟩,
        bind_ok_iff.mpr ⟨a, _, pop_ok_iff.mpr ⟨rest, rfl, rfl⟩, rfl⟩⟩⟩

theorem equal_ok_iff {env : Env} {s s' : State} :
    Opcode.equal.execute env s = .ok () s' ↔
      ∃ b a rest, s.stack = b :: a :: rest ∧
        s' = { s with stack := Truth.encode (a == b) :: rest } := by
  constructor
  · intro h
    obtain ⟨_, _, hpop, hpush⟩ := bind_ok_iff.mp h
    obtain ⟨b, a, rest, hs, rfl, rfl⟩ := popEqual_ok_iff.mp hpop
    cases hpush
    exact ⟨b, a, rest, hs, rfl⟩
  · rintro ⟨b, a, rest, hs, rfl⟩
    exact bind_ok_iff.mpr ⟨_, _, popEqual_ok_iff.mpr ⟨b, a, rest, hs, rfl, rfl⟩, rfl⟩

/-! ## Runs -/

theorem steps_cons_ok_iff {env : Env} {index : Nat} {instruction : Instruction}
    {rest : List Instruction} {s s' : State} :
    steps env index (instruction :: rest) s = .ok () s' ↔
      ∃ s₁, step env index instruction s = .ok () s₁ ∧
        steps env (index + 1) rest s₁ = .ok () s' := by
  rw [steps, bind_ok_iff]
  constructor
  · rintro ⟨_, s₁, hstep, hrest⟩
    exact ⟨s₁, hstep, hrest⟩
  · rintro ⟨s₁, hstep, hrest⟩
    exact ⟨(), s₁, hstep, hrest⟩

/-- A run succeeds if the script is short enough, every instruction succeeds and all branches are
closed in the end. -/
theorem run_ok_iff {env : Env} {script : Script} {s s' : State} :
    run env script s = .ok () s' ↔ script.size ≤ maxScriptSize ∧
      (∃ s₀, begin script s = .ok () s₀ ∧ steps env 0 script.instructions s₀ = .ok () s') ∧
      s'.conditions = [] := by
  unfold run
  dsimp only
  constructor
  · intro h
    split at h
    · cases h
    · next short =>
      obtain ⟨_, s₀, hbegin, h₁⟩ := bind_ok_iff.mp h
      obtain ⟨_, s₁, hsteps, hclosed⟩ := bind_ok_iff.mp h₁
      obtain ⟨closed, rfl⟩ := checkClosed_ok_iff.mp hclosed
      exact ⟨Nat.le_of_not_lt short, ⟨s₀, hbegin, hsteps⟩, closed⟩
  · rintro ⟨short, ⟨s₀, hbegin, hsteps⟩, closed⟩
    rw [if_neg (Nat.not_lt.mpr short)]
    exact bind_ok_iff.mpr ⟨(), s₀, hbegin, bind_ok_iff.mpr
      ⟨(), s', hsteps, checkClosed_ok_iff.mpr ⟨closed, rfl⟩⟩⟩

end CoinScript.Exec
