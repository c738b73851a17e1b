import CoinScript.Proofs.Runs
/-!
# Flat branches are structured branches

Branches are opened, turned and closed by single instructions, and every instruction between
them is looked at, taken or not. All the same a block has the effect of the side that is
taken and of nothing else.

* `steps_skipped`: a row of instructions in a skipped branch only counts operations;
* `steps_tracks`: a row inside a taken branch does what it does outside;
* `blocks_execute_one_side`: both together, for whole blocks.
-/

namespace CoinScript

open Instruction

/-- The states agree in what later scripts and signatures can see. -/
def State.SameEffect (s t : State) : Prop :=
  t.stack = s.stack ∧ t.alt = s.alt ∧ t.scriptCode = s.scriptCode

namespace Exec

variable {env : Env}

theorem steps_append (index : Nat) (row row' : List Instruction) :
    steps env index (row ++ row') =
      steps env index row >>= fun _ => steps env (index + row.length) row' := by
  induction row generalizing index with
  | nil => rfl
  | cons i row ih =>
    rw [List.cons_append, steps, steps, bind_assoc]
    refine bind_congr fun _ => ?_
    rw [ih, List.length_cons, Nat.add_right_comm, Nat.add_assoc]

/-! ## Instructions that only count and turn -/

/-- An instruction that succeeds and leaves the stacks within their limit is done, whether it is
logged or not. -/
theorem step_of_apply {index : Nat} {i : Instruction} {s u : State}
    (applied : apply env s.executing i { s with position := index } = .ok () u)
    (height : u.height ≤ maxStackSize) : ∃ t, step env index i s = .ok () t ∧ u.SameWork t := by
  obtain ⟨log, logged⟩ := log_eq env s.executing index i u
  refine ⟨{ u with log := log }, ?_, u.calls, log, rfl⟩
  rw [step_eq]
  exact (bind_of_ok applied).trans
    ((bind_of_ok logged).trans (checkStackSize_ok_iff.mpr ⟨height, rfl⟩))

/-- An instruction that counts itself does so also where there is no room for it. -/
theorem count_cases (i : Instruction) (s : State) :
    count i s = .ok () (afterCount i s) ∧ (i.counted = true → s.operations < maxOperations) ∨
      (∃ e, count i s = .error e (afterCount i s)) ∧ i.counted = true ∧
        maxOperations ≤ s.operations := by
  unfold count afterCount
  cases i.counted with
  | false => exact .inl ⟨rfl, nofun⟩
  | true =>
    rw [if_pos rfl]
    unfold countOperations
    dsimp only
    split
    · next many => exact .inr ⟨⟨_, rfl⟩, rfl, Nat.le_of_lt_succ many⟩
    · next few => exact .inl ⟨rfl, fun _ => Nat.lt_of_succ_le (Nat.le_of_not_lt few)⟩

/-- An instruction that counts itself and then does `x`, which cannot fail. -/
theorem step_of_count {index : Nat} {i : Instruction} {x : Exec Unit} {s u : State}
    (happly : apply env s.executing i { s with position := index } =
      (count i >>= fun _ => x) { s with position := index })
    (hx : x (afterCount i { s with position := index }) = .ok () u)
    (height : u.height ≤ maxStackSize) :
    Ends (fun _ t => u.SameWork t)
      (fun _ t => maxOperations < t.operations ∧ t.operations = s.operations + i.counted.toNat)
      (step env index i s) := by
  rcases count_cases i { s with position := index } with ⟨counted, _⟩ | ⟨⟨e, full⟩, counts, many⟩
  · rw [bind_of_ok counted, hx] at happly
    obtain ⟨t, ht, work⟩ := step_of_apply happly height
    rw [ht]
    exact work
  · rw [bind_of_error full] at happly
    have failed : step env index i s =
        .error e (afterCount i { s with position := index }) := by
      rw [step_eq]
      show (apply env s.executing i >>= _) { s with position := index } = _
      exact bind_of_error happly
    rw [failed]
    refine ⟨?_, rfl⟩
    rw [afterCount, counts]
    exact Nat.lt_succ_of_le many

/-! ## Skipped branches -/

/-- A row of which `counted` instructions count has been skipped between `s` and `t`. -/
structure Skipped (s : State) (counted : Nat) (t : State) : Prop where
  stack : t.stack = s.stack
  alt : t.alt = s.alt
  script : t.script = s.script
  codeStart : t.codeStart = s.codeStart
  operations : t.operations = s.operations + counted

theorem Skipped.trans {s t u : State} {m n : Nat} (h : Skipped s m t) (h' : Skipped t n u) :
    Skipped s (m + n) u where
  stack := h'.stack.trans h.stack
  alt := h'.alt.trans h.alt
  script := h'.script.trans h.script
  codeStart := h'.codeStart.trans h.codeStart
  operations := by rw [h'.operations, h.operations, Nat.add_assoc]

theorem Skipped.height {s t : State} {n : Nat} (h : Skipped s n t) : t.height = s.height := by
  rw [State.height, h.stack, h.alt, State.height]

theorem executing_of_append {s : State} {inner outer : List Bool}
    (hs : s.conditions = inner ++ outer) (skip : outer.all id = false) : s.executing = false := by
  rw [State.executing, hs, List.all_append, skip, Bool.and_false]

/-- What a lawful instruction does in a skipped branch: it counts, and keeps track of the branches
inside. -/
theorem apply_skipped (env : Env) {s : State} {i : Instruction} {inner outer : List Bool}
    {depth : Nat} (hs : s.conditions = inner ++ outer) (skip : outer.all id = false)
    (lawful : i.Lawful) (hnest : nest inner.length i = some depth) :
    ∃ (x : Exec Unit) (inner' : List Bool), inner'.length = depth ∧
      apply env false i s = (count i >>= fun _ => x) s ∧
      x (afterCount i s) = .ok () { afterCount i s with conditions := inner' ++ outer } := by
  have unchanged : (pure () : Exec Unit) (afterCount i s) =
      .ok () { afterCount i s with conditions := inner ++ outer } := by
    rw [← hs]
    rfl
  rcases plain_or_branch i with hi | ⟨wanted, rfl⟩ | rfl | rfl
  · -- Nothing but the count is left of other instructions.
    rw [nest_plain hi] at hnest
    cases hnest
    refine ⟨pure (), inner, rfl, ?_, unchanged⟩
    cases i with
    | push data =>
      unfold apply
      dsimp only
      rw [if_neg (Nat.not_lt.mpr lawful)]
      rfl
    | op op =>
      rw [apply_op, isConditional_of_plain hi lawful, show op.alwaysFails = false from lawful]
      rfl
    | unknown code => rfl
  · rw [nest_opening] at hnest
    cases hnest
    refine ⟨branchTaken wanted >>= openBranch, false :: inner, rfl, ?_, ?_⟩
    · rw [apply_opening, count, if_pos (counted_opening wanted)]
    · have skipped : (afterCount (opening wanted) s).executing = false :=
        executing_of_append hs skip
      have taken : branchTaken wanted (afterCount (opening wanted) s) =
          .ok false (afterCount (opening wanted) s) := by
        show (if (afterCount (opening wanted) s).executing then _ else _ : Exec Bool) _ = _
        rw [skipped]
        rfl
      refine bind_ok_iff.mpr ⟨false, _, taken, ?_⟩
      rw [List.cons_append, ← hs]
      rfl
  · cases inner with
    | nil => cases hnest
    | cons taken inner =>
      cases hnest
      refine ⟨flipBranch, (!taken) :: inner, rfl, ?_, ?_⟩
      · rw [apply_orElse]
        rfl
      · unfold flipBranch afterCount
        rw [hs]
        rfl
  · cases inner with
    | nil => cases hnest
    | cons taken inner =>
      cases hnest
      refine ⟨closeBranch, inner, rfl, ?_, ?_⟩
      · rw [apply_endIf]
        rfl
      · unfold closeBranch afterCount
        rw [hs]
        rfl

theorem step_skipped (env : Env) (index : Nat) {s : State} {i : Instruction}
    {inner outer : List Bool} {depth : Nat} (hs : s.conditions = inner ++ outer)
    (skip : outer.all id = false) (lawful : i.Lawful) (hnest : nest inner.length i = some depth)
    (height : s.height ≤ maxStackSize) :
    Ends (fun _ t => Skipped s i.counted.toNat t ∧
        ∃ inner' : List Bool, inner'.length = depth ∧ t.conditions = inner' ++ outer)
      (fun _ t => maxOperations < t.operations ∧ t.operations = s.operations + i.counted.toNat)
      (step env index i s) := by
  obtain ⟨x, inner', hdepth, happly, hx⟩ :=
    apply_skipped env (s := { s with position := index }) hs skip lawful hnest
  rw [← executing_of_append hs skip] at happly
  refine (step_of_count happly hx height).imp ?_
  rintro _ _ ⟨calls, log, rfl⟩
  exact ⟨⟨rfl, rfl, rfl, rfl, rfl⟩, inner', hdepth, rfl⟩

/-- A row of lawful instructions in a skipped branch changes nothing that it does not change
back, unless there are too many operations. -/
theorem steps_skipped (env : Env) (index : Nat) {s : State} {row : List Instruction}
    {inner outer : List Bool} {depth : Nat} (hs : s.conditions = inner ++ outer)
    (skip : outer.all id = false) (lawful : ∀ i ∈ row, i.Lawful)
    (hnest : depthAfter inner.length row = some depth)
    (height : s.height ≤ maxStackSize) :
    Ends (fun _ t => Skipped s (row.countP counted) t ∧
        ∃ inner' : List Bool, inner'.length = depth ∧ t.conditions = inner' ++ outer)
      (fun _ t => maxOperations < t.operations ∧
        t.operations ≤ s.operations + row.countP counted)
      (steps env index row s) := by
  -- The row is taken instruction by instruction, with the branches that it has open so far.
  induction row generalizing index s inner with
  | nil =>
    cases hnest
    exact ⟨⟨rfl, rfl, rfl, rfl, rfl⟩, inner, rfl, hs⟩
  | cons i row ih =>
    rw [depthAfter_cons] at hnest
    obtain ⟨next, hi, hrest⟩ := Option.bind_eq_some_iff.mp hnest
    have hcount : (i :: row).countP counted = i.counted.toNat + row.countP counted := by
      rw [List.countP_cons]
      cases i.counted <;> simp [Nat.add_comm]
    have first := step_skipped env index hs skip (lawful i (by simp)) hi height
    refine Ends.bind (first.mono (fun _ _ h => h) ?_) ?_
    · rintro e t ⟨many, hops⟩
      rw [hcount]
      exact ⟨many, by omega⟩
    · rintro _ t ⟨skipped, inner', rfl, ht⟩
      have rest := ih (index + 1) ht (fun j hj => lawful j (by simp [hj])) hrest
        (skipped.height ▸ height)
      rw [hcount]
      refine rest.mono ?_ ?_
      · rintro _ u ⟨skipped', hu⟩
        exact ⟨skipped.trans skipped', hu⟩
      · rintro e u ⟨many, hops⟩
        rw [skipped.operations] at hops
        exact ⟨many, by omega⟩

/-! ## Taken branches -/

/-- Inside a taken branch, with `depth` more branches open, `s` is where `t` is without the branch.
There it has counted more operations. -/
def Around (outer : List Bool) (depth : Nat) (s t : State) : Prop :=
  ∃ inner : List Bool, inner.length = depth ∧ s.conditions = inner ++ true :: outer ∧
    ∃ operations calls log, operations ≤ s.operations ∧
      t = { s with
        conditions := inner ++ outer, operations := operations, calls := calls, log := log }

theorem around_transparent (outer : List Bool) (depth : Nat) :
    Transparent (Around outer depth) where
  stack := by
    rintro s _ ⟨inner, hdepth, hs, operations, calls, log, few, rfl⟩
    rfl
  alt := by
    rintro s _ ⟨inner, hdepth, hs, operations, calls, log, few, rfl⟩
    rfl
  code := by
    rintro s _ ⟨inner, hdepth, hs, operations, calls, log, few, rfl⟩
    rfl
  setStack := by
    rintro stack s _ ⟨inner, hdepth, hs, operations, calls, log, few, rfl⟩
    exact ⟨inner, hdepth, hs, operations, calls, log, few, rfl⟩
  setAlt := by
    rintro alt s _ ⟨inner, hdepth, hs, operations, calls, log, few, rfl⟩
    exact ⟨inner, hdepth, hs, operations, calls, log, few, rfl⟩
  mark := by
    rintro s _ ⟨inner, hdepth, hs, operations, calls, log, few, rfl⟩
    exact ⟨inner, hdepth, hs, operations, calls, log, few, rfl⟩
  setPosition := by
    rintro index s _ ⟨inner, hdepth, hs, operations, calls, log, few, rfl⟩
    exact ⟨inner, hdepth, hs, operations, calls, log, few, rfl⟩
  record := by
    rintro _ calls' _ log' s _ ⟨inner, hdepth, hs, operations, calls, log, few, rfl⟩
    exact ⟨inner, hdepth, hs, operations, calls', log', few, rfl⟩

theorem executing_of_around {outer : List Bool} {depth : Nat} {s t : State}
    (h : Around outer depth s t) : s.executing = t.executing := by
  obtain ⟨inner, hdepth, hs, operations, calls, log, few, rfl⟩ := h
  simp [State.executing, hs]

/-- The failures that are compared: the limit of operations is not what stopped the run. -/
def WithinLimit (_ : Error) (s : State) : Prop :=
  s.operations ≤ maxOperations

theorem around_count (outer : List Bool) (depth count : Nat) :
    Sim WithinLimit (Around outer depth) (countOperations count) (countOperations count) := by
  rintro s _ ⟨inner, hdepth, hs, operations, calls, log, few, rfl⟩
  unfold countOperations
  dsimp only
  by_cases many : s.operations + count > maxOperations
  · rw [if_pos many]
    exact fun within => absurd many (Nat.not_lt.mpr within)
  · rw [if_neg many, if_neg (by omega)]
    exact ⟨_, rfl, inner, hdepth, hs, operations + count, calls, log, by dsimp only; omega, rfl⟩

/-- From states related by `R`, `y` does what `x` does and leads to states related by `R'`. -/
def Tracks {α : Type} (R R' : State → State → Prop) (x y : Exec α) : Prop :=
  ∀ ⦃s t : State⦄, R s t →
    Ends (fun a s' => ∃ t', y t = .ok a t' ∧ R' s' t')
      (fun e s' => s'.operations ≤ maxOperations → ∃ t', y t = .error e t' ∧ s'.SameEffect t')
      (x s)

section Tracks

variable {α β : Type} {R R' R'' : State → State → Prop} {x y : Exec α}

theorem Sim.tracks (p : Transparent R) (h : Sim WithinLimit R x y) : Tracks R R x y := by
  intro s t hR
  have hxy := h hR
  cases hx : x s with
  | ok a s' =>
    rw [hx] at hxy
    exact hxy
  | error e s' =>
    rw [hx] at hxy
    intro within
    obtain ⟨t', ht, hR'⟩ := hxy within
    exact ⟨t', ht, p.stack hR', p.alt hR', p.code hR'⟩

theorem Tracks.mono (h : Tracks R R' x y) (himp : ∀ ⦃s t⦄, R' s t → R'' s t) :
    Tracks R R'' x y := by
  intro s t hR
  refine (h hR).imp ?_
  rintro a s' ⟨t', ht, hR'⟩
  exact ⟨t', ht, himp hR'⟩

theorem Tracks.bind {f g : α → Exec β} (h : Tracks R R' x y)
    (hf : ∀ a, Tracks R' R'' (f a) (g a)) : Tracks R R'' (x >>= f) (y >>= g) := by
  intro s t hR
  have bound {a : α} {t' : State} (ht : y t = .ok a t') : (y >>= g) t = g a t' := by
    show EStateM.bind y g t = g a t'
    unfold EStateM.bind
    rw [ht]
  have failed {e : Error} {t' : State} (ht : y t = .error e t') : (y >>= g) t = .error e t' := by
    show EStateM.bind y g t = .error e t'
    unfold EStateM.bind
    rw [ht]
  refine ((h hR).mono (fun _ _ h => h) ?_).bind ?_
  · intro e s' herror within
    obtain ⟨t', ht, same⟩ := herror within
    exact ⟨t', failed ht, same⟩
  · rintro a s' ⟨t', ht, hR'⟩
    rw [bound ht]
    exact hf a hR'

theorem Tracks.get_bind {f g : State → Exec β} (h : ∀ ⦃s t⦄, R s t → Tracks R R' (f s) (g t)) :
    Tracks R R' (get >>= f) (get >>= g) :=
  fun _ _ hR => h hR hR

end Tracks

/-- The relation between two instructions, where the position does not matter. -/
def Loosely (R : State → State → Prop) (s t : State) : Prop :=
  ∃ position, R s { t with position := position }

/-- An instruction that finds the branch it needs inside does the same without the branch around. -/
theorem apply_tracks (env : Env) (outer : List Bool) {depth depth' : Nat} {i : Instruction}
    (hnest : nest depth i = some depth') (executing : Bool) :
    Tracks (Around outer depth) (Around outer depth') (apply env executing i)
      (apply env executing i) := by
  have p := around_transparent outer depth
  have rules : RuleCongruence WithinLimit (Around outer depth) env env :=
    ruleCongruence (Env.Relaxes.refl env) (fun _ _ _ => rfl) p (around_count outer depth)
  have counts := (around_count outer depth 1).tracks p
  rcases plain_or_branch i with hi | ⟨wanted, rfl⟩ | rfl | rfl
  · rw [nest_plain hi] at hnest
    cases hnest
    refine (rules.apply (fun op hop => rules.execute ?_ ?_) executing).tracks p
    · rintro flow rfl
      exact flow_of_plain (hop ▸ hi)
    · exact fun _ s t hR => by rw [p.stack hR]
  · rw [nest_opening] at hnest
    cases hnest
    rw [apply_opening]
    have taken := (rules.branchTaken (fun _ _ => executing_of_around) wanted).tracks p
    refine counts.bind fun _ => taken.bind fun answer => ?_
    rintro s _ ⟨inner, rfl, hs, operations, calls, log, few, rfl⟩
    exact ⟨_, rfl, answer :: inner, rfl, congrArg (answer :: ·) hs, operations, calls, log, few,
      rfl⟩
  · rw [apply_orElse]
    refine counts.bind fun _ => ?_
    rintro s _ ⟨inner, rfl, hs, operations, calls, log, few, rfl⟩
    cases inner with
    | nil => cases hnest
    | cons answer inner =>
      cases hnest
      unfold flipBranch
      rw [hs]
      exact ⟨_, rfl, (!answer) :: inner, rfl, rfl, operations, calls, log, few, rfl⟩
  · rw [apply_endIf]
    refine counts.bind fun _ => ?_
    rintro s _ ⟨inner, rfl, hs, operations, calls, log, few, rfl⟩
    cases inner with
    | nil => cases hnest
    | cons answer inner =>
      cases hnest
      unfold closeBranch
      rw [hs]
      exact ⟨_, rfl, inner, rfl, rfl, operations, calls, log, few, rfl⟩

theorem step_tracks (env : Env) (outer : List Bool) {depth depth' : Nat} {i : Instruction}
    (hnest : nest depth i = some depth') (index : Nat) :
    Tracks (Loosely (Around outer depth)) (Loosely (Around outer depth')) (step env index i)
      (step env index i) := by
  have p := around_transparent outer depth
  have p' := around_transparent outer depth'
  have went : Tracks (Loosely (Around outer depth)) (Around outer depth) (goTo index)
      (goTo index) := by
    rintro s t ⟨position, hR⟩
    have moved := p.setPosition index hR
    exact ⟨_, rfl, moved⟩
  rw [step_eq]
  refine went.bind fun _ => Tracks.get_bind fun s t hR => ?_
  rw [executing_of_around hR]
  refine (apply_tracks env outer hnest _).bind fun _ =>
    ((p'.log_sim env env _ index index i).tracks p').bind fun _ => ?_
  exact (p'.checkStackSize_sim.tracks p').mono fun s t hR => ⟨t.position, hR⟩

/-- A row of instructions that stays inside a taken branch does the same without the branch. -/
theorem steps_tracks (env : Env) (outer : List Bool) {depth depth' : Nat} {row : List Instruction}
    (hnest : depthAfter depth row = some depth') (index : Nat) :
    Tracks (Loosely (Around outer depth)) (Loosely (Around outer depth')) (steps env index row)
      (steps env index row) := by
  induction row generalizing depth index with
  | nil =>
    cases hnest
    exact fun s t hR => ⟨t, rfl, hR⟩
  | cons i row ih =>
    rw [depthAfter_cons] at hnest
    obtain ⟨next, hi, hrest⟩ := Option.bind_eq_some_iff.mp hnest
    exact (step_tracks env outer hi index).bind fun _ => ih hrest (index + 1)

/-! ## Blocks -/

/-- A block with two sides. -/
def block (wanted : Bool) (yes no : List Instruction) : List Instruction :=
  opening wanted :: (yes ++ orElse :: (no ++ [endIf]))

theorem step_opening (env : Env) (index : Nat) (wanted : Bool) {s : State} {item : Bytes}
    {rest : List Bytes} (hexec : s.executing = true) (hs : s.stack = item :: rest)
    (height : rest.length + s.alt.length ≤ maxStackSize) :
    Ends (fun _ t => Skipped { s with stack := rest } 1 t ∧
        t.conditions = (Truth.decode item == wanted) :: s.conditions)
      (fun _ t => maxOperations < t.operations) (step env index (opening wanted) s) := by
  have happly : apply env s.executing (opening wanted) { s with position := index } =
      (count (opening wanted) >>= fun _ => branchTaken wanted >>= openBranch)
        { s with position := index } := by
    rw [apply_opening, count, if_pos (counted_opening wanted)]
  have hx : (branchTaken wanted >>= openBranch)
      (afterCount (opening wanted) { s with position := index }) =
      .ok () { s with
        position := index
        operations := s.operations + (opening wanted).counted.toNat
        stack := rest
        conditions := (Truth.decode item == wanted) :: s.conditions } := by
    refine bind_ok_iff.mpr ⟨Truth.decode item == wanted, { s with
      position := index
      operations := s.operations + (opening wanted).counted.toNat
      stack := rest }, ?_, rfl⟩
    show (if s.executing then _ else _ : Exec Bool) _ = _
    rw [if_pos hexec]
    refine bind_ok_iff.mpr ⟨(), _, need_ok_iff.mpr ⟨by simp [afterCount, hs], rfl⟩,
      bind_ok_iff.mpr ⟨item, _, pop_ok_iff.mpr ⟨rest, hs, rfl⟩, rfl⟩⟩
  refine (step_of_count happly hx height).mono ?_ fun _ _ h => h.1
  rintro _ _ ⟨calls, log, rfl⟩
  rw [counted_opening]
  exact ⟨⟨rfl, rfl, rfl, rfl, rfl⟩, rfl⟩

theorem step_turn {index : Nat} {i : Instruction} {x : Exec Unit} {s : State}
    {conditions : List Bool} (happly : ∀ executing, apply env executing i = count i >>= fun _ => x)
    (hcounted : i.counted = true)
    (hx : ∀ t : State, t.conditions = s.conditions →
      x t = .ok () { t with conditions := conditions })
    (height : s.height ≤ maxStackSize) :
    Ends (fun _ t => Skipped s 1 t ∧ t.conditions = conditions)
      (fun _ t => maxOperations < t.operations) (step env index i s) := by
  refine (step_of_count (by rw [happly]) (hx _ rfl) height).mono ?_ fun _ _ h => h.1
  rintro _ _ ⟨calls, log, rfl⟩
  refine ⟨⟨rfl, rfl, rfl, rfl, ?_⟩, rfl⟩
  rw [show (1 : Nat) = i.counted.toNat by rw [hcounted]; rfl]
  rfl

theorem step_orElse (env : Env) (index : Nat) {s : State} {taken : Bool} {outer : List Bool}
    (hs : s.conditions = taken :: outer) (height : s.height ≤ maxStackSize) :
    Ends (fun _ t => Skipped s 1 t ∧ t.conditions = (!taken) :: outer)
      (fun _ t => maxOperations < t.operations) (step env index orElse s) := by
  refine step_turn (fun _ => apply_orElse _) (by decide) (fun t ht => ?_) height
  unfold flipBranch
  rw [ht, hs]

theorem step_endIf (env : Env) (index : Nat) {s : State} {taken : Bool} {outer : List Bool}
    (hs : s.conditions = taken :: outer) (height : s.height ≤ maxStackSize) :
    Ends (fun _ t => Skipped s 1 t ∧ t.conditions = outer)
      (fun _ t => maxOperations < t.operations) (step env index endIf s) := by
  refine step_turn (fun _ => apply_endIf _) (by decide) (fun t ht => ?_) height
  unfold closeBranch
  rw [ht, hs]

/-- The side of a block that is not taken. -/
theorem steps_untaken (env : Env) (index : Nat) {s : State} {row : List Instruction}
    {outer : List Bool} (hs : s.conditions = false :: outer) (balanced : Balanced row)
    (lawful : ∀ i ∈ row, i.Lawful) (height : s.height ≤ maxStackSize) :
    Ends (fun _ t => Skipped s (row.countP counted) t ∧ t.conditions = false :: outer)
      (fun _ t => maxOperations < t.operations) (steps env index row s) := by
  have outside : s.conditions = [] ++ false :: outer := hs
  have skipped := steps_skipped env index outside rfl lawful
    (balanced_iff_depthAfter.mp balanced) height
  refine skipped.mono ?_ fun _ _ h => h.1
  rintro _ t ⟨same, inner, hinner, ht⟩
  rw [List.length_eq_zero_iff] at hinner
  exact ⟨same, by rw [ht, hinner]; rfl⟩

theorem loosely_of_skipped {outer : List Bool} {count : Nat} {s t : State}
    (h : Skipped t count s) (hs : s.conditions = true :: outer) (ht : t.conditions = outer) :
    Loosely (Around outer 0) s t := by
  refine ⟨s.position, [], rfl, hs, t.operations, t.calls, t.log, ?_, ?_⟩
  · rw [h.operations]
    exact Nat.le_add_right _ _
  · rw [h.stack, h.alt, h.script, h.codeStart, ht]
    rfl

/-- The height behind a row that succeeded. -/
theorem height_of_steps {index : Nat} {row : List Instruction} {s t : State}
    (h : steps env index row s = .ok () t) (hs : s.height ≤ maxStackSize) :
    t.height ≤ maxStackSize := by
  induction row generalizing index s with
  | nil =>
    cases h
    exact hs
  | cons i row ih =>
    obtain ⟨u, hstep, hrest⟩ := steps_cons_ok_iff.mp h
    have ends := step_ends env index i s
    rw [hstep] at ends
    exact ih hrest ends.2

/-- The side of a block that is taken, compared with the same row on its own. -/
theorem steps_taken (env : Env) (index : Nat) {s t : State} {row : List Instruction}
    {outer : List Bool} {count : Nat} (h : Skipped t count s) (hs : s.conditions = true :: outer)
    (ht : t.conditions = outer) (balanced : Balanced row) (height : t.height ≤ maxStackSize) :
    Ends (fun _ s' => ∃ t', steps env index row t = .ok () t' ∧ s'.SameEffect t' ∧
        t'.conditions = outer ∧ s'.conditions = true :: outer ∧ s'.height ≤ maxStackSize)
      (fun e s' => s'.operations ≤ maxOperations →
        ∃ t', steps env index row t = .error e t' ∧ s'.SameEffect t')
      (steps env index row s) := by
  have tracks := steps_tracks env outer (balanced_iff_depthAfter.mp balanced) index
    (loosely_of_skipped h hs ht)
  refine tracks.imp ?_
  rintro _ s' ⟨t', hrun, position, hR⟩
  have p := around_transparent outer 0
  have hstack := p.stack hR
  have halt := p.alt hR
  have hcode := p.code hR
  have same : s'.SameEffect t' := ⟨hstack, halt, hcode⟩
  obtain ⟨inner, hinner, hs', _, _, _, _, ht'⟩ := hR
  rw [List.length_eq_zero_iff.mp hinner] at hs' ht'
  refine ⟨t', hrun, same, congrArg State.conditions ht', hs', ?_⟩
  have := height_of_steps hrun height
  rwa [State.height, same.1, same.2.1] at this

theorem Skipped.sameEffect {s t u : State} {count : Nat} (h : Skipped s count t)
    (same : s.SameEffect u) : t.SameEffect u := by
  refine ⟨same.1.trans h.stack.symm, same.2.1.trans h.alt.symm, ?_⟩
  rw [same.2.2, State.scriptCode, State.scriptCode, h.script, h.codeStart]

/-- A block has succeeded where one of its sides, on its own, has succeeded, too. -/
def Matches (r : EStateM.Result Error State Unit) (s : State) : Prop :=
  ∃ t, r = .ok () t ∧ s.SameEffect t ∧ t.conditions = s.conditions

/-- A block has failed where one of its sides, on its own, has failed with the same error, unless
there were too many operations. -/
def Misses (r : EStateM.Result Error State Unit) (e : Error) (s : State) : Prop :=
  s.operations ≤ maxOperations → ∃ t, r = .error e t ∧ s.SameEffect t

theorem misses_of_limit {r : EStateM.Result Error State Unit} {e : Error} {s : State}
    (many : maxOperations < s.operations) : Misses r e s :=
  fun few => absurd many (Nat.not_lt.mpr few)

section Block

variable (env : Env) (index : Nat) {yes no : List Instruction} {s t : State} {outer : List Bool}
  {n : Nat}

/-- The block behind its first instruction, if the first side is taken. -/
theorem block_yes (hyes : Balanced yes) (hno : Balanced no) (lawful : ∀ i ∈ no, i.Lawful)
    (h : Skipped t n s) (hs : s.conditions = true :: outer) (ht : t.conditions = outer)
    (height : t.height ≤ maxStackSize) :
    Ends (fun _ u => Matches (steps env index yes t) u) (Misses (steps env index yes t))
      (steps env index (yes ++ orElse :: (no ++ [endIf])) s) := by
  have limit {α : Type} {Q : α → State → Prop} {r : EStateM.Result Error State α}
      (h : Ends Q (fun _ t => maxOperations < t.operations) r) :
      Ends Q (Misses (steps env index yes t)) r :=
    h.mono (fun _ _ h => h) fun _ _ => misses_of_limit
  rw [steps_append]
  refine (steps_taken env index h hs ht hyes height).bind ?_
  rintro _ s₁ ⟨t', hrun, same, ht', hs₁, height₁⟩
  refine (limit (step_orElse env _ hs₁ height₁)).bind ?_
  rintro _ s₂ ⟨skip₂, hs₂⟩
  have height₂ := skip₂.height ▸ height₁
  rw [steps_append]
  refine (limit (steps_untaken env _ hs₂ hno lawful height₂)).bind ?_
  rintro _ s₃ ⟨skip₃, hs₃⟩
  refine (limit (step_endIf env _ hs₃ (skip₃.height ▸ height₂))).bind ?_
  rintro _ s₄ ⟨skip₄, hs₄⟩
  exact ⟨t', hrun, ((skip₂.trans skip₃).trans skip₄).sameEffect same, ht'.trans hs₄.symm⟩

/-- The block behind its first instruction, if the second side is taken. -/
theorem block_no (hyes : Balanced yes) (hno : Balanced no) (lawful : ∀ i ∈ yes, i.Lawful)
    (h : Skipped t n s) (hs : s.conditions = false :: outer) (ht : t.conditions = outer)
    (height : t.height ≤ maxStackSize) :
    Ends (fun _ u => Matches (steps env (index + yes.length + 1) no t) u)
      (Misses (steps env (index + yes.length + 1) no t))
      (steps env index (yes ++ orElse :: (no ++ [endIf])) s) := by
  have limit {α : Type} {Q : α → State → Prop} {r : EStateM.Result Error State α}
      (h : Ends Q (fun _ t => maxOperations < t.operations) r) :
      Ends Q (Misses (steps env (index + yes.length + 1) no t)) r :=
    h.mono (fun _ _ h => h) fun _ _ => misses_of_limit
  have height₀ := h.height ▸ height
  rw [steps_append]
  refine (limit (steps_untaken env index hs hyes lawful height₀)).bind ?_
  rintro _ s₁ ⟨skip₁, hs₁⟩
  have height₁ := skip₁.height ▸ height₀
  refine (limit (step_orElse env _ hs₁ height₁)).bind ?_
  rintro _ s₂ ⟨skip₂, hs₂⟩
  rw [steps_append]
  refine (steps_taken env _ ((h.trans skip₁).trans skip₂) hs₂ ht hno height).bind ?_
  rintro _ s₃ ⟨t', hrun, same, ht', hs₃, height₃⟩
  refine (limit (step_endIf env _ hs₃ height₃)).bind ?_
  rintro _ s₄ ⟨skip₄, hs₄⟩
  exact ⟨t', hrun, skip₄.sameEffect same, ht'.trans hs₄.symm⟩

end Block

/-- Two rows have had the same effect: they succeeded or failed in the same way, with the same
stacks and the same code for signatures. -/
inductive SameOutcome : (r r' : EStateM.Result Error State Unit) → Prop
  | ok {s t : State} : s.SameEffect t → t.conditions = s.conditions →
      SameOutcome (.ok () s) (.ok () t)
  | error {e : Error} {s t : State} : s.SameEffect t → SameOutcome (.error e s) (.error e t)

/-- The state in which a row has ended. -/
def endState : EStateM.Result Error State Unit → State
  | .ok _ s => s
  | .error _ s => s

theorem sameOutcome_of_ends {r r' : EStateM.Result Error State Unit}
    (few : (endState r).operations ≤ maxOperations)
    (h : Ends (fun _ u => Matches r' u) (Misses r') r) : SameOutcome r r' := by
  cases r with
  | ok _ s =>
    obtain ⟨t, rfl, same, hconditions⟩ := h
    exact .ok same hconditions
  | error e s =>
    obtain ⟨t, rfl, same⟩ := h few
    exact .error same

/-- A state of a run that skips a branch has an instruction behind it, so it is within the limit of
the stacks. -/
theorem height_of_skipping {script : Script} {start s : State} {done : List Instruction}
    (h : steps env 0 done (start.started script) = .ok () s) (hs : false ∈ s.conditions) :
    s.height ≤ maxStackSize := by
  cases done with
  | nil =>
    cases h
    cases hs
  | cons i done =>
    obtain ⟨t, hstep, hrest⟩ := steps_cons_ok_iff.mp h
    have ends := step_ends env 0 i (start.started script)
    rw [hstep] at ends
    exact height_of_steps hrest ends.2

/-- Flat branches are structured. In a run, a well nested row of lawful instructions in a skipped
branch succeeds and leaves the stacks, the branches and the code for signatures as they are, if
there are not too many operations. And a block has the effect of one of its sides alone, which the
top item selects, from every state whose stacks are within their limit without that item. -/
theorem blocks_execute_one_side (env : Env) :
    (∀ (script : Script) (start s : State) (done row : List Instruction),
      steps env 0 done (start.started script) = .ok () s → false ∈ s.conditions →
      Balanced row → (∀ i ∈ row, i.Lawful) → s.operations + row.countP counted ≤ 201 →
      ∃ t, steps env done.length row s = .ok () t ∧ t.stack = s.stack ∧ t.alt = s.alt ∧
        t.conditions = s.conditions ∧ t.scriptCode = s.scriptCode) ∧
    ∀ (s : State) (item : Bytes) (rest : List Bytes) (wanted : Bool) (yes no : List Instruction)
      (index : Nat),
      s.executing = true → s.stack = item :: rest → rest.length + s.alt.length ≤ 1000 →
      Balanced yes → Balanced no →
      (∀ i ∈ if Truth.decode item = wanted then no else yes, i.Lawful) →
      (endState (steps env index (block wanted yes no) s)).operations ≤ 201 →
      SameOutcome (steps env index (block wanted yes no) s)
        (if Truth.decode item = wanted then steps env (index + 1) yes { s with stack := rest }
          else steps env (index + 1 + yes.length + 1) no { s with stack := rest }) := by
  refine ⟨?_, ?_⟩
  · intro script start s done row hdone hfalse balanced lawful few
    have skip : s.conditions.all id = false := by
      rw [List.all_eq_false]
      exact ⟨false, hfalse, nofun⟩
    have outside : s.conditions = [] ++ s.conditions := rfl
    have skipped := steps_skipped env done.length outside skip lawful
      (balanced_iff_depthAfter.mp balanced) (height_of_skipping hdone hfalse)
    cases hrow : steps env done.length row s with
    | ok _ t =>
      rw [hrow] at skipped
      obtain ⟨same, inner, hinner, ht⟩ := skipped
      rw [List.length_eq_zero_iff.mp hinner] at ht
      refine ⟨t, rfl, same.stack, same.alt, ht, ?_⟩
      rw [State.scriptCode, same.script, same.codeStart, State.scriptCode]
    | error e t =>
      rw [hrow] at skipped
      obtain ⟨many, hops⟩ := skipped
      exact absurd (Nat.le_trans hops few) (Nat.not_le.mpr many)
  · intro s item rest wanted yes no index hexec hs height hyes hno lawful few
    refine sameOutcome_of_ends few ?_
    refine Ends.bind ((step_opening env index wanted hexec hs height).mono (fun _ _ h => h)
      fun _ _ => misses_of_limit) ?_
    rintro _ t ⟨skipped, ht⟩
    by_cases htop : Truth.decode item = wanted
    · rw [if_pos htop] at lawful ⊢
      rw [htop, beq_self_eq_true] at ht
      exact block_yes env (index + 1) hyes hno lawful skipped ht rfl height
    · rw [if_neg htop] at lawful ⊢
      rw [beq_eq_false_iff_ne.mpr htop] at ht
      exact block_no env (index + 1) hyes hno lawful skipped ht rfl height

theorem blocks_execute_one_side_push :
    SameOutcome (steps {} 0 (block true [.push [2]] [.op (.flow .giveUp)]) { stack := [[1]] })
      (steps {} 1 [.push [2]] {}) := by
  have hyes : Balanced [.push [2]] := balanced_iff_depthAfter.mpr rfl
  have hno : Balanced [.op (.flow .giveUp)] := balanced_iff_depthAfter.mpr rfl
  have top : Truth.decode [1] = true := rfl
  have few : (endState (steps {} 0 (block true [.push [2]] [.op (.flow .giveUp)])
      { stack := [[1]] })).operations ≤ 201 := by decide +kernel
  have taken := (blocks_execute_one_side {}).2 { stack := [[1]] } [1] [] true _ _ 0 rfl rfl
    (by decide) hyes hno (by simp [top, Lawful, Opcode.alwaysFails]) few
  rw [if_pos top] at taken
  exact taken

theorem steps_cons_error {index : Nat} {i : Instruction} {row : List Instruction} {s t : State}
    {e : Error} (h : step env index i s = .error e t) :
    steps env index (i :: row) s = .error e t := by
  show EStateM.bind _ _ s = _
  unfold EStateM.bind
  rw [h]

/-- Where the stack is too large even without the item that selects a side, the instruction that
opens the block is refused, also if the side alone is not. -/
theorem block_refused (rest : List Bytes) (tall : rest.length = maxStackSize) :
    let yes : List Instruction := [.op (.stack (.shuffle .drop))]
    steps {} 0 (block true yes []) { stack := [1] :: [1] :: rest } =
        .error (.structural .stackTooLarge)
          { stack := [1] :: rest, conditions := [true], operations := 1 } ∧
      steps {} 1 yes { stack := [1] :: rest } =
        .ok () { stack := rest, operations := 1, position := 1 } := by
  intro yes
  have opened : step {} 0 (opening true) { stack := [1] :: [1] :: rest } =
      checkStackSize { stack := [1] :: rest, conditions := [true], operations := 1 } := rfl
  refine ⟨steps_cons_error (opened.trans (if_pos ?_)), steps_cons_ok_iff.mpr ⟨_, ?_, rfl⟩⟩
  · simp [tall]
  · rw [step_ok_iff rfl rfl]
    exact ⟨rfl, by simp [tall]⟩

theorem block_refused_on_tall_stack :
    let yes : List Instruction := [.op (.stack (.shuffle .drop))]
    let rest : List Bytes := [1] :: List.replicate 1000 [1]
    let s : State := { stack := [1] :: rest }
    s.executing = true ∧ Truth.decode [1] = true ∧ Balanced yes ∧ Balanced [] ∧
      (endState (steps {} 0 (block true yes []) s)).operations ≤ 201 ∧
      ¬ SameOutcome (steps {} 0 (block true yes []) s) (steps {} 1 yes { s with stack := rest }) := by
  intro yes rest s
  obtain ⟨refused, alone⟩ := block_refused (List.replicate 1000 [1]) List.length_replicate
  have refused : steps {} 0 (block true yes []) s = .error _ _ := refused
  have alone : steps {} 1 yes { s with stack := rest } = .ok _ _ := alone
  refine ⟨rfl, rfl, balanced_iff_depthAfter.mpr rfl, .nil, ?_, ?_⟩
  · rw [refused]
    decide
  · rw [refused, alone]
    nofun

end Exec
end CoinScript
