import CoinScript.Proofs.Building
import CoinScript.Proofs.Embedding
import Mathlib.Data.Nat.Log
/-!
# Selecting one of several scripts

Scripts are joined in pairs, level by level, until one is left. At every level the script at an even
place becomes the first side of a block and the one behind it the second side, so the selectors that
lead to a script are the binary digits of its place. A script without a neighbour drops its
selector, whatever it is.

* `Template.joinTimes_eq`: the rounds that are needed;
* `Exec.Selects`: selectors that turn one row of instructions into another one;
* `Template.leads_of_joinPairs`, `Template.leads_of_joinAll`: the selectors of one level and of all;
* `Machine.alternatives_select`: a run of the joined script.
-/

namespace CoinScript

open Instruction

/-! ## Rounds -/

namespace Template

/-- The level that is reached after some rounds. -/
def joinTimes : Nat → List Script → Except Error (List Script)
  | 0, level => .ok level
  | rounds + 1, level => do joinTimes rounds (← joinPairs level)

theorem half_sub_one (count : Nat) : (count + 1) / 2 - 1 = (count - 1) / 2 := by
  omega

/-- The place of the last script is halved in every round, like any other place. -/
theorem length_of_joinTimes {rounds : Nat} {scripts level : List Script}
    (h : joinTimes rounds scripts = .ok level) :
    level.length - 1 = (scripts.length - 1) >>> rounds := by
  induction rounds generalizing scripts with
  | zero =>
    cases h
    rfl
  | succ rounds ih =>
    obtain ⟨joined, hjoined, h⟩ := bind_eq_ok_iff.mp h
    rw [ih h, length_of_joinPairs hjoined, half_sub_one, Nat.shiftRight_succ_inside]

/-- More than one script is left exactly before the last round. -/
theorem lt_length_iff_of_joinTimes {rounds : Nat} {scripts level : List Script}
    (h : joinTimes rounds scripts = .ok level) :
    1 < level.length ↔ rounds < Nat.clog 2 scripts.length := by
  have positive : 0 < 2 ^ rounds := Nat.two_pow_pos rounds
  rw [← Nat.sub_pos_iff_lt, length_of_joinTimes h, Nat.shiftRight_eq_div_pow, Nat.div_pos_iff,
    and_iff_right positive, Nat.lt_clog_iff_pow_lt Nat.one_lt_two]
  omega

theorem clog_length {a b : Script} {rest : List Script} :
    Nat.clog 2 (a :: b :: rest).length =
      Nat.clog 2 (((a :: b :: rest).length + 1) / 2) + 1 :=
  Nat.clog_of_two_le Nat.one_lt_two (Nat.le_add_left 2 rest.length)

/-- Joining level by level comes to an end, with one script or with the error of a round. -/
theorem joinTimes_eq {scripts : List Script} (some : scripts ≠ []) :
    joinTimes (Nat.clog 2 scripts.length) scripts = (joinAll scripts).map fun s => [s] := by
  fun_induction joinAll scripts with
  | case1 => exact absurd rfl some
  | case2 script => rfl
  | case3 a b rest e h =>
    rw [clog_length, joinTimes, h]
    rfl
  | case4 a b rest joined h shorter ih =>
    have length := length_of_joinPairs h
    rw [clog_length, joinTimes, h, ← length]
    refine ih (List.ne_nil_of_length_pos ?_)
    rw [length]
    exact Nat.div_pos (Nat.le_add_left 2 _) Nat.two_pos

end Template

/-! ## Selected rows -/

namespace Exec

/-- Both places have the same stacks, and no more operations have been counted at the second one. -/
structure Alongside (s t : State) : Prop where
  stack : t.stack = s.stack
  alt : t.alt = s.alt
  operations : t.operations ≤ s.operations

theorem Inside.alongside {opened : List Bool} {s t : State} (h : Inside opened s t) :
    Alongside s t where
  stack := h.stack
  alt := h.alt
  operations := h.operations

theorem Alongside.trans {s t u : State} (h : Alongside s t) (h' : Alongside t u) :
    Alongside s u where
  stack := h'.stack.trans h.stack
  alt := h'.alt.trans h.alt
  operations := Nat.le_trans h'.operations h.operations

/-- What is skipped is seen in the first place only. -/
theorem Alongside.skipped {s t u : State} {count : Nat} (h : Alongside s t)
    (skipped : Skipped s count u) : Alongside u t where
  stack := h.stack.trans skipped.stack.symm
  alt := h.alt.trans skipped.alt.symm
  operations := Nat.le_trans h.operations (skipped.operations ▸ Nat.le_add_right _ count)

section Mirrors

variable {R R' : State → State → Prop} {r r' r'' : EStateM.Result Error State Unit}

theorem Mirrors.mono (h : Mirrors R r r') (himp : ∀ s t, R s t → R' s t) : Mirrors R' r r' := by
  refine Ends.mono h ?_ ?_
  · rintro a s ⟨t, ht, hR⟩
    exact ⟨t, ht, himp s t hR⟩
  · intro e s hs few
    obtain ⟨t, ht, hR⟩ := hs few
    exact ⟨t, ht, himp s t hR⟩

theorem Mirrors.trans (h : Mirrors Alongside r r') (h' : Mirrors Alongside r' r'') :
    Mirrors Alongside r r'' := by
  refine Ends.mono h ?_ ?_
  · rintro a s ⟨t, rfl, hst⟩
    obtain ⟨u, hu, htu⟩ := h'
    exact ⟨u, hu, hst.trans htu⟩
  · intro e s hs few
    obtain ⟨t, rfl, hst⟩ := hs few
    obtain ⟨u, hu, htu⟩ := h' (Nat.le_trans hst.operations few)
    exact ⟨u, hu, hst.trans htu⟩

/-- Nothing of the steps in front is seen in the second result. -/
theorem Mirrors.behind {x : Exec Unit} {f : Unit → Exec Unit} {Q : State → Prop} {s : State}
    (hx : Ends (fun _ t => Q t) (fun _ t => maxOperations < t.operations) (x s))
    (hf : ∀ t, Q t → Mirrors R (f () t) r) : Mirrors R ((x >>= f) s) r :=
  Ends.bind (hx.mono (fun _ _ h => h) fun _ _ many few => absurd few (Nat.not_le.mpr many))
    fun _ => hf

/-- Nothing of the steps behind is seen in the second result. -/
theorem Mirrors.ahead {x : Exec Unit} {f : Unit → Exec Unit} {opened : List Bool} {s : State}
    (hx : Mirrors (Inside opened) (x s) r)
    (hf : ∀ t t', x s = .ok () t → r = .ok () t' → Inside opened t t' →
      Ends (fun _ u => ∃ count, Skipped t count u) (fun _ u => maxOperations < u.operations)
        (f () t)) :
    Mirrors Alongside ((x >>= f) s) r := by
  cases h : x s with
  | ok _ t =>
    rw [h] at hx
    obtain ⟨t', ht', inside⟩ := hx
    rw [bind_of_ok h]
    refine (hf t t' h ht' inside).mono ?_ fun _ _ many few => absurd few (Nat.not_le.mpr many)
    rintro _ u ⟨count, skipped⟩
    exact ⟨t', ht', inside.alongside.skipped skipped⟩
  | error e t =>
    rw [h] at hx
    rw [bind_of_error h]
    exact Mirrors.mono (r := .error e t) hx fun _ _ => Inside.alongside

end Mirrors

/-- `s` has selectors on top of the stack of `t`, and a row starts in both places outside of any
branch. -/
structure Atop (selectors : List Bytes) (s t : State) : Prop where
  stack : s.stack = selectors ++ t.stack
  alt : t.alt = s.alt
  closed : s.conditions = []
  closed' : t.conditions = []
  operations : t.operations ≤ s.operations
  height : s.height ≤ maxStackSize

/-- With the selectors on top of the stack, the first row does what the second one does without. -/
def Selects (env : Env) (selectors : List Bytes) (row row' : List Instruction) : Prop :=
  ∀ ⦃s t : State⦄ (index index' : Nat), Atop selectors s t →
    Mirrors Alongside (steps env index row s) (steps env index' row' t)

section Selects

variable {env : Env} {s t : State}

theorem Atop.executing {selectors : List Bytes} (h : Atop selectors s t) : s.executing = true := by
  rw [State.executing, h.closed]
  rfl

theorem Atop.room {selector : Bytes} (h : Atop [selector] s t) :
    t.stack.length + s.alt.length ≤ maxStackSize := by
  have tall := h.height
  rw [State.height, h.stack, List.cons_append, List.nil_append, List.length_cons] at tall
  exact Nat.le_trans (Nat.add_le_add_right (Nat.le_succ _) _) tall

/-- The place behind the selector. -/
theorem Atop.inside {selector : Bytes} {u : State} {opened : List Bool} {count : Nat}
    (h : Atop [selector] s t) (skipped : Skipped { s with stack := t.stack } count u)
    (branches : u.conditions = opened) : Inside opened u t where
  stack := skipped.stack.symm
  alt := h.alt.trans skipped.alt.symm
  conditions := by rw [branches, h.closed', List.nil_append]
  operations := Nat.le_trans h.operations (skipped.operations ▸ Nat.le_add_right _ count)

theorem Selects.trans {front back : List Bytes} {row row' row'' : List Instruction}
    (h : Selects env front row row') (h' : Selects env back row' row'') :
    Selects env (front ++ back) row row'' := by
  intro s t index index'' atop
  -- The row in between has only the selectors of the second part left on its stack.
  let middle : State := { t with stack := back ++ t.stack }
  have first : Atop front s middle :=
    { atop with stack := atop.stack.trans (List.append_assoc ..) }
  have lower : middle.height ≤ s.height := by
    rw [State.height, State.height, first.stack, @List.length_append _ front]
    exact Nat.add_le_add (Nat.le_add_left _ _) (Nat.le_of_eq (congrArg List.length atop.alt))
  have second : Atop back middle t := {
    stack := rfl
    alt := rfl
    closed := atop.closed'
    closed' := atop.closed'
    operations := Nat.le_refl _
    height := Nat.le_trans lower atop.height }
  exact (h index 0 first).trans (h' 0 index'' second)

theorem step_drop (env : Env) (index : Nat) {item : Bytes} {rest : List Bytes}
    (executing : s.executing = true) (hs : s.stack = item :: rest)
    (height : rest.length + s.alt.length ≤ maxStackSize) :
    Ends (fun _ t => Skipped { s with stack := rest } 1 t ∧ t.conditions = s.conditions)
      (fun _ t => maxOperations < t.operations)
      (step env index (.op (.stack (.shuffle .drop))) s) := by
  have applied : apply env s.executing (.op (.stack (.shuffle .drop)))
      { s with position := index } =
        (count (.op (.stack (.shuffle .drop))) >>= fun _ =>
          (Opcode.stack (.shuffle .drop)).execute env) { s with position := index } := by
    rw [apply_op, executing]
    rfl
  have dropped := (acts_shuffle env .drop
    (afterCount (.op (.stack (.shuffle .drop))) { s with position := index }) _).mpr
      ⟨rest, congrArg _ hs, rfl⟩
  refine (step_of_count applied dropped height).mono ?_ fun _ _ h => h.1
  rintro _ _ ⟨calls, log, rfl⟩
  exact ⟨⟨rfl, rfl, rfl, rfl, rfl⟩, rfl⟩

variable (ignores : env.checker.IgnoresDigest)
include ignores

theorem Selects.refl (row : List Instruction) : Selects env [] row row := by
  intro s t index index' atop
  have inside : Inside [] s t := {
    stack := atop.stack.symm
    alt := atop.alt
    conditions := by rw [atop.closed, atop.closed', List.append_nil]
    operations := atop.operations }
  exact (steps_inside ignores rfl inside (.inl rfl) _ _).mono fun _ _ => Inside.alongside

theorem selects_drop (selector : Bytes) (row : List Instruction) :
    Selects env [selector] (.op (.stack (.shuffle .drop)) :: row) row := by
  intro s t index index' atop
  refine Mirrors.behind (step_drop env index atop.executing atop.stack atop.room) ?_
  rintro u ⟨skipped, branches⟩
  have inside := atop.inside skipped (branches.trans atop.closed)
  exact (steps_inside ignores rfl inside (.inl rfl) _ _).mono fun _ _ => Inside.alongside

variable {selector : Bytes} {yes no : List Instruction} (hyes : Balanced yes) (hno : Balanced no)
include hyes hno

omit ignores hno in
theorem conditions_of_balanced {index : Nat} (h : steps env index yes s = .ok () t)
    (closed : s.conditions = []) : t.conditions = [] := by
  have nest := (steps_passed env h).nest
  rw [closed, List.length_nil, balanced_iff_depthAfter.mp hyes] at nest
  exact List.length_eq_zero_iff.mp (Option.some.inj nest).symm

/-- A true selector leads to the first side of a block. -/
theorem selects_yes (chosen : Truth.decode selector = true) (lawful : ∀ i ∈ no, i.Lawful) :
    Selects env [selector] (block true yes no) yes := by
  intro s t index index' atop
  refine Mirrors.behind (step_opening env index true atop.executing atop.stack atop.room) ?_
  rintro u ⟨skipped, branches⟩
  rw [chosen, atop.closed] at branches
  have inside : Inside [true] u t := atop.inside skipped branches
  have height : u.height ≤ maxStackSize := skipped.height ▸ atop.room
  rw [steps_append]
  refine (steps_inside ignores rfl inside (stays_of_balanced hyes atop.closed') _ _).ahead ?_
  intro v t' hv ht' inside'
  have branches' : v.conditions = [true] := by
    rw [inside'.conditions, conditions_of_balanced hyes ht' atop.closed', List.nil_append]
  have height' := height_of_steps hv height
  -- The other side is skipped on the way to the end of the block.
  refine Ends.bind (step_orElse env _ branches' height') ?_
  rintro _ v₁ ⟨skip₁, other⟩
  have height₁ := skip₁.height ▸ height'
  rw [steps_append]
  refine Ends.bind (steps_untaken env _ other hno lawful height₁) ?_
  rintro _ v₂ ⟨skip₂, behind⟩
  refine Ends.bind (step_endIf env _ behind (skip₂.height ▸ height₁)) ?_
  rintro _ v₃ ⟨skip₃, _⟩
  exact ⟨_, (skip₁.trans skip₂).trans skip₃⟩

/-- A false selector leads to the second side of a block. -/
theorem selects_no (chosen : Truth.decode selector = false) (lawful : ∀ i ∈ yes, i.Lawful) :
    Selects env [selector] (block true yes no) no := by
  intro s t index index' atop
  refine Mirrors.behind (step_opening env index true atop.executing atop.stack atop.room) ?_
  rintro u ⟨skipped, branches⟩
  rw [chosen, atop.closed] at branches
  have height : u.height ≤ maxStackSize := skipped.height ▸ atop.room
  rw [steps_append]
  refine Mirrors.behind (steps_untaken env _ branches hyes lawful height) ?_
  rintro u₁ ⟨skip₁, branches₁⟩
  have height₁ := skip₁.height ▸ height
  refine Mirrors.behind (step_orElse env _ branches₁ height₁) ?_
  rintro u₂ ⟨skip₂, branches₂⟩
  have inside : Inside [true] u₂ t := atop.inside ((skipped.trans skip₁).trans skip₂) branches₂
  rw [steps_append]
  refine (steps_inside ignores rfl inside (stays_of_balanced hno atop.closed') _ _).ahead ?_
  intro v t' hv ht' inside'
  have branches' : v.conditions = [true] := by
    rw [inside'.conditions, conditions_of_balanced hno ht' atop.closed', List.nil_append]
  refine Ends.bind (step_endIf env _ branches' (height_of_steps hv (skip₂.height ▸ height₁))) ?_
  rintro _ v₁ ⟨skip, _⟩
  exact ⟨1, skip⟩

end Selects

end Exec

/-! ## Joined scripts -/

/-- The branches of a script are closed and have no part in a branch around it, and nothing in it is
refused where it is not executed. -/
def Script.Enclosable (s : Script) : Prop :=
  Balanced s.instructions ∧ ∀ i ∈ s.instructions, i.Lawful

/-- A script stands in another one, and the selectors lead to it. -/
structure Leads (env : Env) (selectors : List Bytes) (joined script : Script) : Prop where
  contained : script.tokens <:+: joined.tokens
  selects : Exec.Selects env selectors joined.instructions script.instructions

theorem Leads.trans {env : Env} {front back : List Bytes} {joined next script : Script}
    (h : Leads env front joined next) (h' : Leads env back next script) :
    Leads env (front ++ back) joined script where
  contained := h'.contained.trans h.contained
  selects := h.selects.trans h'.selects

namespace Template

section Joined

variable {env : Env} {a b last joined : Script} {selector : Bytes}

theorem tokens_of_unpaired (h : build (unpaired last) = .ok joined) :
    joined.tokens = .op (.stack (.shuffle .drop)) :: last.tokens := by
  rw [tokens_of_build h]
  exact congrArg _ (List.append_nil _)

theorem instructions_of_unpaired (h : build (unpaired last) = .ok joined) :
    joined.instructions = .op (.stack (.shuffle .drop)) :: last.instructions := by
  rw [Script.instructions, tokens_of_unpaired h]
  rfl

theorem tokens_of_pair (h : build (pair a b) = .ok joined) :
    joined.tokens = .op (.flow .ifTrue) :: (a.tokens ++ .op (.flow .orElse) ::
      (b.tokens ++ [.op (.flow .endIf)])) :=
  tokens_of_build h

theorem instructions_of_pair (h : build (pair a b) = .ok joined) :
    joined.instructions = Exec.block true a.instructions b.instructions := by
  rw [Script.instructions, tokens_of_pair h]
  simp [Script.instructions, Exec.block, opening, orElse, endIf, Token.instruction]

theorem enclosable_of_unpaired (enclosable : last.Enclosable)
    (h : build (unpaired last) = .ok joined) : joined.Enclosable := by
  obtain ⟨plain, lawful⟩ := @Exec.skippable_op (.stack (.shuffle .drop)) rfl rfl
  unfold Script.Enclosable
  rw [instructions_of_unpaired h, List.forall_mem_cons]
  exact ⟨.plain plain enclosable.1, lawful, enclosable.2⟩

theorem enclosable_of_pair (ha : a.Enclosable) (hb : b.Enclosable)
    (h : build (pair a b) = .ok joined) : joined.Enclosable := by
  unfold Script.Enclosable
  rw [instructions_of_pair h, Exec.block]
  refine ⟨balanced_iff_depthAfter.mpr ?_, ?_⟩
  · rw [depthAfter_cons, nest_opening, Option.bind_some, depthAfter_append,
      ha.1.depthAfter_eq nofun, Option.bind_some]
    show depthAfter 1 (b.instructions ++ [endIf]) = some 0
    rw [depthAfter_append, hb.1.depthAfter_eq nofun]
    rfl
  · simp only [List.forall_mem_cons, List.forall_mem_append]
    exact ⟨Exec.lawful_opening true, ha.2, rfl, hb.2, rfl, by simp⟩

theorem enclosable_of_joinPairs {level joined : List Script} (h : joinPairs level = .ok joined)
    (enclosable : ∀ s ∈ level, s.Enclosable) : ∀ s ∈ joined, s.Enclosable :=
  forall_of_joinPairs (fun _ _ => enclosable_of_unpaired) (fun _ _ _ => enclosable_of_pair)
    enclosable h

theorem enclosable_of_joinAll {scripts : List Script} {lock : Script}
    (h : joinAll scripts = .ok lock) (enclosable : ∀ s ∈ scripts, s.Enclosable) :
    lock.Enclosable :=
  of_joinAll (fun _ _ => enclosable_of_unpaired) (fun _ _ _ => enclosable_of_pair) enclosable h

/-- A script that is not joined with others stays as it is, also if it is too large. -/
theorem size_of_joinAll {scripts : List Script} {lock : Script} (h : joinAll scripts = .ok lock) :
    scripts = [lock] ∨ lock.size ≤ maxScriptSize := by
  fun_induction joinAll scripts with
  | case1 => cases h
  | case2 alone =>
    cases h
    exact .inl rfl
  | case3 a b rest e hjoined => cases h
  | case4 a b rest joined hjoined shorter ih =>
    refine .inr ((ih h).elim (fun last => ?_) id)
    have short : ∀ s ∈ joined, s.size ≤ maxScriptSize :=
      forall_of_joinPairs (fun _ _ _ => size_of_build) (fun _ _ _ _ _ => size_of_build)
        (fun _ _ => trivial) hjoined
    exact short lock (last ▸ List.mem_singleton_self lock)

variable (ignores : env.checker.IgnoresDigest)
include ignores

theorem leads_of_unpaired (h : build (unpaired last) = .ok joined) (selector : Bytes) :
    Leads env [selector] joined last where
  contained := tokens_of_unpaired h ▸ (List.suffix_cons _ _).isInfix
  selects := instructions_of_unpaired h ▸ Exec.selects_drop ignores selector last.instructions

theorem leads_first (h : build (pair a b) = .ok joined) (ha : a.Enclosable) (hb : b.Enclosable)
    (chosen : Truth.decode selector = true) : Leads env [selector] joined a where
  contained := by
    rw [tokens_of_pair h]
    exact ⟨[_], _, rfl⟩
  selects := by
    rw [instructions_of_pair h]
    exact Exec.selects_yes ignores ha.1 hb.1 chosen hb.2

theorem leads_second (h : build (pair a b) = .ok joined) (ha : a.Enclosable) (hb : b.Enclosable)
    (chosen : Truth.decode selector = false) : Leads env [selector] joined b where
  contained := by
    rw [tokens_of_pair h]
    exact ⟨.op (.flow .ifTrue) :: (a.tokens ++ [.op (.flow .orElse)]), [.op (.flow .endIf)],
      by simp⟩
  selects := by
    rw [instructions_of_pair h]
    exact Exec.selects_no ignores ha.1 hb.1 chosen ha.2

/-- One level. The selector of a script without a neighbour does not matter. -/
theorem leads_of_joinPairs {level joined : List Script} (h : joinPairs level = .ok joined)
    (enclosable : ∀ s ∈ level, s.Enclosable) {place : Nat} {script : Script}
    (hscript : level[place]? = some script)
    (chosen : Even place ∧ place = level.length - 1 ∨
      (Truth.decode selector = true ↔ Even place)) :
    ∃ next, joined[place / 2]? = some next ∧ Leads env [selector] next script := by
  fun_induction joinPairs level generalizing joined place with
  | case1 => cases hscript
  | case2 last =>
    obtain ⟨s, hs, h⟩ := bind_eq_ok_iff.mp h
    cases h
    cases place with
    | zero =>
      cases hscript
      exact ⟨s, rfl, leads_of_unpaired ignores hs selector⟩
    | succ place => cases hscript
  | case3 a b rest ih =>
    obtain ⟨s, hs, h⟩ := bind_eq_ok_iff.mp h
    obtain ⟨tail, htail, h⟩ := bind_eq_ok_iff.mp h
    cases h
    rw [List.forall_mem_cons, List.forall_mem_cons] at enclosable
    obtain ⟨ha, hb, hrest⟩ := enclosable
    rcases place with _ | _ | place
    · cases hscript
      have first : Truth.decode selector = true := by
        rcases chosen with ⟨_, last⟩ | chosen
        · cases last
        · exact chosen.mpr .zero
      exact ⟨s, rfl, leads_first ignores hs ha hb first⟩
    · cases hscript
      have second : Truth.decode selector = false := by
        rcases chosen with ⟨even, _⟩ | chosen
        · exact absurd even (by decide)
        · exact Bool.eq_false_iff.mpr fun first => absurd (chosen.mp first) (by decide)
      exact ⟨s, rfl, leads_second ignores hs ha hb second⟩
    · have even : Even (place + 2) ↔ Even place := by
        simp [Nat.even_add]
      rw [Nat.add_div_right place Nat.two_pos]
      rw [even] at chosen
      refine ih htail hrest hscript (chosen.imp_left fun h => ⟨h.1, ?_⟩)
      exact Nat.eq_sub_of_add_eq (Nat.succ.inj h.2)

end Joined

/-- The selectors, from the first level to the last one, that lead to a place among scripts: a true
one if the place is even at the level, and any one if it is the last place there, too, so that it has
no neighbour. -/
def Chooses (selectors : List Bytes) (count place : Nat) : Prop :=
  selectors.length = Nat.clog 2 count ∧ ∀ level selector, selectors[level]? = some selector →
    Even (place >>> level) ∧ place >>> level = (count - 1) >>> level ∨
      (Truth.decode selector = true ↔ Even (place >>> level))

theorem Chooses.cons {selector : Bytes} {selectors : List Bytes} {count place : Nat}
    (h : Chooses (selector :: selectors) count place) (many : 2 ≤ count) :
    (Even place ∧ place = count - 1 ∨ (Truth.decode selector = true ↔ Even place)) ∧
      Chooses selectors ((count + 1) / 2) (place / 2) := by
  obtain ⟨length, chosen⟩ := h
  refine ⟨chosen 0 selector rfl, ?_, fun level selector' h => ?_⟩
  · rw [List.length_cons, Nat.clog_of_two_le Nat.one_lt_two many] at length
    exact Nat.succ.inj length
  · have later := chosen (level + 1) selector' h
    rwa [Nat.shiftRight_succ_inside, Nat.shiftRight_succ_inside, ← half_sub_one] at later

/-- All levels. The selectors of later levels come first. -/
theorem leads_of_joinAll {env : Env} (ignores : env.checker.IgnoresDigest) {scripts : List Script}
    {lock : Script} (h : joinAll scripts = .ok lock) (enclosable : ∀ s ∈ scripts, s.Enclosable)
    {place : Nat} {script : Script} (hscript : scripts[place]? = some script)
    {selectors : List Bytes} (chosen : Chooses selectors scripts.length place) :
    Leads env selectors.reverse lock script := by
  fun_induction joinAll scripts generalizing place script selectors with
  | case1 => cases h
  | case2 alone =>
    cases h
    have none : selectors = [] := List.length_eq_zero_iff.mp chosen.1
    subst none
    cases place with
    | zero =>
      cases hscript
      exact ⟨List.infix_rfl, .refl ignores _⟩
    | succ place => cases hscript
  | case3 a b rest e hjoined => cases h
  | case4 a b rest joined hjoined shorter ih =>
    have length := length_of_joinPairs hjoined
    cases selectors with
    | nil =>
      have none := chosen.1
      rw [clog_length] at none
      cases none
    | cons selector selectors =>
      -- The rounds that follow lead to the joined script at half the place, this one to the script.
      obtain ⟨first, later⟩ := chosen.cons (Nat.le_add_left 2 rest.length)
      obtain ⟨next, hnext, leads⟩ := leads_of_joinPairs ignores hjoined enclosable hscript first
      rw [← length] at later
      rw [List.reverse_cons]
      exact (ih h (enclosable_of_joinPairs hjoined enclosable) hnext later).trans leads

end Template

/-! ## Runs -/

/-- A run of a script with closed branches is nothing but its instructions. -/
theorem Exec.run_of_balanced {env : Env} {script : Script} (size : script.size ≤ maxScriptSize)
    (balanced : Balanced script.instructions) (start : State) :
    run env script start = steps env 0 script.instructions (start.started script) := by
  rw [run_of_short env size]
  cases h : steps env 0 script.instructions (start.started script) with
  | ok _ s =>
    rw [bind_of_ok h, checkClosed, conditions_of_balanced balanced h rfl]
    rfl
  | error e s => rw [bind_of_error h]

namespace Machine

/-- The scripts are joined in as many rounds as it takes to count their places in binary, whichever
they are. And with the selectors of a place on top of the stack, the joined script does what the
script at that place does alone on the stack below, with the same result and the same stacks. -/
theorem alternatives_select {m : Machine} {scripts : List Script} :
    (scripts ≠ [] → Template.joinTimes (Nat.clog 2 scripts.length) scripts =
      (Template.alternatives scripts).map fun s => [s]) ∧
    (∀ rounds level, Template.joinTimes rounds scripts = .ok level →
      (1 < level.length ↔ rounds < Nat.clog 2 scripts.length)) ∧
    ∀ (lock script : Script) (place : Nat) (selectors stack : List Bytes) (c : Context),
      Template.alternatives scripts = .ok lock → (∀ s ∈ scripts, s.Enclosable) →
      scripts[place]? = some script → Template.Chooses selectors scripts.length place →
      c.env.checker.IgnoresDigest → stack.length + Nat.clog 2 scripts.length ≤ 1000 →
      let chosen := c.withStack (selectors.reverse ++ stack)
      lock.instructions.countP Instruction.counted +
        Exec.checkedKeys (m.configure c.env) 0 lock.instructions (chosen.state.started lock) ≤ 201 →
      let joined := m.run lock chosen
      let alone := m.run script (c.withStack stack)
      joined.1 = alone.1 ∧ joined.2.state.stack = alone.2.state.stack ∧
        joined.2.state.alt = alone.2.state.alt := by
  refine ⟨Template.joinTimes_eq, fun _ _ => Template.lt_length_iff_of_joinTimes, ?_⟩
  intro lock script place selectors stack c h enclosable hscript chooses ignores room chosen few
    joined alone
  -- A script that is alone need not be of allowed size, but then there is nothing to select.
  rcases Template.size_of_joinAll h with rfl | size
  · have none : selectors = [] := List.length_eq_zero_iff.mp chooses.1
    subst none
    cases place with
    | zero =>
      cases hscript
      exact ⟨rfl, rfl, rfl⟩
    | succ place => cases hscript
  have leads := @Template.leads_of_joinAll (m.configure c.env) ignores scripts lock h enclosable
    place script hscript selectors chooses
  have size' := Nat.le_trans (Script.size_le_of_infix leads.contained) size
  have balanced := (Template.enclosable_of_joinAll h enclosable).1
  have balanced' := (enclosable script (List.mem_of_getElem? hscript)).1
  have atop : Exec.Atop selectors.reverse (chosen.state.started lock)
      ((c.withStack stack).state.started script) := {
    stack := rfl
    alt := rfl
    closed := rfl
    closed' := rfl
    operations := Nat.le_refl 0
    height := by
      show (selectors.reverse ++ stack).length + 0 ≤ maxStackSize
      rw [List.length_append, List.length_reverse, chooses.1, Nat.add_comm (Nat.clog _ _)]
      exact room }
  have counted := Exec.endState_of_always
    (Exec.steps_operations_le (m.configure c.env) 0 lock.instructions (chosen.state.started lock))
  rw [show (chosen.state.started lock).operations = 0 from rfl, Nat.zero_add] at counted
  have mirrored := (leads.selects 0 0 atop).alike (Nat.le_trans counted few)
  rw [← Exec.run_of_balanced size balanced, ← Exec.run_of_balanced size' balanced'] at mirrored
  obtain ⟨same, alongside⟩ := @run_alike m lock script chosen (c.withStack stack) _ mirrored
  exact ⟨same, alongside.stack.symm, alongside.alt.symm⟩

/-- The last of three scripts has no neighbour at the first level, so its first selector may be
anything. -/
theorem alternatives_select_last :
    let depth : Script := ⟨[.op (.stack .depth)]⟩
    let scripts : List Script := [⟨[.minimalPush [7]]⟩, ⟨[.op (.flow .giveUp)]⟩, depth]
    let lock : Script := ⟨[.op (.flow .ifTrue), .op (.flow .ifTrue), .minimalPush [7],
      .op (.flow .orElse), .op (.flow .giveUp), .op (.flow .endIf), .op (.flow .orElse),
      .op (.stack (.shuffle .drop)), .op (.stack .depth), .op (.flow .endIf)]⟩
    let selectors : List Bytes := [[1], []]
    let stack : List Bytes := [[9]]
    let m : Machine := { flags := Flags.none }
    let c : Context := { env := { checker := fun _ _ _ _ => .ok true } }
    Template.alternatives scripts = .ok lock ∧ Template.Chooses selectors 3 2 ∧
      (m.run lock (c.withStack (selectors.reverse ++ stack))).2.state.stack =
        (m.run depth (c.withStack stack)).2.state.stack := by
  intro depth scripts lock selectors stack m c
  have joined : Template.alternatives scripts = .ok lock := by
    decide +kernel
  have single {t : Token} (h : t.instruction.Plain ∧ t.instruction.Lawful) :
      (Script.mk [t]).Enclosable :=
    ⟨.plain h.1 .nil, List.forall_mem_singleton.mpr h.2⟩
  have enclosable : ∀ s ∈ scripts, s.Enclosable := by
    simp only [scripts, List.forall_mem_cons]
    exact ⟨single (Exec.skippable_push (by decide)), single (Exec.skippable_op rfl rfl),
      single (Exec.skippable_op rfl rfl), by simp⟩
  have chooses : Template.Chooses selectors 3 2 := by
    refine ⟨by decide, fun level selector h => ?_⟩
    rcases level with _ | _ | level
    · cases h
      exact .inl (by decide)
    · cases h
      exact .inr (by decide)
    · cases h
  have few : lock.instructions.countP Instruction.counted +
      Exec.checkedKeys (m.configure c.env) 0 lock.instructions
        ((c.withStack (selectors.reverse ++ stack)).state.started lock) ≤ 201 := by
    decide +kernel
  exact ⟨joined, chooses, ((@alternatives_select m scripts).2.2 lock depth 2 selectors stack c
    joined enclosable rfl chooses (fun _ _ _ _ _ => rfl) (by decide) few).2.1⟩

end Machine

end CoinScript
