import CoinScript.Script.Token
/-!
# Nested branches

Branches are opened, turned over to their other side and closed by single instructions.
`Nested` is the grammar of rows of instructions in which they are well nested, and
`depthAfter` counts the open branches from left to right.

* `balanced_iff_depthAfter`: a row is well nested exactly if the count never asks for a
  branch that is not open and ends where it began.
-/

namespace CoinScript

namespace Instruction

/-- Open a branch, which is taken if the item on the stack counts as `wanted`. -/
def opening : Bool → Instruction
  | true => .op (.flow .ifTrue)
  | false => .op (.flow .ifFalse)

/-- Change over to the other side of the innermost branch. -/
def orElse : Instruction := .op (.flow .orElse)

/-- Close the innermost branch. -/
def endIf : Instruction := .op (.flow .endIf)

/-- The instruction has no part in branch bookkeeping. -/
def Plain (i : Instruction) : Prop :=
  (∀ wanted, i ≠ opening wanted) ∧ i ≠ orElse ∧ i ≠ endIf

/-- The number of open branches behind an instruction, if it finds the branch that it needs. -/
def nest : Nat → Instruction → Option Nat
  | depth, .op (.flow .ifTrue) => some (depth + 1)
  | depth, .op (.flow .ifFalse) => some (depth + 1)
  | 0, .op (.flow .orElse) => none
  | 0, .op (.flow .endIf) => none
  | depth + 1, .op (.flow .endIf) => some depth
  | depth, _ => some depth

theorem plain_or_branch (i : Instruction) :
    i.Plain ∨ (∃ wanted, i = opening wanted) ∨ i = orElse ∨ i = endIf := by
  by_cases hopen : ∃ wanted, i = opening wanted
  · exact .inr (.inl hopen)
  by_cases helse : i = orElse
  · exact .inr (.inr (.inl helse))
  by_cases hend : i = endIf
  · exact .inr (.inr (.inr hend))
  · exact .inl ⟨fun wanted h => hopen ⟨wanted, h⟩, helse, hend⟩

theorem nest_opening (depth : Nat) (wanted : Bool) :
    nest depth (opening wanted) = some (depth + 1) := by
  cases wanted <;> rfl

theorem nest_plain {i : Instruction} (h : i.Plain) (depth : Nat) : nest depth i = some depth := by
  unfold nest
  split
  · exact absurd rfl (h.1 true)
  · exact absurd rfl (h.1 false)
  · exact absurd rfl h.2.1
  · exact absurd rfl h.2.2
  · exact absurd rfl h.2.2
  · rfl

end Instruction

open Instruction

/-- The number of open branches behind a row of instructions, if each finds the branch that it
needs. -/
def depthAfter (depth : Nat) (row : List Instruction) : Option Nat :=
  row.foldlM nest depth

theorem depthAfter_cons (depth : Nat) (i : Instruction) (row : List Instruction) :
    depthAfter depth (i :: row) = (nest depth i).bind fun next => depthAfter next row :=
  rfl

theorem depthAfter_append (depth : Nat) (row row' : List Instruction) :
    depthAfter depth (row ++ row') = (depthAfter depth row).bind fun next => depthAfter next row' :=
  List.foldlM_append

/-- Rows of instructions with well nested branches. A row that stands inside a branch may change
over to its other side, any number of times. -/
inductive Nested : Bool → List Instruction → Prop
  | nil {inside : Bool} : Nested inside []
  | plain {inside : Bool} {i : Instruction} {row : List Instruction} :
      i.Plain → Nested inside row → Nested inside (i :: row)
  | orElse {row : List Instruction} : Nested true row → Nested true (.orElse :: row)
  | block {inside wanted : Bool} {body row : List Instruction} :
      Nested true body → Nested inside row → Nested inside (opening wanted :: (body ++ endIf :: row))

/-- A row with well nested branches that has no part in a branch around it. -/
abbrev Balanced : List Instruction → Prop := Nested false

theorem Nested.depthAfter_eq {inside : Bool} {row : List Instruction} (h : Nested inside row)
    {depth : Nat} (hdepth : inside = true → 0 < depth) : depthAfter depth row = some depth := by
  induction h generalizing depth with
  | nil => rfl
  | plain hi _ ih => rw [depthAfter_cons, nest_plain hi, Option.bind_some, ih hdepth]
  | orElse _ ih =>
    obtain ⟨d, rfl⟩ := Nat.exists_eq_succ_of_ne_zero (Nat.ne_of_gt (hdepth rfl))
    exact ih hdepth
  | @block inside wanted body row _ _ ihBody ihRow =>
    rw [depthAfter_cons, nest_opening, Option.bind_some, depthAfter_append,
      ihBody fun _ => Nat.succ_pos depth, Option.bind_some]
    exact ihRow hdepth

/-- A row that goes below the depth at which it starts closes the branch around it, and what stands
in front of that place is well nested. -/
theorem exists_nested_of_depthAfter {row : List Instruction} {depth last : Nat}
    (h : depthAfter (depth + 1) row = some last) (hlast : last ≤ depth) :
    ∃ body rest, row = body ++ endIf :: rest ∧ Nested true body ∧
      depthAfter depth rest = some last := by
  -- A nested branch splits the row twice, so the induction is on its length.
  induction hn : row.length using Nat.strongRecOn generalizing row depth with
  | ind n ih =>
    cases row with
    | nil =>
      cases h
      omega
    | cons i row =>
      have shorter : row.length < n := by
        rw [← hn]
        exact Nat.lt_succ_self _
      rcases plain_or_branch i with hi | ⟨wanted, rfl⟩ | rfl | rfl
      · rw [depthAfter_cons, nest_plain hi] at h
        obtain ⟨body, rest, rfl, hbody, hrest⟩ := ih _ shorter h hlast rfl
        exact ⟨i :: body, rest, rfl, .plain hi hbody, hrest⟩
      · rw [depthAfter_cons, nest_opening] at h
        obtain ⟨inner, row', rfl, hinner, h'⟩ := ih _ shorter h (by omega) rfl
        have shorter' : row'.length < n := by
          simp only [List.length_append, List.length_cons] at shorter
          omega
        obtain ⟨body, rest, rfl, hbody, hrest⟩ := ih _ shorter' h' hlast rfl
        refine ⟨opening wanted :: (inner ++ endIf :: body), rest, ?_, .block hinner hbody, hrest⟩
        simp
      · have h' : depthAfter (depth + 1) row = some last := h
        obtain ⟨body, rest, rfl, hbody, hrest⟩ := ih _ shorter h' hlast rfl
        exact ⟨.orElse :: body, rest, rfl, .orElse hbody, hrest⟩
      · exact ⟨[], row, rfl, .nil, h⟩

theorem balanced_of_depthAfter {row : List Instruction} (h : depthAfter 0 row = some 0) :
    Balanced row := by
  induction hn : row.length using Nat.strongRecOn generalizing row with
  | ind n ih =>
    cases row with
    | nil => exact .nil
    | cons i row =>
      have shorter : row.length < n := by
        rw [← hn]
        exact Nat.lt_succ_self _
      rcases plain_or_branch i with hi | ⟨wanted, rfl⟩ | rfl | rfl
      · rw [depthAfter_cons, nest_plain hi] at h
        exact .plain hi (ih _ shorter h rfl)
      · rw [depthAfter_cons, nest_opening] at h
        obtain ⟨body, rest, rfl, hbody, hrest⟩ := exists_nested_of_depthAfter h (Nat.le_refl 0)
        refine .block hbody (ih _ ?_ hrest rfl)
        simp only [List.length_append, List.length_cons] at shorter
        omega
      · cases h
      · cases h

/-- A row is well nested exactly if the count of open branches never asks for one that is not open
and ends where it began. -/
theorem balanced_iff_depthAfter {row : List Instruction} :
    Balanced row ↔ depthAfter 0 row = some 0 :=
  ⟨fun h => h.depthAfter_eq nofun, balanced_of_depthAfter⟩

end CoinScript
