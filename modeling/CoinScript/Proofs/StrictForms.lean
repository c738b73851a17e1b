import CoinScript.Proofs.CheckedItems
/-!
# Strict forms of signatures

A signature in strict form is `30 len 02 lr R 02 ls S ht`. Where the second number starts is only
known from the length of the first, so the test looks at places that depend on bytes it has not
checked yet. The grammar is given here on its own, by the two numbers and what stands around them,
and the test is read off along their places.

* `isStrictDer_iff`: the test passes on the strict forms;
* `StrictForm.unique`: a signature has at most one strict form;
* `isStrictDer_exactly`: this, and that the test never looks outside of the signature.
-/

namespace CoinScript.SignatureEncoding

/-! ## The grammar -/

/-- A number in strict form has at least one byte. The first byte is below `80`, and if there are
more, it is not a zero in front of a byte below `80`. -/
def StrictNumber : Bytes → Prop
  | [] => False
  | [b] => b < 0x80
  | b :: c :: _ => b < 0x80 ∧ ¬ (b = 0 ∧ c < 0x80)

instance : DecidablePred StrictNumber := fun number =>
  match number with
  | [] => inferInstanceAs (Decidable False)
  | [b] => inferInstanceAs (Decidable (b < 0x80))
  | b :: c :: _ => inferInstanceAs (Decidable (b < 0x80 ∧ ¬ (b = 0 ∧ c < 0x80)))

/-- A signature that consists of the numbers `r` and `s` and a hash type, in strict form. The length
in front counts all but itself, its tag and the hash type. -/
structure StrictForm (sig r s : Bytes) (hashType : UInt8) : Prop where
  size_ge : 9 ≤ sig.length
  size_le : sig.length ≤ 73
  bytes : ∃ size sizeR sizeS : UInt8, size.toNat = sig.length - 3 ∧ sizeR.toNat = r.length ∧
    sizeS.toNat = s.length ∧
    sig = 0x30 :: size :: 0x02 :: sizeR :: (r ++ 0x02 :: sizeS :: (s ++ [hashType]))
  number_r : StrictNumber r
  number_s : StrictNumber s

theorem StrictNumber.length_pos {number : Bytes} (h : StrictNumber number) :
    1 ≤ number.length := by
  cases number with
  | nil => exact h.elim
  | cons b rest => exact Nat.le_add_left _ _

/-- The lengths and the hash type tell where a strict form is to be cut. -/
theorem StrictForm.unique {sig r s r' s' : Bytes} {hashType hashType' : UInt8}
    (h : StrictForm sig r s hashType) (h' : StrictForm sig r' s' hashType') :
    r' = r ∧ s' = s ∧ hashType' = hashType := by
  obtain ⟨_, sizeR, sizeS, _, hr, hs, rfl⟩ := h.bytes
  obtain ⟨_, sizeR', sizeS', _, hr', hs', same⟩ := h'.bytes
  simp only [List.cons.injEq, true_and] at same
  obtain ⟨_, rfl, numbers⟩ := same
  obtain ⟨rfl, behind⟩ := List.append_inj numbers (hr.symm.trans hr')
  simp only [List.cons.injEq, true_and] at behind
  obtain ⟨rfl, number⟩ := behind
  obtain ⟨rfl, last⟩ := List.append_inj number (hs.symm.trans hs')
  exact ⟨rfl, rfl, (List.cons.inj last).1.symm⟩

/-! ## The test at its places -/

theorem getD_length_add (number rest : Bytes) (i : Nat) :
    (number ++ rest).getD (number.length + i) 0 = rest.getD i 0 := by
  rw [List.getD_append_right _ _ _ _ (Nat.le_add_right _ _), Nat.add_sub_cancel_left]

/-- A number is strict if its length and the two bytes at its place are as the test wants them. The
second of them is part of what follows, and not looked at, if the number has one byte. -/
theorem strictNumber_iff (number rest : Bytes) :
    StrictNumber number ↔ number.length ≠ 0 ∧ (number ++ rest).getD 0 0 &&& 0x80 = 0 ∧
      ¬ (1 < number.length ∧ (number ++ rest).getD 0 0 = 0 ∧
        (number ++ rest).getD 1 0 &&& 0x80 = 0) := by
  have sign (b : UInt8) : b &&& 0x80 = 0 ↔ b < 0x80 := by
    rw [Checked.and_sign_eq_zero_iff, UInt8.lt_iff_toNat_lt]
    rfl
  match number with
  | [] => simp [StrictNumber]
  | [b] => simp [StrictNumber, sign]
  | b :: c :: _ => simp [StrictNumber, sign]

/-- What the test asks of bytes that are cut where a strict form is. -/
theorem isStrictDer_cut {b₀ b₁ b₂ b₃ c₀ c₁ hashType : UInt8} {r s : Bytes}
    (hr : b₃.toNat = r.length) (hs : c₁.toNat = s.length) :
    isStrictDer (b₀ :: b₁ :: b₂ :: b₃ :: (r ++ c₀ :: c₁ :: (s ++ [hashType]))) = true ↔
      9 ≤ r.length + s.length + 7 ∧ r.length + s.length + 7 ≤ 73 ∧ b₀ = 0x30 ∧
        b₁.toNat = r.length + s.length + 4 ∧ b₂ = 0x02 ∧ StrictNumber r ∧ c₀ = 0x02 ∧
        StrictNumber s := by
  have size : (b₀ :: b₁ :: b₂ :: b₃ :: (r ++ c₀ :: c₁ :: (s ++ [hashType]))).length =
      r.length + s.length + 7 := by
    simp only [List.length_cons, List.length_append, List.length_nil]
    omega
  have inner := getD_length_add r (c₀ :: c₁ :: (s ++ [hashType]))
  have first : (r ++ c₀ :: c₁ :: (s ++ [hashType])).getD r.length 0 = c₀ := inner 0
  unfold isStrictDer
  rw [strictNumber_iff r (c₀ :: c₁ :: (s ++ [hashType])), strictNumber_iff s [hashType]]
  simp only [List.getD_cons_zero, List.getD_cons_succ, hr, size, Nat.add_comm 5, first, inner, hs]
  simp only [Bool.and_eq_true, Bool.not_eq_true', Bool.and_eq_false_iff, decide_eq_true_eq,
    decide_eq_false_iff_not, beq_iff_eq, beq_eq_false_iff_ne, bne_iff_ne]
  grind

/-- Where the lengths leave room for one byte behind the second number, the bytes can be cut. -/
theorem exists_cut {sig : Bytes} (room : 5 + (sig.getD 3 0).toNat < sig.length)
    (fits : (sig.getD 3 0).toNat + (sig.getD (5 + (sig.getD 3 0).toNat) 0).toNat + 7 = sig.length) :
    ∃ b₀ b₁ b₂ b₃ r c₀ c₁ s hashType,
      sig = b₀ :: b₁ :: b₂ :: b₃ :: (r ++ c₀ :: c₁ :: (s ++ [hashType])) ∧
        b₃.toNat = r.length ∧ c₁.toNat = s.length := by
  match sig with
  | b₀ :: b₁ :: b₂ :: b₃ :: body =>
    simp only [List.getD_cons_succ, List.getD_cons_zero, List.length_cons, Nat.add_comm 5]
      at room fits
    obtain ⟨r, rest, rfl, hr⟩ : ∃ r rest, body = r ++ rest ∧ r.length = b₃.toNat :=
      ⟨_, _, (List.take_append_drop b₃.toNat body).symm, List.length_take_of_le (by omega)⟩
    rw [← hr, getD_length_add, List.length_append] at fits
    rw [← hr, List.length_append] at room
    match rest with
    | c₀ :: c₁ :: tail =>
      simp only [List.getD_cons_succ, List.getD_cons_zero, List.length_cons] at fits
      obtain ⟨s, hashType, rfl⟩ := List.eq_nil_or_concat tail |>.resolve_left fun none => by
        rw [none, List.length_nil] at fits
        omega
      rw [List.concat_eq_append, List.length_append, List.length_singleton] at fits
      exact ⟨b₀, b₁, b₂, b₃, r, c₀, c₁, s, hashType, by rw [List.concat_eq_append], hr.symm,
        by omega⟩
    | [_] | [] =>
      simp only [List.length_cons, List.length_nil] at room
      omega

/-- The test passes on the strict forms and on nothing else. -/
theorem isStrictDer_iff {sig : Bytes} :
    isStrictDer sig = true ↔ ∃ r s hashType, StrictForm sig r s hashType := by
  constructor
  · intro h
    have checks := h
    unfold isStrictDer at checks
    simp only [Bool.and_eq_true, decide_eq_true_eq, beq_iff_eq, and_assoc] at checks
    obtain ⟨large, small, _, _, room, fits, _⟩ := checks
    obtain ⟨b₀, b₁, b₂, b₃, r, c₀, c₁, s, hashType, rfl, hr, hs⟩ := exists_cut room fits
    obtain ⟨_, _, rfl, hsize, rfl, number_r, rfl, number_s⟩ := (isStrictDer_cut hr hs).mp h
    refine ⟨r, s, hashType, large, small, ⟨b₁, b₃, c₁, ?_, hr, hs, rfl⟩, number_r, number_s⟩
    simp only [hsize, List.length_cons, List.length_append, List.length_nil]
    omega
  · rintro ⟨r, s, hashType, form⟩
    obtain ⟨size, sizeR, sizeS, hsize, hr, hs, rfl⟩ := form.bytes
    have length : (0x30 :: size :: 0x02 :: sizeR ::
        (r ++ 0x02 :: sizeS :: (s ++ [hashType]))).length = r.length + s.length + 7 := by
      simp only [List.length_cons, List.length_append, List.length_nil]
      omega
    have large := form.size_ge
    have small := form.size_le
    rw [length] at hsize large small
    exact (isStrictDer_cut hr hs).mpr ⟨large, small, rfl, hsize, rfl, form.number_r, rfl,
      form.number_s⟩

/-- The test passes on the strict forms and on nothing else, and whatever the lengths in the
signature are, none of the places that it looks at lies outside. -/
theorem isStrictDer_exactly (sig : Bytes) :
    (isStrictDer sig = true ↔ ∃ r s hashType, StrictForm sig r s hashType) ∧
      Checked.strictDer sig = .ok (isStrictDer sig) :=
  ⟨isStrictDer_iff, Checked.strictDer_eq sig⟩

end CoinScript.SignatureEncoding
