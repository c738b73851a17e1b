import CoinScript.Proofs.Radix
import CoinScript.Script.Basic
/-!
# Reading tokens back

Writing and reading a token are inverse to each other, whatever bytes follow, and the
same holds for rows of tokens. So the bytes of a row determine the row.

* `read_eq_ok_iff`: reading gives a token exactly if it is well formed and its bytes
  stand in front;
* `readAll_eq_ok_iff`: the same for a whole input;
* `structural_of_readAll`: every failure is a malformation of the script.
-/

namespace CoinScript.Token

/-! ## One payload -/

theorem readData_eq_ok_iff {form : PushForm} {n : Nat} {input rest : Bytes} {t : Token} :
    readData form n input = .ok (t, rest) ↔
      ∃ data, t = .push form data ∧ data.length = n ∧ input = data ++ rest := by
  unfold readData
  constructor
  · intro h
    split at h
    · next fits =>
      cases h
      refine ⟨input.take n, rfl, ?_, (List.take_append_drop n input).symm⟩
      rw [List.length_take]
      omega
    · cases h
  · rintro ⟨data, rfl, rfl, rfl⟩
    rw [if_pos (by simp), List.take_left, List.drop_left]

theorem readField_eq_ok_iff {form : PushForm} {width : Nat} {input rest : Bytes} {t : Token} :
    readField form width input = .ok (t, rest) ↔
      ∃ field data, t = .push form data ∧ field.length = width ∧
        Bytes.toNatLE field = data.length ∧ input = field ++ (data ++ rest) := by
  unfold readField
  constructor
  · intro h
    split at h
    · next fits =>
      obtain ⟨data, rfl, hn, hrest⟩ := readData_eq_ok_iff.mp h
      refine ⟨input.take width, data, rfl, ?_, hn.symm, ?_⟩
      · rw [List.length_take]
        omega
      · rw [← hrest, List.take_append_drop]
    · cases h
  · rintro ⟨field, data, rfl, rfl, hn, rfl⟩
    rw [if_pos (by simp), List.take_left, List.drop_left]
    exact readData_eq_ok_iff.mpr ⟨data, rfl, hn.symm, rfl⟩

theorem structural_of_readData {form : PushForm} {n : Nat} {input : Bytes} {e : Error}
    (h : readData form n input = .error e) : ∃ cause, e = .structural cause := by
  unfold readData at h
  split at h
  · cases h
  · cases h
    exact ⟨_, rfl⟩

theorem structural_of_readField {form : PushForm} {width : Nat} {input : Bytes} {e : Error}
    (h : readField form width input = .error e) : ∃ cause, e = .structural cause := by
  unfold readField at h
  split at h
  · exact structural_of_readData h
  · cases h
    exact ⟨_, rfl⟩

/-! ## Length fields -/

/-- A length field is the only way to write its number with as many bytes. -/
theorem field_eq_ofNatLE_iff {width n : Nat} {field : Bytes} (fits : n < 256 ^ width) :
    (field.length = width ∧ Bytes.toNatLE field = n) ↔ field = Bytes.ofNatLE width n := by
  constructor
  · rintro ⟨rfl, rfl⟩
    exact (Bytes.ofNatLE_toNatLE field).symm
  · rintro rfl
    refine ⟨Bytes.length_ofNatLE width n, ?_⟩
    rw [Bytes.toNatLE_ofNatLE, Nat.mod_eq_of_lt fits]

/-- What is read behind a mark is a push of the form that the mark stands for. -/
theorem readField_eq_ok_iff_bytes {form : PushForm} {width : Nat} {mark : UInt8}
    {input rest : Bytes} {t : Token} (capacity : form.capacity = 256 ^ width)
    (header : ∀ n, form.header n = mark :: Bytes.ofNatLE width n) :
    readField form width input = .ok (t, rest) ↔
      ∃ data, t = .push form data ∧ t.WellFormed ∧ mark :: input = t.bytes ++ rest := by
  rw [readField_eq_ok_iff]
  constructor
  · rintro ⟨field, data, rfl, rfl, hn, rfl⟩
    have fits : data.length < 256 ^ field.length := hn ▸ Bytes.toNatLE_lt field
    have hfield := (field_eq_ofNatLE_iff fits).mp ⟨rfl, hn⟩
    refine ⟨data, rfl, ?_, ?_⟩
    · show data.length < form.capacity
      rw [capacity]
      exact fits
    · rw [bytes, header, ← hfield]
      simp
  · rintro ⟨data, rfl, wf, hbytes⟩
    have fits : data.length < 256 ^ width := capacity ▸ wf
    obtain ⟨hlen, hn⟩ := (field_eq_ofNatLE_iff fits).mpr rfl
    refine ⟨_, data, rfl, hlen, hn, ?_⟩
    simpa [bytes, header] using hbytes

/-! ## One token -/

theorem ofCode_wellFormed {code : UInt8} (h : 0x4f ≤ code) : (ofCode code).WellFormed := by
  unfold ofCode
  cases hop : Opcode.ofCode? code with
  | some o =>
    show 0x4f ≤ o.code
    rw [Opcode.code_of_ofCode? hop]
    exact h
  | none => exact ⟨h, hop⟩

theorem bytes_ofCode (code : UInt8) : (ofCode code).bytes = [code] := by
  unfold ofCode
  cases hop : Opcode.ofCode? code with
  | some o =>
    show [o.code] = [code]
    rw [Opcode.code_of_ofCode? hop]
  | none => rfl

/-- The ways in which a token can start, which is how the reader goes on. -/
theorem read_cases (code : UInt8) (input : Bytes) :
    (code < 0x4c ∧ read code input = readData .direct code.toNat input) ∨
    (code = 0x4c ∧ read code input = readField .field1 1 input) ∨
    (code = 0x4d ∧ read code input = readField .field2 2 input) ∨
    (code = 0x4e ∧ read code input = readField .field4 4 input) ∨
    (0x4f ≤ code ∧ read code input = .ok (ofCode code, input)) := by
  unfold read
  split
  · next h => exact .inl ⟨h, rfl⟩
  split
  · next h => exact .inr (.inl ⟨h, rfl⟩)
  split
  · next h => exact .inr (.inr (.inl ⟨h, rfl⟩))
  split
  · next h => exact .inr (.inr (.inr (.inl ⟨h, rfl⟩)))
  · next h0 h1 h2 h3 =>
    refine .inr (.inr (.inr (.inr ⟨?_, rfl⟩)))
    rw [← UInt8.toNat_inj] at h1 h2 h3
    rw [UInt8.lt_iff_toNat_lt] at h0
    rw [UInt8.le_iff_toNat_le]
    simp only [UInt8.reduceToNat] at *
    omega

theorem wellFormed_of_read {code : UInt8} {input rest : Bytes} {t : Token}
    (h : read code input = .ok (t, rest)) : t.WellFormed ∧ code :: input = t.bytes ++ rest := by
  obtain ⟨hc, he⟩ | ⟨rfl, he⟩ | ⟨rfl, he⟩ | ⟨rfl, he⟩ | ⟨hc, he⟩ := read_cases code input
  · rw [he] at h
    obtain ⟨data, rfl, hn, rfl⟩ := readData_eq_ok_iff.mp h
    refine ⟨?_, ?_⟩
    · show data.length < 0x4c
      rw [hn]
      exact UInt8.lt_iff_toNat_lt.mp hc
    · simp [bytes, PushForm.header, hn]
  · rw [he] at h
    obtain ⟨_, _, read⟩ := (readField_eq_ok_iff_bytes rfl fun _ => rfl).mp h
    exact read
  · rw [he] at h
    obtain ⟨_, _, read⟩ := (readField_eq_ok_iff_bytes rfl fun _ => rfl).mp h
    exact read
  · rw [he] at h
    obtain ⟨_, _, read⟩ := (readField_eq_ok_iff_bytes rfl fun _ => rfl).mp h
    exact read
  · rw [he] at h
    cases h
    exact ⟨ofCode_wellFormed hc, by rw [bytes_ofCode]; rfl⟩

theorem read_single {code : UInt8} (h : 0x4f ≤ code) (input : Bytes) :
    read code input = .ok (ofCode code, input) := by
  obtain ⟨hc, _⟩ | ⟨rfl, _⟩ | ⟨rfl, _⟩ | ⟨rfl, _⟩ | ⟨_, he⟩ := read_cases code input
  · rw [UInt8.le_iff_toNat_le] at h
    rw [UInt8.lt_iff_toNat_lt] at hc
    simp only [UInt8.reduceToNat] at h hc
    omega
  · exact absurd h (by decide)
  · exact absurd h (by decide)
  · exact absurd h (by decide)
  · exact he

theorem read_of_wellFormed {code : UInt8} {input rest : Bytes} {t : Token}
    (wf : t.WellFormed) (h : code :: input = t.bytes ++ rest) :
    read code input = .ok (t, rest) := by
  cases t with
  | push form data =>
    cases form with
    | direct =>
      have fits : data.length < 0x4c := wf
      obtain ⟨rfl, rfl⟩ : code = UInt8.ofNat data.length ∧ input = data ++ rest := by
        simpa [bytes, PushForm.header] using h
      have hn : (UInt8.ofNat data.length).toNat = data.length := by
        rw [UInt8.toNat_ofNat', Nat.mod_eq_of_lt (by omega)]
      have hlt : UInt8.ofNat data.length < 0x4c := by
        rw [UInt8.lt_iff_toNat_lt, hn]
        exact fits
      unfold read
      rw [if_pos hlt, hn]
      exact readData_eq_ok_iff.mpr ⟨data, rfl, rfl, rfl⟩
    | field1 =>
      obtain rfl : code = 0x4c := (List.cons.inj h).1
      unfold read
      rw [if_neg (by decide), if_pos rfl]
      exact (readField_eq_ok_iff_bytes rfl fun _ => rfl).mpr ⟨data, rfl, wf, h⟩
    | field2 =>
      obtain rfl : code = 0x4d := (List.cons.inj h).1
      unfold read
      rw [if_neg (by decide), if_neg (by decide), if_pos rfl]
      exact (readField_eq_ok_iff_bytes rfl fun _ => rfl).mpr ⟨data, rfl, wf, h⟩
    | field4 =>
      obtain rfl : code = 0x4e := (List.cons.inj h).1
      unfold read
      rw [if_neg (by decide), if_neg (by decide), if_neg (by decide), if_pos rfl]
      exact (readField_eq_ok_iff_bytes rfl fun _ => rfl).mpr ⟨data, rfl, wf, h⟩
  | op o =>
    obtain ⟨rfl, rfl⟩ : code = o.code ∧ input = rest := by
      simpa [bytes] using h
    rw [read_single wf, ofCode, Opcode.ofCode?_code]
  | unknown c =>
    obtain ⟨rfl, rfl⟩ : code = c ∧ input = rest := by
      simpa [bytes] using h
    rw [read_single wf.1, ofCode, wf.2]

/-- Reading gives a token exactly if it is well formed and its bytes stand in front. -/
theorem read_eq_ok_iff {code : UInt8} {input rest : Bytes} {t : Token} :
    read code input = .ok (t, rest) ↔ t.WellFormed ∧ code :: input = t.bytes ++ rest :=
  ⟨wellFormed_of_read, fun ⟨wf, h⟩ => read_of_wellFormed wf h⟩

theorem structural_of_read {code : UInt8} {input : Bytes} {e : Error}
    (h : read code input = .error e) : ∃ cause, e = .structural cause := by
  obtain ⟨_, he⟩ | ⟨_, he⟩ | ⟨_, he⟩ | ⟨_, he⟩ | ⟨_, he⟩ := read_cases code input <;> rw [he] at h
  · exact structural_of_readData h
  · exact structural_of_readField h
  · exact structural_of_readField h
  · exact structural_of_readField h
  · cases h

/-! ## Rows of tokens -/

theorem bytes_ne_nil (t : Token) : t.bytes ≠ [] := by
  cases t with
  | push form data => cases form <;> simp [bytes, PushForm.header]
  | op o => simp [bytes]
  | unknown code => simp [bytes]

theorem readAll_cons_of_error {code : UInt8} {input : Bytes} {e : Error}
    (h : read code input = .error e) : readAll (code :: input) = .error e := by
  rw [readAll]
  split
  · next e' he =>
    rw [h] at he
    cases he
    rfl
  · next t rest he =>
    rw [h] at he
    cases he

theorem readAll_cons_of_ok {code : UInt8} {input rest : Bytes} {t : Token}
    (h : read code input = .ok (t, rest)) :
    readAll (code :: input) = (readAll rest).map (t :: ·) := by
  rw [readAll]
  split
  · next e he =>
    rw [h] at he
    cases he
  · next t' rest' he =>
    rw [h] at he
    cases he
    cases readAll rest <;> rfl

theorem wellFormed_of_readAll {input : Bytes} {tokens : List Token}
    (h : readAll input = .ok tokens) :
    (∀ t ∈ tokens, t.WellFormed) ∧ tokens.flatMap bytes = input := by
  fun_induction readAll input generalizing tokens with
  | case1 =>
    cases h
    exact ⟨by simp, rfl⟩
  | case2 => cases h
  | case3 => cases h
  | case4 code input t rest hread _ tail htail ih =>
    cases h
    obtain ⟨wf, hbytes⟩ := wellFormed_of_read hread
    obtain ⟨wfs, hrest⟩ := ih htail
    refine ⟨List.forall_mem_cons.mpr ⟨wf, wfs⟩, ?_⟩
    rw [List.flatMap_cons, hrest, hbytes]

theorem readAll_of_wellFormed {tokens : List Token} (wf : ∀ t ∈ tokens, t.WellFormed) :
    readAll (tokens.flatMap bytes) = .ok tokens := by
  induction tokens with
  | nil => rw [List.flatMap_nil, readAll]
  | cons t tokens ih =>
    obtain ⟨wft, wfs⟩ := List.forall_mem_cons.mp wf
    obtain ⟨code, body, hbytes⟩ := List.exists_cons_of_ne_nil (bytes_ne_nil t)
    have hread : read code (body ++ tokens.flatMap bytes) = .ok (t, tokens.flatMap bytes) :=
      read_of_wellFormed wft (by rw [hbytes]; rfl)
    rw [List.flatMap_cons, hbytes, List.cons_append, readAll_cons_of_ok hread, ih wfs]
    rfl

/-- Reading a whole input gives the one row of well formed tokens that it is made of. -/
theorem readAll_eq_ok_iff {input : Bytes} {tokens : List Token} :
    readAll input = .ok tokens ↔ (∀ t ∈ tokens, t.WellFormed) ∧ tokens.flatMap bytes = input := by
  constructor
  · exact wellFormed_of_readAll
  · rintro ⟨wf, rfl⟩
    exact readAll_of_wellFormed wf

theorem structural_of_readAll {input : Bytes} {e : Error} (h : readAll input = .error e) :
    ∃ cause, e = .structural cause := by
  fun_induction readAll input with
  | case1 => cases h
  | case2 code input e' hread =>
    cases h
    exact structural_of_read hread
  | case3 code input t rest hread _ e' htail ih =>
    cases h
    exact ih htail
  | case4 => cases h

end CoinScript.Token
