import CoinScript.Proofs.Delimited
/-!
# The wire forms of a transaction

A length is written in its shortest compact form, but a reader takes any of the four, so one
transaction has many wire forms. `Transaction.Form` describes them with the forms of a length left
open, and reading accepts exactly those with lengths that are not absurd.

* `Reader.Accepts`: the byte strings from which a reader takes a value;
* `Transaction.decode_eq_ok_iff`: the byte strings that are read as a transaction;
* `Transaction.reads_back`: the form that is written is one of them;
* `Transaction.canonical_iff_shortest`: it is the shortest of them, and the only one with all
  lengths in shortest form;
* `Transaction.long_length_decodes`: there are others.
-/

namespace CoinScript

namespace Wire

/-! ## What a reader accepts -/

namespace Reader

/-- The reader takes the value `a` from the front of exactly those byte strings that start with a
form of `a`, and takes that form away. -/
def Accepts {α : Type} (read : Reader α) (form : α → Bytes → Prop) : Prop :=
  ∀ ⦃input rest : Bytes⦄ ⦃a : α⦄,
    read input = .ok (a, rest) ↔ ∃ front, form a front ∧ front ++ rest = input

section Accepts

variable {α β : Type} {read : Reader α} {form form' : α → Bytes → Prop}

theorem bind_ok_iff {f : α → Reader β} {input rest : Bytes} {b : β} :
    (read >>= f) input = .ok (b, rest) ↔
      ∃ a middle, read input = .ok (a, middle) ∧ f a middle = .ok (b, rest) := by
  show (read input >>= fun p => f p.1 p.2) = .ok (b, rest) ↔ _
  cases read input with
  | error e =>
    constructor
    · intro h
      cases h
    · rintro ⟨a, middle, h, _⟩
      cases h
  | ok p =>
    constructor
    · intro h
      exact ⟨p.1, p.2, rfl, h⟩
    · rintro ⟨a, middle, h, hf⟩
      cases h
      exact hf

theorem Accepts.congr (h : Accepts read form) (same : ∀ a front, form a front ↔ form' a front) :
    Accepts read form' := by
  intro input rest a
  rw [h]
  exact exists_congr fun front => and_congr_left fun _ => same a front

theorem accepts_pure (a : α) : Accepts (pure a) fun b front => b = a ∧ front = [] := by
  intro input rest b
  constructor
  · intro h
    cases h
    exact ⟨[], ⟨rfl, rfl⟩, rfl⟩
  · rintro ⟨_, ⟨rfl, rfl⟩, rfl⟩
    rfl

/-- Two readers after one another: the forms stand one behind the other. -/
theorem Accepts.bind {f : α → Reader β} {next : α → β → Bytes → Prop} (h : Accepts read form)
    (hf : ∀ a, Accepts (f a) (next a)) :
    Accepts (read >>= f) fun b front =>
      ∃ a first second, form a first ∧ next a b second ∧ front = first ++ second := by
  intro input rest b
  rw [bind_ok_iff]
  constructor
  · rintro ⟨a, middle, hread, hnext⟩
    obtain ⟨first, hfirst, rfl⟩ := h.mp hread
    obtain ⟨second, hsecond, rfl⟩ := (hf a).mp hnext
    exact ⟨first ++ second, ⟨a, first, second, hfirst, hsecond, rfl⟩, List.append_assoc ..⟩
  · rintro ⟨_, ⟨a, first, second, hfirst, hsecond, rfl⟩, rfl⟩
    exact ⟨a, second ++ rest, h.mpr ⟨first, hfirst, (List.append_assoc ..).symm⟩,
      (hf a).mpr ⟨second, hsecond, rfl⟩⟩

theorem Accepts.map (h : Accepts read form) (f : α → β) :
    Accepts (read >>= fun a => pure (f a)) fun b front => ∃ a, form a front ∧ b = f a := by
  refine (h.bind fun a => accepts_pure (f a)).congr fun b front => ?_
  constructor
  · rintro ⟨a, first, _, hfirst, ⟨rfl, rfl⟩, rfl⟩
    exact ⟨a, (List.append_nil first).symm ▸ hfirst, rfl⟩
  · rintro ⟨a, hfront, rfl⟩
    exact ⟨a, front, [], hfront, ⟨rfl, rfl⟩, (List.append_nil front).symm⟩

end Accepts

/-! ## Words -/

theorem accepts_take (count : Nat) :
    Accepts (take count) fun data front => data.length = count ∧ front = data := by
  intro input rest data
  unfold take
  dsimp only
  constructor
  · intro h
    split at h
    · next whole =>
      cases h
      exact ⟨_, ⟨whole, rfl⟩, List.take_append_drop count input⟩
    · cases h
  · rintro ⟨front, ⟨rfl, rfl⟩, rfl⟩
    exact read_take front rest

theorem accepts_digest (count : Nat) :
    Accepts (digest count) fun d front => front = d.bytes := by
  intro input rest d
  unfold digest Digest.ofBytes?
  constructor
  · intro h
    split at h
    · next front hfront =>
      cases h
      split at hfront
      · cases hfront
        exact ⟨_, rfl, List.take_append_drop count input⟩
      · cases hfront
    · cases h
  · rintro ⟨_, rfl, rfl⟩
    obtain ⟨bytes, rfl⟩ := d
    simp only [List.take_left, List.drop_left, dif_pos]

theorem accepts_number (width : Nat) :
    Accepts (number width) fun n front => n < 256 ^ width ∧ front = Bytes.ofNatLE width n := by
  refine ((accepts_take width).map Bytes.toNatLE).congr fun n front => ?_
  constructor
  · rintro ⟨data, ⟨rfl, rfl⟩, rfl⟩
    exact ⟨Bytes.toNatLE_lt front, (Bytes.ofNatLE_toNatLE front).symm⟩
  · rintro ⟨fits, rfl⟩
    refine ⟨_, ⟨Bytes.length_ofNatLE width n, rfl⟩, ?_⟩
    rw [Bytes.toNatLE_ofNatLE, Nat.mod_eq_of_lt fits]

theorem accepts_word32 : Accepts word32 fun n front => front = Wire.word32 n := by
  refine ((accepts_number 4).map UInt32.ofNat).congr fun n front => ?_
  unfold Wire.word32
  constructor
  · rintro ⟨m, ⟨fits, rfl⟩, rfl⟩
    rw [UInt32.toNat_ofNat_of_lt' fits]
  · rintro rfl
    exact ⟨n.toNat, ⟨n.toNat_lt, rfl⟩, UInt32.ofNat_toNat.symm⟩

theorem accepts_int32 : Accepts int32 fun n front => front = Wire.int32 n := by
  refine (accepts_word32.map UInt32.toInt32).congr fun n front => ?_
  constructor
  · rintro ⟨m, rfl, rfl⟩
    rfl
  · rintro rfl
    exact ⟨n.toUInt32, rfl, rfl⟩

theorem accepts_word64 : Accepts word64 fun n front => front = Wire.word64 n := by
  refine ((accepts_number 8).map UInt64.ofNat).congr fun n front => ?_
  unfold Wire.word64
  constructor
  · rintro ⟨m, ⟨fits, rfl⟩, rfl⟩
    rw [UInt64.toNat_ofNat_of_lt' fits]
  · rintro rfl
    exact ⟨n.toNat, ⟨n.toNat_lt, rfl⟩, UInt64.ofNat_toNat.symm⟩

end Reader

/-! ## Lengths -/

/-- The compact forms of a number: one byte, or a mark and two, four or eight bytes. -/
inductive CompactForm (n : Nat) : Bytes → Prop
  | one : n < 0xfd → CompactForm n [UInt8.ofNat n]
  | two : n < 0x10000 → CompactForm n (0xfd :: Bytes.ofNatLE 2 n)
  | four : n < 0x100000000 → CompactForm n (0xfe :: Bytes.ofNatLE 4 n)
  | eight : n < 0x10000000000000000 → CompactForm n (0xff :: Bytes.ofNatLE 8 n)

/-- The forms of a length that are read. -/
def AnyLength (n : Nat) (front : Bytes) : Prop :=
  n ≤ maxDecodeLength ∧ CompactForm n front

/-- The form of a length that is written. -/
def ShortestLength (n : Nat) (front : Bytes) : Prop :=
  front = compact n

namespace Reader

theorem accepts_compact : Accepts compact CompactForm := by
  intro input rest n
  constructor
  · intro h
    cases input with
    | nil => cases h
    | cons mark input =>
      rw [compact_cons] at h
      split at h
      · next hmark =>
        obtain ⟨_, ⟨fits, rfl⟩, rfl⟩ := (accepts_number 2).mp h
        exact ⟨_, .two fits, by rw [show mark = 0xfd from UInt8.toNat_inj.mp hmark]; rfl⟩
      split at h
      · next hmark =>
        obtain ⟨_, ⟨fits, rfl⟩, rfl⟩ := (accepts_number 4).mp h
        exact ⟨_, .four fits, by rw [show mark = 0xfe from UInt8.toNat_inj.mp hmark]; rfl⟩
      split at h
      · next hmark =>
        obtain ⟨_, ⟨fits, rfl⟩, rfl⟩ := (accepts_number 8).mp h
        exact ⟨_, .eight fits, by rw [show mark = 0xff from UInt8.toNat_inj.mp hmark]; rfl⟩
      · cases h
        have := mark.toNat_lt
        exact ⟨_, .one (by omega), by rw [UInt8.ofNat_toNat]; rfl⟩
  · rintro ⟨_, hform, rfl⟩
    cases hform with
    | one small =>
      have hn : (UInt8.ofNat n).toNat = n := by
        rw [UInt8.toNat_ofNat', Nat.mod_eq_of_lt (by omega)]
      rw [List.singleton_append, compact_cons, hn, if_neg (by omega), if_neg (by omega),
        if_neg (by omega)]
    | two fits =>
      rw [List.cons_append, compact_cons]
      exact read_number fits rest
    | four fits =>
      rw [List.cons_append, compact_cons]
      exact read_number fits rest
    | eight fits =>
      rw [List.cons_append, compact_cons]
      exact read_number fits rest

theorem accepts_length : Accepts length AnyLength := by
  intro input rest n
  unfold length
  rw [bind_ok_iff]
  constructor
  · rintro ⟨m, middle, hread, h⟩
    split at h
    · cases h
    · next small =>
      cases h
      obtain ⟨front, hfront, rfl⟩ := accepts_compact.mp hread
      exact ⟨front, ⟨Nat.le_of_not_lt small, hfront⟩, rfl⟩
  · rintro ⟨front, ⟨small, hfront⟩, hinput⟩
    refine ⟨n, rest, accepts_compact.mpr ⟨front, hfront, hinput⟩, ?_⟩
    rw [if_neg (Nat.not_lt.mpr small)]
    rfl

end Reader

/-! ## Byte strings and lists -/

section Forms

variable {α : Type} (length : Nat → Bytes → Prop) (form : α → Bytes → Prop)

/-- The forms of a byte string behind its length. -/
def BlobForm (data front : Bytes) : Prop :=
  ∃ mark, length data.length mark ∧ front = mark ++ data

/-- The forms of some values in a row. -/
def RowForm : List α → Bytes → Prop
  | [], front => front = []
  | a :: as, front => ∃ first rest, form a first ∧ RowForm as rest ∧ front = first ++ rest

/-- The forms of a list behind its length. -/
def ListForm (items : List α) (front : Bytes) : Prop :=
  ∃ mark row, length items.length mark ∧ RowForm form items row ∧ front = mark ++ row

end Forms

namespace Reader

theorem accepts_blob : Accepts blob (BlobForm AnyLength) := by
  refine (accepts_length.bind accepts_take).congr fun data front => ?_
  constructor
  · rintro ⟨_, mark, _, hmark, ⟨rfl, rfl⟩, rfl⟩
    exact ⟨mark, hmark, rfl⟩
  · rintro ⟨mark, hmark, rfl⟩
    exact ⟨data.length, mark, data, hmark, ⟨rfl, rfl⟩, rfl⟩

variable {α : Type} {read : Reader α} {form : α → Bytes → Prop}

theorem accepts_repeated (h : Accepts read form) (count : Nat) :
    Accepts (repeated read count) fun items front =>
      items.length = count ∧ RowForm form items front := by
  induction count with
  | zero =>
    refine (accepts_pure []).congr fun items front => ?_
    constructor
    · rintro ⟨rfl, rfl⟩
      exact ⟨rfl, rfl⟩
    · rintro ⟨empty, row⟩
      obtain rfl := List.length_eq_zero_iff.mp empty
      exact ⟨rfl, row⟩
  | succ count ih =>
    refine (h.bind fun first => ih.map fun rest => first :: rest).congr fun items front => ?_
    constructor
    · rintro ⟨a, first, row, hfirst, ⟨rest, ⟨rfl, hrow⟩, rfl⟩, rfl⟩
      exact ⟨rfl, first, row, hfirst, hrow, rfl⟩
    · rintro ⟨hcount, row⟩
      cases items with
      | nil => cases hcount
      | cons a rest =>
        obtain ⟨first, row, hfirst, hrow, rfl⟩ := row
        exact ⟨a, first, row, hfirst, ⟨rest, ⟨Nat.succ.inj hcount, hrow⟩, rfl⟩, rfl⟩

theorem accepts_list (h : Accepts read form) : Accepts (list read) (ListForm AnyLength form) := by
  refine (accepts_length.bind (accepts_repeated h)).congr fun items front => ?_
  constructor
  · rintro ⟨_, mark, row, hmark, ⟨rfl, hrow⟩, rfl⟩
    exact ⟨mark, row, hmark, hrow, rfl⟩
  · rintro ⟨mark, row, hmark, hrow, rfl⟩
    exact ⟨items.length, mark, row, hmark, ⟨rfl, hrow⟩, rfl⟩

/-- Reading a whole byte string. -/
theorem run_eq_ok_iff {input : Bytes} {a : α} :
    read.run input = .ok a ↔ read input = .ok (a, []) := by
  unfold run
  constructor
  · intro h
    split at h
    · cases h
    · next value hread =>
      cases h
      exact hread
    · cases h
  · intro h
    rw [h]

end Reader

/-! ## The form that is written -/

section Written

variable {α : Type} {write : α → Bytes} {length : Nat → Bytes → Prop} {form : α → Bytes → Prop}

theorem rowForm_flatMap {items : List α} (h : ∀ a ∈ items, form a (write a)) :
    RowForm form items (items.flatMap write) := by
  induction items with
  | nil => exact rfl
  | cons a items ih =>
    obtain ⟨first, rest⟩ := List.forall_mem_cons.mp h
    exact ⟨write a, items.flatMap write, first, ih rest, List.flatMap_cons⟩

theorem listForm_list {items : List α} (hlength : length items.length (compact items.length))
    (h : ∀ a ∈ items, form a (write a)) : ListForm length form items (list write items) :=
  ⟨_, _, hlength, rowForm_flatMap h, rfl⟩

/-- The compact form that is written is one of those that are read. -/
theorem anyLength_compact {n : Nat} (small : n ≤ maxDecodeLength) : AnyLength n (compact n) := by
  have fits : n < 0x100000000 := Nat.lt_of_le_of_lt small (by decide)
  refine ⟨small, ?_⟩
  unfold compact
  split
  · next h => exact .one h
  split
  · next h => exact .two h
  · exact .four fits

/-! ## Sizes -/

theorem length_blob (data : Bytes) : (blob data).length = blobSize data := by
  rw [blob, List.length_append, length_compact, blobSize]

theorem length_list {size : α → Nat} (h : ∀ a, (write a).length = size a) (items : List α) :
    (list write items).length = listSize size items := by
  have row : (items.flatMap write).length =
      items.foldr (fun item total => size item + total) 0 := by
    induction items with
    | nil => rfl
    | cons a items ih => rw [List.flatMap_cons, List.length_append, h, ih, List.foldr_cons]
  rw [list, List.length_append, length_compact, row, listSize]

end Written

/-! ## Comparing forms of one value -/

/-- The relation between byte strings can be checked piece by piece. -/
structure Piecewise (rel : Bytes → Bytes → Prop) : Prop where
  refl : ∀ front, rel front front
  append : ∀ ⦃a b c d : Bytes⦄, rel a c → rel b d → rel (a ++ b) (c ++ d)

/-- `front` is no shorter than `written`, and no other byte string is as short. -/
def NoShorter (written front : Bytes) : Prop :=
  written.length ≤ front.length ∧ (front.length ≤ written.length → front = written)

theorem noShorter_of_lt {written front : Bytes} (h : written.length < front.length) :
    NoShorter written front :=
  ⟨Nat.le_of_lt h, fun le => absurd le (Nat.not_le_of_lt h)⟩

theorem piecewise_noShorter : Piecewise NoShorter where
  refl front := ⟨Nat.le_refl _, fun _ => rfl⟩
  append := by
    rintro a b c d ⟨hac, eqac⟩ ⟨hbd, eqbd⟩
    simp only [NoShorter, List.length_append]
    refine ⟨Nat.add_le_add hac hbd, fun le => ?_⟩
    rw [eqac (by omega), eqbd (by omega)]

theorem piecewise_eq : Piecewise fun written front => front = written where
  refl _ := rfl
  append := by
    rintro a b c d rfl rfl
    rfl

/-- A longer compact form is strictly longer. -/
theorem CompactForm.noShorter {n : Nat} {front : Bytes} (h : CompactForm n front) :
    NoShorter (compact n) front := by
  unfold compact
  cases h with
  | one small =>
    rw [if_pos small]
    exact piecewise_noShorter.refl _
  | two fits =>
    split
    · exact noShorter_of_lt (by simp)
    · exact piecewise_noShorter.refl _
  | four fits =>
    split
    · exact noShorter_of_lt (by simp)
    split
    · exact noShorter_of_lt (by simp)
    · exact piecewise_noShorter.refl _
  | eight fits =>
    split
    · exact noShorter_of_lt (by simp)
    split
    · exact noShorter_of_lt (by simp)
    split
    · exact noShorter_of_lt (by simp)
    · exact piecewise_noShorter.refl _

section Compare

variable {α : Type} {rel : Bytes → Bytes → Prop} (p : Piecewise rel)
  {length : Nat → Bytes → Prop} (hlength : ∀ n mark, length n mark → rel (compact n) mark)
include p hlength

theorem BlobForm.compare {data front : Bytes} (h : BlobForm length data front) :
    rel (blob data) front := by
  obtain ⟨mark, hmark, rfl⟩ := h
  exact p.append (hlength _ _ hmark) (p.refl data)

omit hlength in
theorem RowForm.compare {write : α → Bytes} {form : α → Bytes → Prop}
    (hform : ∀ a front, form a front → rel (write a) front) {items : List α} {front : Bytes}
    (h : RowForm form items front) : rel (items.flatMap write) front := by
  induction items generalizing front with
  | nil =>
    obtain rfl : front = [] := h
    exact p.refl []
  | cons a items ih =>
    obtain ⟨first, rest, hfirst, hrest, rfl⟩ := h
    exact p.append (hform a first hfirst) (ih hrest)

theorem ListForm.compare {write : α → Bytes} {form : α → Bytes → Prop}
    (hform : ∀ a front, form a front → rel (write a) front) {items : List α} {front : Bytes}
    (h : ListForm length form items front) : rel (list write items) front := by
  obtain ⟨mark, row, hmark, hrow, rfl⟩ := h
  exact p.append (hlength _ _ hmark) (hrow.compare p hform)

end Compare

end Wire

/-! ## Transactions -/

open Wire

section Forms

variable (length : Nat → Bytes → Prop)

/-- The forms of an input, with the given forms of a length. -/
def TxIn.Form (input : TxIn) (front : Bytes) : Prop :=
  ∃ script, BlobForm length input.scriptSig script ∧
    front = input.previousOutput.encode ++ script ++ word32 input.sequence

/-- The forms of an output, with the given forms of a length. -/
def TxOut.Form (output : TxOut) (front : Bytes) : Prop :=
  ∃ script, BlobForm length output.scriptPubkey script ∧ front = word64 output.value ++ script

/-- The forms of a transaction, with the given forms of a length. -/
def Transaction.Form (tx : Transaction) (front : Bytes) : Prop :=
  ∃ inputs outputs, ListForm length (TxIn.Form length) tx.inputs inputs ∧
    ListForm length (TxOut.Form length) tx.outputs outputs ∧
    front = int32 tx.version ++ inputs ++ outputs ++ word32 tx.lockTime

end Forms

theorem OutPoint.accepts_read : OutPoint.read.Accepts fun p front => front = p.encode := by
  refine ((Reader.accepts_digest 32).bind fun txid =>
    Reader.accepts_word32.map (OutPoint.mk txid)).congr fun p front => ?_
  constructor
  · rintro ⟨txid, _, _, rfl, ⟨vout, rfl, rfl⟩, rfl⟩
    rfl
  · rintro rfl
    exact ⟨p.txid, _, _, rfl, ⟨p.vout, rfl, rfl⟩, rfl⟩

theorem TxIn.accepts_read : TxIn.read.Accepts (TxIn.Form AnyLength) := by
  refine (OutPoint.accepts_read.bind fun output => Reader.accepts_blob.bind fun script =>
    Reader.accepts_word32.map (TxIn.mk output script)).congr fun input front => ?_
  constructor
  · rintro ⟨output, _, _, rfl, ⟨data, script, _, hscript, ⟨sequence, rfl, rfl⟩, rfl⟩, rfl⟩
    exact ⟨script, hscript, (List.append_assoc ..).symm⟩
  · rintro ⟨script, hscript, rfl⟩
    exact ⟨input.previousOutput, _, _, rfl, ⟨input.scriptSig, script, _, hscript,
      ⟨input.sequence, rfl, rfl⟩, rfl⟩, List.append_assoc ..⟩

theorem TxOut.accepts_read : TxOut.read.Accepts (TxOut.Form AnyLength) := by
  refine (Reader.accepts_word64.bind fun value =>
    Reader.accepts_blob.map (TxOut.mk value)).congr fun output front => ?_
  constructor
  · rintro ⟨value, _, script, rfl, ⟨data, hscript, rfl⟩, rfl⟩
    exact ⟨script, hscript, rfl⟩
  · rintro ⟨script, hscript, rfl⟩
    exact ⟨output.value, _, script, rfl, ⟨output.scriptPubkey, hscript, rfl⟩, rfl⟩

theorem Transaction.accepts_read : Transaction.read.Accepts (Transaction.Form AnyLength) := by
  refine (Reader.accepts_int32.bind fun version =>
    (Reader.accepts_list TxIn.accepts_read).bind fun inputs =>
      (Reader.accepts_list TxOut.accepts_read).bind fun outputs =>
        Reader.accepts_word32.map fun lockTime =>
          Transaction.mk version lockTime inputs outputs).congr fun tx front => ?_
  constructor
  · rintro ⟨version, _, _, rfl, ⟨_, inputs, _, hinputs, ⟨_, outputs, _, houtputs,
      ⟨lockTime, rfl, rfl⟩, rfl⟩, rfl⟩, rfl⟩
    exact ⟨inputs, outputs, hinputs, houtputs, by simp only [List.append_assoc]⟩
  · rintro ⟨inputs, outputs, hinputs, houtputs, rfl⟩
    exact ⟨tx.version, _, _, rfl, ⟨tx.inputs, inputs, _, hinputs, ⟨tx.outputs, outputs, _, houtputs,
      ⟨tx.lockTime, rfl, rfl⟩, rfl⟩, rfl⟩, by simp only [List.append_assoc]⟩

section Written

variable {length : Nat → Bytes → Prop}

theorem TxIn.form_encode {input : TxIn}
    (h : length input.scriptSig.length (compact input.scriptSig.length)) :
    input.Form length input.encode :=
  ⟨blob input.scriptSig, ⟨_, h, rfl⟩, rfl⟩

theorem TxOut.form_encode {output : TxOut}
    (h : length output.scriptPubkey.length (compact output.scriptPubkey.length)) :
    output.Form length output.encode :=
  ⟨blob output.scriptPubkey, ⟨_, h, rfl⟩, rfl⟩

theorem Transaction.form_encode {tx : Transaction}
    (hinputs : length tx.inputs.length (compact tx.inputs.length))
    (houtputs : length tx.outputs.length (compact tx.outputs.length))
    (hscriptSig : ∀ input ∈ tx.inputs,
      length input.scriptSig.length (compact input.scriptSig.length))
    (hscriptPubkey : ∀ output ∈ tx.outputs,
      length output.scriptPubkey.length (compact output.scriptPubkey.length)) :
    tx.Form length tx.encode :=
  ⟨_, _, listForm_list hinputs fun input h => TxIn.form_encode (hscriptSig input h),
    listForm_list houtputs fun output h => TxOut.form_encode (hscriptPubkey output h), rfl⟩

/-- What holds between the written and another form of every length holds between the written and
another form of the transaction. -/
theorem Transaction.Form.compare {rel : Bytes → Bytes → Prop} (p : Piecewise rel)
    (hlength : ∀ n mark, length n mark → rel (compact n) mark) {tx : Transaction} {front : Bytes}
    (h : tx.Form length front) : rel tx.encode front := by
  have input (i : TxIn) (front : Bytes) (h : i.Form length front) : rel i.encode front := by
    obtain ⟨script, hscript, rfl⟩ := h
    exact p.append (p.append (p.refl _) (hscript.compare p hlength)) (p.refl _)
  have output (o : TxOut) (front : Bytes) (h : o.Form length front) : rel o.encode front := by
    obtain ⟨script, hscript, rfl⟩ := h
    exact p.append (p.refl _) (hscript.compare p hlength)
  obtain ⟨inputs, outputs, hinputs, houtputs, rfl⟩ := h
  exact p.append (p.append (p.append (p.refl _) (hinputs.compare p hlength input))
    (houtputs.compare p hlength output)) (p.refl _)

end Written

theorem OutPoint.length_encode (p : OutPoint) : p.encode.length = p.encodedSize := by
  rw [encode, List.length_append, p.txid.length_bytes, word32, Bytes.length_ofNatLE]
  rfl

theorem TxIn.length_encode (input : TxIn) : input.encode.length = input.encodedSize := by
  rw [encode, List.length_append, List.length_append, OutPoint.length_encode, length_blob, word32,
    Bytes.length_ofNatLE, encodedSize]

theorem TxOut.length_encode (output : TxOut) : output.encode.length = output.encodedSize := by
  rw [encode, List.length_append, word64, Bytes.length_ofNatLE, length_blob, encodedSize]

namespace Transaction

theorem length_encode (tx : Transaction) : tx.encode.length = tx.encodedSize := by
  simp only [encode, List.length_append, length_list TxIn.length_encode,
    length_list TxOut.length_encode, int32, word32, Bytes.length_ofNatLE, encodedSize]

/-- The byte strings that are read as a transaction: the forms in which every length is written in
any way and is not absurd. -/
theorem decode_eq_ok_iff {input : Bytes} {tx : Transaction} :
    decode input = .ok tx ↔ tx.Form AnyLength input := by
  unfold decode
  rw [Reader.run_eq_ok_iff, accepts_read]
  constructor
  · rintro ⟨front, hfront, rfl⟩
    rwa [List.append_nil]
  · intro h
    exact ⟨input, h, List.append_nil input⟩

theorem form_shortest_iff {tx : Transaction} {front : Bytes} :
    tx.Form ShortestLength front ↔ front = tx.encode := by
  constructor
  · exact fun h => h.compare piecewise_eq fun _ _ h => h
  · rintro rfl
    exact form_encode rfl rfl (fun _ _ => rfl) fun _ _ => rfl

/-- No list and no script of the transaction is longer than what is read. -/
structure Readable (tx : Transaction) : Prop where
  inputs : tx.inputs.length ≤ maxDecodeLength
  outputs : tx.outputs.length ≤ maxDecodeLength
  scriptSig : ∀ input ∈ tx.inputs, input.scriptSig.length ≤ maxDecodeLength
  scriptPubkey : ∀ output ∈ tx.outputs, output.scriptPubkey.length ≤ maxDecodeLength

theorem Readable.form_encode {tx : Transaction} (h : tx.Readable) : tx.Form AnyLength tx.encode :=
  Transaction.form_encode (anyLength_compact h.inputs) (anyLength_compact h.outputs)
    (fun input hi => anyLength_compact (h.scriptSig input hi))
    fun output ho => anyLength_compact (h.scriptPubkey output ho)

/-- A transaction that is written reads back. The size that is reported is the number of bytes, the
bytes are read as the same transaction, and with anything behind them they are refused. -/
theorem reads_back {tx : Transaction} (h : tx.Readable) :
    tx.encode.length = tx.encodedSize ∧ decode tx.encode = .ok tx ∧
      ∀ suffix, suffix ≠ [] →
        decode (tx.encode ++ suffix) = .error (.invalidInput .trailingBytes) := by
  refine ⟨length_encode tx, decode_eq_ok_iff.mpr h.form_encode, fun suffix more => ?_⟩
  have hread : read (tx.encode ++ suffix) = .ok (tx, suffix) :=
    accepts_read.mpr ⟨tx.encode, h.form_encode, rfl⟩
  unfold decode Reader.run
  rw [hread]
  cases suffix with
  | nil => exact absurd rfl more
  | cons b rest => rfl

/-- A script of 300 bytes has a length of three bytes. -/
theorem reads_back_long :
    let tx : Transaction :=
      ⟨-1, 7, [⟨⟨.replicate 32 1, 2⟩, List.replicate 300 0x51, 5⟩], [⟨10, [0x51]⟩]⟩
    tx.encode.length = 363 ∧ decode tx.encode = .ok tx ∧
      decode (tx.encode ++ [0]) = .error (.invalidInput .trailingBytes) := by
  intro tx
  have readable : tx.Readable := ⟨by decide, by decide, by decide +kernel, by decide⟩
  have size : tx.encodedSize = 363 := by decide +kernel
  obtain ⟨written, decoded, refused⟩ := reads_back readable
  exact ⟨written.trans size, decoded, refused [0] (by decide)⟩

/-! ## Other forms -/

/-- What is read is a transaction in one of its forms. Bytes that are read are what is written for
the transaction exactly if every length in them is in its shortest form, and exactly if there are
no more of them than what is written; the identifier of the transaction is then their hash. -/
theorem canonical_iff_shortest {input : Bytes} {tx : Transaction} (h : decode input = .ok tx) :
    tx.Form AnyLength input ∧
    (tx.encode = input ↔ tx.Form ShortestLength input) ∧
    tx.encode.length ≤ input.length ∧
    (tx.encode = input ↔ input.length ≤ tx.encodedSize) ∧
    (tx.Form ShortestLength input → tx.txid = Hash.sha256d input) := by
  have form := decode_eq_ok_iff.mp h
  have longer : NoShorter tx.encode input :=
    form.compare piecewise_noShorter fun _ _ any => any.2.noShorter
  refine ⟨form, ?_, longer.1, ?_, ?_⟩
  · rw [form_shortest_iff]
    exact eq_comm
  · rw [← length_encode]
    constructor
    · rintro rfl
      exact Nat.le_refl _
    · exact fun short => (longer.2 short).symm
  · rintro shortest
    rw [form_shortest_iff.mp shortest, txid]

/-- The number of inputs takes three bytes where one is enough. -/
def longLength : Bytes :=
  [1, 0, 0, 0, 0xfd, 0, 0, 0, 0, 0, 0, 0]

theorem canonical_iff_shortest_long :
    decode longLength = .ok ⟨1, 0, [], []⟩ ∧
      ¬ (⟨1, 0, [], []⟩ : Transaction).Form ShortestLength longLength := by
  have decoded : decode longLength = .ok ⟨1, 0, [], []⟩ := by decide +kernel
  refine ⟨decoded, fun shortest => ?_⟩
  have same := (canonical_iff_shortest decoded).2.1.mpr shortest
  exact absurd same (by decide)

/-- Two byte strings are read as one transaction. -/
theorem long_length_decodes :
    let tx : Transaction := ⟨1, 0, [], []⟩
    decode longLength = .ok tx ∧ decode tx.encode = .ok tx ∧ tx.encode ≠ longLength := by
  intro tx
  exact ⟨by decide +kernel, by decide +kernel, by decide⟩

end Transaction

end CoinScript
