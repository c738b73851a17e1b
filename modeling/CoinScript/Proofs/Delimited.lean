import CoinScript.Proofs.Radix
import CoinScript.Transaction.Basic
/-!
# Wire forms tell where they end

A wire form is followed by other bytes, and nothing but the form itself says where it ends. All
forms here are delimited: bytes that start with the forms of two values start with the form of
one value, and the same bytes follow. So equal bytes are equal transactions.

A length is written in at most eight bytes, so this is about lengths that are words of 64 bits.

* `Reader.read_compact`: the compact form of a length reads back as the length;
* `delimited_list`: a list is delimited if its items are;
* `Transaction.delimited_encode`: transactions are delimited.
-/

namespace CoinScript

namespace Wire

/-! ## Reading back -/

namespace Reader

theorem bind_of_ok {α β : Type} {read : Reader α} {f : α → Reader β} {input rest : Bytes} {a : α}
    (h : read input = .ok (a, rest)) : (read >>= f) input = f a rest := by
  show (read input >>= fun p => f p.1 p.2) = f a rest
  rw [h]
  rfl

theorem read_take (front rest : Bytes) : take front.length (front ++ rest) = .ok (front, rest) := by
  unfold take
  rw [List.take_left, List.drop_left]
  exact if_pos rfl

theorem read_number {width n : Nat} (fits : n < 256 ^ width) (rest : Bytes) :
    number width (Bytes.ofNatLE width n ++ rest) = .ok (n, rest) := by
  have taken := read_take (Bytes.ofNatLE width n) rest
  rw [Bytes.length_ofNatLE] at taken
  unfold number
  rw [bind_of_ok taken, Bytes.toNatLE_ofNatLE, Nat.mod_eq_of_lt fits]
  rfl

theorem read_word32 (n : UInt32) (rest : Bytes) :
    word32 (Wire.word32 n ++ rest) = .ok (n, rest) := by
  unfold word32 Wire.word32
  rw [bind_of_ok (read_number n.toNat_lt rest), UInt32.ofNat_toNat]
  rfl

theorem read_int32 (n : Int32) (rest : Bytes) : int32 (Wire.int32 n ++ rest) = .ok (n, rest) := by
  unfold int32 Wire.int32
  rw [bind_of_ok (read_word32 _ rest)]
  rfl

theorem read_word64 (n : UInt64) (rest : Bytes) :
    word64 (Wire.word64 n ++ rest) = .ok (n, rest) := by
  unfold word64 Wire.word64
  rw [bind_of_ok (read_number n.toNat_lt rest), UInt64.ofNat_toNat]
  rfl

/-- The first byte is the number itself, or tells how many bytes of it follow. -/
theorem compact_cons (mark : UInt8) (input : Bytes) :
    compact (mark :: input) =
      if mark.toNat = 0xfd then number 2 input
      else if mark.toNat = 0xfe then number 4 input
      else if mark.toNat = 0xff then number 8 input
      else .ok (mark.toNat, input) := by
  have first : number 1 (mark :: input) = .ok (mark.toNat, input) := by
    have read := @read_number 1 mark.toNat mark.toNat_lt input
    rwa [Bytes.ofNatLE, Bytes.ofNatLE, UInt8.ofNat_toNat] at read
  unfold compact
  rw [bind_of_ok first]
  repeat' split
  all_goals rfl

/-- The compact form of a length reads back as the length. -/
theorem read_compact {n : Nat} (fits : n < 2 ^ 64) (rest : Bytes) :
    compact (Wire.compact n ++ rest) = .ok (n, rest) := by
  unfold Wire.compact
  split
  · next short =>
    have hn : (UInt8.ofNat n).toNat = n := by
      rw [UInt8.toNat_ofNat', Nat.mod_eq_of_lt (by omega)]
    rw [List.singleton_append, compact_cons, hn, if_neg (by omega), if_neg (by omega),
      if_neg (by omega)]
  split
  · next fits2 =>
    rw [List.cons_append, compact_cons]
    exact read_number fits2 rest
  split
  · next fits4 =>
    rw [List.cons_append, compact_cons]
    exact read_number fits4 rest
  · rw [List.cons_append, compact_cons]
    exact read_number fits rest

end Reader

/-! ## Delimited forms -/

/-- Bytes that start with the forms of two values, both of the kind `P`, start with the form of one
value, and the same bytes follow. -/
def Delimited {α : Type} (P : α → Prop) (write : α → Bytes) : Prop :=
  ∀ ⦃a b : α⦄, P a → P b → ∀ ⦃x y : Bytes⦄, write a ++ x = write b ++ y → a = b ∧ x = y

section Delimited

variable {α : Type} {P : α → Prop} {write : α → Bytes}

/-- What reads back, whatever follows, is delimited. -/
theorem delimited_of_read {read : Reader α}
    (h : ∀ a, P a → ∀ rest, read (write a ++ rest) = .ok (a, rest)) : Delimited P write := by
  intro a b ha hb x y same
  have read_a := h a ha x
  rw [same, h b hb y] at read_a
  cases read_a
  exact ⟨rfl, rfl⟩

theorem delimited_compact : Delimited (· < 2 ^ 64) compact :=
  delimited_of_read fun _ => Reader.read_compact

theorem delimited_word32 : Delimited (fun _ => True) word32 :=
  delimited_of_read fun n _ => Reader.read_word32 n

theorem delimited_int32 : Delimited (fun _ => True) int32 :=
  delimited_of_read fun n _ => Reader.read_int32 n

theorem delimited_word64 : Delimited (fun _ => True) word64 :=
  delimited_of_read fun n _ => Reader.read_word64 n

theorem delimited_blob : Delimited (fun data : Bytes => data.length < 2 ^ 64) blob := by
  intro a b ha hb x y same
  unfold blob at same
  rw [List.append_assoc, List.append_assoc] at same
  obtain ⟨length, same⟩ := delimited_compact ha hb same
  exact List.append_inj same length

/-- Rows of as many delimited forms. -/
theorem delimited_row (h : Delimited P write) {as bs : List α} (ha : ∀ a ∈ as, P a)
    (hb : ∀ b ∈ bs, P b) (length : as.length = bs.length) {x y : Bytes}
    (same : as.flatMap write ++ x = bs.flatMap write ++ y) : as = bs ∧ x = y := by
  induction as generalizing bs with
  | nil =>
    cases bs with
    | nil => exact ⟨rfl, same⟩
    | cons b bs => cases length
  | cons a as ih =>
    cases bs with
    | nil => cases length
    | cons b bs =>
      rw [List.flatMap_cons, List.flatMap_cons, List.append_assoc, List.append_assoc] at same
      obtain ⟨ha, has⟩ := List.forall_mem_cons.mp ha
      obtain ⟨hb, hbs⟩ := List.forall_mem_cons.mp hb
      obtain ⟨rfl, tails⟩ := h ha hb same
      obtain ⟨rfl, rest⟩ := ih has hbs (Nat.succ.inj length) tails
      exact ⟨rfl, rest⟩

/-- A list is delimited if its items are: its length stands in front. -/
theorem delimited_list (h : Delimited P write) :
    Delimited (fun items => items.length < 2 ^ 64 ∧ ∀ a ∈ items, P a) (list write) := by
  rintro as bs ⟨hlength, ha⟩ ⟨hlength', hb⟩ x y same
  unfold list at same
  rw [List.append_assoc, List.append_assoc] at same
  obtain ⟨length, same⟩ := delimited_compact hlength hlength' same
  exact delimited_row h ha hb length same

end Delimited

end Wire

/-! ## Transactions -/

open Wire

theorem OutPoint.delimited_encode : Delimited (fun _ => True) OutPoint.encode := by
  intro a b _ _ x y same
  unfold encode at same
  rw [List.append_assoc, List.append_assoc] at same
  obtain ⟨txid, same⟩ := List.append_inj same (by rw [a.txid.length_bytes, b.txid.length_bytes])
  obtain ⟨vout, rest⟩ := delimited_word32 trivial trivial same
  obtain ⟨txid', vout'⟩ := a
  cases Digest.ext txid
  cases vout
  exact ⟨rfl, rest⟩

theorem TxIn.delimited_encode :
    Delimited (fun input : TxIn => input.scriptSig.length < 2 ^ 64) TxIn.encode := by
  intro a b ha hb x y same
  unfold encode at same
  simp only [List.append_assoc] at same
  obtain ⟨output, same⟩ := OutPoint.delimited_encode trivial trivial same
  obtain ⟨script, same⟩ := delimited_blob ha hb same
  obtain ⟨sequence, rest⟩ := delimited_word32 trivial trivial same
  cases a
  cases output
  cases script
  cases sequence
  exact ⟨rfl, rest⟩

theorem TxOut.delimited_encode :
    Delimited (fun output : TxOut => output.scriptPubkey.length < 2 ^ 64) TxOut.encode := by
  intro a b ha hb x y same
  unfold encode at same
  rw [List.append_assoc, List.append_assoc] at same
  obtain ⟨value, same⟩ := delimited_word64 trivial trivial same
  obtain ⟨script, rest⟩ := delimited_blob ha hb same
  cases a
  cases value
  cases script
  exact ⟨rfl, rest⟩

/-- The lengths of the lists and scripts of a transaction are words of 64 bits, as all lengths in
memory are. -/
structure Transaction.Fits (tx : Transaction) : Prop where
  inputs : tx.inputs.length < 2 ^ 64
  outputs : tx.outputs.length < 2 ^ 64
  scriptSig : ∀ input ∈ tx.inputs, input.scriptSig.length < 2 ^ 64
  scriptPubkey : ∀ output ∈ tx.outputs, output.scriptPubkey.length < 2 ^ 64

theorem Transaction.delimited_encode : Delimited Transaction.Fits Transaction.encode := by
  intro a b ha hb x y same
  unfold encode at same
  simp only [List.append_assoc] at same
  obtain ⟨version, same⟩ := delimited_int32 trivial trivial same
  obtain ⟨inputs, same⟩ := delimited_list TxIn.delimited_encode ⟨ha.inputs, ha.scriptSig⟩
    ⟨hb.inputs, hb.scriptSig⟩ same
  obtain ⟨outputs, same⟩ := delimited_list TxOut.delimited_encode ⟨ha.outputs, ha.scriptPubkey⟩
    ⟨hb.outputs, hb.scriptPubkey⟩ same
  obtain ⟨lockTime, rest⟩ := delimited_word32 trivial trivial same
  cases a
  cases version
  cases inputs
  cases outputs
  cases lockTime
  exact ⟨rfl, rest⟩

end CoinScript
