import CoinScript.Address
import CoinScript.Proofs.Base58
/-!
# Addresses and their texts

An address has one payload and one text, and each of the two tells the address. The first byte of a
payload stands for a network and a kind together, and the four pairs have different bytes. The text
is the payload with its checksum in base 58, and nothing but that text is read as the address.

* `Address.ofPayload_eq_ok_iff`: the payloads that are read;
* `Address.ofText_eq_ok_iff`: the texts that are read;
* `Address.text_one_to_one`: addresses, payloads and texts.
-/

namespace CoinScript.Address

/-- The first byte of a payload stands for one network and one kind. -/
theorem classify?_eq_some_iff {code : UInt8} {network : Network} {kind : AddressKind} :
    classify? code = some (network, kind) ↔ network.code kind = code := by
  constructor
  · intro h
    unfold classify? at h
    have same := List.find?_some h
    exact beq_iff_eq.mp same
  · rintro rfl
    cases network with
    | mainnet => cases kind <;> rfl
    | testnet => cases kind <;> rfl

theorem ofPayload_eq_ok_iff {payload : Bytes} {a : Address} :
    ofPayload payload = .ok a ↔ a.payload = payload := by
  constructor
  · intro h
    unfold ofPayload at h
    split at h
    · cases h
    split at h
    · split at h
      · next known =>
        cases h
        rw [Address.payload, Address.code, classify?_eq_some_iff.mp known]
      · cases h
    · cases h
  · rintro rfl
    obtain ⟨network, kind, hash⟩ := a
    have known : classify? (network.code kind) = some (network, kind) :=
      classify?_eq_some_iff.mpr rfl
    rw [Address.payload, Address.code, ofPayload, dif_pos hash.length_bytes]
    dsimp only
    rw [known]

/-- A payload and its checksum are never too large a number to be read. -/
theorem toNatBE_payload_lt (a : Address) :
    Bytes.toNatBE (a.payload ++ Base58.checksum a.payload) < Base58.numberLimit := by
  have size : (a.payload ++ Base58.checksum a.payload).length = 25 := by
    rw [List.length_append, Base58.length_checksum, Address.payload, List.length_cons,
      a.hash.length_bytes]
  have bound := Bytes.toNatLE_lt (a.payload ++ Base58.checksum a.payload).reverse
  rw [List.length_reverse, size] at bound
  exact Nat.lt_trans bound (by decide)

theorem ofText_eq_ok_iff {text : String} {a : Address} :
    ofText text = .ok a ↔ a.text = text := by
  have written : Base58.decodeCheck text = .ok a.payload ↔ a.text = text := by
    rw [Base58.decodeCheck_eq_ok_iff, Address.text]
    exact ⟨fun h => h.2.1, fun h => ⟨List.cons_ne_nil _ _, h, toNatBE_payload_lt a⟩⟩
  rw [← written]
  unfold ofText
  cases Base58.decodeCheck text with
  | ok payload =>
    rw [Except.ok.injEq, eq_comm (a := payload)]
    exact ofPayload_eq_ok_iff
  | error fault =>
    constructor
    · intro h
      cases h
    · intro h
      cases h

/-- Addresses, their payloads and their texts correspond one to one. An address is read from its
text and from no other, and from its payload and from no other. The text spells the payload and
four bytes of its double SHA-256 in base 58. -/
theorem text_one_to_one :
    (∀ text a, ofText text = .ok a ↔ a.text = text) ∧
    (∀ payload a, ofPayload payload = .ok a ↔ a.payload = payload) ∧
    ∀ a : Address,
      Base58.Spells a.text.toList (a.payload ++ (Hash.sha256d a.payload).bytes.take 4) := by
  refine ⟨fun text a => ofText_eq_ok_iff, fun payload a => ofPayload_eq_ok_iff, fun a => ?_⟩
  exact Base58.encodeCheck_eq_iff.mp rfl

end CoinScript.Address
