import CoinScript.Curve.PublicKey
import CoinScript.Script.Shape
/-!
# Addresses

An address names a network, a kind and a 20-byte hash. Its payload is one byte for
network and kind, followed by the hash; its text is the payload in base 58 with a
checksum.
-/

namespace CoinScript

/-- The networks. -/
inductive Network where
  | mainnet
  | testnet
deriving DecidableEq, Repr

/-- What the hash of an address is a hash of. -/
inductive AddressKind where
  | pubkeyHash
  | scriptHash
deriving DecidableEq, Repr

/-- An address. -/
structure Address where
  network : Network
  kind : AddressKind
  hash : Digest 20
deriving DecidableEq

namespace Network

/-- All networks. -/
def all : List Network := [mainnet, testnet]

/-- The name of a network. -/
def name : Network → String
  | mainnet => "mainnet"
  | testnet => "testnet"

/-- The first byte of the payloads of a kind. -/
def code : Network → AddressKind → UInt8
  | mainnet, .pubkeyHash => 0x1e
  | mainnet, .scriptHash => 0x16
  | testnet, .pubkeyHash => 0x71
  | testnet, .scriptHash => 0xc4

end Network

namespace AddressKind

/-- All kinds. -/
def all : List AddressKind := [pubkeyHash, scriptHash]

/-- The name of a kind. -/
def name : AddressKind → String
  | pubkeyHash => "PubkeyHash"
  | scriptHash => "ScriptHash"

end AddressKind

namespace Address

/-- The address of a serialized public key. -/
def ofKeyBytes (key : Bytes) (network : Network) : Address :=
  ⟨network, .pubkeyHash, Hash.hash160 key⟩

/-- The address of a public key in its short form. -/
def ofPublicKey (key : PublicKey) (network : Network) : Address :=
  ofKeyBytes key.serialize.bytes network

/-- The address of a redeem script. -/
def ofScript (script : Script) (network : Network) : Address :=
  ⟨network, .scriptHash, script.scriptHash⟩

/-- The first byte of the payload. -/
def code (a : Address) : UInt8 :=
  a.network.code a.kind

/-- The payload. -/
def payload (a : Address) : Bytes :=
  a.code :: a.hash.bytes

/-- The network and the kind that a first byte stands for. -/
def classify? (code : UInt8) : Option (Network × AddressKind) :=
  (Network.all.flatMap fun network => AddressKind.all.map fun kind => (network, kind)).find?
    fun (network, kind) => network.code kind == code

/-- Read a payload. -/
def ofPayload (payload : Bytes) : Except Error Address :=
  match payload with
  | [] => .error (.invalidInput (.payloadSize 0))
  | code :: hash =>
    if h : hash.length = 20 then
      match classify? code with
      | some (network, kind) => .ok ⟨network, kind, ⟨hash, h⟩⟩
      | none => .error (.invalidInput (.unknownNetwork code))
    else .error (.invalidInput (.payloadSize payload.length))

/-- The text of an address. -/
def text (a : Address) : String :=
  Base58.encodeCheck a.payload

/-- Read the text of an address. -/
def ofText (text : String) : Except Error Address :=
  match Base58.decodeCheck text with
  | .ok payload => ofPayload payload
  | .error fault => .error (.invalidInput (.addressText fault))

/-- The script that pays to an address. -/
def lockScript (a : Address) : Script :=
  match a.kind with
  | .pubkeyHash => Script.payToPubkeyHash a.hash
  | .scriptHash => Script.payToScriptHash a.hash

/-- Only an address of a key hash can be spent with a signature and a key. -/
def requirePubkeyHash (a : Address) : Except Error Unit :=
  match a.kind with
  | .pubkeyHash => .ok ()
  | .scriptHash => .error (.construction (.notPubkeyHash a.text))

end Address

end CoinScript
