import CoinScript.ConfigStore
import CoinScript.Machine
import CoinScript.Proofs.AddressText
import CoinScript.Proofs.Alternatives
import CoinScript.Proofs.AssemblyText
import CoinScript.Proofs.Authorization
import CoinScript.Proofs.Branches
import CoinScript.Proofs.ByteDeletion
import CoinScript.Proofs.Commitment
import CoinScript.Proofs.Contract
import CoinScript.Proofs.ExactArithmetic
import CoinScript.Proofs.FaultFree
import CoinScript.Proofs.HashTemplates
import CoinScript.Proofs.Independence
import CoinScript.Proofs.Isolation
import CoinScript.Proofs.KeyHashSigning
import CoinScript.Proofs.Layers
import CoinScript.Proofs.Locality
import CoinScript.Proofs.LockTimes
import CoinScript.Proofs.LongNumbers
import CoinScript.Proofs.MultisigDecision
import CoinScript.Proofs.MultisigScripts
import CoinScript.Proofs.MultisigSigning
import CoinScript.Proofs.Negation
import CoinScript.Proofs.Pushes
import CoinScript.Proofs.Radix
import CoinScript.Proofs.Separators
import CoinScript.Proofs.StackEffects
import CoinScript.Proofs.Underflow
import CoinScript.Proofs.WireForms
import CoinScript.Script.Assembly
import CoinScript.Signer
import CoinScript.Template
import CoinScript.Transaction.Json
