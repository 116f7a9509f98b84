import Proofmark.Aml.Blocking
import Proofmark.Aml.BoundedDistance
import Proofmark.Aml.CharacterData
import Proofmark.Aml.Completeness
import Proofmark.Aml.Disguises
import Proofmark.Aml.EditDistance
import Proofmark.Aml.Escalation
import Proofmark.Aml.Evidence
import Proofmark.Aml.Identity
import Proofmark.Aml.IndexFormat
import Proofmark.Aml.IndexScreening
import Proofmark.Aml.ListParsers
import Proofmark.Aml.Match
import Proofmark.Aml.NameLaws
import Proofmark.Aml.Normalize
import Proofmark.Aml.Provenance
import Proofmark.Aml.Romanize
import Proofmark.Aml.RomanizedNames
import Proofmark.Aml.Screen
import Proofmark.Aml.SlimScreening
import Proofmark.Asset.Effects
import Proofmark.Asset.Recovery
import Proofmark.Async.Program
import Proofmark.Async.Traced
import Proofmark.Bank.Agreement
import Proofmark.Bank.Runs
import Proofmark.Bank.Safety
import Proofmark.Bank.State
import Proofmark.Budget.Ledger
import Proofmark.Budget.State
import Proofmark.Circuit.Circomlib
import Proofmark.Clocked.Run
import Proofmark.Collection.Log
import Proofmark.Collection.Multimap
import Proofmark.Collection.Table
import Proofmark.Contracts.ComplianceSource
import Proofmark.Contracts.Events
import Proofmark.Contracts.GatedRwaNote
import Proofmark.Contracts.Ownable2Step
import Proofmark.Contracts.ProofmarkASC
import Proofmark.Contracts.ProofmarkRegistry
import Proofmark.Contracts.RosterProof
import Proofmark.Contracts.RotatingIssuer
import Proofmark.Contracts.Types
import Proofmark.Delivery.Consumable
import Proofmark.Delivery.Delivered
import Proofmark.Delivery.Denial
import Proofmark.Delivery.Epochs
import Proofmark.Edit.Distance
import Proofmark.Evm.Bytes
import Proofmark.Evm.Execution
import Proofmark.Evm.Keccak
import Proofmark.Evm.Memory
import Proofmark.Evm.Sha256
import Proofmark.Format.JsonText
import Proofmark.Format.Rlp
import Proofmark.Format.Utf8
import Proofmark.Hub.Confluence
import Proofmark.Hub.Cutoffs
import Proofmark.Hub.Epochs
import Proofmark.Hub.Progress
import Proofmark.Hub.Receipts
import Proofmark.Hub.Record
import Proofmark.Hub.Replay
import Proofmark.Hub.Runs
import Proofmark.Image.Container
import Proofmark.Image.Framing
import Proofmark.Image.Jpeg
import Proofmark.Image.Png
import Proofmark.Issuance.Journal
import Proofmark.Issuance.Retention
import Proofmark.Issuer.Compromise
import Proofmark.Issuer.Keys
import Proofmark.Issuer.Moves
import Proofmark.Lifecycle.History
import Proofmark.Merkle.Chain
import Proofmark.Merkle.Commutative
import Proofmark.Merkle.Patricia
import Proofmark.Merkle.Positional
import Proofmark.Numeric.Decimal
import Proofmark.Numeric.Double
import Proofmark.Numeric.Int32
import Proofmark.Numeric.Lucas
import Proofmark.Order.Gap
import Proofmark.Order.LastWriter
import Proofmark.Pipeline.Absence
import Proofmark.Pipeline.Addresses
import Proofmark.Pipeline.Attrs
import Proofmark.Pipeline.AttrsCodec
import Proofmark.Pipeline.BundleLaws
import Proofmark.Pipeline.BundleRoundTrip
import Proofmark.Pipeline.BundleText
import Proofmark.Pipeline.Canonical
import Proofmark.Pipeline.Claims
import Proofmark.Pipeline.CredentialReplay
import Proofmark.Pipeline.Disclosure
import Proofmark.Pipeline.Evidence
import Proofmark.Pipeline.ExternalCredential
import Proofmark.Pipeline.Inclusion
import Proofmark.Pipeline.Json
import Proofmark.Pipeline.ReceiptRoot
import Proofmark.Pipeline.ReceiptTrie
import Proofmark.Pipeline.Roster
import Proofmark.Pipeline.RosterBundle
import Proofmark.Pipeline.WalletAnswers
import Proofmark.Pipeline.WalletFence
import Proofmark.Pipeline.WalletSession
import Proofmark.Registry.Diagnosis
import Proofmark.Registry.ProofMode
import Proofmark.Registry.RevocationCheck
import Proofmark.Registry.RevocationVerdict
import Proofmark.Registry.StorageMode
import Proofmark.Source.Chain
import Proofmark.Source.Effects
import Proofmark.Source.Governance
import Proofmark.Source.Invariants
import Proofmark.Source.Receipts
import Proofmark.Sumsub.Evidence
import Proofmark.Sumsub.Fence
import Proofmark.Sumsub.Runs
import Proofmark.Sumsub.Stores
import Proofmark.Vault.Activation
import Proofmark.Vault.Backup
import Proofmark.Vault.Data
import Proofmark.Vault.Deletion
import Proofmark.Vault.Dossier
import Proofmark.Vault.Observation
import Proofmark.Vault.Operations
import Proofmark.Vault.Outbox
import Proofmark.Vault.Restore
import Proofmark.Vault.Revocation
import Proofmark.Vault.RevocationOrder
import Proofmark.Vault.Serial
import Proofmark.Vault.Signed
import Proofmark.Vault.Syscalls
import Proofmark.Vault.Writer
import Proofmark.Worker.Guards
import Proofmark.Worker.Lawful
import Proofmark.Worker.MainSafety
import Proofmark.Worker.Monitor
import Proofmark.Worker.MonitorSafety
import Proofmark.Worker.Process
import Proofmark.Worker.QueryId
import Proofmark.Worker.Recovery
import Proofmark.Worker.Relay
import Proofmark.Worker.RelayRules
import Proofmark.Worker.RelaySafety
import Proofmark.Worker.ScanLaws
import Proofmark.Worker.ScanSafety
import Proofmark.Worker.SourceEvents
import Proofmark.Worker.SourceScan
import Proofmark.Worker.Store
import Proofmark.Worker.TaskSafety
import Proofmark.Worker.Transport
import Proofmark.Worker.WorkerRules
import Proofmark.Zk.KycPolicy
import Proofmark.Zk.PolicyGate
