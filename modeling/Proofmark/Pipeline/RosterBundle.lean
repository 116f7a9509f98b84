import Proofmark.Order.Gap
import Proofmark.Pipeline.Roster

/-!
# Proofs from a roster bundle

The lookup of `pipeline/roster-bundle.ts`: a bisection over the keys of the rebuilt tree, and from
where it ends either the inclusion proof of the subject or the gap the subject would be in.
-/

open Evm

namespace Proofmark

namespace Pipeline

/-- What `proof` returns, without the metadata of the bundle. -/
inductive BundleProof
  | nonInclusion (proof : NonInclusionProof)
  | inclusion (entry : RosterEntry) (proof : InclusionProof)

/-- Where the bisection of `proof` ends. -/
def lookup (tree : RosterTree) (key : Bytes32) : ℕ :=
  SortedGap.lowerBound (fun mid ↦ decide (tree.keys.getD mid 0 < key)) 1 (tree.keys.length - 1)

/-- `proof` of a loaded bundle. The subject is a nonzero address. -/
def bundleProof (tree : RosterTree) (subject : Address) : Except RosterError BundleProof := do
  revertIf (subject == 0) .invalidProofSubject
  let key := subjectKey subject EVM_NAMESPACE
  let lo := lookup tree key
  if tree.keys.getD lo 0 ≠ key then
    return .nonInclusion (← gapProof tree lo)
  else
    let entry ← getOrRevert tree.entries[lo - 1]? .indexOutOfRange
    return .inclusion entry (← inclusionProof tree (.integer (leafIndexOf (lo - 1))))

end Pipeline

end Proofmark
