import Proofmark.Contracts.ProofmarkASC
import Proofmark.Contracts.RosterProof

/-!
# The registry a consumer calls

`ProofmarkRegistry.sol`: policies, the cache of roster witnesses, and the two ways to a verdict,
`isVerified` from stored state and `verifyWithRoster` from a proof. The registry only reads the
hub, so a hub state is a parameter of every function that does.

The constructor compares version constants of the hub with those it was compiled for; both are
constants of this repository, so it succeeds and leaves the state `deployed`. Registering a policy
past the last identifier overflows and reverts.
-/

open Evm

namespace Proofmark

/-- Raw mark fields as carried in the epoch roster. -/
structure RosterMark where
  attrs : Bytes32
  claimsRoot : Bytes32
  evidenceHash : Bytes32
  issuer : Address
  deriving DecidableEq

structure RosterWitness where
  epoch : Uint 32
  mark : RosterMark
  deriving DecidableEq

/-- The value of a mapping slot never written. -/
def RosterWitness.zero : RosterWitness :=
  ⟨0, ⟨0, 0, 0, 0⟩⟩

/-- Why a call to the registry reverts. -/
inductive RegistryError
  | UnknownPolicy (policyId : Uint 256)
  | NotPolicyOwner (policyId : Uint 256) (caller : Address)
  | FrozenPolicy (policyId : Uint 256)
  | InvalidPolicy
  | InvalidRosterWitness
  | require (reason : String)
  | arithmetic
  deriving DecidableEq

structure ProofmarkRegistry where
  policies : Uint 256 → Policy
  policyOwner : Uint 256 → Address
  policyFrozen : Uint 256 → Bool
  policyKind : Uint 256 → Uint 8
  nextPolicyId : Uint 256
  rosterWitnesses : Address → RosterWitness

namespace ProofmarkRegistry

def NAMESPACE : String := "eip155"

/-- The state the constructor leaves. -/
def deployed : ProofmarkRegistry where
  policies _ := Policy.zero
  policyOwner _ := 0
  policyFrozen _ := false
  policyKind _ := 0
  nextPolicyId := 1
  rosterWitnesses _ := RosterWitness.zero

/-! ### Policies -/

/-- `_validatePolicy`. -/
def validatePolicy (p : Policy) : Except RegistryError Unit :=
  revertIf ((p.requireAll &&& ~~~MarkAttrs.SUPPORTED_METHODS) != 0 || decide (p.minAssurance > 5)
    || decide (p.requiredRegime > 2) || decide (p.requiredJurisdiction > 999)) .InvalidPolicy

/-- `_registerPolicy`. -/
def registerPolicyForKind (g : ProofmarkRegistry) (sender : Address) (p : Policy) (kind : Uint 8) :
    Except RegistryError ProofmarkRegistry := do
  revertIf (kind != 1 && kind != 2) .InvalidPolicy
  validatePolicy p
  let policyId := g.nextPolicyId
  revertIf (policyId == BitVec.allOnes 256) .arithmetic
  return { g with
    nextPolicyId := policyId + 1
    policies := Function.update g.policies policyId { p with exists_ := true }
    policyOwner := Function.update g.policyOwner policyId sender
    policyKind := Function.update g.policyKind policyId kind }

/-- The legacy entry point is individual-only. -/
def registerPolicy (g : ProofmarkRegistry) (sender : Address) (p : Policy) :
    Except RegistryError ProofmarkRegistry :=
  g.registerPolicyForKind sender p 1

def updatePolicy (g : ProofmarkRegistry) (sender : Address) (policyId : Uint 256) (p : Policy) :
    Except RegistryError ProofmarkRegistry := do
  revertIf (!(g.policies policyId).exists_) (.UnknownPolicy policyId)
  revertIf (g.policyOwner policyId != sender) (.NotPolicyOwner policyId sender)
  revertIf (g.policyFrozen policyId) (.FrozenPolicy policyId)
  validatePolicy p
  return { g with policies := Function.update g.policies policyId { p with exists_ := true } }

def transferPolicyOwner (g : ProofmarkRegistry) (sender : Address) (policyId : Uint 256)
    (newOwner : Address) : Except RegistryError ProofmarkRegistry := do
  revertIf (g.policyOwner policyId != sender) (.NotPolicyOwner policyId sender)
  revertIf (newOwner == 0) (.require "zero owner")
  return { g with policyOwner := Function.update g.policyOwner policyId newOwner }

def freezePolicy (g : ProofmarkRegistry) (sender : Address) (policyId : Uint 256) :
    Except RegistryError ProofmarkRegistry := do
  revertIf (!(g.policies policyId).exists_) (.UnknownPolicy policyId)
  revertIf (g.policyOwner policyId != sender) (.NotPolicyOwner policyId sender)
  return { g with policyFrozen := Function.update g.policyFrozen policyId true }

/-! ### Decision -/

/-- `_policyHolds`: a policy against packed attributes. -/
def policyHolds (attrs : Bytes32) (issuer : Address) (p : Policy) (kind : Uint 8) (now : ℕ) :
    Bool :=
  if !MarkAttrs.validSchema attrs || MarkAttrs.kind attrs != kind || issuer == 0 then false
  else
    let assurance := MarkAttrs.assurance attrs
    let regime := MarkAttrs.regime attrs
    let jurisdiction := MarkAttrs.jurisdiction attrs
    let methods := MarkAttrs.methods attrs
    let issuedAt := MarkAttrs.issuedAt attrs
    let expiry := MarkAttrs.expiry attrs
    if (methods &&& p.requireAll) ≠ p.requireAll then false
    else if assurance < p.minAssurance then false
    else if p.requiredRegime ≠ 0 ∧ regime ≠ p.requiredRegime then false
    else if p.requiredJurisdiction ≠ 0 ∧ jurisdiction ≠ p.requiredJurisdiction then false
    else if p.trustedIssuer ≠ 0 ∧ issuer ≠ p.trustedIssuer then false
    else if expiry.toNat ≤ now then false
    else if issuedAt.toNat > now ∨ expiry ≤ issuedAt then false
    else if p.maxAge ≠ 0 ∧ now - issuedAt.toNat > p.maxAge.toNat then false
    else true

/-- `_rosterContains`. -/
def rosterContains (asc : ProofmarkASC) (now : ℕ) (subject : Address) (mark : RosterMark)
    (inclusion : RosterProof.Inclusion) : Bool :=
  if subject = 0 then false
  else if asc.tombstone subject then false
  else if !asc.isRosterFresh now then false
  else if !asc.isEpochIssuerUsable asc.latestEpoch mark.issuer then false
  else
    let root := asc.epochRoots asc.latestEpoch
    if root = 0 then false
    else
      let leaf := RosterProof.leafOf (RosterProof.subjectKey NAMESPACE subject)
        (RosterProof.markHash mark.attrs mark.claimsRoot mark.evidenceHash mark.issuer)
      RosterProof.verifyInclusion root leaf inclusion

/-- Proof mode. -/
def verifyWithRoster (g : ProofmarkRegistry) (asc : ProofmarkASC) (now : ℕ) (subject : Address)
    (policyId : Uint 256) (mark : RosterMark) (inclusion : RosterProof.Inclusion) : Bool :=
  let p := g.policies policyId
  if !p.exists_ then false
  else
    rosterContains asc now subject mark inclusion
      && policyHolds mark.attrs mark.issuer p (g.policyKind policyId) now

/-- Permissionless delivery of a proof for storage-only consumers. -/
def cacheRosterWitness (g : ProofmarkRegistry) (asc : ProofmarkASC) (now : ℕ) (subject : Address)
    (mark : RosterMark) (inclusion : RosterProof.Inclusion) :
    Except RegistryError ProofmarkRegistry := do
  revertIf (!rosterContains asc now subject mark inclusion) .InvalidRosterWitness
  return { g with
    rosterWitnesses := Function.update g.rosterWitnesses subject ⟨asc.latestEpoch, mark⟩ }

/-- `_fresh`: freshness by provenance. -/
def fresh (asc : ProofmarkASC) (now : ℕ) (m : Mark) (p : Policy) : Bool :=
  if m.origin = .Roster then
    if m.epoch ≠ asc.latestEpoch then false
    else if !asc.isEpochIssuerUsable m.epoch m.issuer then false
    else asc.isRosterFresh now
  else m.origin == .Direct && !p.requireRoster

/-- Storage mode. -/
def isVerified (g : ProofmarkRegistry) (asc : ProofmarkASC) (now : ℕ) (subject : Address)
    (policyId : Uint 256) : Bool :=
  let p := g.policies policyId
  if !p.exists_ then false
  else if asc.tombstone subject then false
  else if p.requireRoster then
    let w := g.rosterWitnesses subject
    if w.epoch = 0 ∨ w.epoch ≠ asc.latestEpoch ∨ !asc.isRosterFresh now then false
    else if !asc.isEpochIssuerUsable w.epoch w.mark.issuer then false
    else policyHolds w.mark.attrs w.mark.issuer p (g.policyKind policyId) now
  else
    let m := asc.getMark subject
    if m.status ≠ .Active then false
    else if !asc.isMarkIssuerUsable subject then false
    else
      let attrs := MarkAttrs.pack m.kind m.assurance m.regime m.jurisdiction m.methods m.issuedAt
        m.expiry m.epoch
      if !policyHolds attrs m.issuer p (g.policyKind policyId) now then false
      else fresh asc now m p

/-- Absence from the current, unexpired roster. -/
def proveNotInRoster (asc : ProofmarkASC) (now : ℕ) (subject : Address)
    (proof : RosterProof.NonInclusion) : Bool :=
  if !asc.isRosterFresh now then false
  else
    let root := asc.epochRoots asc.latestEpoch
    if root = 0 then false
    else RosterProof.verifyNonInclusion root (RosterProof.subjectKey NAMESPACE subject) proof

/-- Sanction status on its own. -/
def isDenied (asc : ProofmarkASC) (subject : Address) : Bool :=
  asc.tombstone subject && (asc.getMark subject).status == .Denied

/-! ### Calls -/

/-- A state-changing call to the registry. -/
inductive Call
  | registerPolicy (sender : Address) (p : Policy)
  | registerPolicyForKind (sender : Address) (p : Policy) (kind : Uint 8)
  | updatePolicy (sender : Address) (policyId : Uint 256) (p : Policy)
  | transferPolicyOwner (sender : Address) (policyId : Uint 256) (newOwner : Address)
  | freezePolicy (sender : Address) (policyId : Uint 256)
  | cacheRosterWitness (now : ℕ) (subject : Address) (mark : RosterMark)
      (inclusion : RosterProof.Inclusion)

/-- Run one call against the hub state it reads. -/
def exec (g : ProofmarkRegistry) (asc : ProofmarkASC) : Call → Except RegistryError ProofmarkRegistry
  | .registerPolicy sender p => g.registerPolicy sender p
  | .registerPolicyForKind sender p kind => g.registerPolicyForKind sender p kind
  | .updatePolicy sender policyId p => g.updatePolicy sender policyId p
  | .transferPolicyOwner sender policyId newOwner => g.transferPolicyOwner sender policyId newOwner
  | .freezePolicy sender policyId => g.freezePolicy sender policyId
  | .cacheRosterWitness now subject mark inclusion =>
    g.cacheRosterWitness asc now subject mark inclusion

end ProofmarkRegistry

/-! ### Hub and registry together -/

/-- The two contracts on one chain. -/
structure HubChain where
  asc : ProofmarkASC
  registry : ProofmarkRegistry

namespace HubChain

inductive Call
  | asc (call : ProofmarkASC.Call)
  | registry (call : ProofmarkRegistry.Call)

def deployed (o : Ownable2Step) : HubChain :=
  ⟨ProofmarkASC.deployed o, ProofmarkRegistry.deployed⟩

/-- Run one call to either contract. -/
def exec (decoder : EvmV1Decoder) (h : HubChain) : Call → Except (AscError ⊕ RegistryError) HubChain
  | .asc call => do
    let asc ← (h.asc.exec decoder call).mapError .inl
    return { h with asc := asc }
  | .registry call => do
    let registry ← (h.registry.exec h.asc call).mapError .inr
    return { h with registry := registry }

/-- The state after a run of both contracts. -/
def after (decoder : EvmV1Decoder) (o : Ownable2Step) (calls : List Call) : HubChain :=
  run (exec decoder) (deployed o) calls

/-- The calls of a run that went to the hub. -/
def Call.asc? : Call → Option ProofmarkASC.Call
  | .asc call => some call
  | .registry _ => none

end HubChain

end Proofmark
