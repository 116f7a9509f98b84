import Proofmark.Contracts.Ownable2Step

/-!
# The gated asset

`GatedRwaNote.sol`. The `ERC20` it inherits from is not part of the repository: it is a parameter
(`Erc20`) that says what the base contract stores, which movement of balances each of its functions
hands to the virtual `_update`, and what `ERC20._update` does with it. The override of `_update`,
and everything about recoveries, is translated.

Events of the inherited contracts are left out. What the registry answers is part of the
environment of a call. Every query is a static call and nothing but the registry is called, so one
function describes all answers of one call.
-/

open Evm

namespace Proofmark

/-! ### The inherited token -/

/-- The arguments of `_update(from, to, value)`. -/
structure Movement where
  from_ : Address
  to_ : Address
  value : Uint 256
  deriving DecidableEq

/-- The functions of the base contract that may reach `_update`, with their caller where they read
it. -/
inductive TokenEntry
  /-- `_mint` -/
  | mint (account : Address) (value : Uint 256)
  /-- `_burn` -/
  | burn (account : Address) (value : Uint 256)
  /-- `_transfer` -/
  | move (from_ to_ : Address) (value : Uint 256)
  | transfer (sender to_ : Address) (value : Uint 256)
  | transferFrom (sender from_ to_ : Address) (value : Uint 256)
  | approve (sender spender : Address) (value : Uint 256)
  deriving DecidableEq

/-- The `ERC20` the note inherits from. -/
structure Erc20 where
  Storage : Type
  balanceOf : Storage → Address → Uint 256
  /-- What a function does before `_update`, and the movement it passes on; `none` reverts. -/
  route : TokenEntry → Storage → Option (Storage × Option Movement)
  /-- `ERC20._update`, the function the note overrides. -/
  superUpdate : Storage → Movement → Option Storage

/-! ### Environment and state -/

structure NoteEnv where
  timestamp : ℕ
  sender : Address
  sender_ne_zero : sender ≠ 0
  /-- `REGISTRY.isVerified(subject, policyId)`; `none` is a query that reverts. -/
  isVerified : Address → Uint 256 → Option Bool

inductive RecoveryKind
  | Transfer
  | Burn
  deriving DecidableEq

structure RecoveryRequest where
  from_ : Address
  to_ : Address
  amount : Uint 256
  reasonHash : Bytes32
  proposer : Address
  approver : Address
  executeAfter : Uint 40
  kind : RecoveryKind
  executed : Bool
  deriving DecidableEq

/-- The value of a mapping slot never written. -/
def RecoveryRequest.zero : RecoveryRequest :=
  ⟨0, 0, 0, 0, 0, 0, 0, .Transfer, false⟩

inductive NoteError
  | SenderNotVerified (from_ : Address) (policyId : Uint 256)
  | RecipientNotVerified (to_ : Address) (policyId : Uint 256)
  | PolicyMustBeFrozen (policyId : Uint 256)
  | PolicyMustRequireRoster (policyId : Uint 256)
  | RecoveryGovernanceAlreadyConfigured
  | InvalidRecoveryGovernance
  | NotRecoveryProposer (caller : Address)
  | NotRecoveryApprover (caller : Address)
  | InvalidRecoveryRequest
  | RecoveryNotApproved (recoveryId : Uint 256)
  | RecoveryDelayActive (recoveryId : Uint 256) (executeAfter : Uint 40)
  | zeroRegistry
  | unsupportedRosterWitness
  | registry
  | erc20
  | arithmetic
  | ownable (e : OwnableError)
  deriving DecidableEq

inductive NoteEvent
  | RecoveryGovernanceConfigured (proposer approver : Address) (minimumDelay : ℕ)
  | RecoveryProposed (recoveryId : Uint 256) (kind : RecoveryKind) (from_ to_ : Address)
      (amount : Uint 256) (reasonHash : Bytes32) (proposer : Address) (executeAfter : Uint 40)
  | RecoveryApproved (recoveryId : Uint 256) (approver : Address) (reasonHash : Bytes32)
  | RecoveryExecuted (recoveryId : Uint 256) (kind : RecoveryKind) (from_ to_ : Address)
      (amount : Uint 256) (reasonHash : Bytes32) (proposer approver : Address)
  deriving DecidableEq

structure GatedRwaNote (T : Erc20) where
  base : T.Storage
  ownable : Ownable2Step
  POLICY_ID : Uint 256
  complianceBypass : Bool
  recoveryProposer : Address
  recoveryApprover : Address
  nextRecoveryId : Uint 256
  recoveryRequests : Uint 256 → RecoveryRequest

namespace GatedRwaNote

variable {T : Erc20}

/-- `1 hours`. -/
def MIN_RECOVERY_DELAY : ℕ := 3600

def balanceOf (s : GatedRwaNote T) (account : Address) : ℕ :=
  (T.balanceOf s.base account).toNat

/-- What the constructor reads of the registry. -/
structure RegistryView where
  policyFrozen : Uint 256 → Option Bool
  policyRequiresRoster : Uint 256 → Option Bool
  rosterWitnessVersion : Option (Uint 256)

/-- `constructor`, after that of `ERC20` left `base`. -/
def construct (view : RegistryView) (base : T.Storage) (registry : Address) (policyId : Uint 256)
    (initialOwner : Address) : Except NoteError (GatedRwaNote T) := do
  let ownable ← (Ownable2Step.construct initialOwner).mapError .ownable
  revertIf (registry == 0) .zeroRegistry
  let frozen ← getOrRevert (view.policyFrozen policyId) .registry
  revertIf (!frozen) (.PolicyMustBeFrozen policyId)
  let version ← getOrRevert view.rosterWitnessVersion .registry
  revertIf (version != 1) .unsupportedRosterWitness
  let requires ← getOrRevert (view.policyRequiresRoster policyId) .registry
  revertIf (!requires) (.PolicyMustRequireRoster policyId)
  return {
    base := base
    ownable := ownable
    POLICY_ID := policyId
    complianceBypass := false
    recoveryProposer := 0
    recoveryApprover := 0
    nextRecoveryId := 1
    recoveryRequests := fun _ ↦ RecoveryRequest.zero }

/-! ### The hook -/

/-- `if (!REGISTRY.isVerified(account, POLICY_ID)) revert e;` -/
def requireVerified (s : GatedRwaNote T) (env : NoteEnv) (account : Address) (e : NoteError) :
    Except NoteError Unit := do
  let verified ← getOrRevert (env.isVerified account s.POLICY_ID) .registry
  revertIf (!verified) e

/-- `_update`, the override. -/
def update (s : GatedRwaNote T) (env : NoteEnv) (m : Movement) :
    Except NoteError (GatedRwaNote T) := do
  checkIf (!s.complianceBypass && m.from_ != 0)
    (s.requireVerified env m.from_ (.SenderNotVerified m.from_ s.POLICY_ID))
  checkIf (m.to_ != 0) (s.requireVerified env m.to_ (.RecipientNotVerified m.to_ s.POLICY_ID))
  let base ← getOrRevert (T.superUpdate s.base m) .erc20
  return { s with base := base }

/-- A function of the base contract, through the overridden hook. -/
def enter (s : GatedRwaNote T) (env : NoteEnv) (entry : TokenEntry) :
    Except NoteError (GatedRwaNote T) := do
  let (base, movement) ← getOrRevert (T.route entry s.base) .erc20
  match movement with
  | none => return { s with base := base }
  | some m => update { s with base := base } env m

/-! ### External functions -/

/-- The result of a call that does not revert. -/
abbrev Result (T : Erc20) := Except NoteError (GatedRwaNote T × List NoteEvent)

def mint (s : GatedRwaNote T) (env : NoteEnv) (to_ : Address) (amount : Uint 256) : Result T := do
  (s.ownable.onlyOwner env.sender).mapError NoteError.ownable
  let s ← s.enter env (.mint to_ amount)
  return (s, [])

def burn (s : GatedRwaNote T) (env : NoteEnv) (amount : Uint 256) : Result T := do
  let s ← s.enter env (.burn env.sender amount)
  return (s, [])

def configureRecoveryGovernance (s : GatedRwaNote T) (env : NoteEnv)
    (proposer approver : Address) : Result T := do
  (s.ownable.onlyOwner env.sender).mapError NoteError.ownable
  revertIf (s.recoveryProposer != 0) .RecoveryGovernanceAlreadyConfigured
  revertIf (proposer == 0 || approver == 0 || proposer == approver) .InvalidRecoveryGovernance
  return ({ s with recoveryProposer := proposer, recoveryApprover := approver },
    [.RecoveryGovernanceConfigured proposer approver MIN_RECOVERY_DELAY])

def proposeRecovery (s : GatedRwaNote T) (env : NoteEnv) (kind : RecoveryKind)
    (from_ to_ : Address) (amount : Uint 256) (reasonHash : Bytes32) : Result T := do
  revertIf (env.sender != s.recoveryProposer) (.NotRecoveryProposer env.sender)
  revertIf (from_ == 0 || amount == 0 || reasonHash == 0 || (kind == .Transfer && to_ == 0)
    || (kind == .Burn && to_ != 0)) .InvalidRecoveryRequest
  checkIf (kind == .Transfer)
    (s.requireVerified env to_ (.RecipientNotVerified to_ s.POLICY_ID))
  let recoveryId := s.nextRecoveryId
  revertIf (recoveryId == BitVec.allOnes 256) .arithmetic
  revertIf (decide (2 ^ 256 ≤ env.timestamp + MIN_RECOVERY_DELAY)) .arithmetic
  let executeAfter : Uint 40 := BitVec.ofNat 40 (env.timestamp + MIN_RECOVERY_DELAY)
  return ({ s with
    nextRecoveryId := recoveryId + 1
    recoveryRequests := Function.update s.recoveryRequests recoveryId
      { from_ := from_
        to_ := to_
        amount := amount
        reasonHash := reasonHash
        proposer := env.sender
        approver := 0
        executeAfter := executeAfter
        kind := kind
        executed := false } },
    [.RecoveryProposed recoveryId kind from_ to_ amount reasonHash env.sender executeAfter])

def approveRecovery (s : GatedRwaNote T) (env : NoteEnv) (recoveryId : Uint 256) : Result T := do
  revertIf (env.sender != s.recoveryApprover) (.NotRecoveryApprover env.sender)
  let request := s.recoveryRequests recoveryId
  revertIf (request.proposer == 0 || request.approver != 0 || request.executed)
    .InvalidRecoveryRequest
  return ({ s with
    recoveryRequests := Function.update s.recoveryRequests recoveryId
      { request with approver := env.sender } },
    [.RecoveryApproved recoveryId env.sender request.reasonHash])

/-- The inner call of `executeRecovery`. -/
def recoveryEntry (request : RecoveryRequest) : TokenEntry :=
  match request.kind with
  | .Transfer => .move request.from_ request.to_ request.amount
  | .Burn => .burn request.from_ request.amount

def executeRecovery (s : GatedRwaNote T) (env : NoteEnv) (recoveryId : Uint 256) : Result T := do
  let request := s.recoveryRequests recoveryId
  revertIf (request.proposer == 0 || request.executed) .InvalidRecoveryRequest
  revertIf (request.approver == 0) (.RecoveryNotApproved recoveryId)
  revertIf (decide (env.timestamp < request.executeAfter.toNat))
    (.RecoveryDelayActive recoveryId request.executeAfter)
  checkIf (request.kind == .Transfer)
    (s.requireVerified env request.to_ (.RecipientNotVerified request.to_ s.POLICY_ID))
  let s := { s with
    recoveryRequests := Function.update s.recoveryRequests recoveryId
      { request with executed := true }
    complianceBypass := true }
  let s ← s.enter env (recoveryEntry request)
  return ({ s with complianceBypass := false },
    [.RecoveryExecuted recoveryId request.kind request.from_ request.to_ request.amount
      request.reasonHash request.proposer request.approver])

/-- An inherited function of the token. -/
def inherited (s : GatedRwaNote T) (env : NoteEnv) (entry : TokenEntry) : Result T := do
  let s ← s.enter env entry
  return (s, [])

def transferOwnership (s : GatedRwaNote T) (env : NoteEnv) (newOwner : Address) : Result T := do
  let o ← (s.ownable.transferOwnership env.sender newOwner).mapError .ownable
  return ({ s with ownable := o }, [])

def acceptOwnership (s : GatedRwaNote T) (env : NoteEnv) : Result T := do
  let o ← (s.ownable.acceptOwnership env.sender).mapError .ownable
  return ({ s with ownable := o }, [])

def renounceOwnership (s : GatedRwaNote T) (env : NoteEnv) : Result T := do
  let o ← (s.ownable.renounceOwnership env.sender).mapError .ownable
  return ({ s with ownable := o }, [])

/-! ### Calls -/

/-- A state-changing call to the note. -/
inductive Call
  | mint (to_ : Address) (amount : Uint 256)
  | burn (amount : Uint 256)
  | configureRecoveryGovernance (proposer approver : Address)
  | proposeRecovery (kind : RecoveryKind) (from_ to_ : Address) (amount : Uint 256)
      (reasonHash : Bytes32)
  | approveRecovery (recoveryId : Uint 256)
  | executeRecovery (recoveryId : Uint 256)
  | transfer (to_ : Address) (value : Uint 256)
  | transferFrom (from_ to_ : Address) (value : Uint 256)
  | approve (spender : Address) (value : Uint 256)
  | transferOwnership (newOwner : Address)
  | acceptOwnership
  | renounceOwnership
  deriving DecidableEq

/-- Run one call. -/
def exec (s : GatedRwaNote T) (env : NoteEnv) : Call → Result T
  | .mint to_ amount => s.mint env to_ amount
  | .burn amount => s.burn env amount
  | .configureRecoveryGovernance proposer approver =>
    s.configureRecoveryGovernance env proposer approver
  | .proposeRecovery kind from_ to_ amount reasonHash =>
    s.proposeRecovery env kind from_ to_ amount reasonHash
  | .approveRecovery recoveryId => s.approveRecovery env recoveryId
  | .executeRecovery recoveryId => s.executeRecovery env recoveryId
  | .transfer to_ value => s.inherited env (.transfer env.sender to_ value)
  | .transferFrom from_ to_ value => s.inherited env (.transferFrom env.sender from_ to_ value)
  | .approve spender value => s.inherited env (.approve env.sender spender value)
  | .transferOwnership newOwner => s.transferOwnership env newOwner
  | .acceptOwnership => s.acceptOwnership env
  | .renounceOwnership => s.renounceOwnership env

end GatedRwaNote

end Proofmark
