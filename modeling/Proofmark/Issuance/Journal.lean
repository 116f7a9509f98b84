import Proofmark.Vault.Data
import Mathlib.Logic.Function.Basic

/-!
# The issuance journal: the script that Redis runs

`issuance-journal.ts`. One hash for each request holds its sealed entry, a lease, and the deadline
of a completed entry; three more keys are shared: the gate of each signer, the sorted set of pending
requests and the set of requests that hold a gate. `lua` is `ISSUANCE_JOURNAL_LUA`, one atomic step
on them all. A request lease expires; the gate of a signer does not.

`Move` says what a call can do to the live keys, guards included, and `lua_spec` that a call drops
the keys that are due and then makes such a move.
-/

open Evm

namespace Proofmark.Issuance

open Pipeline (Text)

/-! ### Entries -/

inductive IssuancePhase
  | prepared | submitted | sourceConfirmed | materialized | failed
  deriving DecidableEq

structure SignedIssuance where
  hash : Bytes32
  raw : Bytes
  nonce : ℕ
  chainId : ℕ
  source : Address
  issuer : Address
  /-- Decimal gas ceiling bound to the signed transaction. -/
  gasLimit : Option ℕ
  deriving DecidableEq

structure SourceConfirmation where
  blockNumber : ℕ
  blockHash : Bytes32
  transactionIndex : ℕ
  confirmedAt : ℕ
  gasUsed : Option ℕ
  deriving DecidableEq

inductive IssuerMode
  | direct | rotating
  deriving DecidableEq

structure IssuanceTarget where
  chainId : ℕ
  source : Address
  issuer : Address
  hubChainId : ℕ
  asc : Address
  /-- Absent and `direct` preserve the legacy EOA path. -/
  issuerMode : Option IssuerMode
  operatingKey : Option Address
  issuerKeyEpoch : Option ℕ
  deriving DecidableEq

/-- What an `IssueOutcome` has when its status is `ISSUED`. -/
structure Issued where
  attrs : Bytes32
  claimsRoot : Bytes32
  expiry : ℕ
  deriving DecidableEq

structure IssueOutcome where
  evidenceHash : Bytes32
  issued : Option Issued
  deriving DecidableEq

structure RevertedTransaction where
  hash : Bytes32
  nonce : ℕ
  at_ : ℕ
  deriving DecidableEq

/-- `IssuanceEntry`. The fields that nothing here reads (the fingerprint, the consent, the policies
and the rest of the outcome) are one text. -/
structure IssuanceEntry where
  requestId : Bytes32
  wallet : Address
  /-- A never-signed preparation cannot be sent after this deadline. -/
  prepareUntil : ℕ
  phase : IssuancePhase
  target : IssuanceTarget
  outcome : IssueOutcome
  evidenceRecord : Option Vault.VaultRecord
  evidenceStored : Bool
  transaction : Option SignedIssuance
  revertedTransactions : List RevertedTransaction
  sourceConfirmation : Option SourceConfirmation
  broadcastAcceptedAt : Option ℕ
  materializedAt : Option ℕ
  lastError : Option String
  rest : Text
  deriving DecidableEq

structure JournalSnapshot where
  revision : ℕ
  entry : IssuanceEntry
  deriving DecidableEq

/-- The pair whose digest names a signer's gate: the chain and the issuer. -/
abbrev SignerKey := ℕ × Address

namespace IssuanceEntry

def needsSigner (entry : IssuanceEntry) : Bool :=
  entry.outcome.issued.isSome
    && (decide (entry.phase = .prepared) || decide (entry.phase = .submitted))

def terminal (entry : IssuanceEntry) : Bool :=
  decide (entry.phase = .failed) || decide (entry.phase = .materialized)

def signerKey (entry : IssuanceEntry) : SignerKey :=
  (entry.target.chainId, entry.target.issuer)

theorem not_needsSigner_of_terminal {entry : IssuanceEntry} (h : entry.terminal = true) :
    entry.needsSigner = false := by
  rcases hphase : entry.phase <;> simp_all [terminal, needsSigner]

end IssuanceEntry

/-! ### The keys -/

/-- The UUID of a caller. -/
abbrev Owner := ℕ

/-- A request's hash, with the `PEXPIRETIME` of its key. -/
structure RequestHash where
  revision : ℕ
  payload : IssuanceEntry
  signer : SignerKey
  needsSigner : Bool
  owner : Option Owner
  leaseUntil : ℕ
  terminalExpiresAt : Option ℕ
  expiresAt : Option ℕ
  deriving DecidableEq

structure Keyspace where
  requests : Bytes32 → Option RequestHash
  signers : SignerKey → Option Bytes32
  /-- The sorted set, each member with its score. -/
  pending : List (Bytes32 × ℕ)
  activeSigners : List Bytes32

def retentionMs : ℕ := 86400000

def leaseMs : ℕ := 30000

def MAX_SAFE_INTEGER : ℕ := 2 ^ 53 - 1

/-- A key of Redis exists while its deadline has not passed. -/
def RequestHash.live (now : ℕ) (h : RequestHash) : Bool :=
  h.expiresAt.all fun deadline ↦ now ≤ deadline

namespace Keyspace

variable (K : Keyspace)

def empty : Keyspace :=
  ⟨fun _ ↦ none, fun _ ↦ none, [], []⟩

/-- Only the hashes that have not expired. -/
def live (now : ℕ) : Keyspace :=
  { K with requests := fun id ↦ (K.requests id).filter (RequestHash.live now) }

def setRequest (id : Bytes32) (h : RequestHash) : Keyspace :=
  { K with requests := Function.update K.requests id (some h) }

def isPending (id : Bytes32) : Prop :=
  id ∈ K.pending.map Prod.fst

instance (id : Bytes32) : Decidable (K.isPending id) :=
  inferInstanceAs (Decidable (_ ∈ _))

/-- `ZADD NX` -/
def addPending (now : ℕ) (id : Bytes32) : Keyspace :=
  if K.isPending id then K else { K with pending := K.pending ++ [(id, now)] }

/-- `ZREM` -/
def removePending (id : Bytes32) : Keyspace :=
  { K with pending := K.pending.filter fun member ↦ member.1 ≠ id }

/-- `SET` of the gate and `SADD` -/
def takeGate (signer : SignerKey) (id : Bytes32) : Keyspace :=
  { K with
    signers := Function.update K.signers signer (some id)
    activeSigners := K.activeSigners.insert id }

/-- `DEL` of the gate, if it is the request's, and `SREM` -/
def leaveGate (signer : SignerKey) (id : Bytes32) : Keyspace :=
  { K with
    signers := Function.update K.signers signer
      (if K.signers signer = some id then none else K.signers signer)
    activeSigners := K.activeSigners.filter fun member ↦ member ≠ id }

/-- The gate is free or the request's own. -/
def gateOpen (signer : SignerKey) (id : Bytes32) : Bool :=
  (K.signers signer).all fun current ↦ current = id

end Keyspace

/-! ### `ISSUANCE_JOURNAL_LUA` -/

/-- A call of the script; `create` and `save` carry the sealed entry, `acquire` the signer of the
entry that its caller has read. -/
inductive JournalOp
  | create (entry : IssuanceEntry)
  | get
  | acquire (owner : Owner) (signer : SignerKey)
  | save (owner : Owner) (revision : ℕ) (entry : IssuanceEntry)
  | release (owner : Owner)
  | pending
  deriving DecidableEq

inductive LuaReply
  | failed (code : String)
  | ok (revision : ℕ) (payload : IssuanceEntry)
  /-- The reply to a write whose key was deleted at once: it has no revision. -/
  | deleted
  | released
  | ids (ids : List Bytes32)
  deriving DecidableEq

/-- The operation writes a completed entry. -/
def JournalOp.writesTerminal : JournalOp → Bool
  | create entry => entry.terminal
  | save _ _ entry => entry.terminal
  | _ => false

def RequestHash.reply (h : RequestHash) : LuaReply :=
  .ok h.revision h.payload

/-- Redis 7 `PEXPIRETIME` preserves the exact existing deadline when adopting legacy terminal keys.
A completion episode has one deadline: saving diagnostics must not restart its 24h clock. -/
def RequestHash.terminalDeadline (now : ℕ) (h : RequestHash) : ℕ :=
  match h.terminalExpiresAt, h.expiresAt with
  | some saved, some current => min saved current
  | some saved, none => saved
  | none, some current => current
  | none, none => now + retentionMs

namespace Keyspace

variable (K : Keyspace)

/-- What is wrong with the recorded deadline of a request. -/
def retentionFault (now : ℕ) (id : Bytes32) : Option String :=
  match (K.requests id).bind RequestHash.terminalExpiresAt with
  | none => none
  | some savedUntil =>
    if savedUntil = 0 ∨ MAX_SAFE_INTEGER < savedUntil then some "RETENTION_STATE_INVALID"
    else if savedUntil ≤ now then some "RETENTION_DEADLINE_PASSED"
    else none

/-- `retain`, for a hash that has just been written; a deadline that has come deletes the key. -/
def retain (now : ℕ) (id : Bytes32) (h : RequestHash) (terminalUntil : ℕ) : Keyspace :=
  if h.payload.terminal then
    if terminalUntil ≤ now then
      { K with requests := Function.update K.requests id none }.removePending id
    else
      (K.setRequest id
        { h with terminalExpiresAt := some terminalUntil, expiresAt := some terminalUntil
          }).removePending id
  else
    (K.setRequest id { h with terminalExpiresAt := none, expiresAt := none }).addPending now id

def snapshot (id : Bytes32) : LuaReply :=
  match K.requests id with
  | none => .deleted
  | some h => h.reply

local instance lawfulId : LawfulBEq Bytes32 :=
  inferInstance

/-- The requests that hold a gate, then the oldest thousand pending ones. -/
def recoverable : List Bytes32 :=
  K.activeSigners ++
    (((K.pending.mergeSort fun a b ↦ a.2 < b.2 || a.2 = b.2 && a.1 ≤ b.1).take 1000).map
      Prod.fst).filter fun id ↦ id ∉ K.activeSigners

def create (now : ℕ) (id : Bytes32) (entry : IssuanceEntry) : Keyspace :=
  K.retain now id
    ⟨1, entry, entry.signerKey, entry.needsSigner, none, 0, none, none⟩ (now + retentionMs)

def acquire (now : ℕ) (id : Bytes32) (owner : Owner) (h : RequestHash) : Keyspace :=
  (if h.needsSigner then K.takeGate h.signer id else K).setRequest id
    { h with owner := some owner, leaseUntil := now + leaseMs }

def save (now : ℕ) (id : Bytes32) (entry : IssuanceEntry) (h : RequestHash) : Keyspace :=
  (if entry.needsSigner then K.takeGate h.signer id else K.leaveGate h.signer id).retain now id
    { h with
      payload := entry
      needsSigner := entry.needsSigner
      leaseUntil := now + leaseMs
      revision := h.revision + 1 } (h.terminalDeadline now)

def release (id : Bytes32) (h : RequestHash) : Keyspace :=
  K.setRequest id { h with owner := none, leaseUntil := 0 }

/-- The branches for a request that has no hash. -/
def performMissing (now : ℕ) (id : Bytes32) : JournalOp → LuaReply × Keyspace
  | .pending => (.ids K.recoverable, K)
  | .create entry =>
    if entry.terminal && entry.needsSigner then (.failed "RETENTION_STATE_INVALID", K)
    else ((K.create now id entry).snapshot id, K.create now id entry)
  | _ => (.failed "NOT_FOUND", K)

/-- The branches for a request that has one. -/
def perform (now : ℕ) (id : Bytes32) (h : RequestHash) : JournalOp → LuaReply × Keyspace
  | .pending => (.ids K.recoverable, K)
  | .create _ | .get => (h.reply, K)
  | .release owner => (.released, if h.owner = some owner then K.release id h else K)
  | .acquire owner signer =>
    if h.signer ≠ signer then (.failed "TARGET_CONFLICT", K)
    else if now < h.leaseUntil then (.failed "REQUEST_BUSY", K)
    else if h.needsSigner && !K.gateOpen h.signer id then (.failed "SIGNER_BUSY", K)
    else ((K.acquire now id owner h).snapshot id, K.acquire now id owner h)
  | .save owner revision entry =>
    if h.signer ≠ entry.signerKey then (.failed "TARGET_CONFLICT", K)
    else if h.owner ≠ some owner ∨ h.leaseUntil ≤ now then (.failed "LEASE_LOST", K)
    else if h.revision ≠ revision then (.failed "REVISION_CONFLICT", K)
    else if entry.terminal && entry.needsSigner then (.failed "RETENTION_STATE_INVALID", K)
    else if entry.needsSigner && !K.gateOpen h.signer id then (.failed "SIGNER_BUSY", K)
    else ((K.save now id entry h).snapshot id, K.save now id entry h)

end Keyspace

/-- `ISSUANCE_JOURNAL_LUA`; `mayExpire` is the answer of the capability check. -/
def lua (mayExpire : Bool) (now : ℕ) (id : Bytes32) (op : JournalOp) (K₀ : Keyspace) :
    LuaReply × Keyspace :=
  let K := K₀.live now
  if op.writesTerminal && !mayExpire then (.failed "JOURNAL_UNAVAILABLE", K)
  else
    match K.retentionFault now id with
    | some code => (.failed code, K)
    | none =>
      match K.requests id with
      | none => K.performMissing now id op
      | some h => K.perform now id h op

/-! ### What a call can do -/

/-- What a call has done to a request. -/
inductive Effect
  | created (entry : IssuanceEntry)
  | acquired (owner : Owner) (needsSigner : Bool)
  | saved (owner : Owner) (entry : IssuanceEntry)
  | released (owner : Owner)
  | nothing
  deriving DecidableEq

def LuaReply.accepted : LuaReply → Bool
  | ok _ _ | deleted | released => true
  | failed _ | ids _ => false

/-- The effect of a call, from the hash that it found and its reply. -/
def effect (op : JournalOp) (found : Option RequestHash) (reply : LuaReply) : Effect :=
  if reply.accepted then
    match op, found with
    | .create entry, none => .created entry
    | .acquire owner _, some h => .acquired owner h.needsSigner
    | .save owner _ entry, some _ => .saved owner entry
    | .release owner, some h => if h.owner = some owner then .released owner else .nothing
    | _, _ => .nothing
  else .nothing

/-- A move on the live keys, with what the script has checked. -/
inductive Move (now : ℕ) (id : Bytes32) (K : Keyspace) : Effect → Keyspace → Prop
  | created {entry} (hfree : K.requests id = none) : Move now id K (.created entry)
      (K.create now id entry)
  | acquired {owner h} (hrequest : K.requests id = some h) (hlease : h.leaseUntil ≤ now)
      (hgate : h.needsSigner = true → K.gateOpen h.signer id = true) :
      Move now id K (.acquired owner h.needsSigner) (K.acquire now id owner h)
  | saved {owner entry h} (hrequest : K.requests id = some h) (howner : h.owner = some owner)
      (hlease : now < h.leaseUntil) (hsigner : h.signer = entry.signerKey)
      (hdeadline : ∀ d, h.terminalExpiresAt = some d → now < d)
      (hgate : entry.needsSigner = true → K.gateOpen h.signer id = true) :
      Move now id K (.saved owner entry) (K.save now id entry h)
  | released {owner h} (hrequest : K.requests id = some h) (howner : h.owner = some owner) :
      Move now id K (.released owner) (K.release id h)
  | nothing : Move now id K .nothing K

section Spec

variable {now : ℕ} {id : Bytes32} {K : Keyspace}

theorem accepted_snapshot (K : Keyspace) (id : Bytes32) : (K.snapshot id).accepted = true := by
  rw [Keyspace.snapshot]
  split <;> rfl

/-- A deadline that is not at fault has not come. -/
theorem lt_of_retentionFault (h : K.retentionFault now id = none) {r : RequestHash}
    (hr : K.requests id = some r) {d : ℕ} (hd : r.terminalExpiresAt = some d) : now < d := by
  simp only [Keyspace.retentionFault, hr, Option.bind_some, hd] at h
  split_ifs at h with _ hpassed
  exact Nat.lt_of_not_le hpassed

theorem perform_spec {h : RequestHash} (hrequest : K.requests id = some h)
    (hdeadline : ∀ d, h.terminalExpiresAt = some d → now < d) (op : JournalOp) :
    Move now id K (effect op (some h) (K.perform now id h op).1) (K.perform now id h op).2 := by
  cases op with
  | create entry => exact .nothing
  | get => exact .nothing
  | pending => exact .nothing
  | release owner =>
    by_cases howner : h.owner = some owner
    · simpa [Keyspace.perform, effect, LuaReply.accepted, howner] using Move.released hrequest howner
    · simpa [Keyspace.perform, effect, LuaReply.accepted, howner] using Move.nothing
  | acquire owner signer =>
    simp only [Keyspace.perform]
    split_ifs with _ hbusy hgate
    · exact .nothing
    · exact .nothing
    · exact .nothing
    · rw [effect, if_pos (accepted_snapshot _ _)]
      refine .acquired hrequest (Nat.le_of_not_lt hbusy) fun hneeds ↦ ?_
      simpa [hneeds] using hgate
  | save owner revision entry =>
    simp only [Keyspace.perform]
    split_ifs with hsigner hlost _ _ hgate
    · exact .nothing
    · exact .nothing
    · exact .nothing
    · exact .nothing
    · exact .nothing
    · obtain ⟨howner, hlease⟩ := not_or.1 hlost
      rw [effect, if_pos (accepted_snapshot _ _)]
      refine .saved hrequest (not_not.1 howner) (Nat.lt_of_not_le hlease) (not_not.1 hsigner)
        hdeadline fun hneeds ↦ ?_
      simpa [hneeds] using hgate

theorem performMissing_spec (hrequest : K.requests id = none) (op : JournalOp) :
    Move now id K (effect op none (K.performMissing now id op).1)
      (K.performMissing now id op).2 := by
  cases op with
  | create entry =>
    simp only [Keyspace.performMissing]
    split_ifs with hflags
    · exact .nothing
    · rw [effect, if_pos (accepted_snapshot _ _)]
      exact .created hrequest
  | _ => exact .nothing

/-- **A call drops the keys that are due and then makes one move.** -/
theorem lua_spec (mayExpire : Bool) (now : ℕ) (id : Bytes32) (op : JournalOp) (K : Keyspace) :
    Move now id (K.live now) (effect op ((K.live now).requests id) (lua mayExpire now id op K).1)
      (lua mayExpire now id op K).2 := by
  rw [lua]
  split_ifs with hacl
  · exact .nothing
  · rcases hfault : (K.live now).retentionFault now id with - | code
    · rcases hrequest : (K.live now).requests id with - | h
      · simpa only [hfault, hrequest] using performMissing_spec hrequest op
      · simpa only [hfault, hrequest] using
          perform_spec hrequest (fun d ↦ lt_of_retentionFault hfault hrequest) op
    · exact .nothing

end Spec

end Proofmark.Issuance
