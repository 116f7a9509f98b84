import Proofmark.Worker.Store

/-!
# The hub-recovery audit

`recovery.ts`: the explicit bootstrap of the signer's baseline, and the audit that compares the
durable relay history with the hub before the worker may sign. Every disagreement installs the
persistent hub hold. The audit works on a snapshot of the store while other calls go on, and
discards its last comparison when the evidence has changed under it.
-/

open Async

namespace Proofmark.Worker

/-- What `evidenceIdentity` writes of a terminal job. -/
structure TerminalEvidence where
  txHash : String
  state : JobState
  ascTxHash : Option String
  queryId : Option String
  relayHistory : Option (List RelayRecord)
  skipObservation : Option SkipObservation
  deriving DecidableEq

def StoredJob.evidence (job : StoredJob) : TerminalEvidence :=
  ⟨job.txHash, job.state, job.ascTxHash, job.queryId, job.relayHistory, job.skipObservation⟩

/-- The terminal jobs as `evidenceIdentity` lists them, before it sorts them by hash. -/
def Data.terminalEvidence (d : Data) : List TerminalEvidence :=
  (d.jobs.rows.filter fun job ↦ job.state.terminal).map StoredJob.evidence

/-- `evidenceIdentity(a) === evidenceIdentity(b)`. The text lists the terminal jobs in the order of
their distinct hashes, so it is the same exactly when the jobs are the same up to order. -/
def SameEvidence (a b : Data) : Prop :=
  a.hubStartNonce = b.hubStartNonce ∧ a.hubHold = b.hubHold ∧ a.relay = b.relay ∧
    a.terminalEvidence.Perm b.terminalEvidence

instance (a b : Data) : Decidable (SameEvidence a b) :=
  inferInstanceAs (Decidable (_ ∧ _))

/-- `initializeHubRecovery` -/
def initializeHubRecovery (call : ℕ) : WorkerTask Unit := do
  assertHubReady
  let w ← Program.get
  match w.data.scope with
  | none => holdHub "HUB_SIGNER_BASELINE_REQUIRES_RECONCILIATION"
  | some scope =>
    if w.data.hubStartNonce.isSome || w.data.relay.isSome || w.data.jobs.rows.any fun job ↦
        truthy job.ascTxHash || job.relayHistory.any (· ≠ []) ||
          job.state matches .submitted | .done | .dead then
      holdHub "HUB_SIGNER_BASELINE_REQUIRES_RECONCILIATION"
    else do
      match ← askBoth call (.transactionCount scope.signer false)
        (.transactionCount scope.signer true) with
      | (some latest, some pending) =>
        if latest ≠ 0 ∨ pending ≠ 0 then holdHub "HUB_SIGNER_BASELINE_REQUIRES_RECONCILIATION"
        else initializeHubSigner 0
      | _ => throw (.hubSafety "HUB_RECOVERY_OBSERVATION_UNAVAILABLE")

/-- A terminal job with its one relay record. -/
structure Terminal where
  job : StoredJob
  history : RelayRecord

/-- The terminal jobs that the hub must confirm; `none` when a job's history does not fit its
state. -/
def terminals : List StoredJob → Option (List Terminal)
  | [] => some []
  | job :: jobs => do
    let rest ← terminals jobs
    let histories := job.relayHistory.getD []
    if job.state matches .done | .dead then
      match histories with
      | [history] => if truthy job.queryId && truthy job.ascTxHash then ⟨job, history⟩ :: rest else none
      | _ => none
    else if histories = [] then rest else none

/-- The order in which the terminal jobs are checked. -/
def sortedByNonce (terminal : List Terminal) : List Terminal :=
  terminal.insertionSort fun a b ↦ a.history.nonce ≤ b.history.nonce

/-- The status of a receipt as the hub reports it. -/
def ReceiptStatus.code : ReceiptStatus → ℕ
  | .success => 1
  | .reverted => 0

/-- Read a block and require a hash. -/
def requireBlock (call height : ℕ) (hash reason : String) : WorkerTask Unit := do
  let block ← ask call (.hubBlock height)
  if block ≠ some ⟨some height, some hash⟩ then holdHub reason

/-- A success must show the query processed in its block. -/
def requireQuery (call : ℕ) (t : Terminal) (receipt : HubReceipt) : WorkerTask Unit :=
  if t.history.status = .success then do
    let processed ← ask call (.hubProcessed (t.job.queryId.getD "") receipt.blockNumber)
    if processed = false then holdHub "HUB_TERMINAL_QUERY_NOT_CANONICAL"
  else pure ()

/-- One iteration of the loop over the terminal jobs. -/
def checkTerminal (call confirmations head : ℕ) (signer asc : String) (t : Terminal) :
    WorkerTask Unit := do
  match ← ask call (.hubReceipt t.history.hash) with
  | none => holdHub "HUB_TERMINAL_HISTORY_NOT_CANONICAL"
  | some receipt =>
    if receipt.hash ≠ t.history.hash ∨ receipt.from_.toLower ≠ signer ∨
        receipt.to_.map String.toLower ≠ some asc ∨
        receipt.status ≠ some t.history.status.code ∨
        receipt.blockNumber ≠ t.history.blockNumber ∨ receipt.blockHash ≠ t.history.blockHash ∨
        isHash receipt.blockHash = false ∨ head < receipt.blockNumber ∨
        head - receipt.blockNumber + 1 < confirmations then
      holdHub "HUB_TERMINAL_HISTORY_NOT_CANONICAL"
    else do
      requireBlock call receipt.blockNumber receipt.blockHash "HUB_TERMINAL_HISTORY_NOT_CANONICAL"
      requireQuery call t receipt
      requireBlock call receipt.blockNumber receipt.blockHash "HUB_TERMINAL_HISTORY_NOT_CANONICAL"

/-- One iteration of the loop over the skipped jobs. -/
def checkSkipped (call confirmations head : ℕ) (job : StoredJob) : WorkerTask Unit := do
  match job.skipObservation, job.queryId.filter (· ≠ "") with
  | some observation, some queryId =>
    if isHash observation.blockHash = false ∨ head < observation.blockNumber ∨
        head - observation.blockNumber + 1 < confirmations then
      holdHub "HUB_SKIP_OBSERVATION_NOT_CANONICAL"
    else do
      requireBlock call observation.blockNumber observation.blockHash
        "HUB_SKIP_OBSERVATION_NOT_CANONICAL"
      let processed ← ask call (.hubProcessed queryId observation.blockNumber)
      if processed = false then holdHub "HUB_SKIP_OBSERVATION_NOT_CANONICAL"
      else
        requireBlock call observation.blockNumber observation.blockHash
          "HUB_SKIP_OBSERVATION_NOT_CANONICAL"
  | _, _ => holdHub "HUB_SKIP_OBSERVATION_NOT_CANONICAL"

/-- The last comparison: the counts of the signer's transactions against the history. -/
def checkCounts (snapshot : Data) (expected latest pending : ℕ) : WorkerTask Unit := do
  let w ← Program.get
  if SameEvidence w.data snapshot then
    match snapshot.relay with
    | some relay =>
      if relay.nonce ≠ expected ∨ latest ∉ [expected, expected + 1] ∨
          pending ∉ [expected, expected + 1] then
        holdHub "HUB_SIGNER_NONCE_DIVERGED"
    | none =>
      if latest ≠ expected ∨ pending ≠ expected then holdHub "HUB_SIGNER_NONCE_DIVERGED"

/-- The part of the audit that asks the hub. -/
def compareHub (call confirmations : ℕ) (snapshot : Data) (signer asc : String) (baseline : ℕ)
    (terminal : List Terminal) : WorkerTask Unit := do
  match ← ask call .hubBlockNumber with
  | none => throw (.hubSafety "HUB_RECOVERY_OBSERVATION_UNAVAILABLE")
  | some head => do
    terminal.forM (checkTerminal call confirmations head signer asc)
    (snapshot.jobs.rows.filter (·.state = .skipped)).forM (checkSkipped call confirmations head)
    match ← askBoth call (.transactionCount signer false) (.transactionCount signer true) with
    | (some latest, some pending) =>
      if pending < latest then throw (.hubSafety "HUB_RECOVERY_OBSERVATION_UNAVAILABLE")
      else checkCounts snapshot (baseline + terminal.length) latest pending
    | _ => throw (.hubSafety "HUB_RECOVERY_OBSERVATION_UNAVAILABLE")

/-- `reconcileHubRecovery` -/
def reconcileHubRecovery (call confirmations : ℕ) : WorkerTask Unit := do
  assertHubReady
  let w ← Program.get
  if confirmations < 1 then throw (.hubSafety "HUB_RECOVERY_SETTINGS_INVALID")
  else
    match w.data.scope with
    | none => throw (.hubSafety "HUB_RECOVERY_SCOPE_UNBOUND")
    | some scope =>
      match w.data.hubStartNonce with
      | none => holdHub "HUB_SIGNER_BASELINE_REQUIRES_RECONCILIATION"
      | some baseline =>
        match terminals w.data.jobs.rows with
        | none => holdHub "HUB_TERMINAL_HISTORY_REQUIRES_RECONCILIATION"
        | some unsorted =>
          if (sortedByNonce unsorted).map (·.history.nonce) ≠
              List.range' baseline unsorted.length then
            holdHub "HUB_NONCE_HISTORY_REQUIRES_RECONCILIATION"
          else
            compareHub call confirmations w.data scope.signer.toLower scope.asc.toLower baseline
              (sortedByNonce unsorted)

end Proofmark.Worker
