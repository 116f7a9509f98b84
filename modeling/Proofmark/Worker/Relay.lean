import Proofmark.Worker.Recovery

/-!
# The relay sender

`RelaySender.step` of `relay.ts`, with the two guards that the worker gives it: the source guard
rechecks that the job's block is still canonical and finalized, the hub guard is the recovery
audit. The transport is what answers; nothing is assumed of it here.

The numbers `call` tell the calls in flight apart. The source keeps only whether a step is active;
here `active` also names the call and the job, which no code reads.
-/

open Async

namespace Proofmark.Worker

/-- `assertCanonicalJob` of `worker.ts` -/
def assertCanonicalJob (call : ℕ) (job : StoredJob) : WorkerTask Unit := do
  assertSourceReady
  if !truthy job.blockHash || job.transactionIndex.isNone then
    throw (.sourceSafety "SOURCE_JOB_MISSING_HASH_COORDINATES")
  else
    match ← askBoth call (.sourceBlock job.blockNumber) .sourceFinalized with
    | (some ⟨some number, some hash⟩, some ⟨some finalized, some finalizedHash⟩) =>
      if hash = "" ∨ number ≠ job.blockNumber ∨ finalizedHash = "" ∨
          finalized < job.blockNumber then
        throw (.sourceSafety "SOURCE_JOB_CANONICALITY_UNCONFIRMED")
      else if some hash ≠ job.blockHash then
        if truthy job.ascTxHash then holdSource "SOURCE_REORG_TOUCHES_RELAYED_JOB"
        else throw (.sourceSafety "SOURCE_JOB_NOT_CANONICAL_FINALIZED")
      else throwIfStopped
    | _ => throw (.sourceSafety "SOURCE_JOB_CANONICALITY_UNCONFIRMED")

/-- `guardSource`, as the worker's constructor passes it. -/
def guardSource (call : ℕ) (id : String) : WorkerTask Unit := do
  throwIfStopped
  let w ← Program.get
  match w.data.jobs.get id with
  | none => throw (.sourceSafety "SOURCE_JOB_NOT_RUNNABLE")
  | some job => assertCanonicalJob call job

/-- The second argument of `step`. -/
structure Preparation where
  queryId : String
  data : String
  gasLimit : ℕ
  deriving DecidableEq

namespace RelaySender

/-- The query was processed at confirmation depth: observe the same block again, then skip. -/
def skip (call : ℕ) (sourceTxHash : String) (preparation : Preparation)
    (query : QueryObservation) : WorkerTask Unit := do
  guardSource call sourceTxHash
  let final ← ask call (.observeProcessed preparation.queryId (some query))
  if final.status ≠ .confirmed ∨ final.blockNumber ≠ query.blockNumber ∨
      final.blockHash ≠ query.blockHash then
    pure ()
  else do
    throwIfStopped
    assertSourceReady
    update sourceTxHash
      { state := some .skipped, queryId := some preparation.queryId
        skipObservation := some final.toSkipObservation }

/-- Prepare, sign and reserve an envelope. -/
def prepare (call : ℕ) (sourceTxHash : String) (preparation : Preparation) :
    WorkerTask RelayEnvelope := do
  guardSource call sourceTxHash
  let relay ← ask call
    (.prepare sourceTxHash preparation.queryId preparation.data preparation.gasLimit)
  if relay.sourceTxHash ≠ sourceTxHash ∨ relay.queryId ≠ preparation.queryId ∨
      relay.data ≠ preparation.data then
    throw (.error "RELAY_PREPARATION_CONFLICT")
  else do
    guardSource call sourceTxHash
    reserveRelay relay
    return relay

/-- Broadcast the reserved envelope; a lost response is only noted. -/
def broadcast (call : ℕ) (sourceTxHash : String) (relay : RelayEnvelope) : WorkerTask Unit :=
  tryCatch
    (do
      Program.call fun w ↦ (.ok (), w.note (.sent relay))
      ask call (.broadcast relay))
    fun _ ↦ update sourceTxHash { lastError := some "ASC_BROADCAST_UNCONFIRMED" }

/-- A success must show the query processed in its block. -/
def requireProcessed (call : ℕ) (relay : RelayEnvelope) (receipt : RelayReceipt) :
    WorkerTask Unit :=
  if receipt.status = .success then do
    let processed ← ask call (.processed relay.queryId receipt.blockNumber)
    if processed = false then throw (.error "ASC_QUERY_NOT_CONFIRMED")
  else pure ()

/-- Finish the envelope once its receipt is confirmed and the last reading repeats it. -/
def finish (call : ℕ) (sourceTxHash : String) (relay : RelayEnvelope)
    (receipt : RelayReceipt) : WorkerTask Unit := do
  guardSource call sourceTxHash
  requireProcessed call relay receipt
  let finalReceipt ← ask call (.receipt relay)
  if finalReceipt ≠ some receipt then pure ()
  else do
    throwIfStopped
    assertSourceReady
    assertHubReady
    finishRelay relay.hash receipt

/-- From the reading of the receipt on. -/
def deliver (call : ℕ) (sourceTxHash : String) (relay : RelayEnvelope) : WorkerTask Unit := do
  match ← ask call (.receipt relay) with
  | some receipt => finish call sourceTxHash relay receipt
  | none => do
    guardSource call sourceTxHash
    assertSourceReady
    broadcast call sourceTxHash relay
    match ← ask call (.receipt relay) with
    | some receipt => finish call sourceTxHash relay receipt
    | none => pure ()

/-- The body of the `try` block. -/
def advance (call confirmations : ℕ) (sourceTxHash : String) (preparation : Option Preparation) :
    WorkerTask Unit := do
  assertSourceReady
  assertHubReady
  let w ← Program.get
  match w.data.jobs.get sourceTxHash with
  | none => throw (.error "RELAY_JOB_NOT_PENDING")
  | some job =>
    if job.state.terminal then throw (.error "RELAY_JOB_NOT_PENDING")
    else
      match w.data.relay, preparation with
      | some relay, _ => deliver call sourceTxHash relay
      | none, none => throw (.error "RELAY_PREPARATION_REQUIRED")
      | none, some preparation => do
        reconcileHubRecovery call confirmations
        throwIfStopped
        assertHubReady
        let query ← ask call (.observeProcessed preparation.queryId none)
        match query.status with
        | .pending => pure ()
        | .confirmed => skip call sourceTxHash preparation query
        | .unprocessed => do
          let relay ← prepare call sourceTxHash preparation
          deliver call sourceTxHash relay

/-- `RelaySender.step` -/
def step (call confirmations : ℕ) (sourceTxHash : String) (preparation : Option Preparation) :
    WorkerTask Unit := do
  throwIfStopped
  let w ← Program.get
  if w.active.isSome ∨ w.data.relay.any (·.sourceTxHash ≠ sourceTxHash) then throw .relayBusy
  else do
    Program.call fun w ↦ (.ok (), { w with active := some (call, sourceTxHash) })
    (advance call confirmations sourceTxHash preparation).finallySet fun w ↦
      { w with active := none }

end RelaySender

end Proofmark.Worker
