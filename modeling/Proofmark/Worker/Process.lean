import Proofmark.Pipeline.Json
import Proofmark.Worker.QueryId
import Proofmark.Worker.Relay
import Proofmark.Worker.SourceScan

/-!
# The worker process

`worker.ts` with the pool of `pool.ts`, and `init-worker-state.ts`. One thread is the main loop: it
checks the deployment, audits the hub, scans the source and reserves places of the pool. Each
reservation is run by a thread of its own, which begins at a later turn of the event loop, in the
order of the reservations, and gives the place back when it ends.

The loops have no bound in the code; here they have one, and a run of the code up to any moment is
one with a bound that is not reached. What the packages compute is in `Tools`. The attestation and
the proof are answers that come at some time, however often they were asked for.
-/

open Async

namespace Proofmark.Worker

/-- `cfg`, with the address of the wallet. -/
structure Settings where
  sourceAddress : String
  ascAddress : String
  signer : String
  chainKey : ℕ
  startBlock : ℕ
  confirmations : ℕ
  hubConfirmations : ℕ
  scanChunk : ℕ
  concurrency : ℕ
  maxAttempts : ℕ

/-- What `preflight` binds the state to. -/
def Settings.scope (S : Settings) : WorkerScope :=
  ⟨11155111, 102031, S.chainKey, S.sourceAddress.toLower, S.ascAddress.toLower, S.signer.toLower,
    S.startBlock⟩

structure Tools where
  parseLog : ParseLog
  ethers : Ethers
  /-- the call of `execute` with the action of a job and a proof -/
  encodeFunctionData : ℕ → ProofAnswer → String

/-- The message of an error. -/
def WorkerError.message : WorkerError → String
  | .relayBusy => "RELAY_NONCE_UNRESOLVED"
  | .storeWrite => "WORKER_STATE_WRITE_FAILED"
  | .sourceSafety code | .hubSafety code => code
  | .stopped => "WORKER_STOPPED"
  | .error message => message

/-! ### The pool -/

/-- `tryRun`, up to the turn at which the work begins. -/
def World.tryRun (capacity : ℕ) (w : World) (id : String) : World :=
  if w.stopped || w.pool.any (·.1 = id) || capacity ≤ w.pool.length then w
  else { w with pool := w.pool ++ [(id, 0)] }

def World.dispatch (capacity : ℕ) (w : World) (job : StoredJob) : World :=
  if w.stopped then w else w.tryRun capacity job.txHash

/-- `jobsReadyForDispatch` -/
def World.jobsReadyForDispatch (capacity : ℕ) (w : World) : List StoredJob :=
  (w.data.pending.filter fun job ↦ !w.pool.any (·.1 = job.txHash)).take
    (if w.stopped then 0 else capacity - w.pool.length)

def World.schedulePending (capacity : ℕ) (w : World) : World :=
  (w.jobsReadyForDispatch capacity).foldl (World.dispatch capacity) w

/-- A thread that runs no reservation takes the first that no thread runs. -/
def World.begin (call : ℕ) (w : World) : Option String × World :=
  match w.pool.any (·.2 = call), w.pool.find? (·.2 = 0) with
  | false, some (id, _) =>
    (some id, { w with pool := w.pool.map fun p ↦ if p.1 = id then (id, call) else p })
  | _, _ => (none, w)

def schedulePending (S : Settings) : WorkerTask Unit :=
  Program.call fun w ↦ (.ok (), w.schedulePending S.concurrency)

def stop : WorkerTask Unit :=
  Program.call fun w ↦ (.ok (), { w with stopped := true })

/-! ### Processing -/

variable (T : Tools) (S : Settings) (call : ℕ)

def estimateGas (data : String) (continuityBlocks : ℕ) : WorkerTask ℕ :=
  tryCatch
    (do
      let est ← ask call (.estimateGas data)
      return est * 135 / 100)
    fun _ ↦ return 21000 + continuityBlocks * 5000 + 400000

/-- The query of a proof, as a text. -/
def proofQueryId (proof : ProofAnswer) : WorkerTask String :=
  match computeQueryId T.ethers proof.chainKey proof.headerNumber proof.txIndex with
  | none => throw (.error "value exceeds width")
  | some queryId => return String.ofList (Pipeline.Text.ofWord queryId)

/-- From the proof on. -/
def submit (job : StoredJob) : WorkerTask Unit := do
  let proof ← ask call (.proof job.txHash)
  if proof.chainKey ≠ S.chainKey ∨ proof.headerNumber ≠ job.blockNumber then
    throw (.error "SOURCE_PROOF_COORDINATE_CHANGED")
  else if job.transactionIndex ≠ some proof.txIndex then
    throw (.sourceSafety "SOURCE_PROOF_TX_INDEX_CHANGED")
  else do
    let queryId ← proofQueryId T proof
    let data := T.encodeFunctionData job.action proof
    let gasLimit ← estimateGas call data proof.roots
    let w ← Program.get
    if w.stopped then return
    else RelaySender.step call S.hubConfirmations job.txHash (some ⟨queryId, data, gasLimit⟩)

/-- A job that was only discovered waits for its attestation. -/
def attest (job : StoredJob) : WorkerTask Unit :=
  if job.state = .discovered then do
    ask call (.attestation job.blockNumber)
    assertCanonicalJob call job
    update job.txHash { state := some .attested }
  else pure ()

def process (job : StoredJob) : WorkerTask Unit := do
  let w ← Program.get
  if w.data.relay.any (·.sourceTxHash = job.txHash) then
    RelaySender.step call S.hubConfirmations job.txHash none
  else if w.data.relay.isSome then throw .relayBusy
  else if job.state = .submitted ∨ truthy job.ascTxHash then
    throw (.error "LEGACY_SUBMISSION_REQUIRES_RECONCILIATION")
  else do
    assertCanonicalJob call job
    attest call job
    submit T S call job

/-- The `catch` of `processReserved`, for the errors that do not stop the worker. -/
def recordFailure (job : StoredJob) (e : WorkerError) : WorkerTask Unit := do
  let w ← Program.get
  if w.stopped then return
  else if e = .relayBusy then return
  else if w.data.relay.any (·.sourceTxHash = job.txHash) then
    update job.txHash { state := some .submitted, lastError := some "RELAY_RECONCILIATION_PENDING" }
  else
    let attempts := ((w.data.jobs.get job.txHash).map (·.attempts)).getD 0 + 1
    if S.maxAttempts ≤ attempts then
      update job.txHash
        { state := some .dead, attempts := some attempts, lastError := some e.message }
    else update job.txHash { attempts := some attempts, lastError := some e.message }

def processReserved (job : StoredJob) : WorkerTask Unit :=
  tryCatch (process T S call job) fun e ↦
    match e with
    | .storeWrite | .sourceSafety _ => do
      stop
      throw e
    | e => recordFailure S job e

/-- What is run for a reservation: the job as it is when its turn comes. -/
def work (id : String) : WorkerTask Unit := do
  let w ← Program.get
  match w.data.jobs.get id with
  | none => return
  | some current =>
    if current.state.terminal || w.stopped then return else processReserved T S call current

/-- The thread of a reservation. An error stops the worker, and the place is given back. -/
def runTask : WorkerTask Unit := do
  let begun ← Program.call fun w ↦ (.ok (w.begin call).1, (w.begin call).2)
  match begun with
  | none => return
  | some id =>
    (tryCatch (work T S call id) fun _ ↦ stop).finallySet fun w ↦
      { w with pool := w.pool.filter (·.1 ≠ id) }

/-! ### The main loop -/

/-- A version constant must be readable and have a value. -/
def requireVersion (hub : Bool) (name : String) (want : ℕ) (unavailable unsupported : String) :
    WorkerTask Unit := do
  let version ← tryCatch (ask call (.version hub name)) fun _ ↦ throw (.error unavailable)
  if version ≠ want then throw (.error unsupported)

/-- The same constant of the source and of the ASC, read together. -/
def requireVersions (name : String) (want : ℕ) (unavailable unsupported : String) :
    WorkerTask Unit := do
  let versions ← tryCatch (askBoth call (.version false name) (.version true name)) fun _ ↦
    throw (.error unavailable)
  if versions ≠ (want, want) then throw (.error unsupported)

def requireAtomicReceipts : WorkerTask Unit :=
  requireVersion call true "TRANSACTION_PROCESSING_VERSION" 2
    "ASC does not expose atomic receipt processing v2; migrate before starting this worker"
    "unsupported ASC transaction processing version"

def requireEpochV2 : WorkerTask Unit :=
  [false, true].forM fun hub ↦
    requireVersion call hub "EPOCH_SCHEMA_VERSION" 2
      "epoch schema v2 unavailable; migrate source/ASC/Registry together"
      "unsupported epoch schema; migrate source/ASC/Registry together"

def requireRosterAuthorization : WorkerTask Unit :=
  [false, true].forM fun hub ↦
    requireVersion call hub "ROSTER_AUTH_VERSION" 1
      "roster issuer authorization unavailable; migrate all contracts"
      "unsupported roster issuer authorization"

def requireIssuerKeyProvenance : WorkerTask Unit :=
  requireVersions call "ISSUER_KEY_PROVENANCE_VERSION" 1
    "issuer-key provenance unavailable; migrate source and ASC before starting this worker"
    "unsupported issuer-key provenance"

def requireDenialCorrection : WorkerTask Unit :=
  requireVersions call "DENIAL_CORRECTION_VERSION" 1
    "denial-correction governance unavailable; migrate source and ASC before starting this worker"
    "unsupported denial-correction governance"

def preflight : WorkerTask Unit := do
  requireAtomicReceipts call
  requireEpochV2 call
  requireRosterAuthorization call
  requireIssuerKeyProvenance call
  requireDenialCorrection call
  let networks ← askBoth call (.network false) (.network true)
  if networks ≠ (11155111, 102031) ∨ S.chainKey ≠ 1 then
    throw (.error "unsupported worker source/hub chain binding")
  else do
    let (expectedKey, srcAddr) ← askBoth call .expectedChainKey .sourceContract
    if expectedKey ≠ S.chainKey then
      throw (.error "ASC expectedChainKey does not match worker config")
    else if srcAddr.toLower ≠ S.sourceAddress.toLower then
      throw (.error "ASC sourceContract does not match worker config")
    else bindScope S.scope

/-- A rewind waits until no job is running. -/
def beforeRewind : WorkerTask Unit := do
  let w ← Program.get
  if w.pool ≠ [] then do
    stop
    throw (.sourceSafety "SOURCE_REORG_DRAIN_AND_RESTART_REQUIRED")
  else pure ()

/-- `scan`, with a bound on its steps. -/
def scan : ℕ → WorkerTask Unit
  | 0 => pure ()
  | steps + 1 => do
    let w ← Program.get
    if w.stopped then return
    else do
      let result ← scanSourceStep call T.parseLog
        ⟨S.sourceAddress, S.startBlock, S.confirmations, S.scanChunk⟩ beforeRewind
      schedulePending S
      if result.scanned then scan steps else return

/-- The body of the `while` loop. -/
def poll (steps : ℕ) : WorkerTask Unit := do
  tryCatch
    (do
      reconcileHubRecovery call S.hubConfirmations
      scan T S call steps)
    fun e ↦
      match e with
      | .storeWrite | .sourceSafety _ | .hubSafety _ => do
        stop
        throw e
      | _ => pure ()
  schedulePending S
  tryCatch (ask call .turn) fun e ↦ do
    let w ← Program.get
    if w.stopped then return else throw e

/-- The `while` loop, with a bound on its rounds. -/
def polls (steps : ℕ) : ℕ → WorkerTask Unit
  | 0 => pure ()
  | rounds + 1 => do
    let w ← Program.get
    if w.stopped then return
    else do
      poll T S call steps
      polls steps rounds

/-- `runLoop`, up to the draining of the pool. -/
def runLoop (steps rounds : ℕ) : WorkerTask Unit := do
  preflight S call
  reconcileHubRecovery call S.hubConfirmations
  scan T S call steps
  polls T S call steps rounds

/-- `run`, once the leases are held. -/
def run (steps rounds : ℕ) : WorkerTask Unit :=
  (do
    reload
    runLoop T S call steps rounds).finallySet fun w ↦ { w with stopped := true }

/-- `init-worker-state.ts` -/
def initWorkerState : WorkerTask Unit := do
  let networks ← askBoth call (.network false) (.network true)
  let (expectedKey, srcAddr) ← askBoth call .expectedChainKey .sourceContract
  if networks ≠ (11155111, 102031) ∨ expectedKey ≠ S.chainKey ∨
      srcAddr.toLower ≠ S.sourceAddress.toLower then
    throw (.error "WORKER_STATE_INIT_SCOPE_MISMATCH")
  else do
    reload
    bindScope S.scope
    initializeHubRecovery call

end Proofmark.Worker
