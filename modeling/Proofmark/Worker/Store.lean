import Proofmark.Async.Program
import Proofmark.Collection.Table
import Proofmark.Worker.SourceEvents

/-!
# The worker's durable store

`store.ts`: the jobs, the scan cursor with its checkpoints, the one unresolved relay envelope and
the two holds, kept in one file that every mutation replaces as a whole.

The disk decides how each save ends (`SaveOutcome`): it may fail before the rename, after the
rename and before the new contents are adopted, or while the directory is synced. On every failure
the store reads the file again and reports `StoreWriteError`. What the file says and what the store
believes therefore never differ, which is `save_spec`.

A `World` is the process and what is around it: memory, file, the flags of the relay sender and of
the pool, the hub's chain, and a log of what was saved, sent and heard, which no code reads.
-/

open Async

namespace Proofmark.Worker

/-! ### What is stored -/

inductive JobState
  | discovered
  | attested
  | submitted
  | done
  | skipped
  | dead
  deriving DecidableEq

/-- `['done', 'dead', 'skipped'].includes(state)`. -/
def JobState.terminal : JobState → Bool
  | .done | .dead | .skipped => true
  | .discovered | .attested | .submitted => false

structure SkipObservation where
  blockNumber : ℕ
  blockHash : String
  confirmations : ℕ
  observedAt : ℕ
  deriving DecidableEq

inductive ReceiptStatus
  | success
  | reverted
  deriving DecidableEq

/-- A mined receipt as the transport reports it. -/
structure RelayReceipt where
  status : ReceiptStatus
  blockNumber : ℕ
  blockHash : String
  deriving DecidableEq

/-- One element of `relayHistory`. -/
structure RelayRecord extends RelayReceipt where
  hash : String
  nonce : ℕ
  deriving DecidableEq

/-- A job of the store: what the scan found, and what became of it. -/
structure StoredJob extends Job where
  blockHash : Option String := none
  transactionIndex : Option ℕ := none
  state : JobState
  attempts : ℕ
  lastError : Option String := none
  ascTxHash : Option String := none
  queryId : Option String := none
  discoveredAt : ℕ
  updatedAt : ℕ
  skipObservation : Option SkipObservation := none
  relayHistory : Option (List RelayRecord) := none
  deriving DecidableEq

/-- The key of a job in `jobs`. -/
def StoredJob.key (job : StoredJob) : String :=
  job.txHash

structure WorkerScope where
  sourceChainId : ℕ
  hubChainId : ℕ
  chainKey : ℕ
  source : String
  asc : String
  signer : String
  startBlock : ℕ
  deriving DecidableEq

structure RelayEnvelope where
  sourceTxHash : String
  queryId : String
  hash : String
  raw : String
  nonce : ℕ
  chainId : ℕ
  to_ : String
  signer : String
  data : String
  deriving DecidableEq

structure SourceCheckpoint where
  height : ℕ
  hash : String
  deriving DecidableEq

/-- One element of `sourceRewinds`. -/
structure SourceRewind where
  at_ : ℕ
  from_ : ℕ
  to_ : ℕ
  orphanedTxs : List String
  deriving DecidableEq

/-- The contents of the file, without the version, which is always 1. -/
structure Data where
  cursor : ℕ := 0
  jobs : Table StoredJob.key := .empty
  scope : Option WorkerScope := none
  relay : Option RelayEnvelope := none
  sourceCheckpoints : Option (List SourceCheckpoint) := none
  sourceHold : Option String := none
  hubStartNonce : Option ℕ := none
  hubHold : Option String := none
  sourceRewinds : Option (List SourceRewind) := none
  deriving DecidableEq

/-- JavaScript's truth of an optional text. -/
def truthy : Option String → Bool
  | some t => t != ""
  | none => false

inductive WorkerError
  /-- `RelayBusy` -/
  | relayBusy
  /-- `StoreWriteError` -/
  | storeWrite
  /-- `SourceSafetyError` -/
  | sourceSafety (code : String)
  /-- `HubSafetyError` -/
  | hubSafety (code : String)
  /-- `WorkerStoppedError` -/
  | stopped
  /-- Any other error, with its message. -/
  | error (message : String)
  deriving DecidableEq

/-! ### What is asked of the outside -/

inductive QueryStatus
  | unprocessed
  | pending
  | confirmed
  deriving DecidableEq

structure QueryObservation extends SkipObservation where
  status : QueryStatus
  deriving DecidableEq

/-- What `RelayTransport.receipt` resolves to: `none` while the receipt is pending. -/
abbrev ReceiptAnswer := Option RelayReceipt

/-- `/^0x[0-9a-fA-F]{64}$/` -/
def isHash (t : String) : Bool :=
  let cs := t.toList
  cs.length == 66 && cs.take 2 == ['0', 'x'] &&
    (cs.drop 2).all fun c ↦ c.isDigit || ('a' ≤ c && c ≤ 'f') || ('A' ≤ c && c ≤ 'F')

/-- A block as an endpoint returns it; a height that is not a safe natural number is `none`. -/
structure BlockAnswer where
  number : Option ℕ
  hash : Option String
  deriving DecidableEq

/-- What `HubRecoveryReader.receipt` resolves to. -/
structure HubReceipt where
  hash : String
  from_ : String
  to_ : Option String
  status : Option ℕ
  blockNumber : ℕ
  blockHash : String
  deriving DecidableEq

/-- A log with the coordinates that the scan checks. -/
structure ScannedLog extends SourceLog where
  blockHash : String
  transactionIndex : Option ℕ
  removed : Bool

/-- The parts of a proof that the worker reads. -/
structure ProofAnswer where
  chainKey : ℕ
  headerNumber : ℕ
  txIndex : ℕ
  data : String
  /-- how many roots its continuity has -/
  roots : ℕ

/-- The requests of the worker to its endpoints. -/
inductive Request
  /-- Of two requests sent together, whether the first is answered first. -/
  | order
  | processed (queryId : String) (blockNumber : ℕ)
  | observeProcessed (queryId : String) (expected : Option QueryObservation)
  | prepare (sourceTxHash queryId data : String) (gasLimit : ℕ)
  | receipt (relay : RelayEnvelope)
  | broadcast (relay : RelayEnvelope)
  | transactionCount (address : String) (pending : Bool)
  | hubBlockNumber
  | hubBlock (height : ℕ)
  | hubReceipt (hash : String)
  | hubProcessed (queryId : String) (blockNumber : ℕ)
  | sourceBlockNumber
  | sourceBlock (height : ℕ)
  | sourceFinalized
  | sourceLogs (address : String) (fromBlock toBlock : ℕ)
  | attestation (blockNumber : ℕ)
  | proof (txHash : String)
  | estimateGas (data : String)
  /-- A version constant of the ASC (`hub`) or of the source. -/
  | version (hub : Bool) (name : String)
  | network (hub : Bool)
  | expectedChainKey
  | sourceContract
  /-- The event loop goes on. -/
  | turn

/-- What a request resolves to. A number that is not a safe non-negative integer is `none`. -/
abbrev Request.Value : Request → Type
  | order | processed _ _ | hubProcessed _ _ => Bool
  | observeProcessed _ _ => QueryObservation
  | prepare _ _ _ _ => RelayEnvelope
  | receipt _ => ReceiptAnswer
  | broadcast _ | attestation _ | turn => Unit
  | transactionCount _ _ | hubBlockNumber | sourceBlockNumber => Option ℕ
  | hubBlock _ | sourceBlock _ | sourceFinalized => Option BlockAnswer
  | hubReceipt _ => Option HubReceipt
  | sourceLogs _ _ _ => List ScannedLog
  | proof _ => ProofAnswer
  | estimateGas _ | version _ _ | network _ | expectedChainKey => ℕ
  | sourceContract => String

/-- An answer: the value, or the error the promise is rejected with. -/
abbrev Request.Answer (q : Request) : Type :=
  Except WorkerError q.Value

/-! ### The process and what is around it -/

/-- How the disk lets a save end. -/
inductive SaveOutcome
  | saved
  /-- The file was not replaced. -/
  | unwritten
  /-- The file was replaced, the rename reported an error. -/
  | renamed
  /-- The file was replaced and its contents adopted, the directory was not synced. -/
  | unsynced
  deriving DecidableEq

/-- One line of the log of a run. -/
inductive Entry
  /-- A request of a call was answered. -/
  | heard (call : ℕ) (q : Request) (a : q.Answer)
  /-- A signed transaction was handed to the network. -/
  | sent (relay : RelayEnvelope)
  /-- The file was replaced. -/
  | saved (d : Data)

/-- A transaction of the hub, by its hash, and whether it succeeded. -/
structure MinedTx where
  hash : String
  success : Bool
  deriving DecidableEq

/-- A block of the hub: its transactions, and the queries processed up to its end. -/
structure HubBlock where
  hash : String
  transactions : List MinedTx
  processed : List String
  deriving DecidableEq

/-- A process of the worker, its file and the world outside. -/
structure World where
  /-- `Store.data` -/
  data : Data
  /-- The contents of the file. -/
  file : Data
  /-- How the coming saves end; they succeed once this is used up. -/
  disk : List SaveOutcome := []
  /-- `Date.now()` -/
  clock : ℕ := 0
  /-- `RelaySender.active`, with the call that set it and the job it is for. -/
  active : Option (ℕ × String) := none
  /-- `AbortSignal.aborted` -/
  stopped : Bool := false
  /-- The keys of `BoundedPool.tasks`, with the call that runs each; 0 until one does. -/
  pool : List (String × ℕ) := []
  /-- The canonical chain of the hub, from its first block. -/
  hub : List HubBlock := []
  log : List Entry := []

/-- Append to the log. -/
def World.note (w : World) (e : Entry) : World :=
  { w with log := w.log ++ [e] }

/-- An asynchronous function of the worker. -/
abbrev WorkerTask (β : Type) : Type :=
  Program World WorkerError Request.Answer β

/-- Await an answer and return its value or throw its error. -/
def ask (call : ℕ) (q : Request) : WorkerTask q.Value := do
  let a ← Program.request q
  Program.call fun w ↦ (a, w.note (.heard call q a))

/-- `Promise.all` of two requests. -/
def askBoth (call : ℕ) (q r : Request) : WorkerTask (q.Value × r.Value) := do
  let first ← ask call .order
  if first then do
    let a ← ask call q
    let b ← ask call r
    return (a, b)
  else do
    let b ← ask call r
    let a ← ask call q
    return (a, b)

/-- `throwIfStopped` -/
def throwIfStopped : WorkerTask Unit := do
  let w ← Program.get
  if w.stopped then throw .stopped

/-! ### Loading and saving -/

/-- `Store.load`, on the contents of the file. -/
def Data.load (file : Data) : Except WorkerError Data :=
  match file.relay with
  | none => .ok file
  | some relay =>
    match file.jobs.get relay.sourceTxHash with
    | none => .error (.error "INCONSISTENT_RELAY_STATE")
    | some job =>
      if job.state ≠ .submitted ∨ job.ascTxHash ≠ some relay.hash ∨
          job.queryId ≠ some relay.queryId then
        .error (.error "INCONSISTENT_RELAY_STATE")
      else .ok file

/-- The contents of the file can be loaded. -/
def Data.Loads (d : Data) : Prop :=
  d.load = .ok d

instance (d : Data) : Decidable d.Loads :=
  inferInstanceAs (Decidable (_ = _))

/-- A failed save: read the file again, then report the failure. -/
def World.reload (w : World) : Except WorkerError Unit × World :=
  match w.file.load with
  | .ok d => (.error .storeWrite, { w with data := d })
  | .error e => (.error e, w)

/-- The world with new contents in the file and in memory. -/
def World.commit (w : World) (next : Data) : World :=
  { w with data := next, file := next, log := w.log ++ [.saved next] }

/-- `Store.commit` -/
def World.save (next : Data) (w : World) : Except WorkerError Unit × World :=
  match w.disk with
  | [] => (.ok (), w.commit next)
  | .saved :: rest => (.ok (), { w.commit next with disk := rest })
  | .unwritten :: rest => { w with disk := rest }.reload
  | .renamed :: rest => { w.commit next with data := w.data, disk := rest }.reload
  | .unsynced :: rest => { w.commit next with disk := rest }.reload

/-- `this.commit(next)` -/
def commit (next : Data) : WorkerTask Unit :=
  Program.call (World.save next)

/-- Memory and file agree, and the file can be loaded. -/
def World.Synced (w : World) : Prop :=
  w.data = w.file ∧ w.file.Loads

/-- **A save either replaces the file or does nothing**, and memory agrees with the file. -/
theorem save_spec {w : World} (hw : w.Synced) (next : Data) (hnext : next.Loads) :
    ∃ rest, w.save next = (.ok (), { w.commit next with disk := rest }) ∨
      w.save next = (.error .storeWrite, { w.commit next with disk := rest }) ∨
      w.save next = (.error .storeWrite, { w with disk := rest }) := by
  obtain ⟨hdata, hfile⟩ := hw
  unfold World.save
  split
  case h_1 hdisk => exact ⟨w.disk, .inl (by cases w; rfl)⟩
  case h_2 rest _ => exact ⟨rest, .inl rfl⟩
  case h_3 rest _ =>
    refine ⟨rest, .inr (.inr ?_)⟩
    rw [Data.Loads] at hfile
    simp [World.reload, hfile, hdata]
  case h_4 rest _ =>
    refine ⟨rest, .inr (.inl ?_)⟩
    rw [Data.Loads] at hnext
    simp [World.reload, World.commit, hnext]
  case h_5 rest _ =>
    refine ⟨rest, .inr (.inl ?_)⟩
    rw [Data.Loads] at hnext
    simp [World.reload, World.commit, hnext]

/-! ### The methods of the store -/

/-- `reload` -/
def reload : WorkerTask Unit :=
  Program.call fun w ↦
    match w.file.load with
    | .ok d => (.ok (), { w with data := d })
    | .error e => (.error e, w)

def bindScope (scope : WorkerScope) : WorkerTask Unit := do
  let w ← Program.get
  match w.data.scope with
  | some bound => if bound ≠ scope then throw (.error "WORKER_STATE_SCOPE_MISMATCH")
  | none =>
    if w.data.cursor ≠ 0 ∨ w.data.jobs.rows ≠ [] then
      throw (.error "LEGACY_WORKER_STATE_REQUIRES_RECONCILIATION")
    else commit { w.data with scope := some scope }

/-- The reason of a hold, if there is one. -/
def held (hold : Option String) : Option String :=
  hold.filter fun reason ↦ truthy (some reason)

def assertSourceReady : WorkerTask Unit := do
  let w ← Program.get
  match held w.data.sourceHold with
  | some reason => throw (.sourceSafety reason)
  | none => pure ()

def assertHubReady : WorkerTask Unit := do
  let w ← Program.get
  match held w.data.hubHold with
  | some reason => throw (.hubSafety reason)
  | none => pure ()

def holdSource {β : Type} (reason : String) : WorkerTask β := do
  let w ← Program.get
  commit { w.data with sourceHold := some reason }
  throw (.sourceSafety reason)

def holdHub {β : Type} (reason : String) : WorkerTask β := do
  let w ← Program.get
  commit { w.data with hubHold := some reason }
  throw (.hubSafety reason)

def initializeHubSigner (startNonce : ℕ) : WorkerTask Unit := do
  assertHubReady
  let w ← Program.get
  match w.data.hubStartNonce with
  | some nonce => if nonce ≠ startNonce then throw (.hubSafety "HUB_SIGNER_BASELINE_MISMATCH")
  | none => commit { w.data with hubStartNonce := some startNonce }

/-- The checkpoints, none before the first. -/
def Data.checkpoints (d : Data) : List SourceCheckpoint :=
  d.sourceCheckpoints.getD []

def initializeSource (checkpoint : SourceCheckpoint) : WorkerTask Unit := do
  assertSourceReady
  let w ← Program.get
  if w.data.checkpoints ≠ [] then pure ()
  else if w.data.jobs.rows ≠ [] ∨ (w.data.cursor ≠ 0 ∧ w.data.cursor ≠ checkpoint.height) then
    throw (.sourceSafety "UNHASHED_SOURCE_STATE_REQUIRES_RECONCILIATION")
  else commit { w.data with
    cursor := checkpoint.height, sourceCheckpoints := some [checkpoint] }

/-- One iteration of the loop of `commitSourceRange`. -/
def addFound (from_ end_ now : ℕ) (jobs : Table StoredJob.key) (job : StoredJob) :
    Except WorkerError (Table StoredJob.key) :=
  if !truthy job.blockHash || job.transactionIndex.isNone || job.blockNumber < from_ ||
      end_ < job.blockNumber then
    .error (.sourceSafety "INVALID_SOURCE_JOB_COORDINATES")
  else
    match jobs.get job.txHash with
    | some existing =>
      if existing.blockHash ≠ job.blockHash ∨ existing.blockNumber ≠ job.blockNumber then
        .error (.sourceSafety "SOURCE_TX_RELOCATION_NOT_RECONCILED")
      else .ok jobs
    | none => .ok (jobs.set { job with discoveredAt := now, updatedAt := now })

/-- The initial anchor and the 128 most recent range boundaries. -/
def keptCheckpoints : List SourceCheckpoint → List SourceCheckpoint
  | [] => []
  | anchor :: rest =>
    if 129 < (anchor :: rest).length then anchor :: rest.drop (rest.length - 128)
    else anchor :: rest

def commitSourceRange (from_ : ℕ) (end_ : SourceCheckpoint) (found : List StoredJob) :
    WorkerTask Unit := do
  assertSourceReady
  assertHubReady
  let w ← Program.get
  if from_ ≠ w.data.cursor + 1 ∨ end_.height < from_ then
    throw (.sourceSafety "SOURCE_SCAN_CURSOR_CONFLICT")
  else
    match found.foldlM (addFound from_ end_.height w.clock) w.data.jobs with
    | .error e => throw e
    | .ok jobs => commit { w.data with
        jobs := jobs
        sourceCheckpoints := some (keptCheckpoints (w.data.checkpoints ++ [end_]))
        cursor := end_.height }

/-- What forbids to drop a job: it has left a trace at the hub. -/
def StoredJob.relayed (job : StoredJob) : Bool :=
  truthy job.ascTxHash || truthy job.queryId || job.relayHistory.any (· ≠ []) ||
    job.state matches .submitted | .done | .skipped

/-- The data after a rewind that drops no relayed job. -/
def Data.rewound (d : Data) (ancestor : SourceCheckpoint) (now : ℕ) : Data :=
  { d with
    jobs := d.jobs.filter fun job ↦ job.blockNumber ≤ ancestor.height
    sourceRewinds := some (d.sourceRewinds.getD [] ++ [⟨now, d.cursor, ancestor.height,
      (d.jobs.rows.filter fun job ↦ ancestor.height < job.blockNumber).map (·.txHash)⟩])
    cursor := ancestor.height
    sourceCheckpoints := some (d.checkpoints.filter fun c ↦ c.height ≤ ancestor.height) }

def rewindUnsignedSource (ancestor : SourceCheckpoint) : WorkerTask ℕ := do
  assertSourceReady
  let w ← Program.get
  if ancestor ∉ w.data.checkpoints then throw (.sourceSafety "UNKNOWN_SOURCE_ANCESTOR")
  else
    let affected := w.data.jobs.rows.filter fun job ↦ ancestor.height < job.blockNumber
    if affected.any StoredJob.relayed then holdSource "SOURCE_REORG_TOUCHES_RELAYED_JOB"
    else do
      commit (w.data.rewound ancestor w.clock)
      return affected.length

/-- The data with an envelope reserved for a job. -/
def Data.reserved (d : Data) (relay : RelayEnvelope) (job : StoredJob) (now : ℕ) : Data :=
  { d with
    relay := some relay
    jobs := d.jobs.set { job with
      state := .submitted, ascTxHash := some relay.hash, queryId := some relay.queryId
      updatedAt := now } }

def reserveRelay (relay : RelayEnvelope) : WorkerTask Unit := do
  assertSourceReady
  assertHubReady
  let w ← Program.get
  if w.data.relay.isSome then throw (.error "RELAY_NONCE_UNRESOLVED")
  else
    match w.data.jobs.get relay.sourceTxHash with
    | none => throw (.error "RELAY_JOB_NOT_PENDING")
    | some job =>
      if job.state.terminal then throw (.error "RELAY_JOB_NOT_PENDING")
      else commit (w.data.reserved relay job w.clock)

/-- A job after its envelope was mined. -/
def StoredJob.finished (job : StoredJob) (relay : RelayEnvelope) (receipt : RelayReceipt)
    (now : ℕ) : StoredJob :=
  { job with
    relayHistory := some (job.relayHistory.getD [] ++ [⟨receipt, relay.hash, relay.nonce⟩])
    state := match receipt.status with
      | .success => .done
      | .reverted => .dead
    lastError := match receipt.status with
      | .success => none
      | .reverted => some "ASC_TRANSACTION_REVERTED_REVIEW_REQUIRED"
    updatedAt := now }

/-- The data after the envelope was mined. -/
def Data.finished (d : Data) (relay : RelayEnvelope) (job : StoredJob) (receipt : RelayReceipt)
    (now : ℕ) : Data :=
  { d with relay := none, jobs := d.jobs.set (job.finished relay receipt now) }

def finishRelay (hash : String) (receipt : RelayReceipt) : WorkerTask Unit := do
  assertHubReady
  let w ← Program.get
  match w.data.relay with
  | none => throw (.error "RELAY_STATE_CONFLICT")
  | some relay =>
    if relay.hash ≠ hash then throw (.error "RELAY_STATE_CONFLICT")
    else
      match w.data.jobs.get relay.sourceTxHash with
      | none =>
        throw (.error "Cannot read properties of undefined (reading 'relayHistory')")
      | some job => commit (w.data.finished relay job receipt w.clock)

/-- The `Partial<Job>` that `update` is called with. -/
structure JobPatch where
  state : Option JobState := none
  attempts : Option ℕ := none
  lastError : Option String := none
  queryId : Option String := none
  skipObservation : Option SkipObservation := none

/-- `Object.assign(job, patch, { updatedAt: now })` -/
def StoredJob.patched (job : StoredJob) (patch : JobPatch) (now : ℕ) : StoredJob :=
  { job with
    state := patch.state.getD job.state
    attempts := patch.attempts.getD job.attempts
    lastError := patch.lastError.or job.lastError
    queryId := patch.queryId.or job.queryId
    skipObservation := patch.skipObservation.or job.skipObservation
    updatedAt := now }

def update (txHash : String) (patch : JobPatch) : WorkerTask Unit := do
  let w ← Program.get
  if w.data.relay.any (·.sourceTxHash = txHash) ∧ patch.state.any (· ≠ .submitted) then
    throw (.error "UNRESOLVED_RELAY_CANNOT_BE_DROPPED")
  else
    match w.data.jobs.get txHash with
    | none => pure ()
    | some job => commit { w.data with jobs := w.data.jobs.set (job.patched patch w.clock) }

/-- Jobs that have not finished, the one of the envelope first. -/
def Data.pending (d : Data) : List StoredJob :=
  let jobs := d.jobs.rows.filter fun job ↦ !job.state.terminal
  let owner := fun job : StoredJob ↦ decide (d.relay.map (·.sourceTxHash) = some job.txHash)
  jobs.filter owner ++ jobs.filter fun job ↦ !owner job

end Proofmark.Worker
