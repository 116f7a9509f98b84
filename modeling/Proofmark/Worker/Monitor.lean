import Mathlib.Algebra.GroupWithZero.Nat
import Proofmark.Worker.Transport

/-!
# The worker monitor

`monitorWorker` of `monitor.ts`: a report on the contents of the worker's file. The file is read
into `Data`, whose types say that a text is a text and a state is one of the six; the version is
always 1. What else the monitor requires it checks here, and one failure is an error without a
report. The report counts every finding (`lookup_tally`) and lists the first hundred; the fields of
it that are always the same are left out.
-/

namespace Proofmark.Worker

namespace Monitor

/-- `integer` -/
def integer (n : ℕ) : Bool :=
  IsSafe n

/-- `address` -/
def address (K : Packages) (value : String) : Bool :=
  K.isAddress value && value.toLower != "0x0000000000000000000000000000000000000000"

def requireThat (ok : Bool) : Except String Unit :=
  if ok then .ok () else .error "INVALID_WORKER_MONITOR_STATE"

structure Limits where
  jobAgeMs : ℕ
  attempts : ℕ

structure Finding where
  caseDigest : Option String
  code : String
  ageMs : Option ℕ

structure Distribution where
  sampleCount : ℕ
  p50 : Option ℕ
  p95 : Option ℕ
  p99 : Option ℕ

/-- `retainedStateMetrics` -/
structure RetainedStateMetrics where
  completed : ℕ
  skipped : ℕ
  failed : ℕ
  failureRatePpm : Option ℕ
  completedLatencyMs : Distribution
  skippedLatencyMs : Distribution
  failedLatencyMs : Distribution
  pendingAgeMs : Distribution
  overduePendingAgeMs : Distribution
  attempts : Distribution
  totalAttempts : ℕ
  retriedJobs : ℕ

structure Report where
  observedAt : ℕ
  status : String
  limits : Limits
  cursor : ℕ
  checkpoints : ℕ
  totalJobs : ℕ
  states : List (String × ℕ)
  oldestPendingAgeMs : ℕ
  findingCount : ℕ
  counts : List (String × ℕ)
  findings : List Finding
  findingsTruncated : Bool
  retainedStateMetrics : RetainedStateMetrics

/-! ### Counting -/

/-- `counts[code] = (counts[code] ?? 0) + 1` -/
def bump (code : String) : List (String × ℕ) → List (String × ℕ)
  | [] => [(code, 1)]
  | (other, n) :: rest => if other = code then (other, n + 1) :: rest else (other, n) :: bump code rest

def tally (codes : List String) : List (String × ℕ) :=
  codes.foldl (fun counts code ↦ bump code counts) []

theorem lookup_bump (code other : String) (counts : List (String × ℕ)) :
    ((bump code counts).lookup other).getD 0 =
      (counts.lookup other).getD 0 + if other = code then 1 else 0 := by
  induction counts with
  | nil =>
    by_cases h : other = code
    · simp [bump, h]
    · simp [bump, List.lookup_cons, beq_eq_false_iff_ne.2 h, h]
  | cons entry rest ih =>
    obtain ⟨name, n⟩ := entry
    unfold bump
    split
    case isTrue hname =>
      subst hname
      by_cases h : other = name
      · simp [h]
      · simp [List.lookup_cons, beq_eq_false_iff_ne.2 h, h]
    case isFalse hname =>
      by_cases h : other = name
      · subst h
        simp [hname]
      · simp [List.lookup_cons, beq_eq_false_iff_ne.2 h, ih]

/-- **Every occurrence is counted.** -/
theorem lookup_tally (codes : List String) (code : String) :
    ((tally codes).lookup code).getD 0 = codes.count code := by
  have hfold : ∀ counts : List (String × ℕ),
      ((codes.foldl (fun counts code ↦ bump code counts) counts).lookup code).getD 0 =
        (counts.lookup code).getD 0 + codes.count code := by
    induction codes with
    | nil => exact fun _ ↦ rfl
    | cons head codes ih =>
      intro counts
      rw [List.foldl_cons, ih, lookup_bump, List.count_cons, Nat.add_assoc]
      congr 1
      by_cases h : code = head
      · simp [h, Nat.add_comm]
      · simp [h, Ne.symm h]
  simpa [tally] using hfold []

/-! ### Metrics -/

def percentile (values : List ℕ) (numerator : ℕ) : Option ℕ :=
  (values.insertionSort (· ≤ ·))[(values.length * numerator + 99) / 100 - 1]?

def distribution (values : List ℕ) : Distribution :=
  ⟨values.length, percentile values 50, percentile values 95, percentile values 99⟩

/-- The times from discovery to the last change, of the jobs in a state. -/
def latencies (jobs : List StoredJob) (state : JobState) : List ℕ :=
  (jobs.filter (·.state = state)).map fun job ↦ job.updatedAt - job.discoveredAt

def metrics (jobs : List StoredJob) (limits : Limits) (now : ℕ) : RetainedStateMetrics :=
  let completed := latencies jobs .done
  let skipped := latencies jobs .skipped
  let failed := latencies jobs .dead
  let pending := (jobs.filter fun job ↦ !job.state.terminal).map fun job ↦ now - job.discoveredAt
  let terminal := completed.length + skipped.length + failed.length
  let attempts := jobs.map (·.attempts)
  { completed := completed.length
    skipped := skipped.length
    failed := failed.length
    failureRatePpm := if terminal = 0 then none else some (failed.length * 1000000 / terminal)
    completedLatencyMs := distribution completed
    skippedLatencyMs := distribution skipped
    failedLatencyMs := distribution failed
    pendingAgeMs := distribution pending
    overduePendingAgeMs := distribution (pending.filter (limits.jobAgeMs ≤ ·))
    attempts := distribution attempts
    totalAttempts := attempts.sum
    retriedJobs := (attempts.filter (0 < ·)).length }

/-! ### What is required -/

variable (K : Packages) (d : Data) (expected : WorkerScope) (limits : Limits) (now : ℕ)

/-- The state is of the expected scope. -/
def scopeAccepted (scope : WorkerScope) : Bool :=
  [(expected.sourceChainId, scope.sourceChainId), (expected.hubChainId, scope.hubChainId),
    (expected.chainKey, scope.chainKey), (expected.startBlock, scope.startBlock)].all (fun p ↦
      integer p.1 && 0 < p.1 && p.2 = p.1) &&
  [(expected.source, scope.source), (expected.asc, scope.asc), (expected.signer, scope.signer)].all
    fun p ↦ address K p.1 && address K p.2 && p.2.toLower = p.1.toLower

/-- The loop over the checkpoints; `previous` is none before the first. -/
def checkpointsAccepted : Option ℕ → List SourceCheckpoint → Bool
  | _, [] => true
  | previous, checkpoint :: rest =>
    integer checkpoint.height && previous.all (· < checkpoint.height) && isHash checkpoint.hash &&
      checkpointsAccepted (some checkpoint.height) rest

/-- From the anchor of the scope to the cursor. -/
def sourceAccepted : Bool :=
  match d.checkpoints with
  | [] => false
  | anchor :: rest =>
    (anchor :: rest).length ≤ 129 && checkpointsAccepted none (anchor :: rest) &&
      anchor.height + 1 = expected.startBlock &&
        ((anchor :: rest).getLast?.map SourceCheckpoint.height) = some d.cursor

def jobAccepted (job : StoredJob) : Bool :=
  isHash job.txHash && integer job.blockNumber && expected.startBlock ≤ job.blockNumber &&
    job.blockNumber ≤ d.cursor && job.blockHash.any isHash && job.transactionIndex.any integer &&
    integer job.discoveredAt && integer job.updatedAt && job.discoveredAt ≤ job.updatedAt &&
    job.updatedAt ≤ now && integer job.attempts && integer job.action && job.action ≤ 5 &&
    integer job.logCount && 0 < job.logCount

def skipAccepted (job : StoredJob) : Bool :=
  job.skipObservation.all fun observation ↦
    integer observation.blockNumber && isHash observation.blockHash &&
      integer observation.confirmations && 0 < observation.confirmations &&
      integer observation.observedAt && observation.observedAt ≤ job.updatedAt &&
      job.state = .skipped

def relayAccepted (relay : RelayEnvelope) (job : StoredJob) : Bool :=
  isHash relay.sourceTxHash && isHash relay.hash && isHash relay.queryId && integer relay.nonce &&
    relay.chainId = expected.hubChainId && address K relay.to_ && address K relay.signer &&
    relay.to_.toLower = expected.asc.toLower && relay.signer.toLower = expected.signer.toLower &&
    job.state = .submitted && job.ascTxHash = some relay.hash && job.queryId = some relay.queryId

/-! ### What is found -/

/-- `add` -/
def finding (code : String) (txHash : Option String) (ageMs : Option ℕ) : Finding :=
  ⟨txHash.map K.id, code, ageMs⟩

def holdFindings : List Finding :=
  (if truthy d.sourceHold then [finding K "SOURCE_SAFETY_HOLD" none none] else []) ++
  (if d.hubStartNonce = none then [finding K "HUB_SIGNER_BASELINE_MISSING" none none] else []) ++
  (if truthy d.hubHold then [finding K "HUB_SAFETY_HOLD" none none] else [])

def jobFindings (job : StoredJob) : List Finding :=
  let age := now - job.discoveredAt
  (if job.state = .skipped ∧ job.skipObservation = none then
    [finding K "SKIP_WITHOUT_CONFIRMED_OBSERVATION" (some job.txHash) none] else []) ++
  if job.state = .dead then [finding K "DEAD_LETTER" (some job.txHash) (some age)]
  else if job.state = .done ∨ job.state = .skipped then []
  else
    (if limits.jobAgeMs ≤ age then [finding K "JOB_OVERDUE" (some job.txHash) (some age)] else []) ++
    (if limits.attempts ≤ job.attempts then
      [finding K "RETRY_THRESHOLD_REACHED" (some job.txHash) none] else []) ++
    (if truthy job.lastError then [finding K "PENDING_JOB_ERROR" (some job.txHash) none] else []) ++
    (if job.state = .submitted ∧ d.relay.map (·.sourceTxHash) ≠ some job.txHash then
      [finding K "SUBMITTED_WITHOUT_RELAY_ENVELOPE" (some job.txHash) none] else [])

/-- One iteration of the loop over the jobs. -/
def checkJob (job : StoredJob) : Except String (List Finding) := do
  requireThat (jobAccepted d expected now job)
  requireThat (skipAccepted job)
  return jobFindings K d limits now job

/-- The unresolved envelope, if there is one. -/
def checkRelay : Except String (List Finding) :=
  match d.relay with
  | none => .ok []
  | some relay =>
    match d.jobs.get relay.sourceTxHash with
    | none => .error "INVALID_WORKER_MONITOR_STATE"
    | some job => do
      requireThat (relayAccepted K expected relay job)
      return [finding K "RELAY_NONCE_UNRESOLVED" (some relay.sourceTxHash)
        (some (now - job.discoveredAt))]

def JobState.name : JobState → String
  | .discovered => "discovered"
  | .attested => "attested"
  | .submitted => "submitted"
  | .done => "done"
  | .skipped => "skipped"
  | .dead => "dead"

/-- The report on a state that passed. -/
def report (found : List Finding) : Report :=
  { observedAt := now
    status := if found = [] then "NO_LOCAL_FINDINGS" else "ATTENTION_REQUIRED"
    limits := limits
    cursor := d.cursor
    checkpoints := d.checkpoints.length
    totalJobs := d.jobs.rows.length
    states := tally (d.jobs.rows.map fun job ↦ JobState.name job.state)
    oldestPendingAgeMs := ((d.jobs.rows.filter fun job ↦ !job.state.terminal).map fun job ↦
      now - job.discoveredAt).foldl max 0
    findingCount := found.length
    counts := tally (found.map Finding.code)
    findings := found.take 100
    findingsTruncated := 100 < found.length
    retainedStateMetrics := metrics d.jobs.rows limits now }

end Monitor

open Monitor

/-- `monitorWorker` -/
def monitorWorker (K : Packages) (d : Data) (expected : WorkerScope) (limits : Limits) (now : ℕ) :
    Except String Report := do
  requireThat (integer now && integer limits.jobAgeMs && 0 < limits.jobAgeMs &&
    integer limits.attempts && 0 < limits.attempts)
  requireThat (d.scope.isSome && integer d.cursor)
  requireThat (d.scope.all (scopeAccepted K expected))
  requireThat (sourceAccepted d expected)
  requireThat (d.hubStartNonce.all integer)
  let found ← d.jobs.rows.mapM (checkJob K d expected limits now)
  let relayFound ← checkRelay K d expected now
  return report d limits now (holdFindings K d ++ found.flatten ++ relayFound)

end Proofmark.Worker
