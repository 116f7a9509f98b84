import Proofmark.Worker.Store

/-!
# The source scan

`source-scan.ts`: one bounded step of the scan. The stored checkpoints are compared with the chain,
a fork is rewound to the last checkpoint that is still canonical, and the logs of the next range
are committed if both ends of the range are the same after they were read.

The requests that the code sends together are answered in some order; what the step does does not
depend on it.
-/

open Async

namespace Proofmark.Worker

structure ScanOptions where
  address : String
  startBlock : ℕ
  confirmations : ℕ
  chunk : ℕ

structure ScanResult where
  scanned : Bool
  jobs : ℕ
  rewound : ℕ

/-- `validBlock`: the number and the hash of a block, if it has both and is at the height. -/
def validBlock (block : Option BlockAnswer) (height : Option ℕ) : Option (ℕ × String) :=
  match block with
  | some ⟨some number, some hash⟩ =>
    if height.all (· = number) && isHash hash then some (number, hash) else none
  | _ => none

/-- The number of the block is that of the height, and the hash is one. -/
theorem validBlock_eq_some {block : Option BlockAnswer} {height : Option ℕ} {number : ℕ}
    {hash : String} : validBlock block height = some (number, hash) ↔
      block = some ⟨some number, some hash⟩ ∧ (∀ h, height = some h → h = number) ∧
        isHash hash = true := by
  unfold validBlock
  split
  case h_1 number' hash' =>
    constructor
    · intro h
      split at h
      case isFalse => cases h
      case isTrue hvalid =>
        obtain ⟨rfl, rfl⟩ := Prod.mk.inj (Option.some.inj h)
        rw [Bool.and_eq_true] at hvalid
        refine ⟨rfl, fun h hheight ↦ ?_, hvalid.2⟩
        subst hheight
        simpa using hvalid.1
    · rintro ⟨hblock, hheight, hhash⟩
      obtain ⟨rfl, rfl⟩ : number' = number ∧ hash' = hash := by simpa using hblock
      refine if_pos ?_
      rw [Bool.and_eq_true]
      refine ⟨?_, hhash⟩
      cases height with
      | none => rfl
      | some h => simpa using hheight h rfl
  case h_2 hother =>
    refine iff_of_false nofun fun h ↦ ?_
    exact hother _ _ h.1

/-- The last height that may be scanned. -/
def safeHead (call : ℕ) (o : ScanOptions) : WorkerTask ℤ := do
  match ← askBoth call .sourceBlockNumber .sourceFinalized with
  | (some head, finalized) =>
    match validBlock finalized none with
    | some (number, _) =>
      if head < number then throw (.sourceSafety "SOURCE_FINALITY_UNCONFIRMED")
      else return min (number : ℤ) (head - o.confirmations)
    | none => throw (.sourceSafety "SOURCE_FINALITY_UNCONFIRMED")
  | (none, _) => throw (.sourceSafety "SOURCE_FINALITY_UNCONFIRMED")

/-- Install the first checkpoint, if there is none; `false` if the chain is not there yet. -/
def anchorSource (call : ℕ) (o : ScanOptions) (safe : ℤ) : WorkerTask Bool := do
  let w ← Program.get
  if w.data.checkpoints ≠ [] then return true
  else if safe < (o.startBlock : ℤ) - 1 then return false
  else
    match validBlock (← ask call (.sourceBlock (o.startBlock - 1))) (some (o.startBlock - 1)) with
    | none => throw (.sourceSafety "SOURCE_ANCHOR_UNAVAILABLE")
    | some (number, hash) => do
      initializeSource ⟨number, hash⟩
      return true

/-- The last of the checkpoints that is canonical, given in reverse. -/
def findAncestor (call : ℕ) (safe : ℤ) :
    List SourceCheckpoint → WorkerTask (Option SourceCheckpoint)
  | [] => return none
  | checkpoint :: rest => do
    match validBlock (← ask call (.sourceBlock checkpoint.height)) (some checkpoint.height) with
    | some (number, hash) =>
      if hash = checkpoint.hash ∧ (number : ℤ) ≤ safe then return some checkpoint
      else findAncestor call safe rest
    | none => findAncestor call safe rest

/-- The last checkpoint is not canonical any more. -/
def rewindFork (call : ℕ) (safe : ℤ) (beforeRewind : WorkerTask Unit)
    (checkpoints : List SourceCheckpoint) : WorkerTask ℕ := do
  beforeRewind
  match ← findAncestor call safe checkpoints.reverse with
  | none => holdSource "SOURCE_REORG_BEYOND_VERIFIED_ANCHOR"
  | some ancestor => rewindUnsignedSource ancestor

/-- Compare the last checkpoint with the chain; the number of jobs that a rewind dropped. -/
def checkCheckpoint (call : ℕ) (safe : ℤ) (beforeRewind : WorkerTask Unit) : WorkerTask ℕ := do
  let w ← Program.get
  match w.data.checkpoints.getLast? with
  | none => throw (.error "Cannot read properties of undefined (reading 'height')")
  | some last =>
    if last.height ≠ w.data.cursor then throw (.sourceSafety "SOURCE_CHECKPOINT_CURSOR_MISMATCH")
    else
      match validBlock (← ask call (.sourceBlock last.height)) (some last.height) with
      | none => throw (.sourceSafety "SOURCE_CHECKPOINT_UNAVAILABLE")
      | some (_, hash) =>
        if hash = last.hash then return 0
        else rewindFork call safe beforeRewind w.data.checkpoints

/-- `blocks` and `locations` -/
structure LogsSeen where
  blocks : List (ℕ × String) := []
  locations : List (String × (String × ℕ)) := []

/-- The hash of the block of a log, asked for once. -/
def blockOf (call : ℕ) (seen : LogsSeen) (blockNumber : ℕ) : WorkerTask String := do
  match seen.blocks.lookup blockNumber with
  | some hash => return hash
  | none =>
    match validBlock (← ask call (.sourceBlock blockNumber)) (some blockNumber) with
    | none => throw (.sourceSafety "SOURCE_LOG_BLOCK_UNAVAILABLE")
    | some (_, hash) => return hash

/-- One iteration of the loop over the logs. -/
def checkLog (call : ℕ) (o : ScanOptions) (from_ to_ : ℕ) (seen : LogsSeen) (entry : ScannedLog) :
    WorkerTask LogsSeen :=
  match entry.transactionIndex with
  | none => throw (.sourceSafety "SOURCE_LOG_COORDINATE_MISMATCH")
  | some index =>
    if entry.removed ∨ entry.address.toLower ≠ o.address.toLower ∨ entry.blockNumber < from_ ∨
        to_ < entry.blockNumber then
      throw (.sourceSafety "SOURCE_LOG_COORDINATE_MISMATCH")
    else do
      let hash ← blockOf call seen entry.blockNumber
      if hash ≠ entry.blockHash then throw (.sourceSafety "SOURCE_LOG_HASH_MISMATCH")
      else if (seen.locations.lookup entry.transactionHash).any (· ≠ (entry.blockHash, index)) then
        throw (.sourceSafety "SOURCE_TRANSACTION_COORDINATE_MISMATCH")
      else return ⟨(entry.blockNumber, hash) :: seen.blocks,
        (entry.transactionHash, (entry.blockHash, index)) :: seen.locations⟩

/-- Both ends of the range, and its finality, after the logs were read. -/
def recheckRange (call : ℕ) (o : ScanOptions) (to_ : ℕ) (hash : String) : WorkerTask Unit := do
  let w ← Program.get
  match w.data.checkpoints.getLast? with
  | none => throw (.error "Cannot read properties of undefined (reading 'height')")
  | some start => do
    let (endAgain, startAgain) ← askBoth call (.sourceBlock to_) (.sourceBlock start.height)
    let (finalAgain, headAgain) ← askBoth call .sourceFinalized .sourceBlockNumber
    match validBlock finalAgain none, headAgain with
    | some (final, _), some head =>
      if validBlock endAgain (some to_) ≠ some (to_, hash) ∨
          validBlock startAgain (some start.height) ≠ some (start.height, start.hash) ∨
          head < final ∨ final < to_ ∨ (head : ℤ) - o.confirmations < to_ then
        throw (.sourceSafety "SOURCE_RANGE_CHANGED_DURING_SCAN")
    | _, _ => throw (.sourceSafety "SOURCE_RANGE_CHANGED_DURING_SCAN")

/-- A job as the scan hands it to the store. -/
def foundJob (seen : LogsSeen) (job : Job) : StoredJob :=
  { job with
    blockHash := (seen.locations.lookup job.txHash).map Prod.fst
    transactionIndex := (seen.locations.lookup job.txHash).map Prod.snd
    state := .discovered, attempts := 0, discoveredAt := 0, updatedAt := 0 }

/-- Scan the next range. -/
def scanRange (call : ℕ) (parseLog : ParseLog) (o : ScanOptions) (safe : ℤ) (rewound : ℕ) :
    WorkerTask ScanResult := do
  let w ← Program.get
  let from_ := w.data.cursor + 1
  if safe < from_ then return ⟨false, 0, rewound⟩
  else
    let to_ := min (from_ + o.chunk - 1) safe.toNat
    match validBlock (← ask call (.sourceBlock to_)) (some to_) with
    | none => throw (.sourceSafety "SOURCE_RANGE_END_UNAVAILABLE")
    | some (_, hash) => do
      let logs ← ask call (.sourceLogs o.address from_ to_)
      let seen ← logs.foldlM (checkLog call o from_ to_) {}
      recheckRange call o to_ hash
      match groupSourceEvents parseLog o.address (logs.map ScannedLog.toSourceLog) with
      | .error message => throw (.error message)
      | .ok jobs => do
        assertHubReady
        commitSourceRange from_ ⟨to_, hash⟩ (jobs.map (foundJob seen))
        return ⟨true, jobs.length, rewound⟩

/-- `scanSourceStep` -/
def scanSourceStep (call : ℕ) (parseLog : ParseLog) (o : ScanOptions)
    (beforeRewind : WorkerTask Unit) : WorkerTask ScanResult := do
  assertSourceReady
  assertHubReady
  if o.startBlock < 1 ∨ o.confirmations < 1 ∨ o.chunk < 1 then
    throw (.sourceSafety "INVALID_SOURCE_SCAN_SETTINGS")
  else do
    let safe ← safeHead call o
    if ← anchorSource call o safe then do
      let rewound ← checkCheckpoint call safe beforeRewind
      scanRange call parseLog o safe rewound
    else return ⟨false, 0, 0⟩

end Proofmark.Worker
