import Proofmark.Worker.Monitor
import Proofmark.Worker.RelayRules

/-!
# What the monitor relies on

`Lawful` is the invariant that the worker's operations keep and the monitor re-states: the scope is
well formed, the checkpoints lead from the anchor of the scope to the cursor, every job lies between
them with its coordinates and times, only a skipped job has an observation, and the envelope is one
of the scope. A lawful file with a scope and a checkpoint is accepted at every time that is not
before a time in it (`Lawful.monitored`).
-/

namespace Proofmark.Worker

open Monitor

variable (K : Packages)

/-- A scope that the monitor accepts. -/
structure WorkerScope.Valid (s : WorkerScope) : Prop where
  sourceChainId : 0 < s.sourceChainId ∧ IsSafe s.sourceChainId
  hubChainId : 0 < s.hubChainId ∧ IsSafe s.hubChainId
  chainKey : 0 < s.chainKey ∧ IsSafe s.chainKey
  startBlock : 0 < s.startBlock ∧ IsSafe s.startBlock
  source : address K s.source = true
  asc : address K s.asc = true
  signer : address K s.signer = true

/-- A job between the start of the scope and the cursor, at a time. -/
structure LawfulJob (startBlock cursor now : ℕ) (job : StoredJob) : Prop where
  hash : isHash job.txHash = true
  number : startBlock ≤ job.blockNumber ∧ job.blockNumber ≤ cursor
  block : job.blockHash.any isHash = true
  index : job.transactionIndex.any integer = true
  times : job.discoveredAt ≤ job.updatedAt ∧ job.updatedAt ≤ now
  attempts : IsSafe job.attempts ∧ (job.state.terminal = false → IsSafe (job.attempts + 1))
  action : job.action ≤ 5
  logCount : 0 < job.logCount ∧ IsSafe job.logCount
  skip : ∀ o, job.skipObservation = some o → job.state = .skipped ∧ Checkable o job.updatedAt

/-- Checkpoints from the anchor of a scope to the cursor. -/
structure Chained (startBlock cursor : ℕ) (checkpoints : List SourceCheckpoint) : Prop where
  anchor : ∃ a, checkpoints.head? = some a ∧ a.height + 1 = startBlock
  sorted : checkpoints.Pairwise fun a b ↦ a.height < b.height
  hash : ∀ c ∈ checkpoints, isHash c.hash = true
  last : checkpoints.getLast?.map SourceCheckpoint.height = some cursor
  length : checkpoints.length ≤ 129

/-- An envelope of a scope. -/
structure RelayEnvelope.Of (s : WorkerScope) (relay : RelayEnvelope) : Prop where
  hash : isHash relay.hash = true
  queryId : isHash relay.queryId = true
  nonce : IsSafe relay.nonce
  chainId : relay.chainId = s.hubChainId
  to_ : address K relay.to_ = true ∧ relay.to_.toLower = s.asc.toLower
  signer : address K relay.signer = true ∧ relay.signer.toLower = s.signer.toLower

/-- **The invariant of the file**, at a time. -/
structure Lawful (now : ℕ) (d : Data) : Prop where
  cursor : IsSafe d.cursor
  baseline : ∀ n, d.hubStartNonce = some n → IsSafe n
  unbound : d.scope = none → d.checkpoints = []
  scope : ∀ s, d.scope = some s → s.Valid K
  source : ∀ s, d.scope = some s → d.checkpoints ≠ [] → Chained s.startBlock d.cursor d.checkpoints
  jobs : ∀ s, d.scope = some s → ∀ job ∈ d.jobs.rows, LawfulJob s.startBlock d.cursor now job
  relay : ∀ s, d.scope = some s → ∀ relay, d.relay = some relay → relay.Of K s

variable {K} {now now' : ℕ} {d : Data}

theorem LawfulJob.mono {startBlock cursor cursor' : ℕ} {job : StoredJob}
    (h : LawfulJob startBlock cursor now job) (hcursor : cursor ≤ cursor') (hnow : now ≤ now') :
    LawfulJob startBlock cursor' now' job :=
  { h with
    number := ⟨h.number.1, h.number.2.trans hcursor⟩
    times := ⟨h.times.1, h.times.2.trans hnow⟩ }

theorem Lawful.later (h : Lawful K now d) (hnow : now ≤ now') : Lawful K now' d :=
  { h with jobs := fun s hs job hjob ↦ (h.jobs s hs job hjob).mono le_rfl hnow }

/-- Only the times of the jobs matter. -/
theorem Lawful.at (h : Lawful K now d) (hnow : ∀ job ∈ d.jobs.rows, job.updatedAt ≤ now') :
    Lawful K now' d :=
  { h with
    jobs := fun s hs job hjob ↦
      { h.jobs s hs job hjob with times := ⟨(h.jobs s hs job hjob).times.1, hnow job hjob⟩ } }

/-! ### Writing a job -/

/-- A pending job has no observation yet. -/
theorem LawfulJob.skip_eq_none {startBlock cursor : ℕ} {job : StoredJob}
    (h : LawfulJob startBlock cursor now job) (hpending : job.state.terminal = false) :
    job.skipObservation = none := by
  rcases hskip : job.skipObservation with - | o
  · rfl
  · rw [(h.skip o hskip).1] at hpending
    cases hpending

/-- A job that is changed now, with the coordinates that it had. -/
theorem LawfulJob.moved {startBlock cursor : ℕ} {job job' : StoredJob}
    (h : LawfulJob startBlock cursor now job) (hjob : job'.toJob = job.toJob)
    (hblock : job'.blockHash = job.blockHash) (hindex : job'.transactionIndex = job.transactionIndex)
    (hdiscovered : job'.discoveredAt = job.discoveredAt) (hupdated : job'.updatedAt = now)
    (hattempts : IsSafe job'.attempts ∧ (job'.state.terminal = false → IsSafe (job'.attempts + 1)))
    (hskip : ∀ o, job'.skipObservation = some o → job'.state = .skipped ∧ Checkable o now) :
    LawfulJob startBlock cursor now job' := by
  refine ⟨?_, ?_, hblock ▸ h.block, hindex ▸ h.index, ?_, hattempts, ?_, ?_, hupdated ▸ hskip⟩
  · rw [hjob]
    exact h.hash
  · rw [hjob]
    exact h.number
  · rw [hdiscovered, hupdated]
    exact ⟨h.times.1.trans h.times.2, le_rfl⟩
  · rw [hjob]
    exact h.action
  · rw [hjob]
    exact h.logCount

/-- A pending job that is changed now, without an observation. -/
theorem LawfulJob.pending_moved {startBlock cursor : ℕ} {job job' : StoredJob}
    (h : LawfulJob startBlock cursor now job) (hpending : job.state.terminal = false)
    (hjob : job'.toJob = job.toJob) (hblock : job'.blockHash = job.blockHash)
    (hindex : job'.transactionIndex = job.transactionIndex)
    (hdiscovered : job'.discoveredAt = job.discoveredAt) (hupdated : job'.updatedAt = now)
    (hattempts : IsSafe job'.attempts ∧ (job'.state.terminal = false → IsSafe (job'.attempts + 1)))
    (hskip : job'.skipObservation = job.skipObservation) :
    LawfulJob startBlock cursor now job' := by
  refine h.moved hjob hblock hindex hdiscovered hupdated hattempts fun o ho ↦ ?_
  rw [hskip, h.skip_eq_none hpending] at ho
  cases ho

/-- A job and the envelope are written together. -/
theorem Lawful.written (h : Lawful K now d) {job : StoredJob} {relay : Option RelayEnvelope}
    (hjob : ∀ s, d.scope = some s → LawfulJob s.startBlock d.cursor now job)
    (hrelay : ∀ s, d.scope = some s → ∀ r, relay = some r → r.Of K s) :
    Lawful K now { d with jobs := d.jobs.set job, relay := relay } :=
  { h with
    jobs := fun s hs found hfound ↦ by
      rcases Table.mem_set.1 hfound with rfl | ⟨hold, -⟩
      · exact hjob s hs
      · exact h.jobs s hs found hold
    relay := hrelay }

/-! ### The monitor accepts -/

section Accepts

variable {s : WorkerScope} {limits : Limits}

@[simp]
theorem integer_eq_true {n : ℕ} : integer n = true ↔ IsSafe n := by
  simp [integer]

theorem IsSafe.of_le {m n : ℕ} (h : IsSafe n) (hle : m ≤ n) : IsSafe m :=
  hle.trans h

theorem scopeAccepted_self (h : s.Valid K) : scopeAccepted K s s = true := by
  simp [scopeAccepted, h.sourceChainId, h.hubChainId, h.chainKey, h.startBlock, h.source, h.asc,
    h.signer]

theorem checkpointsAccepted_of_sorted {checkpoints : List SourceCheckpoint} {previous : Option ℕ}
    (hsorted : checkpoints.Pairwise fun a b ↦ a.height < b.height)
    (hprevious : ∀ p, previous = some p → ∀ c ∈ checkpoints, p < c.height)
    (hhash : ∀ c ∈ checkpoints, isHash c.hash = true)
    (hsafe : ∀ c ∈ checkpoints, IsSafe c.height) :
    checkpointsAccepted previous checkpoints = true := by
  induction checkpoints generalizing previous with
  | nil => rfl
  | cons checkpoint rest ih =>
    obtain ⟨hfirst, hrest⟩ := List.pairwise_cons.1 hsorted
    have hinner : checkpointsAccepted (some checkpoint.height) rest = true :=
      ih hrest (fun p hp c hc ↦ Option.some.inj hp ▸ hfirst c hc)
      (fun c hc ↦ hhash c (List.mem_cons_of_mem _ hc))
      fun c hc ↦ hsafe c (List.mem_cons_of_mem _ hc)
    have hbefore : previous.all (· < checkpoint.height) = true := by
      cases previous with
      | none => rfl
      | some p => simpa using hprevious p rfl checkpoint List.mem_cons_self
    simp [checkpointsAccepted, hinner, hbefore, hhash checkpoint List.mem_cons_self,
      hsafe checkpoint List.mem_cons_self]

/-- The last of sorted checkpoints is the highest. -/
theorem Chained.le_cursor {startBlock cursor : ℕ} {checkpoints : List SourceCheckpoint}
    (h : Chained startBlock cursor checkpoints) {c : SourceCheckpoint} (hc : c ∈ checkpoints) :
    c.height ≤ cursor := by
  obtain ⟨last, hlast, rfl⟩ := Option.map_eq_some_iff.1 h.last
  obtain ⟨init, rfl⟩ : ∃ init, checkpoints = init ++ [last] :=
    ⟨_, (List.dropLast_append_getLast? last hlast).symm⟩
  rcases List.mem_append.1 hc with hc | hc
  · exact ((List.pairwise_append.1 h.sorted).2.2 c hc last (by simp)).le
  · rw [List.mem_singleton.1 hc]

theorem Lawful.sourceAccepted (h : Lawful K now d) (hs : d.scope = some s)
    (hne : d.checkpoints ≠ []) : sourceAccepted d s = true := by
  have hchain := h.source s hs hne
  have hsorted : checkpointsAccepted none d.checkpoints = true :=
    checkpointsAccepted_of_sorted hchain.sorted nofun hchain.hash
      fun c hc ↦ h.cursor.of_le (hchain.le_cursor hc)
  unfold Monitor.sourceAccepted
  rcases hcheckpoints : d.checkpoints with - | ⟨anchor, rest⟩
  · exact absurd hcheckpoints hne
  · rw [hcheckpoints] at hchain hsorted
    obtain ⟨a, ha, hstart⟩ := hchain.anchor
    obtain rfl := Option.some.inj ha
    simp only [hsorted, hstart, hchain.last, hchain.length, decide_true, Bool.and_true]

theorem Lawful.jobAccepted (h : Lawful K now d) (hs : d.scope = some s) (hnow : IsSafe now)
    {job : StoredJob} (hjob : job ∈ d.jobs.rows) :
    jobAccepted d s now job = true ∧ skipAccepted job = true := by
  have hlawful := h.jobs s hs job hjob
  have hupdated := hnow.of_le hlawful.times.2
  have hdiscovered := hupdated.of_le hlawful.times.1
  have hnumber := h.cursor.of_le hlawful.number.2
  have haction : IsSafe job.action := le_trans hlawful.action (by decide)
  constructor
  · simp [Monitor.jobAccepted, hlawful.hash, hnumber, hlawful.number, hlawful.block, hlawful.index,
      hdiscovered, hupdated, hlawful.times, hlawful.attempts, haction, hlawful.action,
      hlawful.logCount]
  · unfold skipAccepted
    cases hskip : job.skipObservation with
    | none => rfl
    | some o =>
      obtain ⟨hstate, hcheck⟩ := hlawful.skip o hskip
      simp [hstate, hcheck.number, hcheck.hash, hcheck.confirmations, hcheck.observedAt,
        hupdated.of_le hcheck.observedAt]

/-- The findings of a job that passes. -/
theorem Lawful.checkJob (h : Lawful K now d) (hs : d.scope = some s) (hnow : IsSafe now)
    {job : StoredJob} (hjob : job ∈ d.jobs.rows) :
    checkJob K d s limits now job = .ok (jobFindings K d limits now job) := by
  obtain ⟨haccepted, hskip⟩ := h.jobAccepted hs hnow hjob
  rw [Monitor.checkJob, haccepted, hskip]
  rfl

/-- The finding of the envelope. -/
def relayFindings (K : Packages) (d : Data) (now : ℕ) : List Finding :=
  match d.relay with
  | none => []
  | some relay => [finding K "RELAY_NONCE_UNRESOLVED" (some relay.sourceTxHash)
      ((d.jobs.get relay.sourceTxHash).map fun job ↦ now - job.discoveredAt)]

theorem Lawful.checkRelay (h : Lawful K now d) (hs : d.scope = some s) (hloads : d.Loads) :
    checkRelay K d s now = .ok (relayFindings K d now) := by
  unfold Monitor.checkRelay relayFindings
  cases hrelay : d.relay with
  | none => rfl
  | some relay =>
    obtain ⟨job, hget, hstate, htx, hquery⟩ := loads_iff.1 hloads relay hrelay
    have hof := h.relay s hs relay hrelay
    obtain ⟨hjob, hkey⟩ := Table.get_eq_some.1 hget
    have hhash : isHash relay.sourceTxHash = true := hkey ▸ (h.jobs s hs job hjob).hash
    have haccepted : relayAccepted K s relay job = true := by
      simp [relayAccepted, hhash, hof.hash, hof.queryId, hof.nonce, hof.chainId, hof.to_,
        hof.signer, hstate, htx, hquery]
    simp only [hget, haccepted]
    rfl

/-- All that is found in a file. -/
def allFindings (K : Packages) (d : Data) (limits : Limits) (now : ℕ) : List Finding :=
  holdFindings K d ++ (d.jobs.rows.map (jobFindings K d limits now)).flatten ++
    relayFindings K d now

theorem mapM_ok {α β ε : Type} {f : α → Except ε β} {g : α → β} {l : List α}
    (h : ∀ x ∈ l, f x = .ok (g x)) : l.mapM f = .ok (l.map g) := by
  induction l with
  | nil => rfl
  | cons x l ih =>
    rw [List.mapM_cons, h x List.mem_cons_self, ih fun y hy ↦ h y (List.mem_cons_of_mem _ hy)]
    rfl

/-- **A lawful file is accepted**, and the report is on all that is found in it. -/
theorem Lawful.monitored (h : Lawful K now d) (hloads : d.Loads) (hs : d.scope = some s)
    (hne : d.checkpoints ≠ []) (hnow : IsSafe now) (hage : 0 < limits.jobAgeMs)
    (hage' : IsSafe limits.jobAgeMs) (hattempts : 0 < limits.attempts)
    (hattempts' : IsSafe limits.attempts) :
    monitorWorker K d s limits now = .ok (report d limits now (allFindings K d limits now)) := by
  have hbaseline : d.hubStartNonce.all integer = true := by
    cases hn : d.hubStartNonce with
    | none => rfl
    | some n => simpa using h.baseline n hn
  have hmapM : d.jobs.rows.mapM (Monitor.checkJob K d s limits now) =
      .ok (d.jobs.rows.map (jobFindings K d limits now)) :=
    mapM_ok fun job hjob ↦ h.checkJob hs hnow hjob
  unfold monitorWorker
  rw [hmapM, h.checkRelay hs hloads, h.sourceAccepted hs hne, hbaseline, hs]
  simp only [hnow, hage, hage', hattempts, hattempts', h.cursor, integer_eq_true.2, Option.all_some,
    scopeAccepted_self (h.scope s hs), Option.isSome_some, decide_true, Bool.and_true]
  rfl

end Accepts

end Proofmark.Worker
