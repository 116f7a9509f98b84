import Proofmark.Worker.RelaySafety
import Proofmark.Worker.ScanSafety
import Proofmark.Worker.TaskSafety

/-!
# The monitor accepts what the worker leaves

A worker's life is any number of processes over one file, each with settings of its own: the
bootstrap or the main loop, and the threads of its reservations, with any answers and any outcome of
every save, each process ended at any moment. `workerRules_sound` says that every thread keeps the
rules, so that the file is lawful at every moment (`WorkerReaches.lawful`); and on a lawful file the
monitor reports, and counts what it finds (`monitor_accepts`).
-/

open Async Async.Program

namespace Proofmark.Worker

variable {K : Packages} {T : Tools} {S : Settings} {w : World}

/-! ### The processes -/

/-- What changes around a process whose clock does not go back. -/
structure Around (w w' : World) : Prop extends Outside w w' where
  pool : w'.pool = w.pool
  clock : w.clock ≤ w'.clock

/-- One process of the worker. Its end is the end of the run. -/
def workerSystem (K : Packages) (T : Tools) (S : Settings) :
    Async.System World WorkerError Request.Answer ℕ where
  starts call t :=
    call = 0 ∧ ((∃ steps rounds, t = run T S 0 steps rounds) ∨ t = initWorkerState S 0) ∨
      call ≠ 0 ∧ t = runTask T S call
  answers := Replied K S
  env := Around
  crash _ _ := False

/-- The worlds that the processes reach, from an empty file. -/
inductive WorkerReaches (K : Packages) (T : Tools) : World → Prop
  | empty {w : World} (h : w.file = {}) : WorkerReaches K T w
  | process {w : World} {S : Settings} {c : Async.System.Config World WorkerError Request.Answer ℕ}
      (h : WorkerReaches K T w) (hS : S.Valid K)
      (hrun : (workerSystem K T S).Reaches ⟨w.restart, fun _ ↦ none⟩ c) : WorkerReaches K T c.state

theorem Around.inv {w' : World} (hw : Inv K S w) (h : Around w w') : Inv K S w' where
  synced := by
    change w'.data = w'.file ∧ w'.file.Loads
    rw [h.data, h.file]
    exact hw.synced
  lawful := h.file ▸ hw.lawful.later h.clock
  bound := by
    rw [h.pool, h.file]
    exact hw.bound
  ids := h.pool ▸ hw.ids
  calls := h.pool ▸ hw.calls
  placed := by
    rw [h.pool, h.file]
    exact hw.placed
  active := by
    rw [h.pool, h.active]
    exact hw.active

/-- **The rules are sound for a process.** -/
theorem workerRules_sound (hK : K.Documented) (hS : S.Valid K) :
    (workerRules K S).Sound (workerSystem K T S) where
  rely_refl := Rely.refl
  rely_trans {i} {s₁} {s₂} {s₃} h h' := @IsTrans.trans World (Rely i) _ s₁ s₂ s₃ h h'
  step_inv hw hmove := WorkerMove.inv hw hmove
  step_rely hw hmove hij := WorkerMove.rely hw hmove hij
  env_inv hw h := Around.inv hw h
  env_rely _ h := .of_eq (by rw [h.log]) h.active (by rw [h.file]) (by rw [h.file])
    (by rw [h.file]) (by rw [h.file]) h.pool h.clock
  crash_inv _ h := h.elim
  answered h := h
  started := by
    rintro call t w (⟨rfl, ⟨steps, rounds, rfl⟩ | rfl⟩ | ⟨hcall, rfl⟩) hw
    · exact run_safe hS steps rounds hw
    · exact initWorkerState_safe hS hw
    · exact runTask_safe hK hS hw hcall

/-- An empty file is lawful. -/
theorem lawful_empty (now : ℕ) : Lawful K now {} where
  cursor := Nat.zero_le _
  baseline := nofun
  unbound _ := rfl
  scope := nofun
  source := nofun
  jobs := nofun
  relay := nofun

theorem restart_inv (hloads : w.file.Loads) (hlawful : Lawful K w.clock w.file) :
    Inv K S w.restart := by
  have hload : w.file.load = .ok w.file := hloads
  unfold World.restart
  rw [hload]
  exact ⟨⟨rfl, hloads⟩, hlawful, fun hne ↦ absurd rfl hne, List.nodup_nil, nofun, nofun, nofun⟩

/-- **At every moment the file can be loaded and is lawful.** -/
theorem WorkerReaches.lawful (hK : K.Documented) (h : WorkerReaches K T w) :
    w.file.Loads ∧ Lawful K w.clock w.file := by
  induction h with
  | empty h =>
    rw [h]
    exact ⟨loads_of_relay_none rfl, lawful_empty _⟩
  | process h hS hrun ih =>
    have hgood := ((Async.System.Good.initial (restart_inv ih.1 ih.2)).run
      (workerRules_sound hK hS) hrun).1
    exact ⟨hgood.inv.synced.2, hgood.inv.lawful⟩

/-! ### What the report counts -/

namespace Monitor

/-- What a report says of a code. -/
def Report.count (r : Report) (code : String) : ℕ :=
  (r.counts.lookup code).getD 0

/-- Limits that the monitor accepts. -/
structure Limits.Valid (limits : Limits) : Prop where
  jobAgeMs : 0 < limits.jobAgeMs ∧ IsSafe limits.jobAgeMs
  attempts : 0 < limits.attempts ∧ IsSafe limits.attempts

/-- A job that is open for too long. -/
def Overdue (limits : Limits) (now : ℕ) (job : StoredJob) : Bool :=
  !job.state.terminal && limits.jobAgeMs ≤ now - job.discoveredAt

section Counts

variable {d : Data} {limits : Limits} {now : ℕ} {job : StoredJob}

/-- The codes of what is found in a file, as far as they are counted here. -/
theorem count_jobFindings (code : String) (p : StoredJob → Bool)
    (hp : ∀ job, ((jobFindings K d limits now job).map Finding.code).count code =
      if p job then 1 else 0) (jobs : List StoredJob) :
    (((jobs.map (jobFindings K d limits now)).flatten).map Finding.code).count code =
      (jobs.filter p).length := by
  induction jobs with
  | nil => rfl
  | cons job jobs ih =>
    rw [List.map_cons, List.flatten_cons, List.map_append, List.count_append, ih, hp,
      List.filter_cons]
    split
    · rw [List.length_cons, Nat.add_comm]
    · exact Nat.zero_add _

@[simp]
theorem code_finding (code : String) (txHash : Option String) (ageMs : Option ℕ) :
    (finding K code txHash ageMs).code = code :=
  rfl

/-- A finding that is there under a condition. -/
@[simp]
theorem count_maybe (c : Prop) [Decidable c] (name code : String) (txHash : Option String)
    (ageMs : Option ℕ) : ((if c then [finding K name txHash ageMs] else []).map Finding.code).count
      code = if c ∧ name = code then 1 else 0 := by
  by_cases hc : c
  · by_cases hname : name = code
    · simp [hc, hname]
    · simp [hc, hname]
  · simp [hc]

theorem dead_count : ((jobFindings K d limits now job).map Finding.code).count "DEAD_LETTER" =
    if decide (job.state = .dead) then 1 else 0 := by
  unfold jobFindings
  rw [List.map_append, List.count_append, count_maybe]
  cases hstate : job.state <;> simp

theorem overdue_count : ((jobFindings K d limits now job).map Finding.code).count "JOB_OVERDUE" =
    if Overdue limits now job then 1 else 0 := by
  unfold jobFindings Overdue JobState.terminal
  rw [List.map_append, List.count_append, count_maybe]
  cases hstate : job.state <;> simp

/-- A code that no job has. -/
theorem job_count_eq_zero {code : String}
    (hcode : code ∉ ["SKIP_WITHOUT_CONFIRMED_OBSERVATION", "DEAD_LETTER", "JOB_OVERDUE",
      "RETRY_THRESHOLD_REACHED", "PENDING_JOB_ERROR", "SUBMITTED_WITHOUT_RELAY_ENVELOPE"]) :
    ((jobFindings K d limits now job).map Finding.code).count code =
      if (fun _ ↦ false) job then 1 else 0 := by
  rw [List.count_eq_zero_of_not_mem]
  · rfl
  · intro hmem
    unfold jobFindings finding at hmem
    split_ifs at hmem <;> simp_all

theorem holds_count :
    ((holdFindings K d).map Finding.code).count "SOURCE_SAFETY_HOLD" =
        (if truthy d.sourceHold then 1 else 0) ∧
      ((holdFindings K d).map Finding.code).count "HUB_SAFETY_HOLD" =
        (if truthy d.hubHold then 1 else 0) ∧
      ((holdFindings K d).map Finding.code).count "DEAD_LETTER" = 0 ∧
      ((holdFindings K d).map Finding.code).count "JOB_OVERDUE" = 0 ∧
      ((holdFindings K d).map Finding.code).count "RELAY_NONCE_UNRESOLVED" = 0 := by
  unfold holdFindings finding
  split_ifs <;> simp

theorem relay_count (code : String) : ((relayFindings K d now).map Finding.code).count code =
    if code = "RELAY_NONCE_UNRESOLVED" ∧ d.relay.isSome then 1 else 0 := by
  unfold relayFindings finding
  cases d.relay with
  | none => simp
  | some relay =>
    by_cases hcode : code = "RELAY_NONCE_UNRESOLVED"
    · simp [hcode]
    · simp [hcode, Ne.symm hcode]

/-- The count of a code is the sum of the counts of the parts. -/
theorem count_report (code : String) :
    (report d limits now (allFindings K d limits now)).count code =
      ((holdFindings K d).map Finding.code).count code +
        (((d.jobs.rows.map (jobFindings K d limits now)).flatten).map Finding.code).count code +
          ((relayFindings K d now).map Finding.code).count code := by
  rw [Report.count, report, lookup_tally, allFindings, List.map_append, List.map_append,
    List.count_append, List.count_append]

end Counts

end Monitor

open Monitor

/-- **The monitor accepts every state that the worker reaches** once the source is initialised, at
every time that is not before a time in it, and counts each hold, dead job, unresolved envelope and
overdue job. -/
theorem monitor_accepts (hK : K.Documented) (h : WorkerReaches K T w) {s : WorkerScope}
    (hs : w.file.scope = some s) (hsource : w.file.checkpoints ≠ []) {limits : Limits}
    (hlimits : limits.Valid) {now : ℕ} (hnow : IsSafe now)
    (hlast : ∀ job ∈ w.file.jobs.rows, job.updatedAt ≤ now) :
    ∃ r, monitorWorker K w.file s limits now = .ok r ∧
      r.count "SOURCE_SAFETY_HOLD" = (if truthy w.file.sourceHold then 1 else 0) ∧
      r.count "HUB_SAFETY_HOLD" = (if truthy w.file.hubHold then 1 else 0) ∧
      r.count "DEAD_LETTER" = (w.file.jobs.rows.filter (·.state = .dead)).length ∧
      r.count "RELAY_NONCE_UNRESOLVED" = (if w.file.relay.isSome then 1 else 0) ∧
      r.count "JOB_OVERDUE" = (w.file.jobs.rows.filter (Overdue limits now)).length := by
  obtain ⟨hloads, hlawful⟩ := h.lawful hK
  have haccepted := (hlawful.at hlast).monitored hloads hs hsource hnow hlimits.jobAgeMs.1
    hlimits.jobAgeMs.2 hlimits.attempts.1 hlimits.attempts.2
  obtain ⟨hsourceHold, hhubHold, hdead, hoverdue, hrelay⟩ := holds_count (K := K) (d := w.file)
  refine ⟨_, haccepted, ?_, ?_, ?_, ?_, ?_⟩
  · rw [count_report, hsourceHold, relay_count,
      count_jobFindings _ _ fun _ ↦ job_count_eq_zero (by decide)]
    simp
  · rw [count_report, hhubHold, relay_count,
      count_jobFindings _ _ fun _ ↦ job_count_eq_zero (by decide)]
    simp
  · rw [count_report, hdead, relay_count, count_jobFindings _ _ fun _ ↦ dead_count]
    simp
  · rw [count_report, hrelay, relay_count,
      count_jobFindings _ _ fun _ ↦ job_count_eq_zero (by decide)]
    simp
  · rw [count_report, hoverdue, relay_count, count_jobFindings _ _ fun _ ↦ overdue_count]
    simp

/-! ### One life of a worker -/

namespace MonitorRun

def packages : Packages where
  transactionFrom _ := none
  keccak256 _ := "0x0000000000000000000000000000000000000000000000000000000000000000"
  id t := t
  isAddress t := t.toList.length = 42

def tools : Tools where
  parseLog topics _ := topics.head?
  ethers := ⟨fun _ ↦ [], fun bytes _ ↦ some bytes⟩
  encodeFunctionData _ _ := "0x"

def settings : Settings where
  sourceAddress := "0x5000000000000000000000000000000000000005"
  ascAddress := "0x5100000000000000000000000000000000000005"
  signer := "0x5200000000000000000000000000000000000005"
  chainKey := 1
  startBlock := 5
  confirmations := 1
  hubConfirmations := 1
  scanChunk := 10
  concurrency := 2
  maxAttempts := 3

/-- The hash of every block. -/
def hash : String :=
  "0xb000000000000000000000000000000000000000000000000000000000000005"

/-- The hash of every block after a fork. -/
def forked : String :=
  "0xf000000000000000000000000000000000000000000000000000000000000005"

/-- What the endpoints answer; the source forks once a range is scanned. -/
def reply : (q : Request) → World → q.Answer
  | .order, _ => .ok true
  | .version _ name, _ =>
    .ok (if name ∈ ["TRANSACTION_PROCESSING_VERSION", "EPOCH_SCHEMA_VERSION"] then 2 else 1)
  | .network hub, _ => .ok (if hub then 102031 else 11155111)
  | .expectedChainKey, _ => .ok 1
  | .sourceContract, _ => .ok settings.sourceAddress
  | .transactionCount _ _, _ => .ok (some 0)
  | .hubBlockNumber, _ => .ok (some 9)
  | .sourceBlockNumber, _ => .ok (some 20)
  | .sourceFinalized, _ => .ok (some ⟨some 15, some hash⟩)
  | .sourceBlock height, w =>
    if height ≤ 20 then .ok (some ⟨some height, if w.file.cursor ≤ 4 then hash else forked⟩)
    else .ok none
  | .sourceLogs _ _ _, _ => .ok []
  | _, _ => .error (.error "timeout")

theorem reply_replied (q : Request) (w : World) : Replied packages settings q (reply q w) w := by
  cases q with
  | sourceBlock height =>
    change Replied packages settings (.sourceBlock height)
      (if height ≤ 20 then .ok (some ⟨some height, if w.file.cursor ≤ 4 then hash else forked⟩)
      else .ok none) w
    split
    case isTrue hle =>
      intro b hb n hn
      obtain rfl := Option.some.inj hb
      obtain rfl := Option.some.inj hn
      exact hle.trans (by decide)
    case isFalse => exact nofun
  | sourceLogs address fromBlock toBlock =>
    exact ⟨show 0 < 4294967296 by decide, nofun⟩
  | expectedChainKey => exact (by decide +kernel : Monitor.address packages settings.scope.asc = true)
  | sourceContract => exact (by decide +kernel : packages.isAddress settings.sourceAddress.toLower = true)
  | _ => trivial

theorem settings_valid : settings.Valid packages :=
  ⟨by decide, by decide, by decide, by decide, by decide +kernel, by decide +kernel⟩

/-- A process whose first call makes so many requests, each answered. -/
def process (t : WorkerTask Unit) (h : (workerSystem packages tools settings).starts 0 t)
    (count : ℕ) : List (Async.System.Event (workerSystem packages tools settings)) :=
  [.start 0 t h, .resume 0] ++
    (List.replicate count [.answer 0 reply reply_replied, .resume 0]).flatten

/-- A world after a process. -/
def after (w : World) (t : WorkerTask Unit) (h : (workerSystem packages tools settings).starts 0 t)
    (count : ℕ) : World :=
  (Async.System.play (process t h count) ⟨w.restart, fun _ ↦ none⟩).state

theorem after_reached {w : World} (h : WorkerReaches packages tools w) (t : WorkerTask Unit)
    (hstart : (workerSystem packages tools settings).starts 0 t) (count : ℕ) :
    WorkerReaches packages tools (after w t hstart count) :=
  .process h settings_valid (Async.System.reaches_play _ _)

/-- The bootstrap, from an empty file. -/
def bootstrapped : World :=
  after { data := {}, file := {} } (initWorkerState settings 0) (.inl ⟨rfl, .inr rfl⟩) 9

/-- Then the main loop, which scans a range and finds it forked. -/
def scanned : World :=
  after bootstrapped (run tools settings 0 2 0) (.inl ⟨rfl, .inl ⟨2, 0, rfl⟩⟩) 45

theorem scanned_reached : WorkerReaches packages tools scanned :=
  after_reached (after_reached (.empty rfl) _ _ _) _ _ _

end MonitorRun

theorem monitor_accepts_run :
    ∃ r, monitorWorker MonitorRun.packages MonitorRun.scanned.file MonitorRun.settings.scope
        ⟨1000, 3⟩ 5000 = .ok r ∧ r.count "SOURCE_SAFETY_HOLD" = 1 := by
  have hdigest : MonitorRun.packages.Documented := ⟨fun _ ↦
    show isHash "0x0000000000000000000000000000000000000000000000000000000000000000" = true by decide⟩
  have hlimits : Monitor.Limits.Valid ⟨1000, 3⟩ := ⟨by decide, by decide⟩
  have hscope : MonitorRun.scanned.file.scope = some MonitorRun.settings.scope := by decide +kernel
  have hheld : truthy MonitorRun.scanned.file.sourceHold = true := by decide +kernel
  obtain ⟨r, haccepted, hsource, -⟩ := monitor_accepts hdigest MonitorRun.scanned_reached hscope
    (by decide +kernel) hlimits (show IsSafe 5000 by decide) (by decide +kernel)
  exact ⟨r, haccepted, hsource.trans (if_pos hheld)⟩

end Proofmark.Worker
