import Proofmark.Worker.MainSafety

/-!
# The scan of a worker

`scanSourceStep` makes only moves that the rules of the main thread allow, and so does the main loop
(`run_safe`). What the scan commits is what it has checked: the ends of a range are numbers and
hashes of blocks, the coordinates of a job come from the logs and blocks that were read
(`LogsSeen.Checked`), and the store itself checks that they lie in the range.
-/

open Async Async.Program

namespace Proofmark.Worker

variable {K : Packages} {T : Tools} {S : Settings} {w : World}

/-! ### Reading the source -/

/-- The number of a block that the scan accepts is safe. -/
theorem safe_of_validBlock {height h : ℕ} {block : Option BlockAnswer} {number : ℕ} {hash : String}
    (hanswer : Answered K S (.sourceBlock height) (.ok block))
    (hvalid : validBlock block (some h) = some (number, hash)) :
    h = number ∧ IsSafe number ∧ isHash hash = true := by
  obtain ⟨rfl, hheight, hhash⟩ := validBlock_eq_some.1 hvalid
  obtain ⟨_, hsafe⟩ := hanswer
  exact ⟨hheight h rfl, hsafe _ rfl number rfl, hhash⟩

theorem safeHead_leaves (o : ScanOptions) : Leaves (taskRules K S) 0 (Rely 0) (safeHead 0 o) := by
  refine ((taskRules_guarded 0).askBoth_leaves _ _).bind fun answers ↦ ?_
  split
  · split
    · split
      · exact leaves_throw _
      · exact leaves_pure _
    · exact leaves_throw _
  · exact leaves_throw _

theorem findAncestor_leaves (safe : ℤ) (checkpoints : List SourceCheckpoint) :
    Leaves (taskRules K S) 0 (Rely 0) (findAncestor 0 safe checkpoints) := by
  induction checkpoints with
  | nil => exact leaves_pure _
  | cons checkpoint rest ih =>
    refine ((taskRules_guarded 0).ask_leaves _).bind fun block ↦ ?_
    split
    · split
      · exact leaves_pure _
      · exact ih
    · exact ih

theorem recheckRange_leaves (o : ScanOptions) (to_ : ℕ) (hash : String) :
    Leaves (taskRules K S) 0 (Rely 0) (recheckRange 0 o to_ hash) := by
  refine leaves_get.bind fun w ↦ ?_
  split
  · exact leaves_throw _
  · refine ((taskRules_guarded 0).askBoth_leaves _ _).bind fun ends ↦
      ((taskRules_guarded 0).askBoth_leaves _ _).bind fun heads ↦ ?_
    split
    split
    · split
      · exact leaves_throw _
      · exact leaves_pure _
    · exact leaves_throw _

/-! ### The first checkpoint -/

theorem initializeSource_wp (checkpoint : SourceCheckpoint) (hw : Inv K S w) (hbound : Bound S w)
    (hheight : checkpoint.height + 1 = S.startBlock) (hhash : isHash checkpoint.hash = true) :
    (initializeSource checkpoint).wp (workerRules K S) 0
      (fun result w' ↦ Bound S w' ∧ (result = .ok () → Anchored S w')) w := by
  refine wp_seq hw (guard_keeps assertSourceReady_leaves bound_lasting w hw hbound)
    (fun _ w₁ hw₁ hbound₁ ↦ ?_) fun _ _ _ h ↦ ⟨h, nofun⟩
  rw [wp_get_bind, hw₁.synced.1]
  split
  case isTrue hne => exact ⟨hbound₁, fun _ ↦ ⟨hbound₁, hne⟩⟩
  case isFalse hempty =>
    split
    case isTrue => exact ⟨hbound₁, nofun⟩
    case isFalse hstate =>
      push Not at hstate
      have hallowed : Allowed K 0 w₁ { w₁.file with
          cursor := checkpoint.height, sourceCheckpoints := some [checkpoint] } :=
        { loads := hw₁.synced.2.of_eq rfl rfl
          lawful := hw₁.lawful.anchored hw₁.synced.2 hbound₁ hstate.1 hheight hhash
          relay := rfl
          scope := fun _ ↦ id
          checkpoints := fun _ ↦ List.cons_ne_nil _ _
          jobs := fun _ _ job _ hget ↦ ⟨job, hget, fun _ ↦ rfl⟩ }
      exact wp_refines taskRules_refines (hallowed.commit_wp hw₁
        (fun _ ↦ ⟨hbound₁, fun _ ↦ ⟨hbound₁, List.cons_ne_nil _ _⟩⟩) (fun _ ↦ ⟨hbound₁, nofun⟩)
        fun _ ↦ ⟨hbound₁, nofun⟩)

theorem anchorSource_wp (hS : S.Valid K) {o : ScanOptions} (ho : o.startBlock = S.startBlock)
    (safe : ℤ) (hw : Inv K S w) (hbound : Bound S w) :
    (anchorSource 0 o safe).wp (workerRules K S) 0
      (fun result w' ↦ Bound S w' ∧ (result = .ok true → Anchored S w')) w := by
  rw [anchorSource, wp_get_bind, hw.synced.1]
  split
  case isTrue hne => exact ⟨hbound, fun _ ↦ ⟨hbound, hne⟩⟩
  case isFalse =>
    split
    case isTrue => exact ⟨hbound, nofun⟩
    case isFalse =>
      refine wp_seq hw (ask_answered bound_lasting _ hbound) (fun block w₁ hw₁ h₁ ↦ ?_)
        fun _ _ _ h ↦ ⟨h.1, nofun⟩
      split
      case h_1 => exact ⟨h₁.1, nofun⟩
      case h_2 number hash hvalid =>
        obtain ⟨hnumber, -, hhash⟩ := safe_of_validBlock h₁.2 hvalid
        have hstart := hS.startBlock.1
        have hinit := initializeSource_wp ⟨number, hash⟩ hw₁ h₁.1
          (show number + 1 = S.startBlock by omega) hhash
        exact wp_seq hw₁ hinit (fun _ w₂ _ h₂ ↦ ⟨h₂.1, fun _ ↦ h₂.2 rfl⟩)
          fun _ _ _ h₂ ↦ ⟨h₂.1, nofun⟩

/-! ### A rewind -/

theorem rewindUnsignedSource_safe (ancestor : SourceCheckpoint) (hw : Inv K S w)
    (hanchored : Anchored S w) (hpool : w.pool = []) :
    (rewindUnsignedSource ancestor).wp (workerRules K S) 0 (fun _ w' ↦ Anchored S w') w := by
  refine wp_seq hw (guard_keeps assertSourceReady_leaves (anchored_lasting.and pool_lasting) w hw
    ⟨hanchored, hpool⟩) (fun _ w₁ hw₁ h₁ ↦ ?_) fun _ _ _ h ↦ h.1
  rw [wp_get_bind, hw₁.synced.1]
  split
  case isTrue => exact h₁.1
  case isFalse hknown =>
    have hmem : ancestor ∈ w₁.file.checkpoints := not_not.1 hknown
    have hkept : (w₁.file.rewound ancestor w₁.clock).checkpoints ≠ [] :=
      List.ne_nil_of_mem (List.mem_filter.2 ⟨hmem, decide_eq_true le_rfl⟩)
    simp only
    split
    case isTrue =>
      exact guard_keeps ((taskRules_guarded 0).holdSource_leaves _) anchored_lasting w₁ hw₁ h₁.1
    case isFalse hunsigned =>
      have hallowed : Allowed K 0 w₁ (w₁.file.rewound ancestor w₁.clock) :=
        { loads := hw₁.synced.2.rewound (Bool.not_eq_true _ ▸ hunsigned)
          lawful := hw₁.lawful.rewound hmem
          relay := rfl
          scope := fun _ ↦ id
          checkpoints := fun _ ↦ hkept
          jobs := fun id call _ hid ↦ by
            rw [h₁.2] at hid
            cases hid }
      exact wp_seq hw₁ (hallowed.main hw₁ h₁.1 (fun _ ↦ id) fun _ ↦ ⟨h₁.1.1, hkept⟩)
        (fun _ _ _ h ↦ h) fun _ _ _ h ↦ h

theorem beforeRewind_wp (hanchored : Anchored S w) :
    beforeRewind.wp (workerRules K S) 0
      (fun result w' ↦ Anchored S w' ∧ (result = .ok () → w'.pool = [])) w := by
  rw [beforeRewind, wp_get_bind]
  split
  case isTrue => exact ⟨.task .stopped, fun _ ↦ ⟨hanchored, nofun⟩⟩
  case isFalse hpool => exact ⟨hanchored, fun _ ↦ not_not.1 hpool⟩

theorem rewindFork_safe (safe : ℤ) (checkpoints : List SourceCheckpoint) :
    Keeps (workerRules K S) 0 (Anchored S) (rewindFork 0 safe beforeRewind checkpoints) := by
  intro w hw hanchored
  refine wp_seq hw (beforeRewind_wp hanchored) (fun _ w₁ hw₁ h₁ ↦ ?_) fun _ _ _ h ↦ h.1
  have hempty : Lasting fun w ↦ Anchored S w ∧ w.pool = [] := anchored_lasting.and pool_lasting
  refine wp_seq hw₁ (guard_keeps (findAncestor_leaves safe _) hempty w₁ hw₁ ⟨h₁.1, h₁.2 rfl⟩)
    (fun ancestor w₂ hw₂ h₂ ↦ ?_) fun _ _ _ h ↦ h.1
  split
  · exact guard_keeps ((taskRules_guarded 0).holdSource_leaves _) anchored_lasting w₂ hw₂ h₂.1
  · exact rewindUnsignedSource_safe _ hw₂ h₂.1 h₂.2

theorem checkCheckpoint_safe (safe : ℤ) :
    Keeps (workerRules K S) 0 (Anchored S) (checkCheckpoint 0 safe beforeRewind) := by
  intro w hw hanchored
  rw [checkCheckpoint, wp_get_bind]
  split
  · exact hanchored
  · split
    · exact hanchored
    · refine wp_seq hw (ask_answered anchored_lasting _ hanchored) (fun block w₁ hw₁ h₁ ↦ ?_)
        fun _ _ _ h ↦ h.1
      split
      · exact h₁.1
      · split
        · exact h₁.1
        · exact rewindFork_safe safe _ w₁ hw₁ h₁.1

/-! ### A range -/

/-- What the loop over the logs has read. -/
structure LogsSeen.Checked (seen : LogsSeen) : Prop where
  blocks : ∀ entry ∈ seen.blocks, isHash entry.2 = true
  locations : ∀ entry ∈ seen.locations, isHash entry.2.1 = true ∧ IsSafe entry.2.2

theorem blockOf_wp {seen : LogsSeen} (hseen : seen.Checked) (blockNumber : ℕ)
    (hw : Inv K S w) (hanchored : Anchored S w) :
    (blockOf 0 seen blockNumber).wp (workerRules K S) 0
      (fun result w' ↦ Anchored S w' ∧ ∀ hash, result = .ok hash → isHash hash = true) w := by
  unfold blockOf
  split
  case h_1 hash hlookup =>
    exact ⟨hanchored, fun _ h ↦ Except.ok.inj h ▸ hseen.blocks _ (mem_of_lookup hlookup)⟩
  case h_2 =>
    refine wp_seq hw (ask_answered anchored_lasting _ hanchored) (fun block w₁ _ h₁ ↦ ?_)
      fun _ _ _ h ↦ ⟨h.1, nofun⟩
    split
    case h_1 => exact ⟨h₁.1, nofun⟩
    case h_2 number hash hvalid =>
      exact ⟨h₁.1, fun _ h ↦ Except.ok.inj h ▸ (safe_of_validBlock h₁.2 hvalid).2.2⟩

theorem checkLog_wp (o : ScanOptions) (from_ to_ : ℕ) {seen : LogsSeen} (hseen : seen.Checked)
    {entry : ScannedLog} (hentry : ∀ n, entry.transactionIndex = some n → IsSafe n)
    (hw : Inv K S w) (hanchored : Anchored S w) :
    (checkLog 0 o from_ to_ seen entry).wp (workerRules K S) 0
      (fun result w' ↦ Anchored S w' ∧ ∀ seen', result = .ok seen' → seen'.Checked) w := by
  unfold checkLog
  split
  · exact ⟨hanchored, fun _ h ↦ by cases h⟩
  case h_2 index hindex =>
    split
    · exact ⟨hanchored, fun _ h ↦ by cases h⟩
    · refine wp_seq hw (blockOf_wp hseen _ hw hanchored) (fun hash w₁ _ h₁ ↦ ?_)
        fun _ _ _ h ↦ ⟨h.1, fun _ h ↦ by cases h⟩
      have hhash := h₁.2 hash rfl
      split
      · exact ⟨h₁.1, fun _ h ↦ by cases h⟩
      case isFalse hsame =>
        split
        · exact ⟨h₁.1, fun _ h ↦ by cases h⟩
        · refine ⟨h₁.1, fun seen' h ↦ Except.ok.inj h ▸ ⟨fun block hblock ↦ ?_,
            fun location hlocation ↦ ?_⟩⟩
          · rcases List.mem_cons.1 hblock with rfl | hblock
            · exact hhash
            · exact hseen.blocks block hblock
          · rcases List.mem_cons.1 hlocation with rfl | hlocation
            · exact ⟨not_not.1 hsame ▸ hhash, hentry index hindex⟩
            · exact hseen.locations location hlocation

/-- The jobs of a range are as the store wants them. -/
theorem foundJob_found {parseLog : ParseLog} {source : String} {raw : List SourceLog}
    {seen : LogsSeen} {jobs : List Job} (hseen : seen.Checked)
    (hraw : ∀ l ∈ raw, isHash l.transactionHash = true) (hlength : raw.length < 4294967296)
    (h : groupSourceEvents parseLog source raw = .ok jobs) {job : Job} (hjob : job ∈ jobs) :
    Found (foundJob seen job) := by
  obtain ⟨l, hl, hhash, name, hwatched⟩ := groupSourceEvents_action h hjob
  obtain ⟨hpos, hle⟩ := groupSourceEvents_logCount h hjob
  have hlocation : ∀ location, seen.locations.lookup job.txHash = some location →
      isHash location.1 = true ∧ IsSafe location.2 :=
    fun location hlookup ↦ hseen.locations _ (mem_of_lookup hlookup)
  have hblock : ((seen.locations.lookup job.txHash).map Prod.fst).all isHash = true := by
    cases hlookup : seen.locations.lookup job.txHash with
    | none => rfl
    | some location => exact (hlocation location hlookup).1
  have hindex : ((seen.locations.lookup job.txHash).map Prod.snd).all Monitor.integer = true := by
    cases hlookup : seen.locations.lookup job.txHash with
    | none => rfl
    | some location => exact integer_eq_true.2 (hlocation location hlookup).2
  have hcount : IsSafe job.logCount := show job.logCount ≤ 9007199254740991 by omega
  exact ⟨hhash ▸ hraw l hl, hblock, hindex, rfl, watched?_le hwatched, ⟨hpos, hcount⟩, rfl⟩

theorem commitSourceRange_safe {from_ : ℕ} {end_ : SourceCheckpoint} {found : List StoredJob}
    (hsafe : IsSafe end_.height) (hhash : isHash end_.hash = true)
    (hfound : ∀ job ∈ found, Found job) :
    Keeps (workerRules K S) 0 (Anchored S) (commitSourceRange from_ end_ found) := by
  refine (guard_keeps assertSourceReady_leaves anchored_lasting).bind fun _ ↦
    (guard_keeps assertHubReady_leaves anchored_lasting).bind fun _ w hw hanchored ↦ ?_
  rw [wp_get_bind, hw.synced.1]
  split
  case isTrue => exact hanchored
  case isFalse hrange =>
    push Not at hrange
    obtain ⟨rfl, hle⟩ := hrange
    split
    case h_1 => exact hanchored
    case h_2 jobs hjobs =>
      have hchain := hw.lawful.source _ hanchored.1 hanchored.2
      have hkept : Chained S.scope.startBlock end_.height
          (keptCheckpoints (w.file.checkpoints ++ [end_])) := hchain.kept hle hhash
      have hne : keptCheckpoints (w.file.checkpoints ++ [end_]) ≠ [] := by
        obtain ⟨anchor, hhead, -⟩ := hkept.anchor
        exact List.ne_nil_of_mem (List.mem_of_mem_head? hhead)
      have hallowed : Allowed K 0 w { w.file with
          jobs := jobs
          sourceCheckpoints := some (keptCheckpoints (w.file.checkpoints ++ [end_]))
          cursor := end_.height } :=
        { loads := loads_iff.2 fun relay hrelay ↦ by
            obtain ⟨job, hget, hsubmitted⟩ := loads_iff.1 hw.synced.2 relay hrelay
            exact ⟨job, addFound_get hjobs hget, hsubmitted⟩
          lawful := hw.lawful.ranged hanchored.1 hanchored.2 hle hsafe hhash hfound hjobs
          relay := rfl
          scope := fun _ ↦ id
          checkpoints := fun _ ↦ hne
          jobs := fun _ _ job _ hget ↦ ⟨job, addFound_get hjobs hget, fun _ ↦ rfl⟩ }
      exact hallowed.main hw hanchored (fun _ ↦ id) fun _ ↦ ⟨hanchored.1, hne⟩

theorem scanRange_safe (parseLog : ParseLog) (o : ScanOptions) (safe : ℤ) (rewound : ℕ) :
    Keeps (workerRules K S) 0 (Anchored S) (scanRange 0 parseLog o safe rewound) := by
  intro w hw hanchored
  rw [scanRange, wp_get_bind]
  simp only
  split
  · exact hanchored
  · refine wp_seq hw (ask_answered anchored_lasting _ hanchored) (fun block w₁ hw₁ h₁ ↦ ?_)
      fun _ _ _ h ↦ h.1
    split
    · exact h₁.1
    case h_2 number hash hvalid =>
      obtain ⟨hto, hsafe, hhash⟩ := safe_of_validBlock h₁.2 hvalid
      rw [← hto] at hsafe
      refine wp_seq hw₁ (ask_answered anchored_lasting _ h₁.1) (fun logs w₂ hw₂ h₂ ↦ ?_)
        fun _ _ _ h ↦ h.1
      obtain ⟨_, hlength, hlogs⟩ := h₂.2
      refine wp_seq hw₂ (wp_foldlM (q := LogsSeen.Checked)
        (fun seen entry s hentry hs hp hseen ↦
          checkLog_wp o _ _ hseen (hlogs entry hentry).2 hs hp) hw₂ h₂.1 ⟨nofun, nofun⟩)
        (fun seen w₃ hw₃ h₃ ↦ ?_) fun _ _ _ h ↦ h.1
      refine wp_seq hw₃ (guard_keeps (recheckRange_leaves _ _ _) anchored_lasting w₃ hw₃ h₃.1)
        (fun _ w₄ hw₄ h₄ ↦ ?_) fun _ _ _ h ↦ h
      split
      · exact h₄
      case h_2 jobs hgroup =>
        have hraw : ∀ l ∈ logs.map ScannedLog.toSourceLog, isHash l.transactionHash = true := by
          intro l hl
          obtain ⟨entry, hentry, rfl⟩ := List.mem_map.1 hl
          exact (hlogs entry hentry).1
        have hfound : ∀ job ∈ jobs.map (foundJob seen), Found job := by
          intro found hfound
          obtain ⟨job, hjob, rfl⟩ := List.mem_map.1 hfound
          exact foundJob_found (h₃.2 seen rfl) hraw (by rwa [List.length_map]) hgroup hjob
        refine wp_seq hw₄ (guard_keeps assertHubReady_leaves anchored_lasting w₄ hw₄ h₄)
          (fun _ w₅ hw₅ h₅ ↦ ?_) fun _ _ _ h ↦ h
        refine wp_seq hw₅ (commitSourceRange_safe ?_ ?_ hfound w₅ hw₅ h₅)
          (fun _ _ _ h ↦ h) fun _ _ _ h ↦ h
        · exact hsafe
        · exact hhash

/-- **A step of the scan keeps the rules.** -/
theorem scanSourceStep_safe (hS : S.Valid K) (parseLog : ParseLog) {o : ScanOptions}
    (ho : o.startBlock = S.startBlock) :
    Keeps (workerRules K S) 0 (Bound S) (scanSourceStep 0 parseLog o beforeRewind) := by
  refine (guard_keeps assertSourceReady_leaves bound_lasting).bind fun _ ↦
    (guard_keeps assertHubReady_leaves bound_lasting).bind fun _ ↦ ?_
  split
  · exact keeps_throw _
  · refine (guard_keeps (safeHead_leaves o) bound_lasting).bind fun safe w hw hbound ↦ ?_
    refine wp_seq hw (anchorSource_wp hS ho safe hw hbound) (fun anchored w₁ hw₁ h₁ ↦ ?_)
      fun _ _ _ h ↦ h.1
    cases anchored with
    | false => exact h₁.1
    | true =>
      refine wp_mono hw₁ (fun _ _ _ h ↦ h.1) (((checkCheckpoint_safe safe).bind fun rewound ↦
        scanRange_safe parseLog o safe rewound) w₁ hw₁ (h₁.2 rfl))

/-! ### The main loop -/

theorem scan_safe (hS : S.Valid K) (steps : ℕ) :
    Keeps (workerRules K S) 0 (Bound S) (scan T S 0 steps) := by
  induction steps with
  | zero => exact keeps_pure _
  | succ steps ih =>
    intro w hw hbound
    rw [scan, wp_get_bind]
    split
    · exact hbound
    · refine ((scanSourceStep_safe hS _ rfl).bind fun result ↦
        schedulePending_safe.bind fun _ ↦ ?_) w hw hbound
      split
      · exact ih
      · exact keeps_pure _

theorem stop_safe : Keeps (workerRules K S) 0 (Bound S) stop :=
  fun _ _ hbound ↦ ⟨.task .stopped, fun _ ↦ hbound⟩

theorem reconcile_safe : Keeps (workerRules K S) 0 (Bound S)
    (reconcileHubRecovery 0 S.hubConfirmations) :=
  guard_keeps (reconcileHubRecovery_rely 0 _) bound_lasting

theorem poll_safe (hS : S.Valid K) (steps : ℕ) :
    Keeps (workerRules K S) 0 (Bound S) (poll T S 0 steps) := by
  refine (Keeps.tryCatch (reconcile_safe.bind fun _ ↦ scan_safe hS steps) fun e ↦ ?_).bind
    fun _ ↦ schedulePending_safe.bind fun _ ↦
      (guard_keeps ((taskRules_guarded 0).ask_leaves _) bound_lasting).tryCatch fun e w hw hbound ↦ ?_
  · cases e with
    | storeWrite | sourceSafety | hubSafety => exact stop_safe.bind fun _ ↦ keeps_throw _
    | relayBusy | stopped | error => exact keeps_pure _
  · rw [wp_get_bind]
    split
    · exact hbound
    · exact hbound

theorem polls_safe (hS : S.Valid K) (steps rounds : ℕ) :
    Keeps (workerRules K S) 0 (Bound S) (polls T S 0 steps rounds) := by
  induction rounds with
  | zero => exact keeps_pure _
  | succ rounds ih =>
    intro w hw hbound
    rw [polls, wp_get_bind]
    split
    · exact hbound
    · exact ((poll_safe hS steps).bind fun _ ↦ ih) w hw hbound

/-- **The main loop keeps the rules.** -/
theorem run_safe (hS : S.Valid K) (steps rounds : ℕ) (hw : Inv K S w) :
    (run T S 0 steps rounds).wp (workerRules K S) 0 (fun _ _ ↦ True) w := by
  have hloop : (do
      reload
      runLoop T S 0 steps rounds).wp (workerRules K S) 0 (fun _ _ ↦ True) w := by
    refine wp_seq hw (reload_safe w hw trivial) (fun _ w₁ hw₁ _ ↦ ?_) fun _ _ _ _ ↦ trivial
    refine wp_seq hw₁ (preflight_wp hS hw₁) (fun _ w₂ hw₂ hbound ↦ ?_) fun _ _ _ _ ↦ trivial
    exact wp_mono hw₂ (fun _ _ _ _ ↦ trivial) ((reconcile_safe.bind fun _ ↦
      (scan_safe hS steps).bind fun _ ↦ polls_safe hS steps rounds) w₂ hw₂ (hbound rfl))
  exact wp_finallySet.2 (wp_mono hw (fun _ _ _ _ ↦ ⟨.task .stopped, fun _ ↦ trivial⟩) hloop)

end Proofmark.Worker
