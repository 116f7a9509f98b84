import Proofmark.Vault.Deletion

/-!
# Blocked records and the revocation outbox

A block decision queues a revocation, unless a job of the record is still open. That shortcut is
safe because an open job belongs to a record that is blocked already (`OutboxKept.open_blocked`):
so a decision that blocks a record always creates its own job, and `BlockedBy` finds that job in
the outbox for as long as the record stays blocked.
-/

open Evm

namespace Proofmark.Vault

open Pipeline (Text)

/-- A call that created the record of an id. -/
def Creates (id : Text) (entry : Entry Data Call) (record : VaultRecord) : Prop :=
  entry.input.operation = .put record ∧ record.id = id ∧ entry.state.records.get id = none

/-- The record of an id was first put in a state with a property. -/
def FirstPut (id : Text) (p : VaultState → Prop) (log : Log) : Prop :=
  ∃ entry ∈ log, ∃ record, Creates id entry record ∧ p record.state

/-- A decision at a time that blocks a record: a rescreen that says BLOCK, or a review. -/
def Operation.Blocks (id : Text) (t : ℤ) (op : Operation) : Prop :=
  (∃ event expected, op = .recordRescreen id event expected ∧ event.decision = .block ∧
    event.at_ = t) ∨
  ∃ event revision, op = .decideReview id event revision ∧ event.outcome = .blocked ∧
    event.at_ = t

/-- The record of an id is there and blocked. -/
def IsBlocked (id : Text) (d : Data) : Prop :=
  ∃ record, d.records.get id = some record ∧ record.state = .blocked

/-- **The decision with which a record last became blocked**, after which it stayed blocked, and
the job that this decision created. -/
structure BlockedBy (id : Text) (earlier : Log) (decision : Entry Data Call) (later : Log) (t : ℤ)
    (jobs : List RevocationJob) : Prop where
  decided : decision.input.operation.Blocks id t
  was_not : ¬IsBlocked id decision.state
  since : ∀ entry ∈ later, IsBlocked id entry.state
  job : ∃ job ∈ jobs, job.id = Data.revocationId id t ∧ job.createdAt = t ∧
    decision.state.revocations.get job.id = none

/-- Jobs that are not confirmed. -/
def openJobs (jobs : List RevocationJob) : ℕ :=
  jobs.countP fun job ↦ job.state ≠ .confirmed

/-- **What the vault keeps of a record's outbox.** -/
structure OutboxKept (id : Text) (log : Log) (x : Dossier) : Prop where
  created : ∀ entry ∈ log, ∀ record, Creates id entry record →
    x.record.isSome = true ∨ x.erased = true
  open_blocked : ∀ job ∈ x.jobs, job.state ≠ .confirmed →
    ∃ record, x.record = some record ∧ record.state = .blocked
  one_open : openJobs x.jobs ≤ 1
  blocked : FirstPut id (· ≠ .blocked) log → ∀ record, x.record = some record →
    record.state = .blocked → ∃ earlier decision later t,
      log = earlier ++ decision :: later ∧ BlockedBy id earlier decision later t x.jobs
  confirmed : ∀ entry ∈ log, ∀ job ∈ entry.state.jobsOf id, job.state = .confirmed →
    ∃ job' ∈ x.jobs, job'.id = job.id ∧ job'.state = .confirmed

variable {P : Platform} {d d' : Data} {id key : Text} {op : Operation} {x : Dossier} {log : Log}

@[simp]
theorem rescreened_id {record : VaultRecord} {event : RescreenEvent} :
    (Data.rescreened record event).id = record.id :=
  rfl

@[simp]
theorem reviewed_id {record : VaultRecord} {event : ReviewEvent} {revision : Text} :
    (Data.reviewed record event revision).id = record.id :=
  rfl

theorem allowedState_ne_blocked (record : VaultRecord) :
    Data.allowedState record ≠ .blocked := by
  unfold Data.allowedState
  split <;> decide

theorem isBlocked_of_get {record : VaultRecord} (hget : d.records.get id = some record) :
    IsBlocked id d ↔ record.state = .blocked := by
  simp [IsBlocked, hget]

/-! ### What a call does to the jobs -/

theorem mem_replaceJob {job job' : RevocationJob} {jobs : List RevocationJob} :
    job' ∈ Data.replaceJob job jobs ↔
      ∃ j ∈ jobs, (if j.id = job.id then job else j) = job' :=
  List.mem_map

theorem eq_of_advances {job job' j : RevocationJob} (hjob : job ∈ d.jobsOf id)
    (hj : j ∈ d.jobsOf id) (hadvances : job.Advances job') (h : j.id = job'.id) : j = job :=
  Table.eq_of_key (Data.mem_jobsOf.1 hj).1 (Data.mem_jobsOf.1 hjob).1 (h.trans hadvances.id)

/-- Every job of before is there after a call, with its id and its time, and stays confirmed. -/
theorem Act.jobs (h : Act P d id key op x) {job : RevocationJob} (hjob : job ∈ d.jobsOf id) :
    ∃ job' ∈ x.jobs, job'.id = job.id ∧ job'.createdAt = job.createdAt ∧
      (job.state = .confirmed → job'.state = .confirmed) := by
  have hself {jobs : List RevocationJob} (hmem : job ∈ jobs) : ∃ job' ∈ jobs, job'.id = job.id ∧
      job'.createdAt = job.createdAt ∧ (job.state = .confirmed → job'.state = .confirmed) :=
    ⟨job, hmem, rfl, rfl, fun h ↦ h⟩
  have hqueued {record : VaultRecord} {at_ : ℤ} {jobs : List RevocationJob}
      (hid : record.id = id) (hjobs : Queued d record at_ jobs) : job ∈ jobs := by
    subst hid
    cases hjobs with
    | kept => exact hjob
    | added => exact List.mem_append_left _ hjob
  cases h with
  | @rescreened event record jobs hget _ _ hblock hother =>
    refine hself ?_
    by_cases hdecision : event.decision = .block
    · exact hqueued (rescreened_id.trans (Data.id_of_get hget)) (hblock hdecision)
    · exact hother hdecision ▸ hjob
  | @reviewed event revision record jobs hget hcleared hblock =>
    refine hself ?_
    cases houtcome : event.outcome with
    | cleared => exact (hcleared houtcome).2 ▸ hjob
    | blocked => exact hqueued (reviewed_id.trans (Data.id_of_get hget)) (hblock houtcome)
  | recovered _ _ hjobs => exact absurd (hjobs ▸ hjob) List.not_mem_nil
  | @advanced _ old job' _ hold hadvances =>
    refine ⟨_, mem_replaceJob.2 ⟨job, hjob, rfl⟩, ?_⟩
    split
    case isTrue heq =>
      obtain rfl := eq_of_advances hold hjob hadvances heq
      exact ⟨hadvances.id, hadvances.createdAt, hadvances.confirmed⟩
    case isFalse => exact ⟨rfl, rfl, fun h ↦ h⟩
  | _ => exact hself hjob

/-- The jobs after a block decision on a record that had no open job unless it was blocked. -/
theorem Queued.openJobs_le {record : VaultRecord} {at_ : ℤ} {jobs : List RevocationJob}
    (h : Queued d record at_ jobs) (hone : openJobs (d.jobsOf record.id) ≤ 1) :
    openJobs jobs ≤ 1 := by
  cases h with
  | kept => exact hone
  | added hopen =>
    have hzero : openJobs (d.jobsOf record.id) = 0 := by
      refine List.countP_eq_zero.2 fun job hjob ↦ ?_
      simpa using Data.hasOpenJob_eq_false.1 hopen job hjob
    simp only [openJobs] at hzero ⊢
    rw [List.countP_append, hzero, zero_add]
    exact List.countP_le_length

/-- A block decision on a record that is not blocked finds no open job, and creates one. -/
theorem Queued.creates {record : VaultRecord} {at_ : ℤ} {jobs : List RevocationJob}
    (h : Queued d record at_ jobs) (hopen : d.hasOpenJob record.id = false) :
    ∃ job ∈ jobs, job.id = Data.revocationId record.id at_ ∧ job.createdAt = at_ ∧
      d.revocations.get job.id = none := by
  cases h with
  | kept h => exact absurd (h.symm.trans hopen) (by decide)
  | added _ hnew => exact ⟨Data.newRevocation record at_, by simp, rfl, rfl, hnew⟩

theorem Act.openJobs_le (h : Act P d id key op x) (hone : openJobs (d.jobsOf id) ≤ 1) :
    openJobs x.jobs ≤ 1 := by
  cases h with
  | @rescreened event record jobs hget _ _ hblock hother =>
    obtain rfl := Data.id_of_get hget
    by_cases hdecision : event.decision = .block
    · exact (hblock hdecision).openJobs_le hone
    · exact hother hdecision ▸ hone
  | @reviewed event revision record jobs hget hcleared hblock =>
    obtain rfl := Data.id_of_get hget
    cases houtcome : event.outcome with
    | cleared => exact (hcleared houtcome).2 ▸ hone
    | blocked => exact (hblock houtcome).openJobs_le hone
  | recovered => exact List.countP_le_length
  | @advanced _ old job' _ hold hadvances =>
    refine le_trans ?_ hone
    rw [openJobs, Data.replaceJob, List.countP_map]
    refine List.countP_mono_left fun j hj hopen ↦ ?_
    simp only [Function.comp_apply] at hopen
    split at hopen
    case isTrue heq =>
      obtain rfl := eq_of_advances hold hj hadvances heq
      simp only [ne_eq, decide_eq_true_eq] at hopen ⊢
      exact fun h ↦ hopen (hadvances.confirmed h)
    case isFalse => exact hopen
  | _ => exact hone

/-- An open job after a call was open before, or its record is blocked. -/
theorem Act.open_job (h : Act P d id key op x) {job : RevocationJob} (hjob : job ∈ x.jobs)
    (hopen : job.state ≠ .confirmed) : (∃ job ∈ d.jobsOf id, job.state ≠ .confirmed) ∨
      ∃ record, x.record = some record ∧ record.state = .blocked := by
  cases h with
  | @rescreened event record jobs hget _ _ hblock hother =>
    by_cases hdecision : event.decision = .block
    · exact .inr ⟨_, rfl, by simp [Data.rescreened, hdecision]⟩
    · exact .inl ⟨job, hother hdecision ▸ hjob, hopen⟩
  | @reviewed event revision record jobs hget hcleared hblock =>
    cases houtcome : event.outcome with
    | cleared => exact .inl ⟨job, (hcleared houtcome).2 ▸ hjob, hopen⟩
    | blocked => exact .inr ⟨_, rfl, by simp [Data.reviewed, houtcome]⟩
  | recovered hget hblocked => exact .inr ⟨_, hget, hblocked⟩
  | @advanced _ old job' _ hold hadvances =>
    obtain ⟨j, hj, rfl⟩ := mem_replaceJob.1 hjob
    refine .inl ⟨j, hj, fun hconfirmed ↦ hopen ?_⟩
    split
    case isTrue heq =>
      obtain rfl := eq_of_advances hold hj hadvances heq
      exact hadvances.confirmed hconfirmed
    case isFalse => exact hconfirmed
  | _ => exact .inl ⟨job, hjob, hopen⟩

/-- **How a record leaves `blocked`**: by a review that clears it while all its jobs are confirmed,
or by an approved erasure. -/
theorem Act.leaves_blocked (h : Act P d id key op x) (hd : IsBlocked id d) :
    (∃ record, x.record = some record ∧ record.state = .blocked) ∨
      ((∃ event revision, op = .decideReview id event revision ∧ event.outcome = .cleared) ∧
        ∀ job ∈ d.jobsOf id, job.state = .confirmed) ∨
      (x.record = none ∧ ∃ request t approval,
        (op = .erase id request.id t ∨ op = .purgeExpired t) ∧
        d.lastRequest id = some request ∧ request.approval = some approval) ∧
        ∀ job ∈ d.jobsOf id, job.state = .confirmed := by
  obtain ⟨record, hget, hblocked⟩ := hd
  cases h with
  | put _ hnone => exact absurd (hnone.symm.trans hget) (by simp)
  | materialized hget' =>
    obtain rfl := Option.some.inj (hget'.symm.trans hget)
    exact .inl ⟨_, rfl, by simp [Data.materialized, hblocked]⟩
  | sourceConfirmed hget' =>
    obtain rfl := Option.some.inj (hget'.symm.trans hget)
    exact .inl ⟨_, rfl, hblocked⟩
  | rescreened hget' hne =>
    obtain rfl := Option.some.inj (hget'.symm.trans hget)
    exact absurd hblocked hne
  | @reviewed event revision _ jobs hget' hcleared hblock =>
    cases houtcome : event.outcome with
    | cleared =>
      exact .inr (.inl ⟨⟨event, revision, rfl, houtcome⟩,
        Data.hasOpenJob_eq_false.1 (hcleared houtcome).1⟩)
    | blocked => exact .inl ⟨_, rfl, by simp [Data.reviewed, houtcome]⟩
  | @erased _ r request t hop hget' hlast hblockers =>
    obtain rfl := Data.id_of_get hget'
    obtain ⟨hsafe, -, approval, happroval, -⟩ := deletionBlockers_eq_nil hlast hblockers
    obtain ⟨-, -, -, -, hconfirmed, -⟩ := safetyBlockers_eq_nil hsafe
    exact .inr (.inr ⟨⟨rfl, request, t, approval, hop.imp_right And.left, hlast, happroval⟩,
      hconfirmed⟩)
  | _ => exact .inl ⟨record, hget, hblocked⟩

/-- **How a record is blocked after a call**: it was before, it was put so, or the call is a block
decision that created a job. -/
theorem Act.blocked (h : Act P d id key op x)
    (hopen : d.hasOpenJob id = true → IsBlocked id d) {r : VaultRecord}
    (hx : x.record = some r) (hr : r.state = .blocked) :
    IsBlocked id d ∨ (∃ record, Creates id ⟨d, ⟨key, op⟩⟩ record ∧ record.state = .blocked) ∨
      ¬IsBlocked id d ∧ ∃ t, op.Blocks id t ∧ ∃ job ∈ x.jobs,
        job.id = Data.revocationId id t ∧ job.createdAt = t ∧
          d.revocations.get job.id = none := by
  by_cases hblocked : IsBlocked id d
  · exact .inl hblocked
  have hnone : d.hasOpenJob id = false := Bool.eq_false_of_not_eq_true fun h ↦ hblocked (hopen h)
  refine .inr ?_
  cases h with
  | @put record hid hget =>
    obtain rfl := Option.some.inj hx
    exact .inl ⟨record, ⟨rfl, hid, hget⟩, hr⟩
  | @materialized record hget =>
    obtain rfl := Option.some.inj hx
    rw [isBlocked_of_get hget] at hblocked
    simp only [Data.materialized] at hr
    split at hr
    · exact nomatch hr
    · exact absurd hr hblocked
  | sourceConfirmed hget =>
    obtain rfl := Option.some.inj hx
    exact absurd ((isBlocked_of_get hget).2 hr) hblocked
  | @rescreened event record jobs hget _ _ hblock =>
    obtain rfl := Option.some.inj hx
    obtain rfl := Data.id_of_get hget
    cases hdecision : event.decision with
    | block =>
      exact .inr ⟨hblocked, event.at_, .inl ⟨event, record, rfl, hdecision, rfl⟩,
        (hblock hdecision).creates hnone⟩
    | review => simp [Data.rescreened, hdecision] at hr
    | allow =>
      simp only [Data.rescreened, hdecision] at hr
      exact absurd hr (allowedState_ne_blocked record)
  | @reviewed event revision record jobs hget _ hblock =>
    obtain rfl := Option.some.inj hx
    obtain rfl := Data.id_of_get hget
    cases houtcome : event.outcome with
    | blocked =>
      exact .inr ⟨hblocked, event.at_, .inr ⟨event, revision, rfl, houtcome, rfl⟩,
        (hblock houtcome).creates hnone⟩
    | cleared =>
      simp only [Data.reviewed, houtcome] at hr
      exact absurd hr (allowedState_ne_blocked record)
  | erased => exact nomatch hx
  | _ => exact absurd ⟨r, hx, hr⟩ hblocked

/-- A record that was created is there or erased. -/
theorem Act.created (h : Act P d id key op x)
    (hd : (d.records.get id).isSome = true ∨ d.erased id = true) :
    x.record.isSome = true ∨ x.erased = true := by
  cases h with
  | erased => exact .inr rfl
  | put | materialized | sourceConfirmed | rescreened | reviewed => exact .inl rfl
  | _ => exact hd

theorem Act.put_isSome (h : Act P d id key op x) {record : VaultRecord}
    (hcreates : Creates id ⟨d, ⟨key, op⟩⟩ record) : x.record.isSome = true := by
  obtain ⟨hop, hid, hget⟩ := hcreates
  obtain rfl : op = .put record := hop
  cases h with
  | idle hsubject => exact absurd (congrArg some hid) hsubject
  | put => rfl
  | putAgain hget' => exact absurd (hget'.symm.trans hget) (by simp)
  | holds hop => exact nomatch hop
  | erased hop => rcases hop with hop | ⟨hop, -⟩ <;> exact nomatch hop
  | advanced hop => exact nomatch hop

/-! ### One call -/

theorem BlockedBy.later {earlier later : Log} {decision entry : Entry Data Call} {t : ℤ}
    {jobs jobs' : List RevocationJob} (h : BlockedBy id earlier decision later t jobs)
    (hentry : IsBlocked id entry.state)
    (hjobs : ∀ job ∈ jobs, ∃ job' ∈ jobs', job'.id = job.id ∧ job'.createdAt = job.createdAt) :
    BlockedBy id earlier decision (later ++ [entry]) t jobs' where
  decided := h.decided
  was_not := h.was_not
  since e he := by
    rcases List.mem_append.1 he with he | he
    · exact h.since e he
    · exact List.mem_singleton.1 he ▸ hentry
  job := by
    obtain ⟨job, hjob, hid, htime, hnew⟩ := h.job
    obtain ⟨job', hjob', hid', htime'⟩ := hjobs job hjob
    exact ⟨job', hjob', hid'.trans hid, htime'.trans htime, hid' ▸ hnew⟩

/-- A call that finds the record did not create it. -/
theorem FirstPut.of_concat {p : VaultState → Prop} {entry : Entry Data Call}
    {record : VaultRecord} (h : FirstPut id p (log ++ [entry]))
    (hget : entry.state.records.get id = some record) : FirstPut id p log := by
  obtain ⟨e, he, r, hcreates, hstate⟩ := h
  rcases List.mem_append.1 he with he | he
  · exact ⟨e, he, r, hcreates, hstate⟩
  · obtain rfl := List.mem_singleton.1 he
    exact absurd (hcreates.2.2.symm.trans hget) (by simp)

/-- `put` creates no record under an id that was erased. -/
theorem Act.put_not_erased {record : VaultRecord} (h : Act P d id key (.put record) x)
    (hid : record.id = id) (hget : d.records.get id = none) : d.erased id = false := by
  cases h with
  | idle hsubject => exact absurd (congrArg some hid) hsubject
  | put _ _ herased => exact herased
  | putAgain hget' => exact absurd (hget'.symm.trans hget) (by simp)
  | holds hop => exact nomatch hop
  | erased hop => rcases hop with hop | ⟨hop, -⟩ <;> exact nomatch hop
  | advanced hop => exact nomatch hop

/-- A record is created once, so its creation tells its first state. -/
theorem OutboxKept.creates_first (h : OutboxKept id log (d.dossier id))
    (hact : Act P d id key op x) {p : VaultState → Prop}
    (hfirst : FirstPut id p (log ++ [⟨d, ⟨key, op⟩⟩])) {record : VaultRecord}
    (hcreates : Creates id ⟨d, ⟨key, op⟩⟩ record) : p record.state := by
  obtain ⟨hop, hid, hget⟩ := hcreates
  obtain rfl : op = .put record := hop
  obtain ⟨entry, hentry, r, hcreates, hstate⟩ := hfirst
  rcases List.mem_append.1 hentry with hentry | hentry
  · rcases h.created entry hentry r hcreates with hsome | herased
    · have hsome : (d.records.get id).isSome = true := hsome
      have hget : d.records.get id = none := hget
      simp [hget] at hsome
    · exact absurd (herased.symm.trans (hact.put_not_erased hid hget)) (by decide)
  · obtain rfl := List.mem_singleton.1 hentry
    obtain rfl : record = r := Operation.put.inj hcreates.1
    exact hstate

/-- **What one call keeps.** -/
theorem OutboxKept.step (h : OutboxKept id log (d.dossier id)) (hact : Act P d id key op x) :
    OutboxKept id (log ++ [⟨d, ⟨key, op⟩⟩]) x where
  created entry hentry record hcreates := by
    rcases List.mem_append.1 hentry with hentry | hentry
    · exact hact.created (h.created entry hentry record hcreates)
    · obtain rfl := List.mem_singleton.1 hentry
      exact .inl (hact.put_isSome hcreates)
  open_blocked job hjob hopen := by
    rcases hact.open_job hjob hopen with ⟨job₀, hjob₀, hopen₀⟩ | hblocked
    · rcases hact.leaves_blocked (h.open_blocked job₀ hjob₀ hopen₀) with
        hblocked | ⟨-, hconfirmed⟩ | ⟨-, hconfirmed⟩
      · exact hblocked
      · exact absurd (hconfirmed job₀ hjob₀) hopen₀
      · exact absurd (hconfirmed job₀ hjob₀) hopen₀
    · exact hblocked
  one_open := hact.openJobs_le h.one_open
  blocked hfirst r hx hr := by
    have hopen : d.hasOpenJob id = true → IsBlocked id d := fun hopen ↦ by
      obtain ⟨job, hjob, hstate⟩ := Data.hasOpenJob_eq_true.1 hopen
      exact h.open_blocked job hjob hstate
    rcases hact.blocked hopen hx hr with hblocked | ⟨record, hcreates, hstate⟩ |
      ⟨hnot, t, hdecided, hjob⟩
    · obtain ⟨r₀, hr₀, hblocked₀⟩ := hblocked
      obtain ⟨earlier, decision, later, t, rfl, hby⟩ :=
        h.blocked (hfirst.of_concat hr₀) r₀ hr₀ hblocked₀
      refine ⟨earlier, decision, later ++ [⟨d, ⟨key, op⟩⟩], t, by simp,
        hby.later ⟨r₀, hr₀, hblocked₀⟩ fun job hjob ↦ ?_⟩
      obtain ⟨job', hjob', hid, htime, -⟩ := hact.jobs hjob
      exact ⟨job', hjob', hid, htime⟩
    · exact absurd hstate (h.creates_first hact hfirst hcreates)
    · refine ⟨log, ⟨d, ⟨key, op⟩⟩, [], t, rfl, ⟨hdecided, hnot, ?_, hjob⟩⟩
      exact fun _ he ↦ absurd he List.not_mem_nil
  confirmed entry hentry job hjob hconfirmed := by
    rcases List.mem_append.1 hentry with hentry | hentry
    · obtain ⟨job₁, hjob₁, hid₁, hconfirmed₁⟩ := h.confirmed entry hentry job hjob hconfirmed
      obtain ⟨job₂, hjob₂, hid₂, -, hkeeps⟩ := hact.jobs hjob₁
      exact ⟨job₂, hjob₂, hid₂.trans hid₁, hkeeps hconfirmed₁⟩
    · obtain rfl := List.mem_singleton.1 hentry
      obtain ⟨job₂, hjob₂, hid₂, -, hkeeps⟩ := hact.jobs hjob
      exact ⟨job₂, hjob₂, hid₂, hkeeps hconfirmed⟩

theorem outboxKept_empty (id : Text) : OutboxKept id [] (Data.empty.dossier id) where
  created _ he := absurd he List.not_mem_nil
  open_blocked _ hjob := absurd hjob List.not_mem_nil
  one_open := Nat.zero_le 1
  blocked _ _ hnone := absurd hnone (by simp [Data.dossier, Data.empty])
  confirmed _ he := absurd he List.not_mem_nil

/-- **What every run keeps.** -/
theorem outboxKept_run (id : Text) (calls : List Call) :
    OutboxKept id (history (Data.apply P) .empty calls)
      ((run (Data.apply P) .empty calls).dossier id) := by
  refine history_rule (P := fun log d ↦ OutboxKept id log (d.dossier id)) (outboxKept_empty id)
    ?_ calls
  intro log d call d' h happly
  exact h.step (act_of_apply id happly)

/-! ### The law of the outbox -/

/-- The operations that deliver or observe, and decide nothing. -/
def Operation.delivers : Operation → Bool
  | .prepareRevocation _ _ | .finishRevocation _ _ | .failRevocation _ _ _
  | .recordRevocationObservation _ _ _ _ | .recordSourceConfirmation _ _ _
  | .recordMaterialization _ _ => true
  | _ => false

/-- A delivery changes no state but that of a pending record. -/
theorem Act.keeps_state (h : Act P d id key op x) (hop : op.delivers = true)
    {record : VaultRecord} (hget : d.records.get id = some record)
    (hstate : record.state ≠ .pending) :
    ∃ record', x.record = some record' ∧ record'.state = record.state := by
  cases h with
  | materialized hget' =>
    obtain rfl := Option.some.inj (hget'.symm.trans hget)
    exact ⟨_, rfl, if_neg hstate⟩
  | sourceConfirmed hget' =>
    obtain rfl := Option.some.inj (hget'.symm.trans hget)
    exact ⟨_, rfl, rfl⟩
  | erased hop' => rcases hop' with rfl | ⟨rfl, -⟩ <;> exact nomatch hop
  | put | rescreened | reviewed => exact nomatch hop
  | _ => exact ⟨record, hget, rfl⟩

/-- What the vault guarantees of the outbox of a record. -/
structure Outbox (P : Platform) (id : Text) (log : Log) (d : Data) : Prop where
  /-- A blocked record has the job of the decision that last blocked it. -/
  blocked : FirstPut id (· ≠ .blocked) log → ∀ record, d.records.get id = some record →
    record.state = .blocked → ∃ earlier decision later t, log = earlier ++ decision :: later ∧
      BlockedBy id earlier decision later t (d.jobsOf id)
  one_open : openJobs (d.jobsOf id) ≤ 1
  /-- A record leaves `blocked` by a review that clears it, or by an approved erasure. -/
  leaves : ∀ entry ∈ log, ∀ d', entry.state.apply P entry.input = .ok d' →
    IsBlocked id entry.state → ¬IsBlocked id d' →
    ((∃ event revision, entry.input.operation = .decideReview id event revision ∧
        event.outcome = .cleared) ∨
      d'.records.get id = none ∧ ∃ request t approval,
        (entry.input.operation = .erase id request.id t ∨
          entry.input.operation = .purgeExpired t) ∧
        entry.state.lastRequest id = some request ∧ request.approval = some approval) ∧
    ∀ job ∈ entry.state.jobsOf id, job.state = .confirmed
  /-- Deliveries and observations leave the compliance state alone. -/
  delivery : ∀ entry ∈ log, ∀ d', entry.state.apply P entry.input = .ok d' →
    entry.input.operation.delivers = true → ∀ record, entry.state.records.get id = some record →
    record.state = .blocked ∨ record.state = .review ∨ record.state = .rejected →
    ∃ record', d'.records.get id = some record' ∧ record'.state = record.state
  /-- A confirmed job stays confirmed. -/
  confirmed : ∀ entry ∈ log, ∀ job ∈ entry.state.jobsOf id, job.state = .confirmed →
    ∃ job' ∈ d.jobsOf id, job'.id = job.id ∧ job'.state = .confirmed

theorem Outbox.of_kept (h : OutboxKept id log (d.dossier id)) : Outbox P id log d where
  blocked := h.blocked
  one_open := h.one_open
  leaves entry _ d' happly hblocked hnot := by
    have hact := act_of_apply id happly
    rcases hact.leaves_blocked hblocked with hstays | ⟨hcleared, hconfirmed⟩ |
      ⟨herased, hconfirmed⟩
    · exact absurd hstays hnot
    · exact ⟨.inl hcleared, hconfirmed⟩
    · exact ⟨.inr herased, hconfirmed⟩
  delivery entry _ d' happly hop record hget hstate := by
    refine (act_of_apply id happly).keeps_state hop hget fun hpending ↦ ?_
    simp [hpending] at hstate
  confirmed := h.confirmed

/-- **Blocked implies outbox.** In every durable state of every run, for every record. -/
theorem blocked_has_outbox {ι : Type} [DecidableEq ι] (P : Platform) (events : List (Event ι))
    (id : Text) : Outbox P id ((World.fresh : World ι).written P events)
      ((World.fresh : World ι).after P events).data := by
  obtain ⟨calls, hafter, hwritten⟩ := World.after_eq (P := P) (w := (World.fresh : World ι)) events
  rw [hafter, hwritten]
  exact .of_kept (outboxKept_run id calls)

end Proofmark.Vault
