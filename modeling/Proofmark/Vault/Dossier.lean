import Proofmark.Vault.Writer

/-!
# What one call does to one record

A record's dossier is all that the vault holds of it: the record, its retention controls, its
revocation jobs and whether it was erased. `Act` lists what a call can make of a dossier, with the
checks that it passed, and `act_of_apply` says that no call does anything else. The laws of runs
are proved by cases on `Act` and never unfold an operation.
-/

open Evm

namespace Proofmark.Vault

open Pipeline (Text)

structure Dossier where
  record : Option VaultRecord
  controls : RetentionControls
  jobs : List RevocationJob
  erased : Bool

namespace Data

variable (d : Data) (id : Text)

def erased : Bool :=
  d.erasures.any fun event ↦ event.recordId = id

def dossier : Dossier :=
  ⟨d.records.get id, d.controls id, d.jobsOf id, d.erased id⟩

variable {d id}

/-! ### How the parts of the file change -/

theorem mem_jobsOf {job : RevocationJob} :
    job ∈ d.jobsOf id ↔ job ∈ d.revocations.rows ∧ job.recordId = id := by
  simp [jobsOf]

theorem mustGet_eq_ok {record : VaultRecord} :
    d.mustGet id = .ok record ↔ d.records.get id = some record :=
  getOrRevert_eq_ok

theorem id_of_get {record : VaultRecord} (h : d.records.get id = some record) : record.id = id :=
  (Table.get_eq_some.1 h).2

theorem hasOpenJob_eq_true :
    d.hasOpenJob id = true ↔ ∃ job ∈ d.jobsOf id, job.state ≠ .confirmed := by
  simp [hasOpenJob, jobsOf, and_assoc]

theorem hasOpenJob_eq_false :
    d.hasOpenJob id = false ↔ ∀ job ∈ d.jobsOf id, job.state = .confirmed := by
  rw [← Bool.not_eq_true, hasOpenJob_eq_true]
  simp

theorem dossier_setRecord (record : VaultRecord) :
    (d.setRecord record).dossier id =
      if record.id = id then { d.dossier id with record := some record } else d.dossier id := by
  simp only [dossier, setRecord, Table.get_set]
  split <;> rfl

theorem dossier_setControls (recordId : Text) (controls : RetentionControls) :
    (d.setControls recordId controls).dossier id =
      if recordId = id then { d.dossier id with controls := controls } else d.dossier id := by
  simp only [dossier, setControls, Data.controls, Table.get_set]
  split <;> rfl

/-- A job in the place of the one that has its id. -/
def replaceJob (job : RevocationJob) (jobs : List RevocationJob) : List RevocationJob :=
  jobs.map fun j ↦ if j.id = job.id then job else j

theorem jobsOf_setJob_new {job : RevocationJob} (h : d.revocations.get job.id = none) :
    (d.setJob job).jobsOf id = d.jobsOf id ++ if job.recordId = id then [job] else [] := by
  have hrows : (d.revocations.set job).rows = d.revocations.rows ++ [job] := by
    refine if_neg fun hmem ↦ ?_
    obtain ⟨old, hold, hid⟩ := List.mem_map.1 hmem
    exact Table.get_eq_none.1 h old hold hid
  simp only [jobsOf, setJob, hrows, List.filter_append]
  split <;> simp_all

theorem jobsOf_setJob {old job : RevocationJob} (h : d.revocations.get job.id = some old)
    (hrecord : old.recordId = job.recordId) :
    (d.setJob job).jobsOf id = replaceJob job (d.jobsOf id) := by
  obtain ⟨hold, hid⟩ := Table.get_eq_some.1 h
  have hrows : (d.revocations.set job).rows = replaceJob job d.revocations.rows :=
    if_pos (hid ▸ List.mem_map_of_mem hold)
  have hkey : ∀ j ∈ d.revocations.rows,
      (if j.id = job.id then job else j).recordId = j.recordId := fun j hj ↦ by
    split
    case isTrue hji =>
      rw [Table.eq_of_key hj hold (hji.trans hid.symm), hrecord]
    case isFalse => rfl
  simp only [jobsOf, setJob, hrows, replaceJob, List.filter_map]
  congr 1
  refine List.filter_congr fun j hj ↦ ?_
  simp [hkey j hj]

theorem dossier_setJob_new {job : RevocationJob} (id : Text) (h : d.revocations.get job.id = none) :
    (d.setJob job).dossier id =
      { d.dossier id with
        jobs := d.jobsOf id ++ if job.recordId = id then [job] else [] } := by
  rw [← jobsOf_setJob_new h]
  rfl

theorem dossier_setJob {old job : RevocationJob} (h : d.revocations.get job.id = some old)
    (hrecord : old.recordId = job.recordId) :
    (d.setJob job).dossier id =
      { d.dossier id with jobs := replaceJob job (d.jobsOf id) } := by
  rw [← jobsOf_setJob h hrecord]
  rfl

theorem replaceJob_of_ne {old job : RevocationJob} (h : d.revocations.get job.id = some old)
    (hid : old.recordId ≠ id) : replaceJob job (d.jobsOf id) = d.jobsOf id := by
  obtain ⟨hold, hkey⟩ := Table.get_eq_some.1 h
  refine (List.map_congr_left fun j hj ↦ if_neg fun hji ↦ hid ?_).trans (List.map_id _)
  obtain ⟨hrow, hrecord⟩ := mem_jobsOf.1 hj
  rw [← hrecord, Table.eq_of_key hrow hold (hji.trans hkey.symm)]

theorem dossier_eraseApproved {record : VaultRecord} {request : DeletionRequest} {at_ : ℤ} :
    (d.eraseApproved record request at_).dossier id =
      if record.id = id then { d.dossier id with record := none, erased := true }
      else d.dossier id := by
  simp only [dossier, eraseApproved, Table.get_erase, erased, List.any_append, List.any_cons,
    List.any_nil, Bool.or_false]
  split
  case isTrue h => simp [h, controls, jobsOf]
  case isFalse h => simp [h, controls, jobsOf]

end Data

/-! ### The calls, as they act on one record -/

/-- The record that an operation names. Operations on jobs and on the whole vault name none. -/
def Operation.subject : Operation → Option Text
  | put record => some record.id
  | recordMaterialization id _ | recordSourceConfirmation id _ _ | recordRescreen id _ _
  | decideReview id _ _ | extendRetention id _ _ _ _ | placeHold id _ _ _ _
  | releaseHold id _ _ _ _ | requestDeletion _ id _ _ | approveDeletion id _ _ _
  | erase id _ _ => some id
  | purgeExpired _ | recordRevocationObservation _ _ _ _ | recoverBlockedRevocations _
  | prepareRevocation _ _ | finishRevocation _ _ | failRevocation _ _ _ | rotateKey _ _ _ => none

/-- The jobs after `queueRevocation`. -/
inductive Queued (d : Data) (record : VaultRecord) (at_ : ℤ) : List RevocationJob → Prop
  | kept (h : d.hasOpenJob record.id = true) : Queued d record at_ (d.jobsOf record.id)
  | added (h : d.hasOpenJob record.id = false)
      (hnew : d.revocations.get (Data.revocationId record.id at_) = none) :
      Queued d record at_ (d.jobsOf record.id ++ [Data.newRevocation record at_])

/-- What the delivery of a job may change: its progress, and never back from confirmed. -/
structure RevocationJob.Advances (job job' : RevocationJob) : Prop where
  id : job'.id = job.id
  recordId : job'.recordId = job.recordId
  createdAt : job'.createdAt = job.createdAt
  confirmed : job.state = .confirmed → job'.state = .confirmed

/-- The request that `requestDeletion` adds. -/
def Data.newRequest (d : Data) (P : Platform) (record : VaultRecord) (requestId : Text)
    (input : DeletionInput) (at_ : ℤ) : DeletionRequest :=
  { id := requestId, fingerprint := d.deletionFingerprint P record, requestedAt := at_
    input := input, approval := none }

/-- What a call makes of the dossier of a record. -/
inductive Act (P : Platform) (d : Data) (id : Text) (key : Text) : Operation → Dossier → Prop
  | idle {op : Operation} (h : op.subject ≠ some id) : Act P d id key op (d.dossier id)
  | put {record : VaultRecord} (hid : record.id = id) (hget : d.records.get id = none)
      (herased : d.erased id = false) :
      Act P d id key (.put record) { d.dossier id with record := some record }
  | putAgain {record existing : VaultRecord} (hget : d.records.get id = some existing) :
      Act P d id key (.put record) (d.dossier id)
  | materialized {record : VaultRecord} (hget : d.records.get id = some record) :
      Act P d id key (.recordMaterialization id record.evidenceHash)
        { d.dossier id with record := some (Data.materialized record) }
  | sourceConfirmed {record : VaultRecord} {evidenceHash : Text}
      {observation next : SourceIssuanceObservation} (hget : d.records.get id = some record)
      (hnone : record.sourceIssuance = none) (hnext : next.hubMaterialized = false) :
      Act P d id key (.recordSourceConfirmation id evidenceHash observation)
        { d.dossier id with record := some { record with sourceIssuance := some next } }
  | sourceConfirmedAgain {evidenceHash : Text} {observation : SourceIssuanceObservation} :
      Act P d id key (.recordSourceConfirmation id evidenceHash observation) (d.dossier id)
  | rescreened {event : RescreenEvent} {record : VaultRecord} {jobs : List RevocationJob}
      (hget : d.records.get id = some record) (hblocked : record.state ≠ .blocked)
      (hrejected : record.state ≠ .rejected)
      (hblock : event.decision = .block →
        Queued d (Data.rescreened record event) event.at_ jobs)
      (hother : event.decision ≠ .block → jobs = d.jobsOf id) :
      Act P d id key (.recordRescreen id event record)
        { d.dossier id with record := some (Data.rescreened record event), jobs := jobs }
  | reviewed {event : ReviewEvent} {revision : Text} {record : VaultRecord}
      {jobs : List RevocationJob} (hget : d.records.get id = some record)
      (hcleared : event.outcome = .cleared → d.hasOpenJob id = false ∧ jobs = d.jobsOf id)
      (hblock : event.outcome = .blocked →
        Queued d (Data.reviewed record event revision) event.at_ jobs) :
      Act P d id key (.decideReview id event revision)
        { d.dossier id with record := some (Data.reviewed record event revision), jobs := jobs }
  | extended {until_ at_ : ℤ} {operator ref : Text}
      (hlt : (d.controls id).minimumUntil.getD 0 < until_) :
      Act P d id key (.extendRetention id until_ operator ref at_)
        { d.dossier id with controls := { d.controls id with
          minimumUntil := some until_
          extensions := (d.controls id).extensions ++ [⟨until_, operator, ref, at_⟩] } }
  | holds {op : Operation} {holds : List Hold}
      (hop : op matches .placeHold .. | .releaseHold ..) :
      Act P d id key op { d.dossier id with controls := { d.controls id with holds := holds } }
  | requested {requestId : Text} {input : DeletionInput} {at_ : ℤ} {record : VaultRecord}
      (hget : d.records.get id = some record) :
      Act P d id key (.requestDeletion requestId id input at_)
        { d.dossier id with controls := { d.controls id with
          requests := (d.controls id).requests ++ [d.newRequest P record requestId input at_] } }
  | approved {requestId operator : Text} {at_ : ℤ} {record : VaultRecord}
      {request : DeletionRequest} (hget : d.records.get id = some record)
      (hlast : d.lastRequest id = some request) (hid : request.id = requestId)
      (hoperator : request.input.operator ≠ operator) (hnone : request.approval = none)
      (hat : request.requestedAt ≤ at_) :
      Act P d id key (.approveDeletion id requestId operator at_)
        { d.dossier id with controls := { d.controls id with
          requests := (d.controls id).requests.dropLast ++
            [{ request with approval := some ⟨operator, at_⟩ }] } }
  | erased {op : Operation} {record : VaultRecord} {request : DeletionRequest} {at_ : ℤ}
      (hop : op = .erase id request.id at_ ∨
        op = .purgeExpired at_ ∧ request.input.automatic = true)
      (hget : d.records.get id = some record) (hlast : d.lastRequest id = some request)
      (hblockers : d.deletionBlockers P record at_ = []) :
      Act P d id key op { d.dossier id with record := none, erased := true }
  | eraseMissing {requestId : Text} {at_ : ℤ} (hget : d.records.get id = none) :
      Act P d id key (.erase id requestId at_) (d.dossier id)
  | recovered {record : VaultRecord} {now : ℤ} (hget : d.records.get id = some record)
      (hblocked : record.state = .blocked) (hjobs : d.jobsOf id = []) :
      Act P d id key (.recoverBlockedRevocations now)
        { d.dossier id with jobs := [Data.newRevocation record now] }
  | advanced {op : Operation} {job job' : RevocationJob} (hop : op.subject = none)
      (hjob : job ∈ d.jobsOf id) (hadvances : job.Advances job') :
      Act P d id key op { d.dossier id with jobs := Data.replaceJob job' (d.jobsOf id) }

/-! ### No call does anything else -/

variable {P : Platform} {d d' : Data} {id key : Text}

/-- An operation that writes the record it names. -/
theorem act_setRecord {op : Operation} {recordId : Text} {record : VaultRecord}
    (hop : op.subject = some recordId) (hid : record.id = recordId)
    (h : recordId = id → Act P d id key op { d.dossier id with record := some record }) :
    Act P d id key op ((d.setRecord record).dossier id) := by
  rw [Data.dossier_setRecord, hid]
  split
  case isTrue heq => exact h heq
  case isFalse hne => exact .idle fun hsub ↦ hne (Option.some.inj (hop.symm.trans hsub))

/-- An operation that writes the controls of the record it names. -/
theorem act_setControls {op : Operation} {recordId : Text} {controls : RetentionControls}
    (hop : op.subject = some recordId)
    (h : recordId = id → Act P d id key op { d.dossier id with controls := controls }) :
    Act P d id key op ((d.setControls recordId controls).dossier id) := by
  rw [Data.dossier_setControls]
  split
  case isTrue heq => exact h heq
  case isFalse hne => exact .idle fun hsub ↦ hne (Option.some.inj (hop.symm.trans hsub))

theorem act_put {record r : VaultRecord} (h : d.put record = .ok (r, d')) :
    Act P d id key (.put record) (d'.dossier id) := by
  simp only [Data.put, revertIf_bind_eq_ok, timestamp_bind_eq_ok] at h
  obtain ⟨-, herased, -, -, -, -, h⟩ := h
  split at h
  case h_1 existing hget =>
    obtain ⟨-, h⟩ := revertIf_bind_eq_ok.1 h
    cases h
    by_cases hid : record.id = id
    · exact .putAgain (hid ▸ hget)
    · exact .idle fun hsub ↦ hid (Option.some.inj hsub)
  case h_2 hget =>
    cases h
    refine act_setRecord rfl rfl fun hid ↦ ?_
    subst hid
    exact .put rfl hget herased

theorem act_recordMaterialization {recordId evidenceHash : Text}
    (h : d.recordMaterialization recordId evidenceHash = .ok d') :
    Act P d id key (.recordMaterialization recordId evidenceHash) (d'.dossier id) := by
  obtain ⟨record, hget, h⟩ := bind_eq_ok.1 h
  obtain ⟨hhash, h⟩ := revertIf_bind_eq_ok.1 h
  cases h
  rw [Data.mustGet_eq_ok] at hget
  have hid : (Data.materialized record).id = recordId := (Data.id_of_get hget : record.id = recordId)
  refine act_setRecord rfl hid fun hid ↦ ?_
  subst hid
  obtain rfl : record.evidenceHash = evidenceHash := by simpa using hhash
  exact .materialized hget

theorem act_recordSourceConfirmation {recordId evidenceHash : Text}
    {observation : SourceIssuanceObservation}
    (h : d.recordSourceConfirmation recordId evidenceHash observation = .ok d') :
    Act P d id key (.recordSourceConfirmation recordId evidenceHash observation)
      (d'.dossier id) := by
  obtain ⟨record, hget, h⟩ := bind_eq_ok.1 h
  rw [Data.mustGet_eq_ok] at hget
  simp only [revertIf_bind_eq_ok, timestamp_bind_eq_ok] at h
  obtain ⟨-, -, -, h⟩ := h
  split at h
  case h_1 previous hprevious =>
    obtain ⟨-, h⟩ := revertIf_bind_eq_ok.1 h
    cases h
    by_cases hid : recordId = id
    · subst hid
      exact .sourceConfirmedAgain
    · exact .idle fun hsub ↦ hid (Option.some.inj hsub)
  case h_2 hnone =>
    cases h
    refine act_setRecord rfl (show record.id = recordId from Data.id_of_get hget) fun hid ↦ ?_
    subst hid
    exact .sourceConfirmed hget hnone rfl

/-- A block decision: the record and the job that `queueRevocation` may add. -/
theorem act_queueRevocation {op : Operation} {recordId : Text} {next : VaultRecord} {at_ : ℤ}
    (hop : op.subject = some recordId) (hid : next.id = recordId)
    (h : (d.setRecord next).queueRevocation next at_ = .ok d')
    (hact : recordId = id → ∀ jobs, Queued d next at_ jobs →
      Act P d id key op { d.dossier id with record := some next, jobs := jobs }) :
    Act P d id key op (d'.dossier id) := by
  subst hid
  simp only [Data.queueRevocation] at h
  split at h
  case isTrue hopen =>
    cases h
    refine act_setRecord hop rfl fun hid ↦ ?_
    subst hid
    exact hact rfl _ (.kept hopen)
  case isFalse hopen =>
    obtain ⟨hnew, h⟩ := revertIf_bind_eq_ok.1 h
    cases h
    have hopen : d.hasOpenJob next.id = false := Bool.eq_false_of_not_eq_true hopen
    have hnew' : d.revocations.get (Data.revocationId next.id at_) = none :=
      Option.isNone_iff_eq_none.1 (Option.isSome_eq_false_iff.1 hnew)
    rw [Data.dossier_setJob_new id hnew', Data.dossier_setRecord]
    by_cases hid : next.id = id
    · subst hid
      have hqueued := hact rfl _ (.added hopen hnew')
      simpa [Data.newRevocation, Data.jobsOf, Data.setRecord] using hqueued
    · have hidle : Act P d id key op (d.dossier id) :=
        .idle fun hsub ↦ hid (Option.some.inj (hop.symm.trans hsub))
      simpa [Data.newRevocation, hid, Data.dossier, Data.jobsOf, Data.setRecord] using hidle

theorem act_recordRescreen {recordId : Text} {event : RescreenEvent} {expected r : VaultRecord}
    (h : d.recordRescreen recordId event expected = .ok (r, d')) :
    Act P d id key (.recordRescreen recordId event expected) (d'.dossier id) := by
  obtain ⟨record, hget, hrest⟩ := bind_eq_ok.1 h
  rw [getOrRevert_eq_ok] at hget
  simp only [revertIf_bind_eq_ok, timestamp_bind_eq_ok] at hrest
  obtain ⟨hexpected, hstate, -, -, hnext⟩ := hrest
  obtain rfl : record = expected := by simp at hexpected; exact hexpected.2
  have hstate : record.state ≠ .blocked ∧ record.state ≠ .rejected := by simpa using hstate
  have hid : (Data.rescreened record event).id = recordId :=
    (Data.id_of_get hget : record.id = recordId)
  split at hnext
  case isTrue hblock =>
    obtain ⟨d'', hqueue, hnext⟩ := bind_eq_ok.1 hnext
    cases hnext
    refine act_queueRevocation rfl hid hqueue fun hrecord jobs hjobs ↦ ?_
    subst hrecord
    exact .rescreened hget hstate.1 hstate.2 (fun _ ↦ hjobs) fun hne ↦ absurd hblock hne
  case isFalse hblock =>
    cases hnext
    refine act_setRecord rfl hid fun hrecord ↦ ?_
    subst hrecord
    exact .rescreened hget hstate.1 hstate.2 (fun h ↦ absurd h hblock) fun _ ↦ rfl

theorem act_decideReview {recordId : Text} {event : ReviewEvent} {revision : Text}
    {r : VaultRecord} (h : d.decideReview P key recordId event revision = .ok (r, d')) :
    Act P d id key (.decideReview recordId event revision) (d'.dossier id) := by
  obtain ⟨record, hget, h⟩ := bind_eq_ok.1 h
  rw [getOrRevert_eq_ok] at hget
  simp only [revertIf_bind_eq_ok, timestamp_bind_eq_ok, reference_bind_eq_ok] at h
  obtain ⟨-, -, -, -, -, hopen, h⟩ := h
  have hopen : event.outcome = .cleared → d.hasOpenJob recordId = false := by simpa using hopen
  have hid : (Data.reviewed record event revision).id = recordId :=
    (Data.id_of_get hget : record.id = recordId)
  split at h
  case isTrue hblock =>
    obtain ⟨d'', hqueue, h⟩ := bind_eq_ok.1 h
    cases h
    refine act_queueRevocation rfl hid hqueue fun hrecord jobs hjobs ↦ ?_
    subst hrecord
    exact .reviewed hget (fun hcleared ↦ by simp [hblock] at hcleared) fun _ ↦ hjobs
  case isFalse hblock =>
    cases h
    refine act_setRecord rfl hid fun hrecord ↦ ?_
    subst hrecord
    exact .reviewed hget (fun hcleared ↦ ⟨hopen hcleared, rfl⟩) fun h ↦ absurd h hblock

theorem act_extendRetention {recordId operator ref : Text} {until_ at_ : ℤ}
    (h : d.extendRetention recordId until_ operator ref at_ = .ok d') :
    Act P d id key (.extendRetention recordId until_ operator ref at_) (d'.dossier id) := by
  simp only [Data.extendRetention, timestamp_bind_eq_ok, reference_bind_eq_ok] at h
  obtain ⟨-, -, -, -, h⟩ := h
  obtain ⟨record, hget, h⟩ := bind_eq_ok.1 h
  obtain ⟨hlt, h⟩ := revertIf_bind_eq_ok.1 h
  cases h
  refine act_setControls rfl fun hid ↦ ?_
  subst hid
  have hlt : max record.retentionUntil ((d.controls recordId).minimumUntil.getD 0) < until_ := by
    simpa using hlt
  exact .extended (lt_of_le_of_lt (le_max_right _ _) hlt)

theorem act_placeHold {recordId holdId operator ref : Text} {at_ : ℤ}
    (h : d.placeHold recordId holdId operator ref at_ = .ok d') :
    Act P d id key (.placeHold recordId holdId operator ref at_) (d'.dossier id) := by
  obtain ⟨record, hget, h⟩ := bind_eq_ok.1 h
  simp only [timestamp_bind_eq_ok, reference_bind_eq_ok, revertIf_bind_eq_ok] at h
  obtain ⟨-, -, -, -, -, h⟩ := h
  cases h
  refine act_setControls rfl fun hid ↦ ?_
  subst hid
  exact .holds rfl

theorem act_releaseHold {recordId holdId operator ref : Text} {at_ : ℤ}
    (h : d.releaseHold recordId holdId operator ref at_ = .ok d') :
    Act P d id key (.releaseHold recordId holdId operator ref at_) (d'.dossier id) := by
  obtain ⟨record, hget, h⟩ := bind_eq_ok.1 h
  simp only [timestamp_bind_eq_ok, reference_bind_eq_ok] at h
  obtain ⟨-, -, -, h⟩ := h
  obtain ⟨hold, hhold, h⟩ := bind_eq_ok.1 h
  simp only [revertIf_bind_eq_ok] at h
  obtain ⟨-, -, h⟩ := h
  cases h
  refine act_setControls rfl fun hid ↦ ?_
  subst hid
  exact .holds rfl

theorem act_requestDeletion {requestId recordId : Text} {input : DeletionInput} {at_ : ℤ}
    {request : DeletionRequest}
    (h : d.requestDeletion P requestId recordId input at_ = .ok (request, d')) :
    Act P d id key (.requestDeletion requestId recordId input at_) (d'.dossier id) := by
  simp only [Data.requestDeletion, timestamp_bind_eq_ok, reference_bind_eq_ok] at h
  obtain ⟨-, -, -, -, h⟩ := h
  obtain ⟨record, hget, h⟩ := bind_eq_ok.1 h
  simp only [revertIf_bind_eq_ok] at h
  obtain ⟨-, -, -, h⟩ := h
  cases h
  rw [Data.mustGet_eq_ok] at hget
  refine act_setControls rfl fun hid ↦ ?_
  subst hid
  exact .requested hget

theorem act_approveDeletion {recordId requestId operator : Text} {at_ : ℤ}
    (h : d.approveDeletion P recordId requestId operator at_ = .ok d') :
    Act P d id key (.approveDeletion recordId requestId operator at_) (d'.dossier id) := by
  simp only [Data.approveDeletion, timestamp_bind_eq_ok, reference_bind_eq_ok] at h
  obtain ⟨-, -, h⟩ := h
  obtain ⟨record, hget, h⟩ := bind_eq_ok.1 h
  obtain ⟨request, hlast, h⟩ := bind_eq_ok.1 h
  rw [Data.mustGet_eq_ok] at hget
  rw [getOrRevert_eq_ok] at hlast
  simp only [revertIf_bind_eq_ok, decide_eq_false_iff_not, not_not, Option.isSome_eq_false_iff,
    Option.isNone_iff_eq_none] at h
  obtain ⟨hid, hoperator, hnone, hat, -, -, h⟩ := h
  cases h
  refine act_setControls rfl fun hrecord ↦ ?_
  subst hrecord
  exact .approved hget hlast hid hoperator hnone (not_lt.1 hat)

theorem act_eraseApproved {op : Operation} {record : VaultRecord} {request : DeletionRequest}
    {at_ : ℤ} (hop : op = .erase record.id request.id at_ ∨
      op = .purgeExpired at_ ∧ request.input.automatic = true)
    (hget : d.records.get record.id = some record) (hlast : d.lastRequest record.id = some request)
    (hblockers : d.deletionBlockers P record at_ = []) :
    Act P d id key op ((d.eraseApproved record request at_).dossier id) := by
  rw [Data.dossier_eraseApproved]
  split
  case isTrue hid =>
    subst hid
    exact .erased hop hget hlast hblockers
  case isFalse hid =>
    refine .idle fun hsub ↦ ?_
    rcases hop with rfl | ⟨rfl, -⟩
    · exact hid (Option.some.inj hsub)
    · exact nomatch hsub

theorem act_erase {recordId requestId : Text} {at_ : ℤ} {erased : Bool}
    (h : d.erase P recordId requestId at_ = .ok (erased, d')) :
    Act P d id key (.erase recordId requestId at_) (d'.dossier id) := by
  simp only [Data.erase, timestamp_bind_eq_ok] at h
  obtain ⟨-, h⟩ := h
  split at h
  case h_1 hget =>
    cases h
    by_cases hid : recordId = id
    · subst hid
      exact .eraseMissing hget
    · exact .idle fun hsub ↦ hid (Option.some.inj hsub)
  case h_2 record hget =>
    obtain ⟨request, hlast, h⟩ := bind_eq_ok.1 h
    rw [getOrRevert_eq_ok] at hlast
    simp only [revertIf_bind_eq_ok, decide_eq_false_iff_not, not_not] at h
    obtain ⟨rfl, hblockers, h⟩ := h
    cases h
    obtain rfl := Data.id_of_get hget
    exact act_eraseApproved (.inl rfl) hget hlast hblockers

theorem deletionBlockers_congr {e : Data} (hretention : e.retention = d.retention)
    (hrevocations : e.revocations = d.revocations) (record : VaultRecord) (now : ℤ) :
    e.deletionBlockers P record now = d.deletionBlockers P record now := by
  obtain ⟨revision, records, erasures, revocations, retention, maintenance⟩ := e
  obtain rfl : retention = d.retention := hretention
  obtain rfl : revocations = d.revocations := hrevocations
  rfl

/-- `purgeExpired` goes through the records of the plaintext that it read; erasing one record changes
nothing that the blockers of another depend on. -/
theorem act_purgeExpired {now : ℤ} {count : ℕ} (h : d.purgeExpired P now = .ok (count, d')) :
    Act P d id key (.purgeExpired now) (d'.dossier id) := by
  simp only [Data.purgeExpired, timestamp_bind_eq_ok] at h
  obtain ⟨-, h⟩ := h
  cases h
  suffices hloop : ∀ l ⊆ d.records.rows, ∀ e : Data, e.retention = d.retention →
      e.revocations = d.revocations → Act P d id key (.purgeExpired now) (e.dossier id) →
      Act P d id key (.purgeExpired now) ((l.foldl (Data.purgeRecord P now) e).dossier id) from
    hloop _ (List.Subset.refl _) d rfl rfl (.idle (by rintro ⟨⟩))
  intro l
  induction l with
  | nil => exact fun _ _ _ _ hact ↦ hact
  | cons record l ih =>
    intro hl e hretention hrevocations hact
    obtain ⟨hmem, hl⟩ := List.cons_subset.1 hl
    rw [List.foldl_cons, Data.purgeRecord]
    split
    case h_2 => exact ih hl e hretention hrevocations hact
    case h_1 request hlast =>
      split
      case isTrue => exact ih hl e hretention hrevocations hact
      case isFalse hgo =>
        refine ih hl _ hretention hrevocations ?_
        rw [Data.dossier_eraseApproved]
        split
        case isFalse => exact hact
        case isTrue hid =>
          subst hid
          have hgo : request.input.automatic = true ∧ e.deletionBlockers P record now = [] := by
            simpa using hgo
          have hlast' : d.lastRequest record.id = some request := by
            rwa [Data.lastRequest, Data.controls, hretention] at hlast
          have hsame := deletionBlockers_congr (P := P) hretention hrevocations record now
          have herased : Act P d record.id key (.purgeExpired now)
              { d.dossier record.id with record := none, erased := true } :=
            .erased (.inr ⟨rfl, hgo.1⟩) (Table.get_eq_some.2 ⟨hmem, rfl⟩) hlast' (hsame ▸ hgo.2)
          simpa only [Data.dossier, Data.controls, Data.jobsOf, hretention, hrevocations]
            using herased

/-- An operation that changes a job which is there. -/
theorem act_setJob {op : Operation} {jobId : Text} {job job' : RevocationJob}
    (hop : op.subject = none) (hget : d.revocations.get jobId = some job)
    (hadvances : job.Advances job') : Act P d id key op ((d.setJob job').dossier id) := by
  obtain ⟨hmem, hid⟩ := Table.get_eq_some.1 hget
  have hget' : d.revocations.get job'.id = some job := by rw [hadvances.id, hid, hget]
  rw [Data.dossier_setJob hget' hadvances.recordId.symm]
  by_cases hrecord : job.recordId = id
  · exact .advanced hop (Data.mem_jobsOf.2 ⟨hmem, hrecord⟩) hadvances
  · rw [Data.replaceJob_of_ne hget' hrecord]
    exact .idle (by rw [hop]; nofun)

theorem act_recordRevocationObservation {jobId : Text} {expected : RevocationJob}
    {input : RevocationObservation} {recordedAt : ℤ}
    (h : d.recordRevocationObservation P jobId expected input recordedAt = .ok d') :
    Act P d id key (.recordRevocationObservation jobId expected input recordedAt)
      (d'.dossier id) := by
  obtain ⟨job, hget, h⟩ := bind_eq_ok.1 h
  rw [getOrRevert_eq_ok] at hget
  obtain ⟨-, h⟩ := revertIf_bind_eq_ok.1 h
  obtain ⟨observation, -, h⟩ := bind_eq_ok.1 h
  simp only [timestamp_bind_eq_ok, revertIf_bind_eq_ok] at h
  obtain ⟨-, -, -, -, h⟩ := h
  split at h
  · cases h
    exact .idle (by rintro ⟨⟩)
  · cases h
    exact act_setJob rfl hget ⟨rfl, rfl, rfl, fun hconfirmed ↦ hconfirmed⟩

theorem act_prepareRevocation {jobId : Text} {transaction : RevocationTransaction}
    {r : RevocationJob} (h : d.prepareRevocation jobId transaction = .ok (r, d')) :
    Act P d id key (.prepareRevocation jobId transaction) (d'.dossier id) := by
  obtain ⟨job, hget, h⟩ := bind_eq_ok.1 h
  rw [Data.mustGetJob, getOrRevert_eq_ok] at hget
  simp only [revertIf_bind_eq_ok] at h
  obtain ⟨hstate, -, h⟩ := h
  cases h
  have hstate : job.state ≠ .confirmed := by simpa using hstate
  exact act_setJob rfl hget ⟨rfl, rfl, rfl, fun hconfirmed ↦ absurd hconfirmed hstate⟩

theorem act_finishRevocation {jobId : Text} {at_ : ℤ}
    (h : d.finishRevocation jobId at_ = .ok d') :
    Act P d id key (.finishRevocation jobId at_) (d'.dossier id) := by
  obtain ⟨job, hget, h⟩ := bind_eq_ok.1 h
  rw [Data.mustGetJob, getOrRevert_eq_ok] at hget
  obtain ⟨transaction, -, h⟩ := bind_eq_ok.1 h
  cases h
  exact act_setJob rfl hget ⟨rfl, rfl, rfl, fun _ ↦ rfl⟩

theorem act_failRevocation {jobId error : Text} {minedRevert : Bool}
    (h : d.failRevocation jobId error minedRevert = .ok d') :
    Act P d id key (.failRevocation jobId error minedRevert) (d'.dossier id) := by
  obtain ⟨job, hget, h⟩ := bind_eq_ok.1 h
  rw [Data.mustGetJob, getOrRevert_eq_ok] at hget
  obtain ⟨hstate, h⟩ := revertIf_bind_eq_ok.1 h
  cases h
  have hstate : job.state ≠ .confirmed := by simpa using hstate
  exact act_setJob rfl hget ⟨rfl, rfl, rfl, fun hconfirmed ↦ absurd hconfirmed hstate⟩

/-- `recoverBlockedRevocations` goes through the records; a record that has got its job is not
visited again, since it is no longer without one. -/
theorem act_recoverBlockedRevocations {now : ℤ} (h : d.recoverBlockedRevocations now = .ok d') :
    Act P d id key (.recoverBlockedRevocations now) (d'.dossier id) := by
  let Done (e : Data) : Prop := e.dossier id = d.dossier id ∨
    ∃ record, d.records.get id = some record ∧ record.state = .blocked ∧ d.jobsOf id = [] ∧
      e.dossier id = { d.dossier id with jobs := [Data.newRevocation record now] }
  have hdone : Done d' := by
    refine foldlM_invariant (P := Done) (fun e record e' hmem hdone hstep ↦ ?_) (.inl rfl) h
    simp only [Data.recoverRecord] at hstep
    split at hstep
    case isFalse => cases hstep; exact hdone
    case isTrue hlegacy =>
      simp only [Data.isLegacyBlocked, Bool.and_eq_true, decide_eq_true_eq, Bool.not_eq_true',
        List.any_eq_false] at hlegacy
      obtain ⟨hblocked, hjobs⟩ := hlegacy
      simp only [Data.queueRevocation] at hstep
      split at hstep
      case isTrue => cases hstep; exact hdone
      case isFalse =>
        obtain ⟨hnew, hstep⟩ := revertIf_bind_eq_ok.1 hstep
        cases hstep
        have hnew : e.revocations.get (Data.newRevocation record now).id = none :=
          Option.isNone_iff_eq_none.1 (Option.isSome_eq_false_iff.1 hnew)
        have hdossier := Data.dossier_setJob_new id hnew
        by_cases hid : record.id = id
        · have hempty : (e.dossier id).jobs = [] := by
            refine List.filter_eq_nil_iff.2 fun job hjob ↦ ?_
            simpa [hid] using hjobs job hjob
          rcases hdone with hsame | ⟨r, -, -, -, hrecovered⟩
          · have hd : d.jobsOf id = [] := by
              change (d.dossier id).jobs = []
              rw [← hsame, hempty]
            refine .inr ⟨record, Table.get_eq_some.2 ⟨hmem, hid⟩, hblocked, hd, ?_⟩
            have he : e.jobsOf id = [] := hempty
            rw [hdossier, hsame, he]
            simp [Data.newRevocation, hid]
          · rw [hrecovered] at hempty
            cases hempty
        · have hsame : (e.setJob (Data.newRevocation record now)).dossier id = e.dossier id := by
            rw [hdossier]
            simp [Data.newRevocation, hid, Data.dossier]
          show _ ∨ _
          rw [hsame]
          exact hdone
  rcases hdone with hsame | ⟨record, hget, hblocked, hjobs, hrecovered⟩
  · rw [hsame]
    exact .idle (by rintro ⟨⟩)
  · rw [hrecovered]
    exact .recovered hget hblocked hjobs

/-- **A call acts on each record as `Act` says.** -/
theorem act_of_apply {call : Call} (id : Text) (h : d.apply P call = .ok d') :
    Act P d id call.key call.operation (d'.dossier id) := by
  obtain ⟨key, op⟩ := call
  obtain ⟨e, hop, rfl⟩ := map_eq_ok.1 h
  show Act P d id key op (e.dossier id)
  cases op with
  | put record =>
    obtain ⟨⟨r, e⟩, hpair, rfl⟩ := map_eq_ok.1 hop
    exact act_put hpair
  | recordMaterialization => exact act_recordMaterialization hop
  | recordSourceConfirmation => exact act_recordSourceConfirmation hop
  | recordRescreen =>
    obtain ⟨⟨r, e⟩, hpair, rfl⟩ := map_eq_ok.1 hop
    exact act_recordRescreen hpair
  | decideReview =>
    obtain ⟨⟨r, e⟩, hpair, rfl⟩ := map_eq_ok.1 hop
    exact act_decideReview hpair
  | extendRetention => exact act_extendRetention hop
  | placeHold => exact act_placeHold hop
  | releaseHold => exact act_releaseHold hop
  | requestDeletion =>
    obtain ⟨⟨r, e⟩, hpair, rfl⟩ := map_eq_ok.1 hop
    exact act_requestDeletion hpair
  | approveDeletion => exact act_approveDeletion hop
  | erase =>
    obtain ⟨⟨r, e⟩, hpair, rfl⟩ := map_eq_ok.1 hop
    exact act_erase hpair
  | purgeExpired =>
    obtain ⟨⟨r, e⟩, hpair, rfl⟩ := map_eq_ok.1 hop
    exact act_purgeExpired hpair
  | recordRevocationObservation => exact act_recordRevocationObservation hop
  | recoverBlockedRevocations => exact act_recoverBlockedRevocations hop
  | prepareRevocation =>
    obtain ⟨⟨r, e⟩, hpair, rfl⟩ := map_eq_ok.1 hop
    exact act_prepareRevocation hpair
  | finishRevocation => exact act_finishRevocation hop
  | failRevocation => exact act_failRevocation hop
  | rotateKey =>
    obtain rfl := Except.ok.inj hop
    exact .idle nofun

end Proofmark.Vault
