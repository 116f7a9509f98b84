import Proofmark.Vault.Dossier

/-!
# The signed transactions in the outbox

What the vault's file says about signed transactions: for each job its state and its transaction,
in the order in which the jobs were queued. Only the operations of a delivery change it for a job
that is there (`Advanced`); every other operation leaves it alone or queues jobs that are not
signed (`Queues`).
-/

open Evm

namespace Proofmark.Vault

open Pipeline (Text)

/-- A job's state and its transaction. -/
structure Held where
  id : Text
  state : RevocationJobState
  transaction : Option RevocationTransaction
  deriving DecidableEq

def RevocationJob.held (job : RevocationJob) : Held :=
  ⟨job.id, job.state, job.transaction⟩

/-- The operations of a delivery, which write signed transactions. -/
def Operation.signs : Operation → Bool
  | .prepareRevocation .. | .finishRevocation .. | .failRevocation .. => true
  | _ => false

namespace Data

/-- The outbox of a file, in the order in which the jobs were queued. -/
def held (d : Data) : List Held :=
  d.revocations.rows.map RevocationJob.held

/-- The transactions are the same, and new jobs are not signed. -/
def Queues (d d' : Data) : Prop :=
  ∃ new, d'.held = d.held ++ new ∧ ∀ h ∈ new, h.transaction = none

variable {d d' e : Data} {P : Platform} {key id : Text}

theorem held_nodup (d : Data) : (d.held.map Held.id).Nodup := by
  rw [held, List.map_map]
  exact d.revocations.nodup

theorem Queues.of_eq (h : d'.revocations = d.revocations) : d.Queues d' :=
  ⟨[], by rw [held, h, List.append_nil, held], nofun⟩

theorem Queues.refl (d : Data) : d.Queues d :=
  .of_eq rfl

theorem Queues.trans (h : d.Queues d') (h' : d'.Queues e) : d.Queues e := by
  obtain ⟨new, hheld, hnew⟩ := h
  obtain ⟨new', hheld', hnew'⟩ := h'
  refine ⟨new ++ new', by rw [hheld', hheld, List.append_assoc], fun x hx ↦ ?_⟩
  exact (List.mem_append.1 hx).elim (hnew x) (hnew' x)

/-! ### Writing one job -/

/-- The outbox with the entry of a job replaced. -/
def replaceHeld (h : Held) (l : List Held) : List Held :=
  l.map fun x ↦ if x.id = h.id then h else x

theorem held_setJob {old : RevocationJob} (job : RevocationJob) (hget : d.revocations.get job.id = some old) :
    (d.setJob job).held = replaceHeld job.held d.held := by
  obtain ⟨hold, hid⟩ := Table.get_eq_some.1 hget
  have hrows : (d.revocations.set job).rows =
      d.revocations.rows.map fun j ↦ if j.id = job.id then job else j :=
    if_pos (hid ▸ List.mem_map_of_mem hold)
  show (d.revocations.set job).rows.map _ = _
  rw [hrows, held, replaceHeld, List.map_map, List.map_map]
  refine List.map_congr_left fun j _ ↦ ?_
  show RevocationJob.held (if j.id = job.id then job else j) =
    if j.id = job.id then job.held else j.held
  split <;> rfl

/-- The entry of a job stands in its place, and no other entry has its id. -/
theorem replaceHeld_append {h h' : Held} {before after : List Held} (hid : h'.id = h.id)
    (hnodup : ((before ++ h :: after).map Held.id).Nodup) :
    replaceHeld h' (before ++ h :: after) = before ++ h' :: after := by
  rw [List.map_append, List.map_cons, List.nodup_middle, List.nodup_cons, ← List.map_append]
    at hnodup
  have hother : ∀ x ∈ before ++ after, (if x.id = h'.id then h' else x) = x := fun x hx ↦
    if_neg fun heq ↦ hnodup.1 (List.mem_map.2 ⟨x, hx, heq.trans hid⟩)
  rw [replaceHeld, List.map_append, List.map_cons, if_pos hid.symm]
  congr 1
  · exact (List.map_congr_left fun x hx ↦ hother x (List.mem_append_left _ hx)).trans
      (List.map_id _)
  · congr 1
    exact (List.map_congr_left fun x hx ↦ hother x (List.mem_append_right _ hx)).trans
      (List.map_id _)

/-- Replacing an entry by itself. -/
theorem replaceHeld_self {h : Held} {l : List Held} (hmem : h ∈ l) (hnodup : (l.map Held.id).Nodup) :
    replaceHeld h l = l := by
  obtain ⟨before, after, rfl⟩ := List.append_of_mem hmem
  exact replaceHeld_append rfl hnodup

/-- The revision and the transactions are the same, and new jobs are not signed. -/
structure Quiet (d d' : Data) : Prop where
  revision : d'.revision = d.revision
  queues : d.Queues d'

theorem Quiet.of_eq (hrevision : d'.revision = d.revision)
    (h : d'.revocations = d.revocations) : d.Quiet d' :=
  ⟨hrevision, .of_eq h⟩

theorem Quiet.refl (d : Data) : d.Quiet d :=
  .of_eq rfl rfl

theorem Quiet.trans (h : d.Quiet d') (h' : d'.Quiet e) : d.Quiet e :=
  ⟨h'.revision.trans h.revision, h.queues.trans h'.queues⟩

/-! ### Operations that are not a delivery's -/

theorem quiet_queueRevocation {record : VaultRecord} {at_ : ℤ}
    (h : d.queueRevocation record at_ = .ok d') : d.Quiet d' := by
  simp only [queueRevocation] at h
  split at h
  case isTrue =>
    cases h
    exact .refl d
  case isFalse =>
    obtain ⟨hnew, h⟩ := revertIf_bind_eq_ok.1 h
    cases h
    have hnone : d.revocations.get (newRevocation record at_).id = none :=
      Option.isNone_iff_eq_none.1 (Option.isSome_eq_false_iff.1 hnew)
    have hrows : (d.revocations.set (newRevocation record at_)).rows =
        d.revocations.rows ++ [newRevocation record at_] := by
      refine if_neg fun hmem ↦ ?_
      obtain ⟨old, hold, hid⟩ := List.mem_map.1 hmem
      exact Table.get_eq_none.1 hnone old hold hid
    refine ⟨rfl, [(newRevocation record at_).held], ?_, ?_⟩
    · show (d.revocations.set (newRevocation record at_)).rows.map _ = _
      rw [hrows, List.map_append]
      rfl
    · intro x hx
      rw [List.mem_singleton.1 hx]
      rfl

/-- A decision on a record, and the job it may queue. -/
theorem quiet_decision {record : VaultRecord} {at_ : ℤ} {b : Bool} {r : VaultRecord}
    (h : (if b then do
        let d' ← (d.setRecord record).queueRevocation record at_
        return (record, d')
      else return (record, d.setRecord record) : Except String (VaultRecord × Data)) = .ok (r, d')) :
    d.Quiet d' := by
  cases b with
  | true =>
    obtain ⟨d'', hqueue, h⟩ := bind_eq_ok.1 h
    cases h
    have hrecord : d.Quiet (d.setRecord record) := .of_eq rfl rfl
    exact hrecord.trans (quiet_queueRevocation hqueue)
  | false =>
    cases h
    exact .of_eq rfl rfl

theorem quiet_purgeExpired {now : ℤ} {n : ℕ} (h : d.purgeExpired P now = .ok (n, d')) :
    d.Quiet d' := by
  simp only [purgeExpired, timestamp_bind_eq_ok] at h
  obtain ⟨-, h⟩ := h
  cases h
  suffices hloop : ∀ (l : List VaultRecord) (e : Data), e.Quiet (l.foldl (purgeRecord P now) e) from
    hloop _ _
  intro l
  induction l with
  | nil => exact fun e ↦ .refl e
  | cons record l ih =>
    intro e
    have hrecord : e.Quiet (purgeRecord P now e record) := by
      rw [purgeRecord]
      split
      · split
        · exact .refl e
        · exact .of_eq rfl rfl
      · exact .refl e
    exact hrecord.trans (ih _)

theorem quiet_recordRevocationObservation {jobId : Text} {expected : RevocationJob}
    {input : RevocationObservation} {recordedAt : ℤ}
    (h : d.recordRevocationObservation P jobId expected input recordedAt = .ok d') :
    d.Quiet d' := by
  obtain ⟨job, hget, h⟩ := bind_eq_ok.1 h
  rw [getOrRevert_eq_ok] at hget
  obtain ⟨-, h⟩ := revertIf_bind_eq_ok.1 h
  obtain ⟨observation, -, h⟩ := bind_eq_ok.1 h
  simp only [timestamp_bind_eq_ok, revertIf_bind_eq_ok] at h
  obtain ⟨-, -, -, -, h⟩ := h
  split at h
  · cases h
    exact .refl d
  · cases h
    obtain ⟨hmem, hid⟩ := Table.get_eq_some.1 hget
    refine ⟨rfl, [], ?_, List.forall_mem_nil _⟩
    rw [held_setJob _ (show _ = some job by rw [show RevocationJob.id _ = job.id from rfl, hid, hget]),
      List.append_nil]
    exact replaceHeld_self (h := job.held) (List.mem_map_of_mem hmem) d.held_nodup

/-- **Every operation that is not a delivery's** leaves the signed transactions as they are, and
the revision number, which is counted where the file is written. -/
theorem quiet_perform {op : Operation} (hop : op.signs = false)
    (h : d.perform P key op = .ok d') : d.Quiet d' := by
  cases op with
  | put record =>
    obtain ⟨⟨r, e⟩, hpair, rfl⟩ := map_eq_ok.1 h
    simp only [put, revertIf_bind_eq_ok, timestamp_bind_eq_ok] at hpair
    obtain ⟨-, -, -, -, -, -, hpair⟩ := hpair
    split at hpair
    · obtain ⟨-, hpair⟩ := revertIf_bind_eq_ok.1 hpair
      cases hpair
      exact .refl d
    · cases hpair
      exact .of_eq rfl rfl
  | recordMaterialization id evidenceHash =>
    obtain ⟨record, -, h⟩ := bind_eq_ok.1 h
    obtain ⟨-, h⟩ := revertIf_bind_eq_ok.1 h
    cases h
    exact .of_eq rfl rfl
  | recordSourceConfirmation id evidenceHash observation =>
    obtain ⟨record, -, h⟩ := bind_eq_ok.1 h
    simp only [revertIf_bind_eq_ok, timestamp_bind_eq_ok] at h
    obtain ⟨-, -, -, h⟩ := h
    split at h
    · obtain ⟨-, h⟩ := revertIf_bind_eq_ok.1 h
      cases h
      exact .refl d
    · cases h
      exact .of_eq rfl rfl
  | recordRescreen id event expected =>
    obtain ⟨⟨r, e⟩, hpair, rfl⟩ := map_eq_ok.1 h
    obtain ⟨record, -, hpair⟩ := bind_eq_ok.1 hpair
    simp only [revertIf_bind_eq_ok, timestamp_bind_eq_ok] at hpair
    obtain ⟨-, -, -, -, hpair⟩ := hpair
    exact quiet_decision (b := decide (event.decision = .block)) (by simpa using hpair)
  | decideReview id event revision =>
    obtain ⟨⟨r, e⟩, hpair, rfl⟩ := map_eq_ok.1 h
    obtain ⟨record, -, hpair⟩ := bind_eq_ok.1 hpair
    simp only [revertIf_bind_eq_ok, timestamp_bind_eq_ok, reference_bind_eq_ok] at hpair
    obtain ⟨-, -, -, -, -, -, hpair⟩ := hpair
    exact quiet_decision (b := decide (event.outcome = .blocked)) (by simpa using hpair)
  | extendRetention id until_ operator ref at_ =>
    simp only [perform, extendRetention, timestamp_bind_eq_ok, reference_bind_eq_ok] at h
    obtain ⟨-, -, -, -, h⟩ := h
    obtain ⟨record, -, h⟩ := bind_eq_ok.1 h
    obtain ⟨-, h⟩ := revertIf_bind_eq_ok.1 h
    cases h
    exact .of_eq rfl rfl
  | placeHold id holdId operator ref at_ =>
    obtain ⟨record, -, h⟩ := bind_eq_ok.1 h
    simp only [timestamp_bind_eq_ok, reference_bind_eq_ok, revertIf_bind_eq_ok] at h
    obtain ⟨-, -, -, -, -, h⟩ := h
    cases h
    exact .of_eq rfl rfl
  | releaseHold id holdId operator ref at_ =>
    obtain ⟨record, -, h⟩ := bind_eq_ok.1 h
    simp only [timestamp_bind_eq_ok, reference_bind_eq_ok] at h
    obtain ⟨-, -, -, h⟩ := h
    obtain ⟨hold, -, h⟩ := bind_eq_ok.1 h
    simp only [revertIf_bind_eq_ok] at h
    obtain ⟨-, -, h⟩ := h
    cases h
    exact .of_eq rfl rfl
  | requestDeletion requestId id input at_ =>
    obtain ⟨⟨r, e⟩, hpair, rfl⟩ := map_eq_ok.1 h
    simp only [requestDeletion, timestamp_bind_eq_ok, reference_bind_eq_ok] at hpair
    obtain ⟨-, -, -, -, hpair⟩ := hpair
    obtain ⟨record, -, hpair⟩ := bind_eq_ok.1 hpair
    simp only [revertIf_bind_eq_ok] at hpair
    obtain ⟨-, -, -, hpair⟩ := hpair
    cases hpair
    exact .of_eq rfl rfl
  | approveDeletion id requestId operator at_ =>
    simp only [perform, approveDeletion, timestamp_bind_eq_ok, reference_bind_eq_ok] at h
    obtain ⟨-, -, h⟩ := h
    obtain ⟨record, -, h⟩ := bind_eq_ok.1 h
    obtain ⟨request, -, h⟩ := bind_eq_ok.1 h
    simp only [revertIf_bind_eq_ok] at h
    obtain ⟨-, -, -, -, -, -, h⟩ := h
    cases h
    exact .of_eq rfl rfl
  | erase id requestId at_ =>
    obtain ⟨⟨r, e⟩, hpair, rfl⟩ := map_eq_ok.1 h
    simp only [erase, timestamp_bind_eq_ok] at hpair
    obtain ⟨-, hpair⟩ := hpair
    split at hpair
    · cases hpair
      exact .refl d
    · obtain ⟨request, -, hpair⟩ := bind_eq_ok.1 hpair
      simp only [revertIf_bind_eq_ok] at hpair
      obtain ⟨-, -, hpair⟩ := hpair
      cases hpair
      exact .of_eq rfl rfl
  | purgeExpired now =>
    obtain ⟨⟨r, e⟩, hpair, rfl⟩ := map_eq_ok.1 h
    exact quiet_purgeExpired hpair
  | recordRevocationObservation id expected input recordedAt =>
    exact quiet_recordRevocationObservation h
  | recoverBlockedRevocations now =>
    refine foldlM_invariant (P := d.Quiet) (fun e record e' _ hquiet hstep ↦ ?_) (.refl d) h
    simp only [recoverRecord] at hstep
    split at hstep
    · exact hquiet.trans (quiet_queueRevocation hstep)
    · cases hstep
      exact hquiet
  | prepareRevocation | finishRevocation | failRevocation => cases hop
  | rotateKey newSecret operator at_ =>
    obtain rfl := Except.ok.inj h
    exact .of_eq rfl rfl

/-! ### The operations of a delivery -/

variable {transaction : RevocationTransaction} {at_ : ℤ}

theorem held_of_mustGetJob {job : RevocationJob} (h : d.mustGetJob id = .ok job) :
    d.revocations.get job.id = some job ∧ job.held ∈ d.held ∧ job.id = id := by
  rw [mustGetJob, getOrRevert_eq_ok] at h
  obtain ⟨hmem, rfl⟩ := Table.get_eq_some.1 h
  exact ⟨h, List.mem_map_of_mem hmem, rfl⟩

theorem held_prepareRevocation (h : d.perform P key (.prepareRevocation id transaction) = .ok d') :
    d'.held = replaceHeld ⟨id, .prepared, some transaction⟩ d.held := by
  obtain ⟨⟨r, e⟩, hpair, rfl⟩ := map_eq_ok.1 h
  obtain ⟨job, hget, hpair⟩ := bind_eq_ok.1 hpair
  simp only [revertIf_bind_eq_ok] at hpair
  obtain ⟨-, -, hpair⟩ := hpair
  cases hpair
  obtain ⟨hrow, -, rfl⟩ := held_of_mustGetJob hget
  exact held_setJob { job with transaction := some transaction, state := .prepared } hrow

theorem held_finishRevocation (h : d.perform P key (.finishRevocation id at_) = .ok d') :
    ∃ old ∈ d.held, old.id = id ∧ ∃ transaction, old.transaction = some transaction ∧
      d'.held = replaceHeld ⟨id, .confirmed, some { transaction with raw := [] }⟩ d.held := by
  obtain ⟨job, hget, h⟩ := bind_eq_ok.1 h
  obtain ⟨transaction, htransaction, h⟩ := bind_eq_ok.1 h
  cases h
  rw [getOrRevert_eq_ok] at htransaction
  obtain ⟨hrow, hmem, rfl⟩ := held_of_mustGetJob hget
  exact ⟨job.held, hmem, rfl, transaction, htransaction, held_setJob { job with
    state := .confirmed
    confirmedAt := some at_
    lastError := none
    transaction := some { transaction with raw := [] } } hrow⟩

theorem held_failRevocation {error : Text} {minedRevert : Bool}
    (h : d.perform P key (.failRevocation id error minedRevert) = .ok d') :
    ∃ old ∈ d.held, old.id = id ∧ old.state ≠ .confirmed ∧
      d'.held = replaceHeld ⟨id, if minedRevert then .pending else old.state,
        if minedRevert then none else old.transaction⟩ d.held := by
  obtain ⟨job, hget, h⟩ := bind_eq_ok.1 h
  obtain ⟨hstate, h⟩ := revertIf_bind_eq_ok.1 h
  cases h
  obtain ⟨hrow, hmem, rfl⟩ := held_of_mustGetJob hget
  have hopen : job.state ≠ .confirmed := by simpa using hstate
  exact ⟨job.held, hmem, rfl, hopen, held_setJob { job with
    lastError := some (error.take 200)
    state := if minedRevert then .pending else job.state
    transaction := if minedRevert then none else job.transaction } hrow⟩

/-- An operation does not touch the revision number. -/
theorem revision_perform {op : Operation} (h : d.perform P key op = .ok d') :
    d'.revision = d.revision := by
  cases hop : op.signs with
  | false => exact (quiet_perform hop h).revision
  | true =>
    cases op with
    | prepareRevocation id transaction =>
      obtain ⟨⟨r, e⟩, hpair, rfl⟩ := map_eq_ok.1 h
      obtain ⟨job, -, hpair⟩ := bind_eq_ok.1 hpair
      simp only [revertIf_bind_eq_ok] at hpair
      obtain ⟨-, -, hpair⟩ := hpair
      cases hpair
      rfl
    | finishRevocation id at_ =>
      obtain ⟨job, -, h⟩ := bind_eq_ok.1 h
      obtain ⟨transaction, -, h⟩ := bind_eq_ok.1 h
      cases h
      rfl
    | failRevocation id error minedRevert =>
      obtain ⟨job, -, h⟩ := bind_eq_ok.1 h
      obtain ⟨-, h⟩ := revertIf_bind_eq_ok.1 h
      cases h
      rfl
    | _ => cases hop

/-- A call that succeeds adds one to the revision number. -/
theorem revision_apply {call : Call} (h : d.apply P call = .ok d') :
    d'.revision = d.revision + 1 := by
  obtain ⟨e, hperform, rfl⟩ := map_eq_ok.1 h
  show e.revision + 1 = d.revision + 1
  rw [revision_perform hperform]

end Data

end Proofmark.Vault
