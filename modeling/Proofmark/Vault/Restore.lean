import Proofmark.Vault.Backup
import Proofmark.Vault.Deletion

/-!
# What a backup restores

The deadlines of a vault are times that JavaScript compares exactly (`dated_after`), so a backup of
any vault that a run reaches is written (`createBackup_eq`) and reads back as it was written
(`parse_backupFile`). `verifyBackup_eq_ok` says what the checks of a restore establish.

The HMAC covers the values of the manifest and the envelope, as JSON prints them, and not the
characters of the file: whitespace may be added to a backup (`spacedBackup_restores`).
-/

open Evm JsonText

namespace Proofmark.Vault

open Pipeline

/-! ### The deadlines of a vault -/

/-- What `timestamp` accepts. -/
def IsTimestamp (z : ℤ) : Prop :=
  0 ≤ z ∧ z ≤ 9007199254740991

theorem IsTimestamp.isSafe {z : ℤ} (h : IsTimestamp z) : isSafeInteger z = true := by
  obtain ⟨hnonneg, hle⟩ := h
  simp only [isSafeInteger, Bool.and_eq_true, decide_eq_true_eq]
  omega

/-- The deadlines of a plaintext are timestamps. -/
structure Dated (d : Data) : Prop where
  records : ∀ id record, d.records.get id = some record → IsTimestamp record.retentionUntil
  controls : ∀ id, ∀ t ∈ (d.controls id).minimumUntil, IsTimestamp t

/-- The deadlines in a dossier. -/
def Dossier.Dated (x : Dossier) : Prop :=
  (∀ record ∈ x.record, IsTimestamp record.retentionUntil) ∧
    ∀ t ∈ x.controls.minimumUntil, IsTimestamp t

theorem dated_iff {d : Data} : Dated d ↔ ∀ id, (d.dossier id).Dated :=
  ⟨fun h id ↦ ⟨h.records id, h.controls id⟩, fun h ↦ ⟨fun id ↦ (h id).1, fun id ↦ (h id).2⟩⟩

/-- The times that an operation brings are checked. -/
theorem isTimestamp_of_apply {P : Platform} {d d' : Data} {call : Call}
    (h : d.apply P call = .ok d') :
    (∀ record, call.operation = .put record → IsTimestamp record.retentionUntil) ∧
      ∀ id until_ operator ref at_, call.operation = .extendRetention id until_ operator ref at_ →
        IsTimestamp until_ := by
  obtain ⟨e, hop, rfl⟩ := map_eq_ok.1 h
  refine ⟨fun record hcall ↦ ?_, fun id until_ operator ref at_ hcall ↦ ?_⟩
  · rw [hcall] at hop
    obtain ⟨⟨r, e⟩, hput, rfl⟩ := map_eq_ok.1 hop
    simp only [Data.put, revertIf_bind_eq_ok, timestamp_bind_eq_ok] at hput
    exact hput.2.2.2.1
  · rw [hcall] at hop
    simp only [Data.perform, Data.extendRetention, timestamp_bind_eq_ok] at hop
    exact hop.2.1

theorem Dated.apply {P : Platform} {d d' : Data} {call : Call} (hd : Dated d)
    (h : d.apply P call = .ok d') : Dated d' := by
  rw [dated_iff] at hd ⊢
  intro id
  obtain ⟨hput, hextend⟩ := isTimestamp_of_apply h
  obtain ⟨key, op⟩ := call
  obtain ⟨hrecord, hcontrols⟩ := hd id
  have hact := act_of_apply id h
  generalize d'.dossier id = x at hact
  -- only `put` and `extendRetention` bring a time that is not there yet
  cases hact with
  | idle | putAgain | sourceConfirmedAgain | eraseMissing | recovered | advanced =>
    exact ⟨hrecord, hcontrols⟩
  | put =>
    refine ⟨fun record hmem ↦ ?_, hcontrols⟩
    obtain rfl := Option.some.inj hmem
    exact hput _ rfl
  | @materialized record hget | @sourceConfirmed record _ _ _ hget
  | @rescreened _ record _ hget | @reviewed _ _ record _ hget =>
    have hkept : IsTimestamp record.retentionUntil := hrecord record hget
    refine ⟨fun next hmem ↦ ?_, hcontrols⟩
    obtain rfl := Option.some.inj hmem
    exact hkept
  | extended =>
    refine ⟨hrecord, fun t hmem ↦ ?_⟩
    obtain rfl := Option.some.inj hmem
    exact hextend _ _ _ _ _ rfl
  | holds | requested | approved => exact ⟨hrecord, fun t hmem ↦ hcontrols t hmem⟩
  | erased => exact ⟨fun record hmem ↦ absurd hmem (Option.not_mem_none record), hcontrols⟩

theorem dated_empty : Dated .empty where
  records id record h := by
    have hnone : Data.empty.records.get id = none := rfl
    rw [hnone] at h
    cases h
  controls id t h := by
    have hnone : (Data.empty.controls id).minimumUntil = none := rfl
    rw [hnone] at h
    cases h

/-- **The deadlines of a vault are timestamps**, after any run. -/
theorem dated_after {ι : Type} [DecidableEq ι] (P : Platform) (events : List (Event ι)) :
    Dated ((World.fresh : World ι).after P events).data := by
  obtain ⟨calls, hafter, -⟩ := World.after_eq (P := P) (w := (World.fresh : World ι)) events
  rw [hafter]
  exact run_invariant dated_empty (fun _ _ _ hd h ↦ Dated.apply hd h) calls

/-! ### The plaintext of a vault, as JSON -/

section

variable {N : Type} (S : Sealing N) (P : Platform)

/-- An object shows a record, as far as its deadline goes. -/
structure ShowsRecord (v : Value N) (record : VaultRecord) : Prop where
  id : fieldText v "id" = some record.id
  retentionUntil : S.fieldInt v "retentionUntil" = some record.retentionUntil
  retentionPolicy :
    S.truthy (v.get "retentionPolicy".toList) = record.retentionPolicy.isSome

/-- A plaintext shows the records of a vault and their retention controls, in any order. -/
structure Shows (data : Value N) (d : Data) (fields : List (Text × Value N)) : Prop where
  revision : S.fieldInt data "revision" = some (d.revision : ℤ)
  records : data.get "records".toList = some (.object fields)
  record_of_mem : ∀ p ∈ fields, ∃ record, d.records.get p.1 = some record ∧ ShowsRecord S p.2 record
  mem_of_record : ∀ id record, d.records.get id = some record →
    ∃ v, (id, v) ∈ fields ∧ ShowsRecord S v record
  minimumUntil : ∀ id, ((data.get "retention".toList).bind fun controls ↦ controls.get id).bind
      (fun controls ↦ controls.get "minimumUntil".toList) = none ∧
        (d.controls id).minimumUntil = none ∨
    ∃ n t, ((data.get "retention".toList).bind fun controls ↦ controls.get id).bind
        (fun controls ↦ controls.get "minimumUntil".toList) = some (.number n) ∧
      S.safe n = some t ∧ (d.controls id).minimumUntil = some t

/-- No record that is bound to a policy has passed its deadline. -/
def Data.Unexpired (d : Data) (now : ℤ) : Prop :=
  ∀ id record, d.records.get id = some record → record.retentionPolicy.isSome = true →
    now < d.retentionDeadline record

variable {S}

theorem retentionDeadline_eq {data v : Value N} {d : Data} {fields : List (Text × Value N)}
    {record : VaultRecord} (h : Shows S data d fields) (hv : ShowsRecord S v record) :
    S.retentionDeadline data v = some (d.retentionDeadline record) := by
  rw [Sealing.retentionDeadline, hv.retentionUntil, hv.id, Data.retentionDeadline]
  rcases h.minimumUntil record.id with ⟨hnone, hcontrols⟩ | ⟨n, t, hsome, hsafe, hcontrols⟩
  · simp only [Option.bind_eq_bind, Option.bind_some, hnone, hcontrols, Option.getD_none]
  · simp only [Option.bind_eq_bind, Option.bind_some, hsome, hcontrols, Option.getD_some]
    rw [JsNumbers.asInt, hsafe]
    rfl

theorem Dated.retentionDeadline {d : Data} (h : Dated d) {id : Text} {record : VaultRecord}
    (hget : d.records.get id = some record) : IsTimestamp (d.retentionDeadline record) := by
  obtain ⟨hnonneg, hle⟩ := h.records id record hget
  rw [Data.retentionDeadline]
  cases hmin : (d.controls record.id).minimumUntil with
  | none => exact ⟨by simp [hnonneg], by simp [hle]⟩
  | some t =>
    have ht := (h.controls record.id t hmin).2
    exact ⟨le_max_of_le_left hnonneg, max_le hle ht⟩

theorem mapM_eq_some_map {α β : Type} {f : α → Option β} {g : α → β} {l : List α}
    (h : ∀ a ∈ l, f a = some (g a)) : l.mapM f = some (l.map g) := by
  induction l with
  | nil => rfl
  | cons a l ih =>
    rw [List.mapM_cons, h a List.mem_cons_self, ih fun b hb ↦ h b (List.mem_cons_of_mem _ hb)]
    rfl

/-- **The deadline of a backup** is the earliest of the records that are bound to a policy. -/
theorem deleteBy_eq {data : Value N} {d : Data} {fields : List (Text × Value N)}
    (h : Shows S data d fields) (hd : Dated d) :
    ∃ deadline, S.deleteBy data fields = some deadline ∧ (∀ t ∈ deadline, IsTimestamp t) ∧
      ∀ now, (∀ t ∈ deadline, now < t) ↔ d.Unexpired now := by
  let bound := (fields.map Prod.snd).filter fun v ↦ S.truthy (v.get "retentionPolicy".toList)
  let deadlineOf := fun v ↦ (S.retentionDeadline data v).getD 0
  have hbound : ∀ v ∈ bound, ∃ id record, d.records.get id = some record ∧
      record.retentionPolicy.isSome = true ∧ S.retentionDeadline data v = some (deadlineOf v) ∧
      deadlineOf v = d.retentionDeadline record := by
    intro v hv
    obtain ⟨hmem, htruthy⟩ := List.mem_filter.1 hv
    obtain ⟨p, hp, rfl⟩ := List.mem_map.1 hmem
    obtain ⟨record, hget, hshows⟩ := h.record_of_mem p hp
    have heq := retentionDeadline_eq h hshows
    exact ⟨p.1, record, hget, hshows.retentionPolicy ▸ htruthy, by simp [deadlineOf, heq],
      by simp [deadlineOf, heq]⟩
  have hmapM : bound.mapM (S.retentionDeadline data) = some (bound.map deadlineOf) :=
    mapM_eq_some_map fun v hv ↦ by
      obtain ⟨-, -, -, -, heq, -⟩ := hbound v hv
      exact heq
  refine ⟨(bound.map deadlineOf).min?, ?_, ?_, ?_⟩
  · show (bound.mapM (S.retentionDeadline data)).map List.min? = _
    rw [hmapM]
    rfl
  · intro t ht
    obtain ⟨v, hv, rfl⟩ := List.mem_map.1 (List.min?_mem ht)
    obtain ⟨id, record, hget, -, -, heq⟩ := hbound v hv
    rw [heq]
    exact hd.retentionDeadline hget
  · intro now
    constructor
    · intro hlt id record hget hpolicy
      obtain ⟨v, hv, hshows⟩ := h.mem_of_record id record hget
      have hmem : v ∈ bound := List.mem_filter.2
        ⟨List.mem_map.2 ⟨_, hv, rfl⟩, by rw [hshows.retentionPolicy, hpolicy]⟩
      have heq : deadlineOf v = d.retentionDeadline record := by
        simp [deadlineOf, retentionDeadline_eq h hshows]
      cases hmin : (bound.map deadlineOf).min? with
      | none =>
        rw [List.min?_eq_none_iff, List.map_eq_nil_iff] at hmin
        rw [hmin] at hmem
        cases hmem
      | some t =>
        have hle := (List.min?_eq_some_iff.1 hmin).2 _ (List.mem_map_of_mem hmem)
        have hnow := hlt t hmin
        omega
    · intro hunexpired t ht
      obtain ⟨v, hv, rfl⟩ := List.mem_map.1 (List.min?_mem ht)
      obtain ⟨id, record, hget, hpolicy, -, heq⟩ := hbound v hv
      rw [heq]
      exact hunexpired id record hget hpolicy

end

/-- A file opens whose envelope does. -/
theorem decryptVaultData_of {N : Type} {S : Sealing N} {raw key iv tag ciphertext plain : Text}
    {envelope parsed data : Value N} (hraw : parse S.numerals raw = some envelope)
    (hversion : S.fieldInt envelope "version" = some 1) (hiv : fieldText envelope "iv" = some iv)
    (htag : fieldText envelope "tag" = some tag)
    (hciphertext : fieldText envelope "ciphertext" = some ciphertext)
    (hdecipher : S.decipher key iv tag ciphertext = some plain)
    (hplain : parse S.numerals plain = some parsed) (hdata : S.upgraded parsed = some data) :
    S.decryptVaultData raw key = .ok data := by
  have hplaintext : S.plaintext envelope key = some data := by
    simp only [Sealing.plaintext, hiv, htag, hciphertext, hdecipher, hplain, hdata,
      Option.bind_eq_bind, Option.bind_some]
  refine bind_eq_ok.2 ⟨envelope, getOrRevert_eq_ok.2 hraw, ?_⟩
  rw [revertIf_bind_eq_ok, getOrRevert_eq_ok]
  exact ⟨by simp [hversion], hplaintext⟩

/-! ### A backup reads as it was written -/

/-- The fields of a backup without its authentication. -/
def unsignedKeys : List Text :=
  ["version", "backupId", "createdAt", "revision", "stateCommitment", "ciphertextHash", "keyId",
    "deleteBy", "vaultEnvelope"].map String.toList

theorem nodup_unsignedKeys : (unsignedKeys ++ ["authentication".toList]).Nodup := by
  decide +kernel

section

variable {N : Type} (S : Sealing N) (P : Platform) {raw key backupId : Text} {at_ : ℤ}
  {data : Value N} {deadline : Option ℤ}

/-- The fields of a backup and its authentication. -/
def signedFields (raw key backupId : Text) (at_ : ℤ) (data : Value N) (deadline : Option ℤ) :
    List (Text × Value N) :=
  let unsigned := S.unsignedFields P raw key backupId at_ data deadline
  unsigned ++ [("authentication".toList, .string (S.authentication key (.object unsigned)))]

theorem backupFile_eq : S.backupFile P raw key backupId at_ data deadline =
    .object (signedFields S P raw key backupId at_ data deadline) :=
  rfl

theorem map_fst_unsignedFields :
    (S.unsignedFields P raw key backupId at_ data deadline).map Prod.fst = unsignedKeys :=
  rfl

theorem map_fst_signedFields :
    (signedFields S P raw key backupId at_ data deadline).map Prod.fst =
      unsignedKeys ++ ["authentication".toList] := by
  rw [signedFields, List.map_append, map_fst_unsignedFields]
  rfl

theorem nodup_signedFields :
    ((signedFields S P raw key backupId at_ data deadline).map Prod.fst).Nodup := by
  rw [map_fst_signedFields]
  exact nodup_unsignedKeys

theorem normalize_backupFile :
    JsonText.normalize (S.backupFile P raw key backupId at_ data deadline) =
      S.backupFile P raw key backupId at_ data deadline := by
  have hvalues : normalizeFields (signedFields S P raw key backupId at_ data deadline) =
      signedFields S P raw key backupId at_ data deadline := by
    cases deadline <;> rfl
  have hindex : ∀ k ∈ unsignedKeys ++ ["authentication".toList], index k = none := by
    decide +kernel
  rw [backupFile_eq, JsonText.normalize, hvalues, properties_eq_self (nodup_signedFields S P)]
  intro p hp
  refine hindex p.1 ?_
  rw [← map_fst_signedFields S P]
  exact List.mem_map_of_mem hp

/-- **A backup reads as it was written.** -/
theorem parse_backupFile :
    parse S.numerals (print S.numerals (S.backupFile P raw key backupId at_ data deadline)) =
      some (S.backupFile P raw key backupId at_ data deadline) :=
  parse_print S.numerals (normalize_backupFile S P)

/-- A field of a backup. -/
theorem get_backupFile {k : Text} {v : Value N}
    (h : (k, v) ∈ signedFields S P raw key backupId at_ data deadline) :
    (S.backupFile P raw key backupId at_ data deadline).get k = some v :=
  Value.get_object_of_mem (nodup_signedFields S P) h

theorem dropField_authentication :
    dropField (S.backupFile P raw key backupId at_ data deadline) "authentication" =
      .object (S.unsignedFields P raw key backupId at_ data deadline) := by
  refine dropField_concat ?_ _
  rw [map_fst_unsignedFields]
  decide +kernel

theorem fieldText_backupFile {name : String} {t : Text}
    (h : (name.toList, .string t) ∈ signedFields S P raw key backupId at_ data deadline) :
    fieldText (S.backupFile P raw key backupId at_ data deadline) name = some t := by
  rw [fieldText, get_backupFile S P h]
  rfl

theorem fieldInt_backupFile {name : String} {z : ℤ} (hz : isSafeInteger z = true)
    (h : (name.toList, .number (S.ofInt z)) ∈
      signedFields S P raw key backupId at_ data deadline) :
    S.fieldInt (S.backupFile P raw key backupId at_ data deadline) name = some z := by
  rw [JsNumbers.fieldInt, get_backupFile S P h]
  exact S.safe_ofInt z hz

variable {S P}

/-- What a backup shows of itself. -/
structure Manifest (S : Sealing N) (P : Platform) (file : Value N) (raw key backupId : Text)
    (at_ : ℤ) (data : Value N) (deadline : Option ℤ) : Prop where
  version : S.fieldInt file "version" = some 1
  backupId : fieldText file "backupId" = some backupId
  createdAt : S.fieldInt file "createdAt" = some at_
  revision : S.fieldInt file "revision" = some (S.revision data)
  stateCommitment : fieldText file "stateCommitment" = some (S.stateCommitment data)
  ciphertextHash : fieldText file "ciphertextHash" = some (S.sha256 raw)
  keyId : fieldText file "keyId" = some (P.keyIdentifier key)
  deleteBy : file.get "deleteBy".toList = some (deadline.elim .null fun t ↦ .number (S.ofInt t))
  vaultEnvelope : fieldText file "vaultEnvelope" = some raw
  authentication : fieldText file "authentication" =
    some (S.authentication key (dropField file "authentication"))

theorem manifest_backupFile (hat : IsTimestamp at_)
    (hrevision : isSafeInteger (S.revision data) = true) :
    Manifest S P (S.backupFile P raw key backupId at_ data deadline) raw key backupId at_ data
      deadline where
  version := fieldInt_backupFile S P rfl (by simp [signedFields, Sealing.unsignedFields])
  backupId := fieldText_backupFile S P (by simp [signedFields, Sealing.unsignedFields])
  createdAt := fieldInt_backupFile S P hat.isSafe (by simp [signedFields, Sealing.unsignedFields])
  revision := fieldInt_backupFile S P hrevision (by simp [signedFields, Sealing.unsignedFields])
  stateCommitment := fieldText_backupFile S P (by simp [signedFields, Sealing.unsignedFields])
  ciphertextHash := fieldText_backupFile S P (by simp [signedFields, Sealing.unsignedFields])
  keyId := fieldText_backupFile S P (by simp [signedFields, Sealing.unsignedFields])
  deleteBy := get_backupFile S P (by simp [signedFields, Sealing.unsignedFields])
  vaultEnvelope := fieldText_backupFile S P (by simp [signedFields, Sealing.unsignedFields])
  authentication := by
    rw [dropField_authentication]
    exact fieldText_backupFile S P (by simp [signedFields])

/-! ### The checks of a restore -/

theorem authenticated_backupFile (hid : isHex 32 backupId = true)
    (hkeyId : isHex 64 (P.keyIdentifier key) = true) (hat : IsTimestamp at_)
    (hrevision : isSafeInteger (S.revision data) = true) (hnonneg : 0 ≤ S.revision data)
    (hdeadline : ∀ t ∈ deadline, IsTimestamp t ∧ at_ ≤ t) :
    S.authenticated P key (S.backupFile P raw key backupId at_ data deadline) = true := by
  have h : Manifest S P (S.backupFile P raw key backupId at_ data deadline) raw key backupId at_
    data deadline := manifest_backupFile hat hrevision
  simp only [Sealing.authenticated, h.version, h.backupId, h.createdAt, h.revision,
    h.stateCommitment, h.ciphertextHash, h.keyId, h.vaultEnvelope, h.authentication, h.deleteBy,
    Option.any_some, hid, hkeyId, hat.1, hnonneg, Sealing.stateCommitment, S.isHex_sha256,
    Sealing.authentication, S.isHex_hmac, decide_true, Bool.and_true, Bool.true_and]
  cases deadline with
  | none => rfl
  | some t =>
    obtain ⟨ht, hle⟩ := hdeadline t rfl
    simp [JsNumbers.asInt, S.safe_ofInt t ht.isSafe, hle]

theorem authentication_of_authenticated {file : Value N}
    (h : S.authenticated P key file = true) : fieldText file "authentication" =
      some (S.authentication key (dropField file "authentication")) := by
  simp only [Sealing.authenticated, Bool.and_eq_true, Option.any_eq_true, decide_eq_true_eq] at h
  obtain ⟨⟨⟨-, a, hfield, -, ha⟩, -⟩, -⟩ := h
  rw [hfield, ha]

theorem keyId_of_authenticated {file : Value N} (h : S.authenticated P key file = true) :
    fieldText file "keyId" = some (P.keyIdentifier key) := by
  simp only [Sealing.authenticated, Bool.and_eq_true, decide_eq_true_eq] at h
  exact h.1.2

/-- **What the checks of a restore establish.** -/
theorem verifyBackup_eq_ok {disk : Disk} {backupPath destinationPath secret k envelope : Text}
    {requirements : VaultRestoreRequirements} {now : ℤ} {file : Value N} :
    S.verifyBackup P disk backupPath destinationPath secret requirements now =
        .ok (k, file, envelope) ↔
      (backupPath ≠ destinationPath ∧ disk destinationPath = none) ∧ 32 ≤ secret.length ∧
      P.deriveVaultKey secret = k ∧ (disk backupPath).bind (parse S.numerals) = some file ∧
      S.authenticated P k file = true ∧ fieldText file "vaultEnvelope" = some envelope ∧
      ∃ data, S.decryptVaultData envelope k = .ok data ∧
        S.requirementsMet file data requirements = true ∧
        (S.fieldInt file "deleteBy").any (· ≤ now) = false ∧
        (asObject (data.get "records".toList) = none →
          requirements.erasedRecordIds = [] ∧ requirements.commitments = []) ∧
        (∀ id ∈ requirements.erasedRecordIds, S.record data id = none) ∧
        ∀ observation ∈ requirements.commitments, observation.recordId ≠ [] ∧
          ∃ record, S.record data observation.recordId = some record ∧
            Sealing.agrees record observation = true := by
  have hrecords : ∀ data : Value N,
      ((asObject (data.get "records".toList)).isNone &&
        (decide (requirements.erasedRecordIds ≠ []) || decide (requirements.commitments ≠ []))) =
          false ↔ (asObject (data.get "records".toList) = none →
            requirements.erasedRecordIds = [] ∧ requirements.commitments = []) := by
    intro data
    cases asObject (data.get "records".toList) <;> simp
  have herased : ∀ data : Value N,
      (requirements.erasedRecordIds.any fun id ↦ (S.record data id).isSome) = false ↔
        ∀ id ∈ requirements.erasedRecordIds, S.record data id = none := by
    intro data
    simp
  have hcommitments : ∀ data : Value N,
      (requirements.commitments.any fun observation ↦ decide (observation.recordId = []) ||
        !(S.record data observation.recordId).any fun record ↦
          Sealing.agrees record observation) = false ↔
        ∀ observation ∈ requirements.commitments, observation.recordId ≠ [] ∧
          ∃ record, S.record data observation.recordId = some record ∧
            Sealing.agrees record observation = true := by
    intro data
    simp [Option.any_eq_true]
  simp only [Sealing.verifyBackup, revertIf_bind_eq_ok, Bool.or_eq_false_iff,
    decide_eq_false_iff_not, Option.isSome_eq_false_iff, Option.isNone_iff_eq_none, not_lt]
  refine and_congr_right fun _ ↦ and_congr_right fun _ ↦ ?_
  constructor
  · intro h
    obtain ⟨f, hparse, h⟩ := bind_eq_ok.1 h
    simp only [revertIf_bind_eq_ok] at h
    obtain ⟨hauth, h⟩ := h
    obtain ⟨e, henvelope, h⟩ := bind_eq_ok.1 h
    obtain ⟨data, hdata, h⟩ := bind_eq_ok.1 h
    simp only [revertIf_bind_eq_ok, hrecords, herased, hcommitments] at h
    obtain ⟨hmet, hexpired, hnone, hgone, hagree, h⟩ := h
    cases h
    exact ⟨rfl, getOrRevert_eq_ok.1 hparse, by simpa using hauth, getOrRevert_eq_ok.1 henvelope,
      data, mapError_eq_ok.1 hdata, by simpa using hmet, hexpired, hnone, hgone, hagree⟩
  · rintro ⟨rfl, hparse, hauth, henvelope, data, hdata, hmet, hexpired, hnone, hgone, hagree⟩
    refine bind_eq_ok.2 ⟨file, getOrRevert_eq_ok.2 hparse, ?_⟩
    simp only [revertIf_bind_eq_ok]
    refine ⟨by simpa using hauth, bind_eq_ok.2 ⟨envelope, getOrRevert_eq_ok.2 henvelope,
      bind_eq_ok.2 ⟨data, mapError_eq_ok.2 hdata, ?_⟩⟩⟩
    simp only [revertIf_bind_eq_ok, hrecords, herased, hcommitments]
    exact ⟨by simpa using hmet, hexpired, hnone, hgone, hagree, rfl⟩

/-! ### What a backup is good for -/

/-- Requirements that hold of a backup at some time: they name it, it is no older than they ask, it
holds nothing that was erased, its records show what was observed of them, and no deadline has
passed. -/
structure Meets (S : Sealing N) (data : Value N) (d : Data) (backupId : Text)
    (requirements : VaultRestoreRequirements) (now : ℤ) : Prop where
  backupId : requirements.expectedBackupId = backupId
  stateCommitment : requirements.expectedStateCommitment = S.stateCommitment data
  minimumRevision : 0 ≤ requirements.minimumRevision ∧
    requirements.minimumRevision ≤ S.revision data
  erasedIds : (∀ id ∈ requirements.erasedRecordIds, id ≠ [] ∧ id.length ≤ 256) ∧
    requirements.erasedRecordIds.Nodup
  erased : ∀ id ∈ requirements.erasedRecordIds, S.record data id = none
  commitments : ∀ observation ∈ requirements.commitments, observation.recordId ≠ [] ∧
    ∃ record, S.record data observation.recordId = some record ∧
      Sealing.agrees record observation = true
  unexpired : d.Unexpired now

theorem fieldInt_deleteBy {file : Value N}
    (h : Manifest S P file raw key backupId at_ data deadline)
    (hdeadline : ∀ t ∈ deadline, IsTimestamp t) : S.fieldInt file "deleteBy" = deadline := by
  rw [JsNumbers.fieldInt, h.deleteBy]
  cases deadline with
  | none => rfl
  | some t => exact S.safe_ofInt t (hdeadline t rfl).isSafe

theorem requirementsMet_iff {file : Value N}
    (h : Manifest S P file raw key backupId at_ data deadline)
    (hrevision : isSafeInteger (S.revision data) = true)
    {requirements : VaultRestoreRequirements} :
    S.requirementsMet file data requirements = true ↔
      requirements.expectedBackupId = backupId ∧
      requirements.expectedStateCommitment = S.stateCommitment data ∧
      (0 ≤ requirements.minimumRevision ∧ requirements.minimumRevision ≤ S.revision data) ∧
      (∀ id ∈ requirements.erasedRecordIds, id ≠ [] ∧ id.length ≤ 256) ∧
        requirements.erasedRecordIds.Nodup := by
  have hsafe : 0 ≤ requirements.minimumRevision →
      requirements.minimumRevision ≤ S.revision data →
        isSafeInteger requirements.minimumRevision = true := by
    simp only [isSafeInteger, Bool.and_eq_true, decide_eq_true_eq] at hrevision ⊢
    omega
  simp only [Sealing.requirementsMet, h.backupId, h.stateCommitment, h.revision, Option.any_some,
    Option.some.injEq, Bool.and_eq_true, decide_eq_true_eq, List.all_eq_true, decide_true,
    and_true]
  constructor
  · rintro ⟨⟨⟨⟨⟨⟨hid, hcommitment⟩, -⟩, hnonneg⟩, hle⟩, hids⟩, hnodup⟩
    exact ⟨hid.symm, hcommitment.symm, ⟨hnonneg, hle⟩, hids, hnodup⟩
  · rintro ⟨hid, hcommitment, ⟨hnonneg, hle⟩, hids, hnodup⟩
    exact ⟨⟨⟨⟨⟨⟨hid.symm, hcommitment.symm⟩, hsafe hnonneg hle⟩, hnonneg⟩, hle⟩, hids⟩, hnodup⟩

/-- A file, its key and its plaintext, and what is taken down of them in a backup. -/
structure Backed (S : Sealing N) (P : Platform) (raw key : Text) (data : Value N) (d : Data)
    (fields : List (Text × Value N)) (at_ : ℤ) (deadline : Option ℤ) : Prop where
  opens : S.decryptVaultData raw key = .ok data
  shows_ : Shows S data d fields
  createdAt : IsTimestamp at_
  deleteBy : S.deleteBy data fields = some deadline
  isTimestamp : ∀ t ∈ deadline, IsTimestamp t
  unexpired : ∀ now, (∀ t ∈ deadline, now < t) ↔ d.Unexpired now

section

variable {d : Data} {fields : List (Text × Value N)}

theorem Backed.revision (h : Backed S P raw key data d fields at_ deadline) :
    isSafeInteger (S.revision data) = true ∧ 0 ≤ S.revision data := by
  have hfield := h.shows_.revision
  have heq : S.revision data = d.revision := by rw [Sealing.revision, hfield, Option.getD_some]
  rw [heq]
  refine ⟨?_, Int.natCast_nonneg _⟩
  rw [JsNumbers.fieldInt] at hfield
  unfold JsNumbers.asInt at hfield
  split at hfield
  case h_1 n _ => exact S.isSafe_of_safe n _ hfield
  case h_2 => cases hfield

theorem Backed.manifest (h : Backed S P raw key data d fields at_ deadline) (backupId : Text) :
    Manifest S P (S.backupFile P raw key backupId at_ data deadline) raw key backupId at_ data
      deadline :=
  manifest_backupFile h.createdAt h.revision.1

/-- **The checks of a restore pass on a backup whose requirements are met.** -/
theorem Backed.verifyBackup (h : Backed S P raw key data d fields at_ deadline)
    {disk : Disk} {backupPath destinationPath secret : Text}
    {requirements : VaultRestoreRequirements} {now : ℤ} (hid : isHex 32 backupId = true)
    (hkeyId : isHex 64 (P.keyIdentifier key) = true) (hlength : 32 ≤ secret.length)
    (hsecret : P.deriveVaultKey secret = key)
    (hparse : (disk backupPath).bind (parse S.numerals) =
      some (S.backupFile P raw key backupId at_ data deadline))
    (hpath : backupPath ≠ destinationPath) (hfree : disk destinationPath = none)
    (hnow : at_ ≤ now) (hmeets : Meets S data d backupId requirements now) :
    S.verifyBackup P disk backupPath destinationPath secret requirements now =
      .ok (key, S.backupFile P raw key backupId at_ data deadline, raw) := by
  have hlater := (h.unexpired now).2 hmeets.unexpired
  have hauth : S.authenticated P key (S.backupFile P raw key backupId at_ data deadline) = true :=
    authenticated_backupFile hid hkeyId h.createdAt h.revision.1 h.revision.2 fun t ht ↦
      ⟨h.isTimestamp t ht, hnow.trans (hlater t ht).le⟩
  refine verifyBackup_eq_ok.2 ⟨⟨hpath, hfree⟩, hlength, hsecret, hparse, hauth,
    (h.manifest _).vaultEnvelope, data, h.opens, ?_, ?_, fun hnone ↦ ?_, hmeets.erased,
    hmeets.commitments⟩
  · exact (requirementsMet_iff (h.manifest _) h.revision.1).2 ⟨hmeets.backupId,
      hmeets.stateCommitment, hmeets.minimumRevision, hmeets.erasedIds⟩
  · rw [fieldInt_deleteBy (h.manifest _) h.isTimestamp]
    cases deadline with
    | none => rfl
    | some t => simp [hlater t rfl]
  · rw [h.shows_.records] at hnone
    cases hnone

/-- **Only where the requirements are met do the checks pass**, and with the secret of the
backup. -/
theorem Backed.meets (h : Backed S P raw key data d fields at_ deadline)
    {disk : Disk} {backupPath destinationPath secret k envelope : Text}
    {requirements : VaultRestoreRequirements} {now : ℤ} {file : Value N}
    (hdisk : disk backupPath =
      some (print S.numerals (S.backupFile P raw key backupId at_ data deadline)))
    (hcollision : P.keyIdentifier (P.deriveVaultKey secret) = P.keyIdentifier key →
      P.deriveVaultKey secret = key)
    (hok : S.verifyBackup P disk backupPath destinationPath secret requirements now =
      .ok (k, file, envelope)) :
    disk destinationPath = none ∧
      P.keyIdentifier (P.deriveVaultKey secret) = P.keyIdentifier key ∧
      Meets S data d backupId requirements now := by
  obtain ⟨⟨-, hfree⟩, -, rfl, hparse, hauth, henvelope, data', hdata, hmet, hexpired, -, herased,
    hcommitments⟩ := verifyBackup_eq_ok.1 hok
  rw [hdisk, Option.bind_some, parse_backupFile] at hparse
  obtain rfl := Option.some.inj hparse
  have hmanifest := h.manifest backupId
  have hkey : P.keyIdentifier (P.deriveVaultKey secret) = P.keyIdentifier key :=
    (Option.some.inj (hmanifest.keyId.symm.trans (keyId_of_authenticated hauth))).symm
  rw [hmanifest.vaultEnvelope] at henvelope
  obtain rfl := Option.some.inj henvelope
  rw [hcollision hkey, h.opens] at hdata
  obtain rfl := Except.ok.inj hdata
  obtain ⟨hid, hcommitment, hminimum, hids⟩ := (requirementsMet_iff hmanifest h.revision.1).1 hmet
  refine ⟨hfree, hkey, hid, hcommitment, hminimum, hids, herased, hcommitments,
    (h.unexpired now).1 fun t ht ↦ ?_⟩
  rw [fieldInt_deleteBy hmanifest h.isTimestamp, ht] at hexpired
  simpa using hexpired

/-- **A backup is written** where its path is free and no writer holds the lock. -/
theorem Backed.createBackup (h : Backed S P raw key data d fields at_ deadline) {disk : Disk}
    {path backupPath : Text} (hraw : disk path = some raw) (hlock : disk (lockPath path) = none)
    (hpath : backupPath ≠ path) (hlockPath : backupPath ≠ lockPath path)
    (hfree : disk backupPath = none) :
    S.createBackup P disk path backupPath key backupId at_ =
      (.ok (Sealing.manifestOf (S.backupFile P raw key backupId at_ data deadline)),
        disk.write backupPath
          (print S.numerals (S.backupFile P raw key backupId at_ data deadline))) := by
  have hbody : (do
      timestamp at_
      revertIf (backupPath = path) "VAULT_BACKUP_PATH_INVALID"
      let raw ← getOrRevert (disk path) "VAULT_BACKUP_SOURCE_MISSING"
      revertIf (disk (lockPath path)).isSome "VAULT_WRITER_BUSY"
      let data ← S.decryptVaultData raw key
      let records ← getOrRevert (asObject (data.get "records".toList)) "Cannot convert to object"
      let deleteBy ← getOrRevert (S.deleteBy data records) "a deadline is no safe integer"
      revertIf (backupPath = lockPath path || (disk backupPath).isSome) "VAULT_BACKUP_UNCONFIRMED"
      return S.backupFile P raw key backupId at_ data deleteBy : Except String (Value N)) =
        .ok (S.backupFile P raw key backupId at_ data deadline) := by
    simp only [timestamp_bind_eq_ok, revertIf_bind_eq_ok]
    refine ⟨h.createdAt, decide_eq_false hpath, bind_eq_ok.2 ⟨raw, by rw [hraw]; rfl, ?_⟩⟩
    rw [hlock, revertIf_bind_eq_ok]
    refine ⟨rfl, bind_eq_ok.2 ⟨data, h.opens, bind_eq_ok.2 ⟨fields, ?_, bind_eq_ok.2
      ⟨deadline, by rw [h.deleteBy]; rfl, ?_⟩⟩⟩⟩
    · rw [h.shows_.records]
      rfl
    · rw [revertIf_bind_eq_ok]
      exact ⟨by simp [hlockPath, hfree], rfl⟩
  rw [Sealing.createBackup, hbody]

end

/-! ### Restoring -/

/-- A disk whose checks fail stays as it is. -/
theorem restoreBackup_of_error {disk held : Disk} {backupPath destinationPath secret : Text}
    {requirements : VaultRestoreRequirements} {now : ℤ} {fault : Fault}
    (h : ∀ k file envelope,
      S.verifyBackup P disk backupPath destinationPath secret requirements now ≠
        .ok (k, file, envelope)) :
    ∃ error, S.restoreBackup P disk held backupPath destinationPath secret requirements now fault =
      (.error error, disk) := by
  rw [Sealing.restoreBackup]
  cases hverify : S.verifyBackup P disk backupPath destinationPath secret requirements now with
  | error error => exact ⟨error, rfl⟩
  | ok result => exact absurd hverify (h result.1 result.2.1 result.2.2)

/-- **A restore writes the file that the backup was made of.** -/
theorem Backed.restoreBackup {d : Data} {fields : List (Text × Value N)}
    (h : Backed S P raw key data d fields at_ deadline) {disk held : Disk}
    {backupPath destinationPath secret : Text} {requirements : VaultRestoreRequirements} {now : ℤ}
    (hid : isHex 32 backupId = true) (hkeyId : isHex 64 (P.keyIdentifier key) = true)
    (hlength : 32 ≤ secret.length) (hsecret : P.deriveVaultKey secret = key)
    (hparse : (disk backupPath).bind (parse S.numerals) =
      some (S.backupFile P raw key backupId at_ data deadline))
    (hpath : backupPath ≠ destinationPath) (hfree : disk destinationPath = none)
    (hheld : held destinationPath = none) (hlock : held (lockPath destinationPath) = none)
    (hnow : at_ ≤ now) (hmeets : Meets S data d backupId requirements now) :
    S.restoreBackup P disk held backupPath destinationPath secret requirements now .none =
      (.ok (Sealing.manifestOf (S.backupFile P raw key backupId at_ data deadline),
        requirements.commitments.length), held.write destinationPath raw) := by
  have hverify := h.verifyBackup hid hkeyId hlength hsecret hparse hpath hfree hnow hmeets
  have hload : S.load held destinationPath key = .ok S.emptyVault := by
    rw [Sealing.load, hheld]
  rw [Sealing.restoreBackup, hverify]
  simp only [hload, hlock, hheld, h.opens, (h.manifest _).stateCommitment, Option.isSome_none,
    Bool.false_eq_true, if_false, ne_eq, not_true_eq_false, reduceCtorEq]

/-- What a file reads as: what is authenticated of it, and its authentication. -/
def parts (S : Sealing N) (text : Text) : Option (Value N × Option (Value N)) :=
  (parse S.numerals text).map fun file ↦
    (dropField file "authentication", file.get "authentication".toList)

theorem parts_backupFile :
    parts S (print S.numerals (S.backupFile P raw key backupId at_ data deadline)) =
      some (.object (S.unsignedFields P raw key backupId at_ data deadline),
        some (.string (S.authentication key
          (.object (S.unsignedFields P raw key backupId at_ data deadline))))) := by
  rw [parts, parse_backupFile, Option.map_some, dropField_authentication,
    get_backupFile S P (List.mem_append_right _ List.mem_cons_self)]

/-- The authentication of a file is of nothing but what another file says. -/
def Unforged (S : Sealing N) (key text : Text) (unsigned : Value N) : Prop :=
  ∀ file, parse S.numerals text = some file →
    fieldText file "authentication" =
      some (S.authentication key (dropField file "authentication")) →
    print S.numerals (dropField file "authentication") = print S.numerals unsigned

/-- **What a backup is good for.** -/
structure BackupLaw (S : Sealing N) (P : Platform) (secret raw backupId : Text) (at_ : ℤ)
    (data : Value N) (d : Data) (manifest : Value N) (text : Text) : Prop where
  /-- Where its requirements are met it restores the file that it was made of. -/
  restores : ∀ (disk held : Disk) (backupPath destinationPath : Text)
    (requirements : VaultRestoreRequirements) (now : ℤ), disk backupPath = some text →
    backupPath ≠ destinationPath → disk destinationPath = none → held destinationPath = none →
    held (lockPath destinationPath) = none → at_ ≤ now → Meets S data d backupId requirements now →
    S.restoreBackup P disk held backupPath destinationPath secret requirements now .none =
      (.ok (manifest, requirements.commitments.length), held.write destinationPath raw)
  /-- A file with the same text is the same vault. -/
  same : ∀ (disk : Disk) (path : Text), disk path = some raw →
    S.load disk path (P.deriveVaultKey secret) = .ok data ∧
      S.recoveryState P disk path (P.deriveVaultKey secret) =
        .ok ⟨S.revision data, S.stateCommitment data, P.keyIdentifier (P.deriveVaultKey secret)⟩
  /-- Where something is at the destination, with another secret, or where a requirement is not
  met, the restore throws and writes nothing. -/
  refuses : ∀ (disk held : Disk) (backupPath destinationPath secret' : Text)
    (requirements : VaultRestoreRequirements) (now : ℤ) (fault : Fault),
    disk backupPath = some text →
    (P.keyIdentifier (P.deriveVaultKey secret') = P.keyIdentifier (P.deriveVaultKey secret) →
      secret' = secret) →
    disk destinationPath ≠ none ∨ secret' ≠ secret ∨ ¬Meets S data d backupId requirements now →
    ∃ error, S.restoreBackup P disk held backupPath destinationPath secret' requirements now fault =
      (.error error, disk)
  /-- Nor does it write anything where the file reads otherwise, unless the authentication in it is
  a forgery. -/
  altered : ∀ (disk held : Disk) (backupPath destinationPath text' : Text)
    (requirements : VaultRestoreRequirements) (now : ℤ) (fault : Fault),
    disk backupPath = some text' → parts S text' ≠ parts S text →
    (∀ unsigned authentication, parts S text = some (unsigned, authentication) →
      Unforged S (P.deriveVaultKey secret) text' unsigned) →
    ∃ error, S.restoreBackup P disk held backupPath destinationPath secret requirements now fault =
      (.error error, disk)

/-- **A backup restores the vault it was made of, or nothing**, for every vault that a run reaches
and every later moment. -/
theorem backup_restores {ι : Type} [DecidableEq ι] (S : Sealing N) (P : Platform)
    (events : List (Event ι)) (secret raw backupId path backupPath : Text) (at_ : ℤ)
    (data : Value N) (d : Data) (fields : List (Text × Value N)) (disk : Disk)
    (hfile : ((World.fresh : World ι).after P events).file = some ⟨P.deriveVaultKey secret, d⟩)
    (hopens : S.decryptVaultData raw (P.deriveVaultKey secret) = .ok data)
    (hshows : Shows S data d fields) (hlength : 32 ≤ secret.length)
    (hkeyId : isHex 64 (P.keyIdentifier (P.deriveVaultKey secret)) = true)
    (hid : isHex 32 backupId = true) (hat : IsTimestamp at_) (hraw : disk path = some raw)
    (hlock : disk (lockPath path) = none) (hpath : backupPath ≠ path)
    (hlockPath : backupPath ≠ lockPath path) (hfree : disk backupPath = none) :
    ∃ manifest text,
      S.createBackup P disk path backupPath (P.deriveVaultKey secret) backupId at_ =
        (.ok manifest, disk.write backupPath text) ∧
      BackupLaw S P secret raw backupId at_ data d manifest text := by
  have hdated : Dated d := by
    have hrun := dated_after P events
    rwa [World.data, hfile] at hrun
  obtain ⟨deadline, hdeadline, htimestamp, hunexpired⟩ := deleteBy_eq hshows hdated
  have h : Backed S P raw (P.deriveVaultKey secret) data d fields at_ deadline :=
    ⟨hopens, hshows, hat, hdeadline, htimestamp, hunexpired⟩
  refine ⟨_, _, h.createBackup hraw hlock hpath hlockPath hfree, ?_, ?_, ?_, ?_⟩
  · intro disk held backupPath destinationPath requirements now hdisk hne hfree hheld hlock hnow
      hmeets
    have hparse : (disk backupPath).bind (parse S.numerals) =
        some (S.backupFile P raw (P.deriveVaultKey secret) backupId at_ data deadline) := by
      rw [hdisk, Option.bind_some, parse_backupFile]
    exact h.restoreBackup hid hkeyId hlength rfl hparse hne hfree hheld hlock hnow hmeets
  · intro disk path hpath
    have hload : S.load disk path (P.deriveVaultKey secret) = .ok data := by
      rw [Sealing.load, hpath]
      exact hopens
    exact ⟨hload, by rw [Sealing.recoveryState, hload]; rfl⟩
  · intro disk held backupPath destinationPath secret' requirements now fault hdisk hcollision hbad
    refine restoreBackup_of_error fun k file envelope hok ↦ ?_
    obtain ⟨hfree, hkey, hmeets⟩ := h.meets hdisk (fun hkey ↦ hcollision hkey ▸ rfl) hok
    rcases hbad with hbad | hbad | hbad
    · exact hbad hfree
    · exact hbad (hcollision hkey)
    · exact hbad hmeets
  · intro disk held backupPath destinationPath text' requirements now fault hdisk hne hunforged
    refine restoreBackup_of_error fun k file envelope hok ↦ hne ?_
    obtain ⟨-, -, rfl, hparse, hauth, -⟩ := verifyBackup_eq_ok.1 hok
    rw [hdisk, Option.bind_some] at hparse
    have hmac := authentication_of_authenticated hauth
    have hparts := @parts_backupFile
    have hunsigned := print_injective S.numerals (hunforged _ _ hparts file hparse hmac)
    rw [hparts, parts, hparse, Option.map_some, hunsigned, get_of_fieldText hmac, hunsigned]

end

/-! ### A small backup -/

/-- Sixty-four hex digits that tell the texts of a small backup apart. -/
def sampleDigest (t : Text) : Text :=
  let n := t.foldl (fun n c ↦ (31 * n + c.toNat) % 4294967296) 7
  (List.range 64).map fun i ↦ hexDigit (n / 16 ^ (i % 8) % 16)

theorem isHex_sampleDigest (t : Text) : isHex 64 (sampleDigest t) = true := by
  have hdigit : ∀ n : Fin 16, (('0' ≤ hexDigit n && hexDigit n ≤ '9') ||
      ('a' ≤ hexDigit n && hexDigit n ≤ 'f')) = true := by decide +kernel
  rw [isHex, Bool.and_eq_true, List.all_eq_true]
  refine ⟨by simp [sampleDigest], fun c hc ↦ ?_⟩
  obtain ⟨i, -, rfl⟩ := List.mem_map.1 hc
  exact hdigit ⟨_, Nat.mod_lt _ (by decide)⟩

/-- Whole numbers, and a cipher that shows its plaintext. -/
def sampleSealing : Sealing ℤ where
  toJsNumbers := wholeNumbers
  sha256 := sampleDigest
  hmac key t := sampleDigest (key ++ t)
  isHex_sha256 := isHex_sampleDigest
  isHex_hmac _ _ := isHex_sampleDigest _
  decipher key _ tag ciphertext :=
    if tag = sampleDigest (key ++ ciphertext) then some ciphertext else none

def backupPlatform : Platform :=
  { samplePlatform with keyIdentifier := sampleDigest }

/-- A record that is bound to a policy, until 10. -/
def boundRecord : VaultRecord :=
  { sampleRecord .active with retentionPolicy := some ⟨['p'], ['c'], 10, .unchanged, none, []⟩ }

def boundRun : List (Event Unit) :=
  [.construct () sampleSecret, .call () (.put boundRecord) .none]

def boundVault : Data :=
  { Data.empty.setRecord boundRecord with revision := 1 }

def boundFields : List (Text × Value ℤ) :=
  [(['r'], .object [("id".toList, .string ['r']), ("walletAddress".toList, .string ['w']),
    ("evidenceHash".toList, .string ['h']), ("retentionUntil".toList, .number 10),
    ("retentionPolicy".toList, .object [])])]

def boundData : Value ℤ :=
  .object [("version".toList, .number 2), ("revision".toList, .number 1),
    ("records".toList, .object boundFields), ("erasures".toList, .array []),
    ("revocations".toList, .object []), ("retention".toList, .object [])]

/-- The file of the vault. -/
def boundEnvelope : Value ℤ :=
  let plain := print integers boundData
  .object [("version".toList, .number 1), ("iv".toList, .string ['i']),
    ("tag".toList, .string (sampleDigest (sampleSecret ++ plain))),
    ("ciphertext".toList, .string plain)]

def boundRaw : Text :=
  print integers boundEnvelope

theorem decryptVaultData_boundRaw :
    sampleSealing.decryptVaultData boundRaw sampleSecret = .ok boundData :=
  decryptVaultData_of (show parse integers (print integers boundEnvelope) = some boundEnvelope from
    parse_print integers (by rfl)) (by rfl) (by rfl)
    (by rfl) (by rfl) (if_pos rfl) (parse_print integers (by rfl)) (by rfl)

theorem get_boundVault {id : Text} {record : VaultRecord}
    (h : boundVault.records.get id = some record) : id = ['r'] ∧ record = boundRecord := by
  have hset : (Data.empty.records.set boundRecord).get id = some record := h
  rw [Table.get_set] at hset
  split at hset
  case isTrue hid => exact ⟨hid.symm, (Option.some.inj hset).symm⟩
  case isFalse => cases hset

theorem shows_boundData : Shows sampleSealing boundData boundVault boundFields where
  revision := by rfl
  records := by rfl
  record_of_mem p hp := by
    obtain rfl := List.mem_singleton.1 hp
    exact ⟨boundRecord, rfl, by rfl, by rfl, by rfl⟩
  mem_of_record id record hget := by
    obtain ⟨rfl, rfl⟩ := get_boundVault hget
    exact ⟨_, List.mem_singleton_self _, by rfl, by rfl, by rfl⟩
  minimumUntil id := .inl ⟨rfl, rfl⟩

theorem file_boundRun : (World.fresh.after backupPlatform boundRun).file =
    some ⟨sampleSecret, boundVault⟩ := by
  rfl

def sampleBackupId : Text :=
  List.replicate 32 '0'

def Disk.empty : Disk :=
  fun _ ↦ none

/-- The directory of the vault. -/
def boundDisk : Disk :=
  Disk.empty.write ['v'] boundRaw

theorem backup_restores_boundRun : ∃ manifest text,
    sampleSealing.createBackup backupPlatform boundDisk ['v'] ['b'] sampleSecret sampleBackupId 5 =
      (.ok manifest, boundDisk.write ['b'] text) ∧
    BackupLaw sampleSealing backupPlatform sampleSecret boundRaw sampleBackupId 5 boundData
      boundVault manifest text :=
  backup_restores sampleSealing backupPlatform boundRun sampleSecret boundRaw sampleBackupId ['v']
    ['b'] 5 boundData boundVault boundFields boundDisk file_boundRun decryptVaultData_boundRaw
    shows_boundData (by decide) (isHex_sampleDigest _) (by decide +kernel) ⟨by decide, by decide⟩
    rfl rfl (by decide) (by decide) rfl

/-- The text of its backup, at 5. -/
def sampleBackup : Text :=
  print integers (sampleSealing.backupFile backupPlatform boundRaw sampleSecret sampleBackupId 5
    boundData (some 10))

def sampleRequirements : VaultRestoreRequirements where
  expectedBackupId := sampleBackupId
  expectedStateCommitment := sampleSealing.stateCommitment boundData
  minimumRevision := 1
  commitments := []
  erasedRecordIds := []

/-- **The HMAC does not cover the characters of a backup.** With a space in front it restores. -/
theorem spacedBackup_restores :
    ¬∀ text, text ≠ sampleBackup → ∃ error disk,
      sampleSealing.restoreBackup backupPlatform (Disk.empty.write ['b'] text)
        .empty ['b'] ['d'] sampleSecret sampleRequirements 6 .none = (.error error, disk) := by
  intro hrefused
  have hunexpired : ∀ now, (∀ t ∈ some 10, now < t) ↔ boundVault.Unexpired now := by
    intro now
    constructor
    · intro hlt id record hget _
      obtain ⟨rfl, rfl⟩ := get_boundVault hget
      exact hlt 10 rfl
    · intro hunexpired t ht
      obtain rfl := Option.some.inj ht
      exact hunexpired ['r'] boundRecord rfl rfl
  have h : Backed sampleSealing backupPlatform boundRaw sampleSecret boundData boundVault
      boundFields 5 (some 10) :=
    ⟨decryptVaultData_boundRaw, shows_boundData, ⟨by decide, by decide⟩, by rfl, by
      rintro t ⟨⟩
      exact ⟨by decide, by decide⟩, hunexpired⟩
  have hmeets : Meets sampleSealing boundData boundVault sampleBackupId sampleRequirements 6 :=
    ⟨rfl, rfl, ⟨by decide, by decide⟩, ⟨nofun, List.nodup_nil⟩, nofun, nofun,
      (hunexpired 6).1 (by rintro t ⟨⟩; decide)⟩
  have hparse : ((Disk.empty.write ['b'] (' ' :: sampleBackup)) ['b']).bind
      (parse sampleSealing.numerals) = some (sampleSealing.backupFile backupPlatform boundRaw
        sampleSecret sampleBackupId 5 boundData (some 10)) := by
    rw [Disk.write, Function.update_self, Option.bind_some]
    exact parse_space_print integers rfl (normalize_backupFile sampleSealing backupPlatform)
  have hempty : ∀ path, Disk.empty path = none := fun _ ↦ rfl
  have hlength : 32 ≤ sampleSecret.length := by decide
  have hrestored := h.restoreBackup (by decide +kernel) (isHex_sampleDigest _) hlength rfl
    hparse (show ['b'] ≠ ['d'] by decide) (by rfl) (hempty _) (hempty _) (by decide) hmeets
  obtain ⟨error, disk, hrefused⟩ := hrefused (' ' :: sampleBackup) (List.cons_ne_self _ _)
  rw [hrestored] at hrefused
  cases hrefused

end Proofmark.Vault
