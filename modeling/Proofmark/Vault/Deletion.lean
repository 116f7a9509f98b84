import Mathlib.Data.Char
import Mathlib.Data.List.Lex
import Proofmark.Vault.Dossier

/-!
# Deletion of vault records

A record leaves the vault by `erase` or `purgeExpired` only, after a request and its approval by
another operator label. What both check stands in the blockers of the moment (`blockers_eq_nil`);
what they remember stands in the last request of the record, and `Kept` ties it to the calls that
made and approved it. The fingerprint carries the rest: with no two fingerprinted snapshots under
one digest, the record, its extensions, holds and jobs are those of the request.
-/

open Evm

namespace Proofmark.Vault

open Pipeline (Text)

/-- The calls that reached the file, each with the plaintext it found. -/
abbrev Log :=
  List (Entry Data Call)

/-- A deletion request for a record. -/
def Operation.Requests (id : Text) (op : Operation) : Prop :=
  ∃ requestId input at_, op = .requestDeletion requestId id input at_

/-- An entry of the log that made a request: of the record and under the fingerprint that it had. -/
structure Makes (P : Platform) (id : Text) (made : Entry Data Call) (request : DeletionRequest) :
    Prop where
  operation : made.input.operation =
    .requestDeletion request.id id request.input request.requestedAt
  fingerprint : ∃ record, made.state.records.get id = some record ∧
    request.fingerprint = made.state.deletionFingerprint P record

/-- The approval of a request, by another label and not before the request, and the call that gave
it. -/
structure Approved (id : Text) (log : Log) (request : DeletionRequest) (approval : Approval) :
    Prop where
  operator : request.input.operator ≠ approval.operator
  time : request.requestedAt ≤ approval.at_
  call : ∃ entry ∈ log,
    entry.input.operation = .approveDeletion id request.id approval.operator approval.at_

/-- The last request of a record is the last one in the log, and an approval of it comes after. -/
def Latest (P : Platform) (id : Text) (log : Log) (last : Option DeletionRequest) : Prop :=
  ∀ request, last = some request → ∃ before made later, log = before ++ made :: later ∧
    Makes P id made request ∧ (∀ entry ∈ later, ¬entry.input.operation.Requests id) ∧
    ∀ approval, request.approval = some approval → Approved id later request approval

/-- **What the vault keeps of a record's deletion.** -/
structure Kept (P : Platform) (id : Text) (log : Log) (x : Dossier) : Prop where
  latest : Latest P id log x.controls.requests.getLast?
  extensions : ∀ e ∈ x.controls.extensions, e.until_ ≤ x.controls.minimumUntil.getD 0
  erased : x.erased = true → x.record = none

variable {P : Platform} {d d' : Data} {id key : Text} {op : Operation} {x : Dossier} {log : Log}

/-! ### What a call does to the controls -/

theorem not_requests_of_subject (h : op.subject ≠ some id) : ¬op.Requests id := by
  rintro ⟨requestId, input, at_, rfl⟩
  exact h rfl

/-- A call adds a request, approves the last one, or leaves the requests alone. -/
theorem Act.requests (h : Act P d id key op x) :
    (x.controls.requests = (d.controls id).requests ∧ ¬op.Requests id) ∨
      (∃ requestId input at_ record, op = .requestDeletion requestId id input at_ ∧
        d.records.get id = some record ∧ x.controls.requests =
          (d.controls id).requests ++ [d.newRequest P record requestId input at_]) ∨
      ∃ request operator at_, op = .approveDeletion id request.id operator at_ ∧
        d.lastRequest id = some request ∧ request.input.operator ≠ operator ∧
        request.requestedAt ≤ at_ ∧ x.controls.requests = (d.controls id).requests.dropLast ++
          [{ request with approval := some ⟨operator, at_⟩ }] := by
  cases h with
  | idle h => exact .inl ⟨rfl, not_requests_of_subject h⟩
  | advanced hop => exact .inl ⟨rfl, not_requests_of_subject (by rw [hop]; nofun)⟩
  | holds hop =>
    refine .inl ⟨rfl, ?_⟩
    rintro ⟨requestId, input, at_, rfl⟩
    exact nomatch hop
  | erased hop =>
    refine .inl ⟨rfl, ?_⟩
    rintro ⟨requestId, input, at_, rfl⟩
    rcases hop with h | ⟨h, -⟩ <;> exact nomatch h
  | requested hget => exact .inr (.inl ⟨_, _, _, _, rfl, hget, rfl⟩)
  | @approved requestId operator at_ record request hget hlast hid hoperator hnone hat =>
    subst hid
    exact .inr (.inr ⟨request, operator, at_, rfl, hlast, hoperator, hat, rfl⟩)
  | _ => exact .inl ⟨rfl, by rintro ⟨_, _, _, h⟩; exact nomatch h⟩

/-- A call extends the retention, or leaves its deadline alone. -/
theorem Act.extensions (h : Act P d id key op x) :
    (x.controls.minimumUntil = (d.controls id).minimumUntil ∧
      x.controls.extensions = (d.controls id).extensions) ∨
    ∃ e, (d.controls id).minimumUntil.getD 0 < e.until_ ∧
      x.controls.minimumUntil = some e.until_ ∧
      x.controls.extensions = (d.controls id).extensions ++ [e] := by
  cases h with
  | @extended until_ at_ operator ref hlt =>
    exact .inr ⟨⟨until_, operator, ref, at_⟩, hlt, rfl, rfl⟩
  | _ => exact .inl ⟨rfl, rfl⟩

/-- An erased record stays away: `put` refuses its id, and every other operation needs it. -/
theorem Act.erased_record (h : Act P d id key op x)
    (hd : d.erased id = true → d.records.get id = none) : x.erased = true → x.record = none := by
  intro hx
  cases h with
  | erased => rfl
  | put hid hget herased => exact absurd (herased.symm.trans hx) (by decide)
  | materialized hget | sourceConfirmed hget | rescreened hget | reviewed hget =>
    exact absurd (hget.symm.trans (hd hx)) (by simp)
  | _ => exact hd hx

theorem Act.erased_mono (h : Act P d id key op x) (hd : d.erased id = true) : x.erased = true := by
  cases h <;> first | exact hd | rfl

/-! ### One call -/

theorem Latest.later {last : Option DeletionRequest} {entry : Entry Data Call}
    (h : Latest P id log last) (hentry : ¬entry.input.operation.Requests id) :
    Latest P id (log ++ [entry]) last := by
  intro request hlast
  obtain ⟨before, made, later, rfl, hmakes, hnone, happroved⟩ := h request hlast
  refine ⟨before, made, later ++ [entry], by simp, hmakes, fun e he ↦ ?_, fun approval ha ↦ ?_⟩
  · rcases List.mem_append.1 he with he | he
    · exact hnone e he
    · exact List.mem_singleton.1 he ▸ hentry
  · obtain ⟨hoperator, htime, call, hcall, heq⟩ := happroved approval ha
    exact ⟨hoperator, htime, call, List.mem_append_left _ hcall, heq⟩

/-- **What one call keeps.** -/
theorem Kept.step (h : Kept P id log (d.dossier id)) (hact : Act P d id key op x) :
    Kept P id (log ++ [⟨d, ⟨key, op⟩⟩]) x where
  latest := by
    rcases hact.requests with ⟨hsame, hnot⟩ |
      ⟨requestId, input, at_, record, rfl, hget, hadded⟩ |
      ⟨request, operator, at_, rfl, hlast, hoperator, htime, happroved⟩
    · rw [hsame]
      exact h.latest.later hnot
    · rw [hadded, List.getLast?_concat]
      rintro request hrequest
      obtain rfl := Option.some.inj hrequest
      exact ⟨log, _, [], rfl, ⟨rfl, record, hget, rfl⟩, by simp, nofun⟩
    · rw [happroved, List.getLast?_concat]
      rintro request' hrequest
      obtain rfl := Option.some.inj hrequest
      obtain ⟨before, made, later, rfl, hmakes, hnone, -⟩ := h.latest request hlast
      refine ⟨before, made, later ++ [⟨d, ⟨key, .approveDeletion id request.id operator at_⟩⟩],
        by simp, ⟨hmakes.operation, hmakes.fingerprint⟩, fun e he ↦ ?_, fun approval ha ↦ ?_⟩
      · rcases List.mem_append.1 he with he | he
        · exact hnone e he
        · rw [List.mem_singleton.1 he]
          rintro ⟨_, _, _, heq⟩
          exact nomatch heq
      · obtain rfl := Option.some.inj ha
        exact ⟨hoperator, htime, _, List.mem_append_right _ List.mem_cons_self, rfl⟩
  extensions := by
    rcases hact.extensions with ⟨hminimum, hsame⟩ | ⟨e, hlt, hminimum, hadded⟩
    · rw [hminimum, hsame]
      exact h.extensions
    · rw [hminimum, hadded]
      intro e' he'
      rcases List.mem_append.1 he' with he' | he'
      · exact ((h.extensions e' he').trans_lt hlt).le
      · exact (congrArg Extension.until_ (List.mem_singleton.1 he')).le
  erased := hact.erased_record h.erased

/-- **What every run keeps.** -/
theorem kept_run (id : Text) (calls : List Call) :
    Kept P id (history (Data.apply P) .empty calls)
      ((run (Data.apply P) .empty calls).dossier id) := by
  refine history_rule (P := fun log d ↦ Kept P id log (d.dossier id)) ?_ ?_ calls
  · exact ⟨nofun, nofun, nofun⟩
  · intro log d call d' h happly
    exact h.step (act_of_apply id happly)

/-! ### What the blockers say -/

theorem codes_eq_nil {l : List (Bool × String)} : Data.codes l = [] ↔ ∀ c ∈ l, c.1 = false := by
  simp [Data.codes, List.filter_eq_nil_iff]

theorem safetyBlockers_eq_nil {record : VaultRecord} {now : ℤ}
    (h : d.safetyBlockers record now = []) :
    d.retentionDeadline record ≤ now ∧
      (∀ hold ∈ (d.controls record.id).holds, hold.release.isSome = true) ∧
      record.state ≠ .pending ∧ record.state ≠ .review ∧
      (∀ job ∈ d.jobsOf record.id, job.state = .confirmed) ∧
      (record.state = .blocked → ∃ job ∈ d.jobsOf record.id, job.state = .confirmed) := by
  simp only [Data.safetyBlockers, codes_eq_nil, List.forall_mem_cons] at h
  obtain ⟨hvalid, hdeadline, -, hholds, hpending, hreview, hopen, hblocked, -⟩ := h
  rw [hvalid] at hdeadline
  refine ⟨by simpa using hdeadline, fun hold hhold ↦ ?_, by simpa using hpending,
    by simpa using hreview, by simpa using hopen, by simpa using hblocked⟩
  have := List.any_eq_false.1 hholds hold hhold
  simpa [Option.isSome_iff_ne_none] using this

theorem deletionBlockers_eq_nil {record : VaultRecord} {request : DeletionRequest} {now : ℤ}
    (hlast : d.lastRequest record.id = some request)
    (h : d.deletionBlockers P record now = []) :
    d.safetyBlockers record now = [] ∧
      request.fingerprint = d.deletionFingerprint P record ∧
      ∃ approval, request.approval = some approval ∧ approval.at_ ≤ now := by
  simp only [Data.deletionBlockers, List.append_eq_nil_iff, codes_eq_nil, List.forall_mem_cons,
    hlast, Option.bind_some, Option.any_some] at h
  obtain ⟨hsafe, happroved, hfresh, htime, -⟩ := h
  rcases happroval : request.approval with - | approval
  · simp [happroval] at happroved
  · rw [happroval] at htime
    refine ⟨hsafe, by simpa using hfresh, approval, rfl, ?_⟩
    simp only [Option.any_some, Bool.or_eq_false_iff, decide_eq_false_iff_not, not_lt] at htime
    exact htime.1

/-! ### The law of deletion -/

/-- The record of an id, its extensions, its holds and its jobs are the same. -/
structure Unchanged (id : Text) (d d' : Data) : Prop where
  record : d'.records.get id = d.records.get id
  minimumUntil : (d'.controls id).minimumUntil = (d.controls id).minimumUntil
  extensions : (d'.controls id).extensions = (d.controls id).extensions
  holds : (d'.controls id).holds = (d.controls id).holds
  jobs : (d'.jobsOf id).Perm (d.jobsOf id)

/-- No two different snapshots that the vault could fingerprint in a run share a digest. -/
def NoCollision (P : Platform) (log : Log) : Prop :=
  ∀ a ∈ log, ∀ b ∈ log, ∀ r ∈ a.state.records.rows, ∀ s ∈ b.state.records.rows,
    P.deletionDigest (a.state.snapshot P r) = P.deletionDigest (b.state.snapshot P s) →
    a.state.snapshot P r = b.state.snapshot P s

instance (log : Log) : Decidable (NoCollision P log) :=
  inferInstanceAs (Decidable (∀ a ∈ log, ∀ b ∈ log, _))

/-- What justifies the erasure of a record at a time, by a call made after the log. -/
structure LawfulErasure (id : Text) (log : Log) (erasing : Entry Data Call) (record : VaultRecord)
    (t : ℤ) (request : DeletionRequest) (approval : Approval) : Prop where
  call : erasing.input.operation = .erase id request.id t ∨
    erasing.input.operation = .purgeExpired t ∧ request.input.automatic = true
  /-- The request is the record's last one. It was approved afterwards, and nothing that it was
  made of has changed. -/
  made : ∃ earlier made later, log = earlier ++ made :: later ∧
    made.input.operation =
      .requestDeletion request.id id request.input request.requestedAt ∧
    (∀ entry ∈ later, ¬entry.input.operation.Requests id) ∧
    (∃ entry ∈ later, entry.input.operation =
      .approveDeletion id request.id approval.operator approval.at_) ∧
    Unchanged id made.state erasing.state
  operators : approval.operator ≠ request.input.operator
  requested : request.requestedAt ≤ approval.at_
  approved : approval.at_ ≤ t
  holds : ∀ hold ∈ (erasing.state.controls id).holds, hold.release.isSome = true
  retention : record.retentionUntil ≤ t
  extensions : ∀ e ∈ (erasing.state.controls id).extensions, e.until_ ≤ t
  decided : record.state ≠ .pending ∧ record.state ≠ .review
  revocations : ∀ job ∈ erasing.state.jobsOf id, job.state = .confirmed
  blocked : record.state = .blocked → ∃ job ∈ erasing.state.jobsOf id, job.state = .confirmed

theorem unchanged_of_snapshot {record record' : VaultRecord} (hid : record.id = id)
    (hget : d.records.get id = some record) (hget' : d'.records.get id = some record')
    (h : d.snapshot P record = d'.snapshot P record') : Unchanged id d d' := by
  have hid' := Data.id_of_get hget'
  simp only [Data.snapshot, Snapshot.mk.injEq, hid, hid'] at h
  obtain ⟨rfl, hminimum, hextensions, hholds, hjobs⟩ := h
  refine ⟨by rw [hget, hget'], hminimum.symm, hextensions.symm, hholds.symm, ?_⟩
  calc d'.jobsOf id
    _ |>.Perm (d'.sortedJobs P id) := (List.perm_insertionSort _ _).symm
    _ |>.Perm (d.jobsOf id) := by
      rw [← hjobs]
      exact List.perm_insertionSort _ _

/-- The only calls that take a record away, and what they have checked. -/
theorem Act.of_gone (h : Act P d id key op x) {record : VaultRecord}
    (hget : d.records.get id = some record) (hgone : x.record = none) :
    ∃ request t, (op = .erase id request.id t ∨
        op = .purgeExpired t ∧ request.input.automatic = true) ∧
      d.lastRequest id = some request ∧ d.deletionBlockers P record t = [] ∧ x.erased = true := by
  cases h with
  | @erased _ r request t hop hget' hlast hblockers =>
    obtain rfl : r = record := Option.some.inj (hget'.symm.trans hget)
    exact ⟨request, t, hop, hlast, hblockers, rfl⟩
  | put | materialized | sourceConfirmed | rescreened | reviewed => exact nomatch hgone
  | _ => exact absurd (hget.symm.trans hgone) (by simp)

/-- **A record that goes away goes away lawfully.** -/
theorem lawful_of_gone {erasing : Entry Data Call} {record : VaultRecord}
    (hkept : Kept P id log (erasing.state.dossier id))
    (hdigest : NoCollision P (log ++ [erasing]))
    (hget : erasing.state.records.get id = some record)
    (hact : Act P erasing.state id key erasing.input.operation x) (hgone : x.record = none) :
    ∃ t request approval, LawfulErasure id log erasing record t request approval := by
  obtain ⟨request, t, hop, hlast, hblockers, -⟩ := hact.of_gone hget hgone
  obtain rfl := Data.id_of_get hget
  obtain ⟨hsafe, hfresh, approval, happroval, htime⟩ := deletionBlockers_eq_nil hlast hblockers
  obtain ⟨hdeadline, hholds, hpending, hreview, hconfirmed, hblocked⟩ :=
    safetyBlockers_eq_nil hsafe
  obtain ⟨earlier, made, later, rfl, hmakes, hnone, happroved⟩ := hkept.latest request hlast
  obtain ⟨hoperator, hrequested, hcall⟩ := happroved approval happroval
  have hunchanged : Unchanged record.id made.state erasing.state := by
    obtain ⟨r, hr, hfingerprint⟩ := hmakes.fingerprint
    refine unchanged_of_snapshot (P := P) (Data.id_of_get hr) hr hget ?_
    exact hdigest made (by simp) erasing (by simp) r (Table.get_eq_some.1 hr).1 record
      (Table.get_eq_some.1 hget).1 (hfingerprint.symm.trans hfresh)
  refine ⟨t, request, approval, hop, ⟨earlier, made, later, rfl, hmakes.operation, hnone, hcall,
    hunchanged⟩, Ne.symm hoperator, hrequested, htime, hholds, ?_, fun e he ↦ ?_,
    ⟨hpending, hreview⟩, hconfirmed, hblocked⟩
  · exact (le_max_left _ _).trans hdeadline
  · exact (hkept.extensions e he).trans ((le_max_right _ _).trans hdeadline)

/-- An erased id stays without a record. -/
theorem erased_stays {calls : List Call} (herased : d.erased id = true)
    (hget : d.records.get id = none) :
    (run (Data.apply P) d calls).records.get id = none := by
  suffices h : ((run (Data.apply P) d calls).dossier id).erased = true ∧
      ((run (Data.apply P) d calls).dossier id).record = none from h.2
  refine run_invariant (P := fun d : Data ↦ (d.dossier id).erased = true ∧ (d.dossier id).record = none)
    ⟨herased, hget⟩ (fun d call d' hd happly ↦ ?_) calls
  have hact := act_of_apply id happly
  have hstays := hact.erased_mono hd.1
  exact ⟨hstays, hact.erased_record (fun _ ↦ hd.2) hstays⟩

/-- **Deletion safety.** In every run of the vault's operations, through any number of instances
over one file, a record that a call takes away was erased lawfully, and its id is not in the vault
again. -/
theorem deletion_safe {ι : Type} [DecidableEq ι] (P : Platform) (events : List (Event ι))
    (hdigest : NoCollision P ((World.fresh : World ι).written P events)) {before later : Log}
    {erasing : Entry Data Call}
    (hlog : (World.fresh : World ι).written P events = before ++ erasing :: later)
    {id : Text} {record : VaultRecord} {d' : Data}
    (hget : erasing.state.records.get id = some record)
    (happly : erasing.state.apply P erasing.input = .ok d') (hgone : d'.records.get id = none) :
    (∃ t request approval, LawfulErasure id before erasing record t request approval) ∧
      ((World.fresh : World ι).after P events).data.records.get id = none := by
  obtain ⟨calls, hafter, hwritten⟩ := World.after_eq (P := P) (w := (World.fresh : World ι)) events
  rw [hwritten] at hlog hdigest
  obtain ⟨as, bs, s', rfl, rfl, hstate, hexec, -, hrun⟩ := history_split hlog
  obtain rfl : s' = d' := Except.ok.inj (hexec.symm.trans happly)
  have hkept := kept_run (P := P) id as
  have hact := act_of_apply id happly
  rw [hafter, hrun]
  obtain ⟨state, call⟩ := erasing
  obtain rfl : state = run (Data.apply P) .empty as := hstate
  refine ⟨lawful_of_gone hkept (fun a ha b hb ↦ ?_) hget hact hgone, ?_⟩
  · rw [hlog] at hdigest
    exact hdigest a (by simp at ha ⊢; tauto) b (by simp at hb ⊢; tauto)
  · obtain ⟨request, t, -, -, -, herased⟩ := hact.of_gone hget hgone
    exact erased_stays herased hgone

/-! ### A run -/

/-- Hashes that tell the values of a small run apart. -/
def samplePlatform : Platform where
  deriveVaultKey secret := secret
  keyIdentifier key := key
  deletionDigest s := Text.ofNat s.jobs.length ++ Text.ofNat s.record.rescreens.length
  reviewDigest key c := key ++ Text.ofNat c.record.rescreens.length
  collates a b := a ≤ b
  isAddress _ := true

def sampleSecret : Text :=
  List.replicate 32 'k'

def sampleRecord (state : VaultState) : VaultRecord where
  id := ['r']
  walletAddress := ['w']
  fullName := ['n']
  processingPolicy := none
  retentionPolicy := none
  evidenceHash := ['h']
  state := state
  createdAt := 1
  retentionUntil := 10
  lastScreenedAt := none
  rescreens := []
  reviews := []
  sourceIssuance := none
  rest := []

/-- A record is retained until 10, requested by `a`, approved by `b` and erased at 20. -/
def sampleDeletion : List (Event Unit) :=
  [.construct () sampleSecret,
    .call () (.put (sampleRecord .active)) .none,
    .call () (.requestDeletion ['q'] ['r'] ⟨['a'], ['p'], ['s'], .unchanged, false⟩ 5) .none,
    .call () (.approveDeletion ['r'] ['q'] ['b'] 6) .none,
    .call () (.erase ['r'] ['q'] 20) .none]

example : (World.fresh.after samplePlatform sampleDeletion).data.erasures =
    [⟨['r'], 20, ['p'], ['q']⟩] := by
  decide +kernel

/-- The call that erases the record of `sampleDeletion`, with the plaintext that it finds. -/
def sampleErasing : Entry Data Call :=
  ⟨(World.fresh.after samplePlatform (sampleDeletion.take 4)).data,
    ⟨sampleSecret, .erase ['r'] ['q'] 20⟩⟩

theorem deletion_safe_sampleDeletion :
    (∃ t request approval, LawfulErasure ['r']
      (World.fresh.written samplePlatform (sampleDeletion.take 4)) sampleErasing
      (sampleRecord .active) t request approval) ∧
    (World.fresh.after samplePlatform sampleDeletion).data.records.get ['r'] = none := by
  have hdigest : NoCollision samplePlatform
      (World.fresh.written samplePlatform sampleDeletion) := by decide +kernel
  have hlog : World.fresh.written samplePlatform sampleDeletion =
      World.fresh.written samplePlatform (sampleDeletion.take 4) ++ sampleErasing :: [] := by rfl
  have hget : sampleErasing.state.records.get ['r'] = some (sampleRecord .active) := by
    decide +kernel
  have happly : sampleErasing.state.apply samplePlatform sampleErasing.input =
      .ok (World.fresh.after samplePlatform sampleDeletion).data := by rfl
  exact deletion_safe samplePlatform sampleDeletion hdigest hlog hget happly (by decide +kernel)

end Proofmark.Vault
