import Proofmark.Sumsub.Fence

/-!
# The callback fence in every run

Any number of status reads and callbacks run on one session, in either store. `Inv` says that the
log is a history and that the store shows its last write; every step that a call makes keeps it
(`inMemory_saveObservation`, `inMemory_applyWebhook`, `luaSave_kept`, `luaWebhook_kept`). While a
call waits, it relies on a record with the revision it read being the record it read.

`fence_kept` carries the laws of histories over to the runs, and `fence_law_fails` is a run in which
a newer final rejection gives way to an older fence.
-/

open Async

namespace Proofmark.Sumsub

open Pipeline (Text)

/-! ### The invariant of a session -/

/-- The store has seen the event time of every callback it accepted. -/
def State.Marks (kind : StoreKind) (s : State) (time : ℕ) : Prop :=
  match kind with
  | .inMemory => ∃ claimed ∈ s.webhooks, claimed.eventAt = time
  | .redis => time ≤ s.latest.eventAt

structure Inv (kind : StoreKind) (s : State) : Prop where
  history : History s.log
  stored : ∀ record, s.record = some record → record.latest = latestOf s.log
  revision : kind = .redis → ∀ record, s.record = some record → record.revision = s.latest.revision
  marked : ∀ w ∈ s.log, ∀ webhook, w.origin = .webhook webhook → s.Marks kind webhook.createdAtMs

/-- What the others do to a session: writes advance the revision. -/
structure Later (s s' : State) : Prop where
  log : s.log <:+ s'.log
  record : ∀ record', s'.record = some record' → ∃ record, s.record = some record ∧
    record.revision ≤ record'.revision ∧ (record.revision = record'.revision → record = record')

theorem later_refl (s : State) : Later s s :=
  ⟨List.suffix_rfl, fun record h ↦ ⟨record, h, le_rfl, fun _ ↦ rfl⟩⟩

theorem Later.trans {s₁ s₂ s₃ : State} (h : Later s₁ s₂) (h' : Later s₂ s₃) : Later s₁ s₃ := by
  refine ⟨h.log.trans h'.log, fun record₃ h₃ ↦ ?_⟩
  obtain ⟨record₂, h₂, hle', heq'⟩ := h'.record record₃ h₃
  obtain ⟨record₁, h₁, hle, heq⟩ := h.record record₂ h₂
  refine ⟨record₁, h₁, hle.trans hle', fun hrevision ↦ ?_⟩
  obtain rfl := heq' (by omega)
  exact heq hrevision

/-- A record that was read from the session. -/
def Knows (kind : StoreKind) (record : SessionRecord) (s : State) : Prop :=
  ∃ s₀, Inv kind s₀ ∧ s₀.record = some record ∧ Later s₀ s

section Kept

variable {kind : StoreKind} {s s' : State} {record old : SessionRecord} {from_ : Provenance}

theorem Knows.later (h : Knows kind record s) (hlater : Later s s') : Knows kind record s' := by
  obtain ⟨s₀, hinv, hrecord, h₀⟩ := h
  exact ⟨s₀, hinv, hrecord, h₀.trans hlater⟩

theorem Knows.seen (h : Knows kind record s) :
    ∃ older, older <:+ s.log ∧ record.latest = latestOf older := by
  obtain ⟨s₀, hinv, hrecord, hlater⟩ := h
  exact ⟨s₀.log, hlater.log, hinv.stored record hrecord⟩

/-- A stored record with the revision that was read is the one that was read. -/
theorem Knows.eq_of_revision (h : Knows kind record s) (hold : s.record = some old)
    (hrevision : old.revision = record.revision) : old = record := by
  obtain ⟨s₀, -, hrecord, hlater⟩ := h
  obtain ⟨record', hrecord', -, heq⟩ := hlater.record old hold
  obtain rfl := Option.some.inj (hrecord.symm.trans hrecord')
  exact (heq hrevision.symm).symm

/-- What a call may do to a session. -/
def Kept (kind : StoreKind) (s s' : State) : Prop :=
  Inv kind s' ∧ Later s s'

theorem kept_refl (h : Inv kind s) : Kept kind s s :=
  ⟨h, later_refl s⟩

/-- A write with a new revision, which stores what the merge makes of it. -/
theorem kept_put (hinv : Inv kind s) (hold : s.record = some old)
    (hfollows : Write.Follows ⟨from_, old.latest⟩ s.log) (hlog : s'.log = ⟨from_, old.latest⟩ :: s.log)
    (hrecord : s'.record = some record) (hrevision : record.revision = old.revision + 1)
    (hlatest : record.latest = some (Write.stored ⟨from_, old.latest⟩))
    (hhash : kind = .redis → s'.latest.revision = s.latest.revision + 1)
    (hmarks : ∀ time, s.Marks kind time → s'.Marks kind time)
    (hmark : ∀ webhook, from_.origin = .webhook webhook → s'.Marks kind webhook.createdAtMs) :
    Kept kind s s' := by
  refine ⟨⟨?_, fun r hr ↦ ?_, fun hkind r hr ↦ ?_, fun w hw webhook horigin ↦ ?_⟩, ?_,
    fun r hr ↦ ⟨old, hold, ?_⟩⟩
  · exact hlog ▸ hinv.history.cons hfollows
  · obtain rfl := Option.some.inj (hrecord.symm.trans hr)
    rw [hlatest, hlog]
    rfl
  · obtain rfl := Option.some.inj (hrecord.symm.trans hr)
    rw [hrevision, hhash hkind, hinv.revision hkind old hold]
  · rw [hlog] at hw
    rcases List.mem_cons.1 hw with rfl | hw
    · exact hmark webhook horigin
    · exact hmarks _ (hinv.marked w hw webhook horigin)
  · exact hlog ▸ List.suffix_cons _ _
  · obtain rfl := Option.some.inj (hrecord.symm.trans hr)
    exact ⟨by omega, fun heq ↦ by omega⟩

end Kept

/-! ### The writes -/

section Writes

variable {kind : StoreKind} {s : State} {record old : SessionRecord} {fetched : Evidence}
  {webhook : SumsubWebhook}

/-- A status read writes over the record it read. -/
theorem follows_status (hinv : Inv kind s) (hold : s.record = some old)
    (hfetched : fetched.webhookFence = none) :
    Write.Follows ⟨⟨.status, fetched, old.latest⟩, old.latest⟩ s.log where
  held := hinv.stored old hold
  seen := ⟨s.log, List.suffix_rfl, hinv.stored old hold⟩
  status _ := rfl
  fetched := hfetched
  later _ horigin := nomatch horigin

/-- A callback writes over a record that may be newer than the one it read. -/
theorem follows_webhook (hinv : Inv kind s) (hknows : Knows kind record s)
    (hold : s.record = some old) (hfetched : fetched.webhookFence = none)
    (hnewer : ∀ time, s.Marks kind time → time < webhook.createdAtMs) :
    Write.Follows ⟨⟨.webhook webhook, fetched, record.latest⟩, old.latest⟩ s.log where
  held := hinv.stored old hold
  seen := hknows.seen
  status horigin := nomatch horigin
  fetched := hfetched
  later webhook' horigin w hw webhook'' horigin' := by
    obtain rfl := Origin.webhook.inj horigin
    exact hnewer _ (hinv.marked w hw webhook'' horigin')

theorem retain_retain (e : Evidence) (previous : Option Evidence) :
    retainSumsubWebhookFence (retainSumsubWebhookFence e previous) previous =
      retainSumsubWebhookFence e previous := by
  rcases h : e.heldBy previous with - | fence
  · rw [retain_of_heldBy_eq_none h, retain_of_heldBy_eq_none h]
  · obtain ⟨p, rfl, hfence, hsince⟩ := heldBy_eq_some.1 h
    have hsince' : (retainSumsubWebhookFence e (some p)).reviewedSince fence.eventAt = false := by
      rw [reviewedSince_retain, hsince]
    rw [retainSumsubWebhookFence.eq_def (retainSumsubWebhookFence e (some p))]
    simp only [hfence, hsince', Bool.false_eq_true, if_false]
    simp [retainSumsubWebhookFence, hfence, hsince]

theorem inMemory_saveObservation (hinv : Inv .inMemory s) (hknows : Knows .inMemory record s)
    (hfetched : fetched.webhookFence = none) :
    Kept .inMemory s (InMemory.saveObservation ⟨.status, fetched, record.latest⟩
      (retainSumsubWebhookFence fetched record.latest) record.revision s).2 := by
  unfold InMemory.saveObservation
  split
  case h_1 => exact kept_refl hinv
  case h_2 value hvalue =>
    split
    case isTrue => exact kept_refl hinv
    case isFalse hrevision =>
      obtain rfl := hknows.eq_of_revision hvalue (not_not.1 hrevision)
      dsimp only
      split
      case isTrue => exact kept_refl hinv
      case isFalse =>
        exact kept_put hinv hvalue (follows_status hinv hvalue hfetched) rfl rfl rfl rfl
          (fun hkind ↦ nomatch hkind) (fun _ h ↦ h) fun _ horigin ↦ nomatch horigin

/-- Every accepted callback is at most as new as the newest. -/
theorem InMemory.le_newest {webhooks : List ClaimedWebhook} {claimed : ClaimedWebhook}
    (h : claimed ∈ webhooks) : ∃ latest, newest webhooks = some latest ∧
      claimed.eventAt ≤ latest.eventAt := by
  have hsorted := @List.pairwise_mergeSort _ (fun a b : ClaimedWebhook ↦ decide (b.eventAt ≤ a.eventAt))
    (fun a b c hab hbc ↦ by simp only [decide_eq_true_eq] at *; omega)
    (fun a b ↦ by simp only [Bool.or_eq_true, decide_eq_true_eq]; omega) webhooks
  unfold newest
  replace h : claimed ∈ webhooks.mergeSort fun a b ↦ b.eventAt ≤ a.eventAt := List.mem_mergeSort.2 h
  cases hlist : webhooks.mergeSort fun a b ↦ b.eventAt ≤ a.eventAt with
  | nil => simp [hlist] at h
  | cons latest rest =>
    refine ⟨latest, rfl, ?_⟩
    rw [hlist] at h hsorted
    rcases List.mem_cons.1 h with rfl | h
    · exact le_rfl
    · simpa using List.rel_of_pairwise_cons hsorted h

/-- A fresh claim is newer than all claims before it, and is entered. -/
theorem InMemory.claimWebhook_fresh {digest applicantId : Text} {eventAt : ℕ} {s' : State}
    (h : claimWebhook digest eventAt applicantId s = (.fresh, s')) :
    s.record.isSome = true ∧ (∀ claimed ∈ s.webhooks, claimed.eventAt < eventAt) ∧
      s' = { s with webhooks := s.webhooks ++ [⟨digest, eventAt, applicantId⟩] } := by
  unfold claimWebhook at h
  split_ifs at h with hrecord hduplicate happlicant hstale
  all_goals simp only [Prod.mk.injEq, reduceCtorEq, false_and, true_and] at h
  refine ⟨by simpa [Option.isSome_iff_ne_none] using hrecord, fun claimed hclaimed ↦ ?_, h.symm⟩
  obtain ⟨latest, hnewest, hle⟩ := le_newest hclaimed
  have hlt : ¬eventAt ≤ latest.eventAt := by simpa [hnewest] using hstale
  omega

/-- Any other claim changes nothing. -/
theorem InMemory.claimWebhook_eq {digest applicantId : Text} {eventAt : ℕ} {claim : WebhookClaim}
    {s' : State} (h : claimWebhook digest eventAt applicantId s = (claim, s'))
    (hclaim : claim ≠ .fresh) : s' = s := by
  unfold claimWebhook at h
  split_ifs at h
  all_goals obtain ⟨rfl, rfl⟩ := Prod.mk.inj h
  all_goals first | rfl | exact absurd rfl hclaim

theorem inMemory_applyWebhook (hinv : Inv .inMemory s) (hknows : Knows .inMemory record s)
    (hfetched : fetched.webhookFence = none) {digest applicantId : Text} :
    Kept .inMemory s (InMemory.applyWebhook ⟨.webhook webhook, fetched, record.latest⟩ digest
      webhook.createdAtMs applicantId (retainSumsubWebhookFence
        (applySumsubWebhookFence fetched webhook) record.latest) s).2 := by
  unfold InMemory.applyWebhook
  split
  case h_1 s' hclaim =>
    obtain ⟨hrecord, hnewer, rfl⟩ := InMemory.claimWebhook_fresh hclaim
    obtain ⟨old, hold⟩ := Option.isSome_iff_exists.1 hrecord
    simp only [hold]
    have hlast : ∀ time, s.Marks .inMemory time → time < webhook.createdAtMs := by
      intro time hmarks
      obtain ⟨claimed, hclaimed, rfl⟩ := hmarks
      exact hnewer claimed hclaimed
    refine kept_put hinv hold (follows_webhook hinv hknows hold hfetched hlast) rfl rfl rfl rfl
      (fun hkind ↦ nomatch hkind) (fun time hmarks ↦ ?_) fun webhook' horigin ↦ ?_
    · obtain ⟨claimed, hclaimed, rfl⟩ := hmarks
      exact ⟨claimed, List.mem_append_left _ hclaimed, rfl⟩
    · obtain rfl := Origin.webhook.inj horigin
      exact ⟨_, List.mem_append_right _ (List.mem_singleton_self _), rfl⟩
  case h_2 claim s' hne hclaim =>
    obtain rfl := InMemory.claimWebhook_eq hclaim hne
    exact kept_refl hinv

theorem luaSave_kept (hinv : Inv .redis s) (hknows : Knows .redis record s)
    (hfetched : fetched.webhookFence = none) {sealed : SessionRecord}
    (hlatest : sealed.latest = some (retainSumsubWebhookFence fetched record.latest))
    (hnext : sealed.revision = record.revision + 1) {reviewedAt carriedFence : ℕ} :
    Kept .redis s (luaSave ⟨.status, fetched, record.latest⟩ sealed reviewedAt carriedFence
      record.revision s).2 := by
  unfold luaSave
  split
  case h_1 => exact kept_refl hinv
  case h_2 old hold =>
    split_ifs with hrevision hfenced
    · exact kept_refl hinv
    · exact kept_refl hinv
    · have hread := hinv.revision rfl old hold
      obtain rfl := hknows.eq_of_revision hold (hread.trans (not_not.1 hrevision))
      refine kept_put hinv hold (follows_status hinv hold hfetched) rfl rfl hnext ?_
        (fun _ ↦ rfl) (fun _ h ↦ h) fun _ horigin ↦ nomatch horigin
      rw [hlatest]
      exact congrArg some (retain_retain fetched old.latest).symm

/-- The script keeps its own read of the record, which is newer than that of the caller. -/
theorem luaWebhook_kept (hinv : Inv .redis s) (hknows : Knows .redis record s)
    {read : SessionRecord} (hread : Knows .redis read s) (hfetched : fetched.webhookFence = none)
    {digest applicantId : Text} :
    Kept .redis s (luaWebhook ⟨.webhook webhook, fetched, record.latest⟩ digest
      webhook.createdAtMs applicantId
      { read with
        latest := some (retainSumsubWebhookFence (retainSumsubWebhookFence
          (applySumsubWebhookFence fetched webhook) record.latest) read.latest)
        revision := read.revision + 1 }
      read.revision s).2 := by
  unfold luaWebhook
  split
  case h_1 => exact kept_refl hinv
  case h_2 old hold =>
    split_ifs with hduplicate hrevision happlicant hstale
    · exact kept_refl hinv
    · exact kept_refl hinv
    · exact kept_refl hinv
    · exact kept_refl hinv
    · have hsame := hinv.revision rfl old hold
      obtain rfl := hread.eq_of_revision hold (hsame.trans (not_not.1 hrevision))
      have hnewer : ∀ time, s.Marks .redis time → time < webhook.createdAtMs :=
        fun time hmarks ↦ lt_of_le_of_lt hmarks (not_le.1 hstale)
      refine kept_put hinv hold (follows_webhook hinv hknows hold hfetched hnewer) rfl rfl rfl rfl
        (fun _ ↦ rfl) (fun time hmarks ↦ (hnewer time hmarks).le) fun webhook' horigin ↦ ?_
      obtain rfl := Origin.webhook.inj horigin
      exact le_rfl

end Writes

/-! ### The calls -/

/-- What a call may do and rely on. -/
def sessionRules (kind : StoreKind) : Rules State Wait.Answer ℕ where
  inv := Inv kind
  answers _ _ _ := True
  step _ := Kept kind
  rely _ := Later

namespace Calls

open Program

variable {kind : StoreKind} {me : ℕ} {β γ : Type} {p : State → Prop} {t : Call β}
  {post : β → State → Prop}

/-- From a state with a property a call does only what it may, and its value has another. -/
def Safe (kind : StoreKind) (me : ℕ) (p : State → Prop) (t : Call β) (post : β → State → Prop) :
    Prop :=
  ∀ s, Inv kind s → p s → t.wp (sessionRules kind) me
    (fun result s ↦ ∀ b, result = .ok b → post b s) s

/-- A property that others keep. -/
def Stable (p : State → Prop) : Prop :=
  ∀ s s', Later s s' → p s → p s'

theorem stable_knows {record : SessionRecord} : Stable (Knows kind record) :=
  fun _ _ hlater h ↦ h.later hlater

theorem safe_pure {b : β} (h : ∀ s, p s → post b s) : Safe kind me p (pure b) post := by
  intro s _ hp b' hb
  obtain rfl := Except.ok.inj hb
  exact h s hp

theorem safe_throw (e : String) : Safe kind me p (throw e) post :=
  fun _ _ _ ↦ nofun

theorem Safe.bind {k : β → Call γ} {post' : γ → State → Prop} (h : Safe kind me p t post)
    (hk : ∀ b, Safe kind me (post b) (k b) post') : Safe kind me p (t >>= k) post' :=
  fun s hs hp ↦ wp_seq hs (h s hs hp) (fun b s' hs' hmid ↦ hk b s' hs' (hmid b rfl))
    fun _ _ _ _ ↦ nofun

theorem safe_mono {q : State → Prop} (h : Safe kind me p t post) (hq : ∀ s, q s → p s) :
    Safe kind me q t post :=
  fun s hs hp ↦ h s hs (hq s hp)

/-- While a call waits, what is stable stays. -/
theorem safe_request (hp : Stable p) (q : Wait) :
    Safe kind me p (Program.request q) fun _ ↦ p := by
  intro s _ hs s₁ a s₂ _ _ hrely _ hrely' b _
  exact hp s₁ s₂ hrely' (hp s s₁ hrely hs)

theorem safe_get : Safe kind me p Program.get fun s s' ↦ Inv kind s ∧ p s ∧ s' = s := by
  intro s hs hp b hb
  obtain rfl := Except.ok.inj hb
  exact ⟨hs, hp, rfl⟩

theorem safe_call {op : State → Except String β × State}
    (h : ∀ s, Inv kind s → p s → Kept kind s (op s).2)
    (hpost : ∀ s b, Inv kind s → p s → (op s).1 = .ok b → post b (op s).2) :
    Safe kind me p (Program.call op) post :=
  fun s hs hp ↦ wp_call.2 ⟨h s hs hp, fun _ b hb ↦ hpost s b hs hp hb⟩

/-- A script that does what it may, answered or not. -/
theorem safe_runScript {script : State → β × State} (post : β → State → Prop) (hp : Stable p)
    (h : ∀ s, Inv kind s → p s → Kept kind s (script s).2)
    (hpost : ∀ s, Inv kind s → p s → post (script s).1 (script s).2) :
    Safe kind me p (runScript script) post := by
  refine (safe_request hp .store).bind fun link ↦ ?_
  cases link with
  | answered =>
    refine safe_call h fun s b hs hps hb ↦ ?_
    obtain rfl := Except.ok.inj hb
    exact hpost s hs hps
  | lost => exact safe_call h fun _ _ _ _ ↦ nofun
  | unsent => exact safe_throw _

theorem safe_load (hp : Stable p) :
    Safe kind me p kind.load fun record s ↦ p s ∧ ∀ r ∈ record, Knows kind r s := by
  cases kind with
  | inMemory =>
    refine (safe_request hp .turn).bind fun _ ↦ safe_get.bind fun s ↦ safe_pure fun s' h ↦ ?_
    obtain ⟨hs, hps, rfl⟩ := h
    exact ⟨hps, fun r hr ↦ ⟨s', hs, hr, later_refl s'⟩⟩
  | redis =>
    refine safe_runScript _ hp (fun s hs _ ↦ kept_refl hs) fun s hs hps ↦ ?_
    exact ⟨hps, fun r hr ↦ ⟨s, hs, hr, later_refl s⟩⟩

variable {record : SessionRecord} {fetched : Evidence} {webhook : SumsubWebhook}

theorem safe_saveObservation (hfetched : fetched.webhookFence = none) :
    Safe kind me (Knows kind record) (kind.saveObservation ⟨.status, fetched, record.latest⟩
      (retainSumsubWebhookFence fetched record.latest) record.revision) fun _ _ ↦ True := by
  cases kind with
  | inMemory =>
    refine (safe_request stable_knows .turn).bind fun _ ↦ ?_
    exact safe_call (fun s hs hknows ↦ inMemory_saveObservation hs hknows hfetched)
      fun _ _ _ _ _ ↦ trivial
  | redis =>
    refine (safe_load stable_knows).bind fun read ↦ ?_
    cases read with
    | none => exact safe_throw _
    | some read =>
      dsimp only
      split
      case isTrue => exact safe_throw _
      case isFalse hrevision =>
        refine (safe_runScript (fun _ _ ↦ True) ?_ ?_ fun _ _ _ ↦ trivial).bind
          fun reply ↦ ?_
        · exact fun s s' hlater h ↦ ⟨h.1.later hlater, fun r hr ↦ (h.2 r hr).later hlater⟩
        · exact fun s hs h ↦ luaSave_kept hs h.1 hfetched rfl rfl
        · cases reply with
          | ok => exact safe_pure fun _ _ ↦ trivial
          | _ => exact safe_throw _

theorem safe_applyWebhookRedis (hfetched : fetched.webhookFence = none) {digest applicantId : Text}
    (attempts : ℕ) :
    Safe .redis me (Knows .redis record) (StoreKind.applyWebhookRedis
      ⟨.webhook webhook, fetched, record.latest⟩ digest webhook.createdAtMs applicantId
      (retainSumsubWebhookFence (applySumsubWebhookFence fetched webhook) record.latest) attempts)
      fun _ _ ↦ True := by
  induction attempts with
  | zero => exact safe_throw _
  | succ attempts ih =>
    refine (safe_load stable_knows).bind fun read ↦ ?_
    cases read with
    | none => exact safe_pure fun _ _ ↦ trivial
    | some read =>
      -- the record that was read first still holds the next attempt
      refine (safe_runScript (fun _ s ↦ Knows .redis record s) ?_ ?_ ?_).bind
        fun reply ↦ ?_
      · exact fun s s' hlater h ↦ ⟨h.1.later hlater, fun r hr ↦ (h.2 r hr).later hlater⟩
      · exact fun s hs h ↦ luaWebhook_kept hs h.1 (h.2 read rfl) hfetched
      · intro s hs h
        exact h.1.later (luaWebhook_kept hs h.1 (h.2 read rfl) hfetched).2
      · cases reply with
        | revisionConflict => exact ih
        | claim claim => exact safe_pure fun _ _ ↦ trivial

theorem safe_applyWebhook (hfetched : fetched.webhookFence = none) {digest applicantId : Text} :
    Safe kind me (Knows kind record) (kind.applyWebhook
      ⟨.webhook webhook, fetched, record.latest⟩ digest webhook.createdAtMs applicantId
      (retainSumsubWebhookFence (applySumsubWebhookFence fetched webhook) record.latest))
      fun _ _ ↦ True := by
  cases kind with
  | inMemory =>
    refine (safe_request stable_knows .turn).bind fun _ ↦ ?_
    exact safe_call (fun s hs hknows ↦ inMemory_applyWebhook hs hknows hfetched)
      fun _ _ _ _ _ ↦ trivial
  | redis => exact safe_applyWebhookRedis hfetched 3

/-- What is fetched carries no fence. -/
theorem safe_fetch (client : Client) (hp : Stable p) :
    Safe kind me p client.fetch fun fetched s ↦ fetched.webhookFence = none ∧ p s := by
  refine (safe_request hp .provider).bind fun answer ↦ ?_
  rcases answer with - | ⟨status, now⟩
  · exact safe_throw _
  · exact safe_pure fun s hs ↦ ⟨rfl, hs⟩

theorem safe_currentSumsubStatus (client : Client) :
    Safe kind me (fun _ ↦ True) (client.currentSumsubStatus kind) fun _ _ ↦ True := by
  refine (safe_load fun _ _ _ h ↦ h).bind fun read ↦ ?_
  cases read with
  | none => exact safe_throw _
  | some record =>
    dsimp only
    split
    case isTrue => exact safe_throw _
    case isFalse =>
      refine Safe.bind (safe_mono (safe_fetch client stable_knows) fun s h ↦ h.2 record rfl)
        fun fetched ↦ ?_
      intro s hs h
      exact safe_saveObservation h.1 s hs h.2

theorem safe_acknowledge (claim : WebhookClaim) :
    Safe kind me (fun _ ↦ True) (Client.acknowledge kind claim) fun _ _ ↦ True := by
  cases claim with
  | fresh =>
    refine (safe_load fun _ _ _ h ↦ h).bind fun read ↦ ?_
    split
    · exact safe_throw _
    · exact safe_pure fun _ _ ↦ trivial
  | conflict => exact safe_throw _
  | _ => exact safe_pure fun _ _ ↦ trivial

theorem safe_acceptSumsubWebhook (client : Client) :
    Safe kind me (fun _ ↦ True) (client.acceptSumsubWebhook kind webhook) fun _ _ ↦ True := by
  unfold Client.acceptSumsubWebhook
  split
  case isTrue => exact safe_pure fun _ _ ↦ trivial
  case isFalse =>
    refine (safe_load fun _ _ _ h ↦ h).bind fun read ↦ ?_
    cases read with
    | none => exact safe_throw _
    | some record =>
      dsimp only
      split
      case isTrue => exact safe_throw _
      case isFalse =>
        refine Safe.bind (safe_mono (safe_fetch client stable_knows) fun s h ↦ h.2 record rfl)
          fun fetched ↦ ?_
        intro s hs h
        split
        case isTrue => exact fun _ ↦ nofun
        case isFalse =>
          exact (safe_applyWebhook h.1).bind (fun claim ↦ safe_acknowledge claim) s hs h.2

/-- A call as the system starts it, whose value nobody looks at. -/
theorem safe_start (h : Safe kind me (fun _ ↦ True) t fun _ _ ↦ True) {s : State}
    (hs : Inv kind s) :
    Program.wp (sessionRules kind) me (fun _ _ ↦ True)
      (do
        let _ ← t
        return ()) s :=
  wp_seq hs (h s hs trivial) (fun _ _ _ _ ↦ trivial) fun _ _ _ _ ↦ trivial

end Calls

/-! ### The fence in every run -/

/-- A session that has expired is no longer written to. -/
theorem inv_expired {kind : StoreKind} {s : State} (hs : Inv kind s) :
    Inv kind { s with record := none } where
  history := hs.history
  stored record h := nomatch h
  revision _ record h := nomatch h
  marked w hw webhook horigin := by
    have hmarks := hs.marked w hw webhook horigin
    cases kind with
    | inMemory => exact hmarks
    | redis => exact hmarks

theorem later_expired (s : State) : Later s { s with record := none } where
  log := List.suffix_rfl
  record _ h := nomatch h

theorem sessionRules_sound (kind : StoreKind) :
    (sessionRules kind).Sound (sessionSystem kind) where
  rely_refl _ := later_refl
  rely_trans := Later.trans
  step_inv _ h := h.1
  step_rely _ h _ := h.2
  env_inv hs h := h.2 ▸ inv_expired hs
  env_rely _ h := h.2 ▸ later_expired _
  crash_inv hs h := h ▸ hs
  answered _ := trivial
  started := by
    intro i t s hstart hs
    obtain ⟨client, ht | ⟨webhook, ht⟩⟩ := hstart
    · rw [ht]
      exact Calls.safe_start (Calls.safe_currentSumsubStatus client) hs
    · rw [ht]
      exact Calls.safe_start (Calls.safe_acceptSumsubWebhook client) hs

theorem inv_created {kind : StoreKind} {s : State} (h : Created s) : Inv kind s := by
  obtain ⟨binding, hrecord⟩ := h.record
  refine ⟨h.log ▸ .nil, fun record hr ↦ ?_, fun _ record hr ↦ ?_, fun w hw ↦ ?_⟩
  · obtain rfl := Option.some.inj (hrecord.symm.trans hr)
    rw [h.log]
    rfl
  · obtain rfl := Option.some.inj (hrecord.symm.trans hr)
    exact h.revision.symm
  · rw [h.log] at hw
    exact absurd hw List.not_mem_nil

/-- The law of the callback fence. The log holds the accepted writes: once a restrictive callback
is among them, the stored decision is no softer than its own until a write whose status answer
reaches it; and what is approved was reviewed no earlier than any restrictive callback. -/
structure FenceLaw (s : State) : Prop where
  holds : ∀ record, s.record = some record → ∀ newer w older webhook,
    s.log = newer ++ w :: older → w.fences = some webhook →
    (∀ w' ∈ newer, w'.reviewedSince webhook.createdAtMs = false) →
    ∃ e, record.latest = some e ∧ webhook.ownDecision.rank ≤ e.decision.rank
  approved : ∀ record, s.record = some record → ∀ e, record.latest = some e →
    e.decision = .approved → ∀ w ∈ s.log, ∀ webhook, w.fences = some webhook →
    e.reviewedSince webhook.createdAtMs = true

/-- **The fence is kept** in every run of status reads and callbacks whose writes are regular. -/
theorem fence_kept (kind : StoreKind) {s : State} (hs : Created s)
    {c : Async.System.Config State String Wait.Answer ℕ}
    (h : (sessionSystem kind).Reaches ⟨s, fun _ ↦ none⟩ c)
    (hregular : regular c.state.log = true) : FenceLaw c.state := by
  obtain ⟨hgood, -⟩ := (Async.System.Good.initial (R := sessionRules kind) (inv_created hs)).run
    (sessionRules_sound kind) h
  have hinv : Inv kind c.state := hgood.inv
  refine ⟨fun record hrecord newer w older webhook hlog hw hunanswered ↦ ?_,
    fun record hrecord e he happroved w hw webhook hfences ↦ ?_⟩
  · rw [hinv.stored record hrecord]
    exact hinv.history.holds hregular hlog hw hunanswered
  · rw [hinv.stored record hrecord] at he
    exact hinv.history.approved_since hregular he happroved hw hfences

/-! ### A lost fence -/

/-- The last write is a restrictive callback, and what is stored is softer. -/
def State.softened (s : State) : Bool :=
  match s.record, s.log with
  | some record, w :: _ => w.fences.any fun webhook ↦
    record.latest.all fun e ↦ e.decision.rank < webhook.ownDecision.rank
  | _, _ => false

theorem not_fenceLaw_of_softened {s : State} (h : s.softened = true) : ¬FenceLaw s := by
  intro hlaw
  unfold State.softened at h
  split at h
  case h_1 record w older hrecord hlog =>
    obtain ⟨webhook, hfences, hsofter⟩ := (Option.any_eq_true _ _).1 h
    obtain ⟨e, he, hrank⟩ := hlaw.holds record hrecord [] w older webhook hlog hfences
      fun _ hw ↦ absurd hw List.not_mem_nil
    simp only [he, Option.all_some, decide_eq_true_eq] at hsofter
    omega
  case h_2 => exact nomatch h

/-- A callback of the sample session. -/
def sampleWebhook (type : WebhookType) (createdAtMs : ℕ) : SumsubWebhook where
  applicantId := ['a']
  type := type
  createdAtMs := createdAtMs
  digest := if type = .applicantPending then ['p'] else ['r']
  testMode := false
  reviewStatus := if type = .applicantPending then some .pending else some .completed
  reviewMode := none
  reviewAnswer := if type = .applicantPending then none else some .red
  reviewRejectType := if type = .applicantPending then none else some .final

/-- The provider has rejected the applicant for good. -/
def sampleStatus (reviewDate : Option ℕ) : StatusAnswer :=
  ⟨['a'], .completed, some .red, some .final, reviewDate⟩

def sampleClient : Client :=
  ⟨fun text ↦ text, fun _ ↦ true, fun _ ↦ true⟩

def sampleSession : State :=
  ⟨some ⟨1, [], none⟩, [], [], ⟨1, none, 0⟩, []⟩

/-- Everything a call awaits comes. -/
def sampleAnswer (status : StatusAnswer) : (q : Wait) → State → q.Answer
  | .provider, _ => some (status, 100)
  | .store, _ => .answered
  | .turn, _ => ()

/-- The delivery of a callback up to its write. -/
def sampleDelivery (kind : StoreKind) (i : ℕ) (webhook : SumsubWebhook) (status : StatusAnswer) :
    List (Async.System.Event (sessionSystem kind)) :=
  let next : List (Async.System.Event (sessionSystem kind)) :=
    [.answer i (sampleAnswer status) fun _ _ ↦ trivial, .resume i]
  [.start i _ ⟨sampleClient, .inr ⟨webhook, rfl⟩⟩, .resume i] ++ next ++ next ++ next ++ next

/-- A review goes on at 10, and ends with a final rejection at 20. -/
def sampleRun (kind : StoreKind) (reviewDate : Option ℕ) :
    Async.System.Config State String Wait.Answer ℕ :=
  Async.System.play
    (sampleDelivery kind 0 (sampleWebhook .applicantPending 10) (sampleStatus none) ++
      sampleDelivery kind 1 (sampleWebhook .applicantReviewed 20) (sampleStatus reviewDate))
    ⟨sampleSession, fun _ ↦ none⟩

theorem created_sampleSession : Created sampleSession :=
  ⟨⟨[], rfl⟩, rfl, rfl⟩

/-- With the review dated, the rejection is kept. -/
theorem fence_kept_sampleRun : FenceLaw (sampleRun .redis (some 20)).state :=
  fence_kept .redis created_sampleSession (Async.System.reaches_play _ _) (by decide +kernel)

/-- **The fence can be lost**, in either store: with no date on its status answer, the final
rejection is stored as the review that went on before it. -/
theorem fence_law_fails :
    ¬(∀ c, (sessionSystem .inMemory).Reaches ⟨sampleSession, fun _ ↦ none⟩ c → FenceLaw c.state) ∧
      ¬∀ c, (sessionSystem .redis).Reaches ⟨sampleSession, fun _ ↦ none⟩ c → FenceLaw c.state := by
  refine ⟨fun h ↦ ?_, fun h ↦ ?_⟩
  · exact not_fenceLaw_of_softened (by decide +kernel)
      (h (sampleRun .inMemory none) (Async.System.reaches_play _ _))
  · exact not_fenceLaw_of_softened (by decide +kernel)
      (h (sampleRun .redis none) (Async.System.reaches_play _ _))

end Proofmark.Sumsub
