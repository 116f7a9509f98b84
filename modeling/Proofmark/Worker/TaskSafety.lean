import Proofmark.Worker.WorkerRules

/-!
# The thread of a reservation

`runTask` makes only moves that its rules allow (`runTask_safe`). A call that runs a reservation
knows that its job is open (`Runs`) until a step of the relay closes it. When that step fails the
job is open still, unless a save was reported as failed, and then the worker stops: so
`recordFailure` never rewrites a closed job.
-/

open Async Async.Program

namespace Proofmark.Worker

variable {K : Packages} {T : Tools} {S : Settings} {me : ℕ} {id : String} {w w' : World}

/-- A call runs a reservation whose job is open, and does not hold the flag of the relay. -/
structure Runs (me : ℕ) (id : String) (w : World) : Prop where
  place : Place me id w
  idle : Idle me w
  pending : Pending id w

theorem Runs.kept (h : Runs me id w) (hw : Inv K S w) (hrely : Rely me w w') : Runs me id w' := by
  obtain ⟨hplace, hjob⟩ := hrely.place id h.place.1 h.place.2
  obtain ⟨job, hget⟩ := hw.placed _ h.place.1
  refine ⟨⟨hplace, h.place.2⟩, hrely.idle h.idle, fun job' hget' ↦ ?_⟩
  rw [← Option.some.inj ((hjob job hget).symm.trans hget')]
  exact h.pending job hget

/-- What a program of a reservation may end with: on an error the job is open still, unless a save
was reported as failed. -/
def Left (me : ℕ) (id : String) : Except WorkerError Unit → World → Prop
  | .ok _, w => Idle me w
  | .error e, w => Idle me w ∧ (e = .storeWrite ∨ Pending id w)

theorem Left.idle {result : Except WorkerError Unit} (h : Left me id result w) : Idle me w := by
  cases result with
  | ok => exact h
  | error => exact h.1

theorem Runs.left {e : WorkerError} (h : Runs me id w) : Left me id (.error e) w :=
  ⟨h.idle, .inr h.pending⟩

/-! ### Sequencing -/

/-- Sequencing after a part that leaves the reservation as it is. -/
theorem leaves_then {β : Type} {t : WorkerTask β} {k : β → WorkerTask Unit}
    (ht : Leaves (taskRules K S) me (Rely me) t) (hw : Inv K S w) (hruns : Runs me id w)
    (hk : ∀ b w', Inv K S w' → Runs me id w' → (k b).wp (taskRules K S) me (Left me id) w') :
    (t >>= k).wp (taskRules K S) me (Left me id) w :=
  wp_seq hw (ht w hw) (fun b w' hw' hrely ↦ hk b w' hw' (hruns.kept hw hrely))
    fun _ _ _ hrely ↦ (hruns.kept hw hrely).left

/-- While a call runs, its place in the pool stays. -/
theorem place_kept {β : Type} {t : WorkerTask β} {post : Except WorkerError β → World → Prop}
    (hw : Inv K S w) (hplace : Place me id w) (ht : t.wp (taskRules K S) me post w) :
    t.wp (taskRules K S) me (fun result w' ↦ post result w' ∧ Place me id w') w := by
  refine wp_frame (fun {w w'} _ (hmove : TaskMove K S me w w') hplace ↦ ?_)
    (fun {w w'} _ (hrely : Rely me w w') hplace ↦ ?_) hw hplace ht
  · exact ⟨hmove.pool_eq ▸ hplace.1, hplace.2⟩
  · exact ⟨(hrely.place id hplace.1 hplace.2).1, hplace.2⟩

theorem step_left (hK : K.Documented) (hS : S.Valid K) (preparation : Option Preparation)
    (hw : Inv K S w) (hruns : Runs me id w) :
    (RelaySender.step me S.hubConfirmations id preparation).wp (taskRules K S) me (Left me id) w := by
  have H := taskRules_hosts hK hS
  have hguard : Quiet (taskRules K S) (Knows K S) me
      (reconcileHubRecovery me S.hubConfirmations) := fun w hw ↦
    wp_mono hw (fun _ _ _ hrely ↦ H.rely hrely) (reconcileHubRecovery_rely me _ w hw)
  refine wp_mono hw (fun result w' _ h ↦ ?_) (H.step_safe hguard id preparation hw hruns.place)
  cases result with
  | ok => exact h.2 hruns.idle
  | error e => exact ⟨h.2 hruns.idle, h.1.imp_right fun h ↦ h hruns.pending⟩

/-! ### Writing the own job -/

/-- A patch of the own job may be written. -/
theorem Runs.allowed (hw : Inv K S w) (h : Runs me id w) {job : StoredJob} {patch : JobPatch}
    (hget : w.file.jobs.get id = some job) (hquery : patch.queryId = none)
    (hskip : patch.skipObservation = none)
    (hrelay : ∀ relay, w.file.relay = some relay → relay.sourceTxHash = id →
      patch.state.getD .submitted = .submitted)
    (hattempts : IsSafe (patch.attempts.getD job.attempts) ∧
      ((patch.state.getD job.state).terminal = false →
        IsSafe (patch.attempts.getD job.attempts + 1))) :
    Allowed K me w { w.file with jobs := w.file.jobs.set (job.patched patch w.clock) } := by
  obtain ⟨hjob, hkey⟩ := Table.get_eq_some.1 hget
  have hkey' : (job.patched patch w.clock).key = id := hkey
  have hset : ∀ other, (w.file.jobs.set (job.patched patch w.clock)).get other =
      if id = other then some (job.patched patch w.clock) else w.file.jobs.get other := by
    intro other
    rw [Table.get_set, hkey']
  refine ⟨loads_iff.2 fun relay hrel ↦ ?_, ?_, rfl, fun _ hs ↦ hs, fun hne ↦ hne, ?_⟩
  · obtain ⟨old, hold, hstate, htx, hq⟩ := loads_iff.1 hw.synced.2 relay hrel
    rw [hset]
    split
    case isTrue heq =>
      obtain rfl := Option.some.inj (hget.symm.trans (heq ▸ hold))
      have hsubmitted := hrelay relay hrel heq.symm
      refine ⟨_, rfl, ?_, htx, ?_⟩
      · change patch.state.getD job.state = .submitted
        rwa [hstate]
      · change patch.queryId.or job.queryId = some relay.queryId
        rw [hquery, Option.none_or, hq]
    case isFalse => exact ⟨old, hold, hstate, htx, hq⟩
  · refine hw.lawful.written (fun s hs ↦ ?_) hw.lawful.relay
    refine (hw.lawful.jobs s hs job hjob).pending_moved (h.pending job hget) rfl rfl rfl rfl rfl
      hattempts ?_
    change patch.skipObservation.or job.skipObservation = job.skipObservation
    rw [hskip, Option.none_or]
  · intro other call old hplace hold
    rw [hset]
    split
    case isTrue heq =>
      subst heq
      refine ⟨_, rfl, fun hne ↦ absurd ?_ hne⟩
      exact congrArg Prod.snd (List.inj_on_of_nodup_map hw.ids hplace h.place.1 rfl)
    case isFalse => exact ⟨old, hold, fun _ ↦ rfl⟩

/-- Changing the own job without closing it leaves the reservation as it is; closing it leaves the
call without the flag. -/
theorem update_wp (hw : Inv K S w) (hruns : Runs me id w) {patch : JobPatch}
    (hquery : patch.queryId = none) (hskip : patch.skipObservation = none)
    (hattempts : ∀ job, w.file.jobs.get id = some job → IsSafe (patch.attempts.getD job.attempts) ∧
      ((patch.state.getD job.state).terminal = false →
        IsSafe (patch.attempts.getD job.attempts + 1))) :
    (update id patch).wp (taskRules K S) me (fun result w' ↦ Left me id result w' ∧
      (patch.state.all (fun state ↦ !state.terminal) = true → result = .ok () → Runs me id w'))
      w := by
  rw [update, wp_get_bind, hw.synced.1]
  split
  case isTrue => exact ⟨hruns.left, fun _ h ↦ by cases h⟩
  case isFalse hfree =>
    rcases hget : w.file.jobs.get id with - | job
    · exact ⟨hruns.idle, fun _ _ ↦ hruns⟩
    · have hrelay : ∀ relay, w.file.relay = some relay → relay.sourceTxHash = id →
          patch.state.getD .submitted = .submitted := by
        intro relay hrelay hid
        rcases hstate : patch.state with - | state
        · rfl
        · by_contra hne
          exact hfree (by simpa [hrelay, hid, hstate] using hne)
      have hallowed := hruns.allowed hw hget hquery hskip hrelay (hattempts job hget)
      have hkey := (Table.get_eq_some.1 hget).2
      refine hallowed.commit_wp hw (fun rest ↦ ⟨hruns.idle, fun hopen _ ↦ ?_⟩)
        (fun _ ↦ ⟨⟨hruns.idle, .inl rfl⟩, fun _ h ↦ by cases h⟩)
        fun _ ↦ ⟨⟨hruns.idle, .inl rfl⟩, fun _ h ↦ by cases h⟩
      refine ⟨hruns.place, hruns.idle, fun job' hget' ↦ ?_⟩
      have hself := Table.get_set_self (t := w.file.jobs) (a := job.patched patch w.clock)
      rw [show (job.patched patch w.clock).key = id from hkey] at hself
      rw [← Option.some.inj (hself.symm.trans hget')]
      change (patch.state.getD job.state).terminal = false
      cases hstate : patch.state with
      | none => exact hruns.pending job hget
      | some state => simpa [hstate] using hopen

/-! ### Processing -/

theorem estimateGas_leaves (data : String) (continuityBlocks : ℕ) :
    Leaves (taskRules K S) me (Rely me) (estimateGas me data continuityBlocks) :=
  (((taskRules_guarded me).ask_leaves _).bind fun _ ↦ leaves_pure _).tryCatch fun _ ↦ leaves_pure _

theorem proofQueryId_leaves (proof : ProofAnswer) :
    Leaves (taskRules K S) me (Rely me) (proofQueryId T proof) := by
  unfold proofQueryId
  split
  · exact leaves_throw _
  · exact leaves_pure _

theorem attest_left (job : StoredJob) {k : Unit → WorkerTask Unit} (hw : Inv K S w)
    (hruns : Runs me job.txHash w) (hk : ∀ w', Inv K S w' → Runs me job.txHash w' →
      (k ()).wp (taskRules K S) me (Left me job.txHash) w') :
    (attest me job >>= k).wp (taskRules K S) me (Left me job.txHash) w := by
  have G := taskRules_guarded (K := K) (S := S) me
  unfold attest
  split
  · have hattested : (do
        ask me (.attestation job.blockNumber)
        assertCanonicalJob me job
        update job.txHash { state := some .attested }).wp (taskRules K S) me
          (fun result w' ↦ Left me job.txHash result w' ∧
            (result = Except.ok () → Runs me job.txHash w')) w := by
      refine wp_seq hw (G.ask_leaves _ w hw) (fun _ w₁ hw₁ hrely₁ ↦ ?_)
        fun _ _ _ hrely ↦ ⟨(hruns.kept hw hrely).left, nofun⟩
      have hruns₁ := hruns.kept hw hrely₁
      refine wp_seq hw₁ (G.assertCanonicalJob_leaves job w₁ hw₁) (fun _ w₂ hw₂ hrely₂ ↦ ?_)
        fun _ _ _ hrely ↦ ⟨(hruns₁.kept hw₁ hrely).left, nofun⟩
      have hruns₂ := hruns₁.kept hw₁ hrely₂
      refine wp_mono hw₂ (fun result w' _ h ↦ ⟨h.1, h.2 rfl⟩)
        (update_wp hw₂ hruns₂ rfl rfl fun stored hget ↦ ?_)
      obtain ⟨s, hs⟩ : ∃ s, w₂.file.scope = some s :=
        ⟨_, hw₂.bound (List.ne_nil_of_mem hruns₂.place.1)⟩
      have hlawful := hw₂.lawful.jobs s hs stored (Table.get_eq_some.1 hget).1
      exact ⟨hlawful.attempts.1, fun _ ↦ hlawful.attempts.2 (hruns₂.pending stored hget)⟩
    exact wp_seq hw hattested (fun _ w' hw' h ↦ hk w' hw' (h.2 rfl)) fun _ _ _ h ↦ h.1
  · exact hk w hw hruns

theorem submit_left (hK : K.Documented) (hS : S.Valid K) (job : StoredJob) (hw : Inv K S w)
    (hruns : Runs me job.txHash w) :
    (submit T S me job).wp (taskRules K S) me (Left me job.txHash) w := by
  refine leaves_then ((taskRules_guarded me).ask_leaves _) hw hruns fun proof w₁ hw₁ hruns₁ ↦ ?_
  split
  · exact hruns₁.left
  · split
    · exact hruns₁.left
    · refine leaves_then (proofQueryId_leaves _) hw₁ hruns₁ fun queryId w₂ hw₂ hruns₂ ↦ ?_
      refine leaves_then (estimateGas_leaves _ _) hw₂ hruns₂ fun gasLimit w₃ hw₃ hruns₃ ↦ ?_
      refine wp_get_bind.2 ?_
      split
      · exact hruns₃.idle
      · exact step_left hK hS _ hw₃ hruns₃

theorem process_left (hK : K.Documented) (hS : S.Valid K) (job : StoredJob) (hw : Inv K S w)
    (hruns : Runs me job.txHash w) :
    (process T S me job).wp (taskRules K S) me (Left me job.txHash) w := by
  refine wp_get_bind.2 ?_
  split
  · exact step_left hK hS _ hw hruns
  · split
    · exact hruns.left
    · split
      · exact hruns.left
      · refine leaves_then ((taskRules_guarded me).assertCanonicalJob_leaves job) hw hruns
          fun _ w₁ hw₁ hruns₁ ↦ ?_
        exact attest_left job hw₁ hruns₁ fun w₂ hw₂ hruns₂ ↦ submit_left hK hS job hw₂ hruns₂

/-- Only an open job is given a failure. -/
theorem recordFailure_idle (hS : S.Valid K) (job : StoredJob) (e : WorkerError) (hw : Inv K S w)
    (hruns : Runs me job.txHash w) :
    (recordFailure S job e).wp (taskRules K S) me (fun _ w' ↦ Idle me w') w := by
  have hsafe : ∀ stored, w.file.jobs.get job.txHash = some stored →
      IsSafe stored.attempts ∧ IsSafe (stored.attempts + 1) := by
    intro stored hget
    obtain ⟨s, hs⟩ : ∃ s, w.file.scope = some s :=
      ⟨_, hw.bound (List.ne_nil_of_mem hruns.place.1)⟩
    have hlawful := hw.lawful.jobs s hs stored (Table.get_eq_some.1 hget).1
    exact ⟨hlawful.attempts.1, hlawful.attempts.2 (hruns.pending stored hget)⟩
  have hidle : ∀ {patch : JobPatch} {result : Except WorkerError Unit} {w' : World},
      Left me job.txHash result w' ∧ (patch.state.all (fun state ↦ !state.terminal) = true →
        result = .ok () → Runs me job.txHash w') → Idle me w' := fun h ↦ h.1.idle
  refine wp_get_bind.2 ?_
  split
  · exact hruns.idle
  · split
    · exact hruns.idle
    · split
      · refine wp_mono hw (fun _ _ _ h ↦ hidle h)
          (update_wp hw hruns rfl rfl fun stored hget ↦ ?_)
        exact ⟨(hsafe stored hget).1, fun _ ↦ (hsafe stored hget).2⟩
      · obtain ⟨stored, hget⟩ := hw.placed _ hruns.place.1
        simp only [hw.synced.1, show w.file.jobs.get job.txHash = some stored from hget,
          Option.map_some, Option.getD_some]
        have hnext : ∀ stored', w.file.jobs.get job.txHash = some stored' →
            IsSafe (stored.attempts + 1) :=
          fun _ _ ↦ (hsafe stored hget).2
        split
        case isTrue =>
          refine wp_mono hw (fun _ _ _ h ↦ hidle h)
            (update_wp hw hruns rfl rfl fun stored' hget' ↦ ?_)
          exact ⟨hnext stored' hget', (by rintro ⟨⟩)⟩
        case isFalse hfew =>
          refine wp_mono hw (fun _ _ _ h ↦ hidle h)
            (update_wp hw hruns rfl rfl fun stored' hget' ↦ ?_)
          refine ⟨hnext stored' hget', fun _ ↦ hS.maxAttempts.of_le ?_⟩
          exact not_le.1 hfew

theorem processReserved_idle (hK : K.Documented) (hS : S.Valid K) (job : StoredJob)
    (hw : Inv K S w) (hruns : Runs me job.txHash w) :
    (processReserved T S me job).wp (taskRules K S) me (fun _ w' ↦ Idle me w') w := by
  have hprocess := place_kept hw hruns.place (process_left (T := T) hK hS job hw hruns)
  refine wp_tryCatch.2 (wp_mono hw (fun result w' hw' h ↦ ?_) hprocess)
  obtain ⟨hleft, hplace⟩ := h
  cases result with
  | ok => exact hleft
  | error e =>
    have hstop : (do
        stop
        throw e : WorkerTask Unit).wp (taskRules K S) me (fun _ w'' ↦ Idle me w'') w' :=
      ⟨.stopped, fun _ ↦ hleft.1⟩
    have hrecord : e ≠ .storeWrite → (recordFailure S job e).wp (taskRules K S) me
        (fun _ w'' ↦ Idle me w'') w' := fun hne ↦
      recordFailure_idle hS job e hw' ⟨hplace, hleft.1, hleft.2.resolve_left hne⟩
    cases e with
    | storeWrite => exact hstop
    | sourceSafety => exact hstop
    | relayBusy | hubSafety | stopped | error => exact hrecord nofun

theorem work_idle (hK : K.Documented) (hS : S.Valid K) (hw : Inv K S w) (hplace : Place me id w)
    (hidle : Idle me w) :
    (work T S me id).wp (taskRules K S) me (fun _ w' ↦ Idle me w') w := by
  refine wp_get_bind.2 ?_
  rw [hw.synced.1]
  rcases hget : w.file.jobs.get id with - | current
  · exact hidle
  · simp only
    split
    · exact hidle
    case isFalse hrun =>
      obtain rfl : current.txHash = id := (Table.get_eq_some.1 hget).2
      refine processReserved_idle hK hS current hw ⟨hplace, hidle, fun job hget' ↦ ?_⟩
      rw [← Option.some.inj (hget.symm.trans hget')]
      simp only [Bool.or_eq_true, not_or, Bool.not_eq_true] at hrun
      exact hrun.1

/-! ### The reservation -/

/-- A call that runs no reservation takes one, without the flag. -/
theorem begin_spec (hw : Inv K S w) (hbegin : (w.begin me).1 = some id) :
    ∃ pool, (w.begin me).2 = { w with pool := pool } ∧ Reserves S me w pool ∧ (id, me) ∈ pool ∧
      Idle me w := by
  unfold World.begin at hbegin ⊢
  split at hbegin
  case h_2 => cases hbegin
  case h_1 id' call hfree hfind =>
    obtain rfl := Option.some.inj hbegin
    obtain rfl : call = 0 := by simpa using List.find?_some hfind
    have hmem := List.mem_of_find?_eq_some hfind
    have hnot : ∀ p ∈ w.pool, p.2 ≠ me := by simpa using hfree
    -- the other entries stay as they are
    have hkept : ∀ p ∈ w.pool, p.2 ≠ 0 → (if p.1 = id' then (id', me) else p) = p := by
      intro p hp hcall
      refine if_neg fun heq ↦ hcall ?_
      rw [List.inj_on_of_nodup_map hw.ids hp hmem heq]
    have hfst : (w.pool.map fun p ↦ if p.1 = id' then (id', me) else p).map Prod.fst =
        w.pool.map Prod.fst := by
      rw [List.map_map]
      refine List.map_congr_left fun p _ ↦ ?_
      rw [Function.comp_apply]
      split
      case isTrue heq => exact heq.symm
      case isFalse => rfl
    refine ⟨_, rfl, ⟨hfst ▸ hw.ids, ?_, ?_, ?_, ?_, fun _ h ↦ by rw [h]; rfl, ?_⟩, ?_, ?_⟩
    · intro p hp q hq hcall hne
      obtain ⟨p', hp', rfl⟩ := List.mem_map.1 hp
      obtain ⟨q', hq', rfl⟩ := List.mem_map.1 hq
      by_cases hp₀ : p'.1 = id' <;> by_cases hq₀ : q'.1 = id' <;>
        simp only [hp₀, hq₀, if_true, if_false] at hcall hne ⊢
      · exact absurd hcall.symm (hnot q' hq')
      · exact absurd hcall (hnot p' hp')
      · exact hw.calls p' hp' q' hq' hcall hne
    · intro other call hp _ hcall
      exact List.mem_map.2 ⟨(other, call), hp, hkept _ hp hcall⟩
    · exact fun _ ↦ hw.bound (List.ne_nil_of_mem hmem)
    · intro i src hactive
      obtain ⟨hp, hi⟩ := hw.active i src hactive
      exact List.mem_map.2 ⟨(src, i), hp, hkept _ hp hi⟩
    · intro p hp
      obtain ⟨p', hp', rfl⟩ := List.mem_map.1 hp
      obtain ⟨job, hget⟩ := hw.placed p' hp'
      refine ⟨job, ?_⟩
      split
      case isTrue heq => rwa [← heq]
      case isFalse => exact hget
    · exact List.mem_map.2 ⟨(id', 0), hmem, if_pos rfl⟩
    · exact fun src hactive ↦ hnot _ (hw.active me src hactive).1 rfl

/-- A call without the flag may give its place back. -/
theorem Reserves.released (hw : Inv K S w) (hplace : Place me id w) (hidle : Idle me w) :
    Reserves S me w (w.pool.filter (·.1 ≠ id)) := by
  have hother : ∀ {p}, p ∈ w.pool → p.2 ≠ me → p ∈ w.pool.filter (·.1 ≠ id) := by
    intro p hp hcall
    refine List.mem_filter.2 ⟨hp, decide_eq_true fun heq ↦ hcall ?_⟩
    rw [List.inj_on_of_nodup_map hw.ids hp hplace.1 heq]
  have hsub : ∀ {p}, p ∈ w.pool.filter (·.1 ≠ id) → p ∈ w.pool := List.mem_of_mem_filter
  refine ⟨(List.filter_sublist.map Prod.fst).nodup hw.ids, fun p hp q hq ↦
    hw.calls p (hsub hp) q (hsub hq), fun other call hp hcall _ ↦ hother hp hcall, fun hne ↦ ?_,
    fun i src hactive ↦ ?_, fun _ h ↦ by rw [h]; rfl, fun p hp ↦ hw.placed p (hsub hp)⟩
  · exact hw.bound fun hpool ↦ hne (by rw [hpool]; rfl)
  · refine hother (hw.active i src hactive).1 ?_
    rintro rfl
    exact hidle src hactive

/-- **The thread of a reservation keeps the rules.** -/
theorem runTask_safe (hK : K.Documented) (hS : S.Valid K) (hw : Inv K S w) (hme : me ≠ 0) :
    (runTask T S me).wp (workerRules K S) me (fun _ _ ↦ True) w := by
  refine wp_bind.2 (wp_call.2 ?_)
  rcases hbegin : (w.begin me).1 with - | id
  · have hsame : (w.begin me).2 = w := by
      unfold World.begin at hbegin ⊢
      split at hbegin
      · cases hbegin
      · rfl
    rw [hsame]
    exact ⟨.task (.relay (.unsaved w.disk)), fun _ ↦ trivial⟩
  · obtain ⟨pool, hworld, hreserves, hmem, hidle⟩ := begin_spec hw hbegin
    rw [hworld]
    refine ⟨.pool hreserves, fun hw₁ ↦ ?_⟩
    have hplace : Place me id { w with pool := pool } := ⟨hmem, hme⟩
    have hwork := place_kept hw₁ hplace (work_idle (T := T) hK hS hw₁ hplace hidle)
    refine wp_finallySet.2 (wp_tryCatch.2 (wp_refines taskRules_refines
      (wp_mono hw₁ (fun result w' hw' h ↦ ?_) hwork)))
    cases result with
    | ok => exact ⟨.pool (.released hw' h.2 h.1), fun _ ↦ trivial⟩
    | error e =>
      refine ⟨.task .stopped, fun hw'' ↦ ⟨.pool (.released hw'' h.2 h.1), fun _ ↦ trivial⟩⟩

end Proofmark.Worker
