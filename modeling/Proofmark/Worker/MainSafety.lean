import Proofmark.Worker.WorkerRules

/-!
# The main thread

The main loop of `run` and the bootstrap of `init-worker-state.ts` make only moves that their rules
allow (`run_safe`, `initWorkerState_safe`). The main thread knows that the scope is bound once
`preflight` has bound it, and that there is a checkpoint once the scan has anchored itself; both
stay. Before a rewind it finds the pool empty, and nobody else fills it.
-/

open Async Async.Program

namespace Proofmark.Worker

variable {K : Packages} {T : Tools} {S : Settings} {w : World}

/-! ### What the main thread knows -/

/-- The scope is that of the settings. -/
def Bound (S : Settings) (w : World) : Prop :=
  w.file.scope = some S.scope

/-- The scan has its first checkpoint. -/
def Anchored (S : Settings) (w : World) : Prop :=
  Bound S w ∧ w.file.checkpoints ≠ []

/-- What the main thread knows stays, whatever the others do. -/
def Lasting (p : World → Prop) : Prop :=
  ∀ {w w'}, Rely 0 w w' → p w → p w'

theorem bound_lasting : Lasting (Bound S) :=
  fun h hbound ↦ h.scope _ hbound

theorem anchored_lasting : Lasting (Anchored S) :=
  fun h hanchored ↦ ⟨h.scope _ hanchored.1, h.checkpoints hanchored.2⟩

theorem Lasting.and {p q : World → Prop} (hp : Lasting p) (hq : Lasting q) :
    Lasting fun w ↦ p w ∧ q w :=
  fun h hpq ↦ ⟨hp h hpq.1, hq h hpq.2⟩

theorem pool_lasting : Lasting fun w ↦ w.pool = [] :=
  fun h ↦ h.main rfl

/-- An answer that the outside may give at some moment. -/
def Answered (K : Packages) (S : Settings) (q : Request) (a : q.Answer) : Prop :=
  ∃ w, Replied K S q a w

section Known

variable {p : World → Prop}

/-- A guard keeps what lasts. -/
theorem guard_keeps {β : Type} {t : WorkerTask β} (ht : Leaves (taskRules K S) 0 (Rely 0) t)
    (hp : Lasting p) : Keeps (workerRules K S) 0 p t :=
  (ht.refines taskRules_refines).keeps fun _ hrely ↦ hp hrely

theorem ask_answered (hp : Lasting p) (q : Request) (hpw : p w) :
    (ask 0 q).wp (workerRules K S) 0 (fun result w' ↦ p w' ∧ Answered K S q result) w := by
  intro w₁ a w₂ _ hw₂ hrely hanswer hrely'
  obtain ⟨hstep, hlast⟩ := (taskRules_guarded (K := K) (S := S) 0).heard q a hw₂
  exact ⟨.task hstep, fun _ ↦ ⟨hp hlast (hp hrely' (hp hrely hpw)), w₁, hanswer⟩⟩

theorem askBoth_answered (hp : Lasting p) (q r : Request) (hw : Inv K S w) (hpw : p w) :
    (askBoth 0 q r).wp (workerRules K S) 0 (fun result w' ↦ p w' ∧ ∀ a, result = .ok a →
      Answered K S q (.ok a.1) ∧ Answered K S r (.ok a.2)) w := by
  refine wp_seq hw (ask_answered hp .order hpw) (fun first w₁ hw₁ h₁ ↦ ?_)
    fun _ _ _ h ↦ ⟨h.1, nofun⟩
  split
  · refine wp_seq hw₁ (ask_answered hp q h₁.1) (fun a w₂ hw₂ h₂ ↦ ?_)
      fun _ _ _ h ↦ ⟨h.1, nofun⟩
    refine wp_seq hw₂ (ask_answered hp r h₂.1) (fun b w₃ _ h₃ ↦ ?_)
      fun _ _ _ h ↦ ⟨h.1, nofun⟩
    exact ⟨h₃.1, fun pair hpair ↦ Except.ok.inj hpair ▸ ⟨h₂.2, h₃.2⟩⟩
  · refine wp_seq hw₁ (ask_answered hp r h₁.1) (fun b w₂ hw₂ h₂ ↦ ?_)
      fun _ _ _ h ↦ ⟨h.1, nofun⟩
    refine wp_seq hw₂ (ask_answered hp q h₂.1) (fun a w₃ _ h₃ ↦ ?_)
      fun _ _ _ h ↦ ⟨h.1, nofun⟩
    exact ⟨h₃.1, fun pair hpair ↦ Except.ok.inj hpair ▸ ⟨h₃.2, h₂.2⟩⟩

/-- A save of the main thread, where what it knows holds of the new contents too. -/
theorem Allowed.main {next : Data} (h : Allowed K 0 w next) (hw : Inv K S w) (hp : p w)
    (hsame : ∀ rest, p w → p { w with disk := rest })
    (hsaved : ∀ rest, p { w.commit next with disk := rest }) :
    (commit next).wp (workerRules K S) 0 (fun _ ↦ p) w :=
  wp_refines taskRules_refines (h.commit_wp hw hsaved hsaved fun rest ↦ hsame rest hp)

end Known

/-! ### The deployment -/

theorem reload_safe : Keeps (workerRules K S) 0 (fun _ ↦ True) reload := by
  intro w hw _
  have hload : w.file.load = .ok w.file := hw.synced.2
  have hsame : ({ w with data := w.file } : World) = w :=
    congrArg (fun d ↦ ({ w with data := d } : World)) hw.synced.1.symm
  refine wp_call.2 ?_
  simp only [hload]
  rw [hsame]
  exact ⟨.task (.relay (.unsaved w.disk)), fun _ ↦ trivial⟩

/-- The scope that a deployed ASC confirms. -/
theorem Settings.Valid.scope_valid (hS : S.Valid K) (hasc : Monitor.address K S.scope.asc = true)
    {source : String} (hsource : K.isAddress source.toLower = true)
    (heq : source.toLower = S.sourceAddress.toLower) : S.scope.Valid K where
  sourceChainId := show 0 < 11155111 ∧ IsSafe 11155111 by decide
  hubChainId := show 0 < 102031 ∧ IsSafe 102031 by decide
  chainKey := hS.chainKey
  startBlock := hS.startBlock
  source := by
    have hnot := hS.source
    rw [Monitor.address, Settings.scope, toLower_toLower, ← heq, hsource]
    simpa [heq] using hnot
  asc := hasc
  signer := hS.signer.2

/-- The first contents of the file belong to a scope. -/
theorem bindScope_wp (hs : S.scope.Valid K) (hw : Inv K S w) :
    (bindScope S.scope).wp (workerRules K S) 0 (fun result w' ↦ result = .ok () → Bound S w')
      w := by
  rw [bindScope, wp_get_bind, hw.synced.1]
  rcases hscope : w.file.scope with - | bound
  · simp only
    split
    case isTrue => exact nofun
    case isFalse hempty =>
      push Not at hempty
      have hallowed : Allowed K 0 w { w.file with scope := some S.scope } := by
        refine ⟨hw.synced.2.of_eq rfl rfl,
          hw.lawful.bound hw.synced.2 hscope hempty.2 hs, rfl, fun s hs ↦ ?_, fun hne ↦ ?_,
          fun _ _ job _ hget ↦ ⟨job, hget, fun _ ↦ rfl⟩⟩
        · rw [hscope] at hs
          cases hs
        · exact absurd (hw.lawful.unbound hscope) hne
      exact wp_refines taskRules_refines
        (hallowed.commit_wp hw (fun _ _ ↦ rfl) (fun _ ↦ nofun) fun _ ↦ nofun)
  · simp only
    split
    case isTrue => exact nofun
    case isFalse hsame => exact fun _ ↦ hscope.trans (congrArg some (not_not.1 hsame))

section Preflight

theorem requireVersion_leaves (hub : Bool) (name : String) (want : ℕ)
    (unavailable unsupported : String) : Leaves (taskRules K S) 0 (Rely 0)
      (requireVersion 0 hub name want unavailable unsupported) := by
  refine (((taskRules_guarded 0).ask_leaves _).tryCatch fun _ ↦ leaves_throw _).bind
    fun version ↦ ?_
  split
  · exact leaves_throw _
  · exact leaves_pure _

theorem requireVersions_leaves (name : String) (want : ℕ) (unavailable unsupported : String) :
    Leaves (taskRules K S) 0 (Rely 0) (requireVersions 0 name want unavailable unsupported) := by
  refine (((taskRules_guarded 0).askBoth_leaves _ _).tryCatch fun _ ↦ leaves_throw _).bind
    fun versions ↦ ?_
  split
  · exact leaves_throw _
  · exact leaves_pure _

/-- A deployment that answers for the settings is one that the scope may be bound to. -/
theorem deployment_wp (hS : S.Valid K) {k : ℕ × String → WorkerTask Unit}
    {post : Except WorkerError Unit → World → Prop} (hw : Inv K S w)
    (hk : ∀ deployment w', Inv K S w' →
      (deployment.2.toLower = S.sourceAddress.toLower → S.scope.Valid K) →
      (k deployment).wp (workerRules K S) 0 post w') (hpost : ∀ e w', post (.error e) w') :
    (askBoth 0 .expectedChainKey .sourceContract >>= k).wp (workerRules K S) 0 post w := by
  refine wp_seq hw (askBoth_answered (p := fun _ ↦ True) (fun _ _ ↦ trivial) _ _ hw trivial)
    (fun deployment w' hw' h ↦ hk deployment w' hw' fun heq ↦ ?_) fun _ _ _ _ ↦ hpost _ _
  obtain ⟨⟨_, hasc⟩, ⟨_, hsource⟩⟩ := h.2 deployment rfl
  exact hS.scope_valid hasc hsource heq

theorem preflight_wp (hS : S.Valid K) (hw : Inv K S w) :
    (preflight S 0).wp (workerRules K S) 0 (fun result w' ↦ result = .ok () → Bound S w') w := by
  have hthen : ∀ {β : Type} {t : WorkerTask β} {k : β → WorkerTask Unit} {w : World},
      Leaves (taskRules K S) 0 (Rely 0) t → Inv K S w →
      (∀ b w', Inv K S w' → (k b).wp (workerRules K S) 0
        (fun result w' ↦ result = .ok () → Bound S w') w') →
      (t >>= k).wp (workerRules K S) 0 (fun result w' ↦ result = .ok () → Bound S w') w :=
    fun ht hw hk ↦ wp_seq hw (ht.refines taskRules_refines _ hw) (fun b w' hw' _ ↦ hk b w' hw')
      fun _ _ _ _ ↦ nofun
  refine hthen (requireVersion_leaves _ _ _ _ _) hw fun _ w₁ hw₁ ↦ ?_
  refine hthen (leaves_forM (fun hub ↦ requireVersion_leaves _ _ _ _ _) _) hw₁ fun _ w₂ hw₂ ↦ ?_
  refine hthen (leaves_forM (fun hub ↦ requireVersion_leaves _ _ _ _ _) _) hw₂ fun _ w₃ hw₃ ↦ ?_
  refine hthen (requireVersions_leaves _ _ _ _) hw₃ fun _ w₄ hw₄ ↦ ?_
  refine hthen (requireVersions_leaves _ _ _ _) hw₄ fun _ w₅ hw₅ ↦ ?_
  refine hthen ((taskRules_guarded 0).askBoth_leaves _ _) hw₅ fun networks w₆ hw₆ ↦ ?_
  split
  · exact nofun
  · refine deployment_wp hS hw₆ ?_ fun _ _ ↦ nofun
    rintro ⟨expectedKey, srcAddr⟩ w₇ hw₇ hvalid
    simp only
    split
    · exact nofun
    · split
      · exact nofun
      case isFalse hsource => exact bindScope_wp (hvalid (not_not.1 hsource)) hw₇

end Preflight

/-! ### The bootstrap -/

theorem initializeHubSigner_safe :
    Keeps (workerRules K S) 0 (fun _ ↦ True) (initializeHubSigner 0) := by
  refine (guard_keeps assertHubReady_leaves fun _ _ ↦ trivial).bind fun _ w hw _ ↦ ?_
  rw [wp_get_bind, hw.synced.1]
  rcases hnonce : w.file.hubStartNonce with - | nonce
  · have hallowed : Allowed K 0 w { w.file with hubStartNonce := some 0 } :=
      { loads := hw.synced.2.of_eq rfl rfl
        lawful := { hw.lawful with baseline := fun n hn ↦ Option.some.inj hn ▸ Nat.zero_le _ }
        relay := rfl
        scope := fun _ ↦ id
        checkpoints := id
        jobs := fun _ _ job _ hget ↦ ⟨job, hget, fun _ ↦ rfl⟩ }
    exact hallowed.main hw trivial (fun _ ↦ id) fun _ ↦ trivial
  · simp only
    split
    · exact trivial
    · exact trivial

theorem initializeHubRecovery_safe :
    Keeps (workerRules K S) 0 (fun _ ↦ True) (initializeHubRecovery 0) := by
  have htrue : Lasting fun _ ↦ True := fun _ _ ↦ trivial
  have hhold : ∀ reason, Keeps (workerRules K S) 0 (fun _ ↦ True)
      (holdHub reason : WorkerTask Unit) := fun reason ↦
    guard_keeps ((taskRules_guarded 0).holdHub_leaves (taskRules_holdsHub 0) reason) htrue
  refine (guard_keeps assertHubReady_leaves htrue).bind fun _ w hw _ ↦ ?_
  rw [wp_get_bind]
  split
  · exact hhold _ w hw trivial
  · split
    · exact hhold _ w hw trivial
    · refine ((guard_keeps ((taskRules_guarded 0).askBoth_leaves _ _) htrue).bind
        fun counts ↦ ?_) w hw trivial
      split
      · split
        · exact hhold _
        · exact initializeHubSigner_safe
      · exact keeps_throw _

/-- **The bootstrap keeps the rules.** -/
theorem initWorkerState_safe (hS : S.Valid K) (hw : Inv K S w) :
    (initWorkerState S 0).wp (workerRules K S) 0 (fun _ _ ↦ True) w := by
  refine wp_seq hw (((taskRules_guarded 0).askBoth_leaves _ _).refines taskRules_refines w hw)
    (fun networks w₁ hw₁ _ ↦ ?_) fun _ _ _ _ ↦ trivial
  refine deployment_wp hS hw₁ ?_ fun _ _ ↦ trivial
  rintro ⟨expectedKey, srcAddr⟩ w₂ hw₂ hvalid
  simp only
  split
  · exact trivial
  case isFalse hmatch =>
    push Not at hmatch
    refine wp_seq hw₂ (reload_safe w₂ hw₂ trivial) (fun _ w₃ hw₃ _ ↦ ?_) fun _ _ _ _ ↦ trivial
    refine wp_seq hw₃ (bindScope_wp (hvalid hmatch.2.2) hw₃) (fun _ w₄ hw₄ _ ↦ ?_)
      fun _ _ _ _ ↦ trivial
    exact initializeHubRecovery_safe w₄ hw₄ trivial

/-! ### The pool -/

/-- The reservations that dispatching adds. -/
theorem Reserves.dispatch (hbound : Bound S w) (capacity : ℕ)
    {pool : List (String × ℕ)} (h : Reserves S 0 w pool) {job : StoredJob}
    (hjob : job ∈ w.file.jobs.rows) : ∃ pool', Reserves S 0 w pool' ∧
      World.dispatch capacity { w with pool := pool } job = { w with pool := pool' } := by
  unfold World.dispatch World.tryRun
  split
  · exact ⟨pool, h, rfl⟩
  · split
    · exact ⟨pool, h, rfl⟩
    case isFalse hfree =>
      simp only [Bool.or_eq_true, not_or, Bool.not_eq_true] at hfree
      have hnew : ∀ p ∈ pool, p.1 ≠ job.txHash := by simpa using hfree.1.2
      refine ⟨pool ++ [(job.txHash, 0)], ⟨?_, ?_, fun id call hid hcall hne ↦
        List.mem_append_left _ (h.kept id call hid hcall hne), fun _ ↦ hbound,
        fun i src hactive ↦ List.mem_append_left _ (h.active i src hactive),
        fun hne ↦ absurd rfl hne, ?_⟩, rfl⟩
      · rw [List.map_append, List.map_singleton, List.nodup_append]
        refine ⟨h.ids, List.nodup_singleton _, fun id hid id' hid' ↦ ?_⟩
        obtain ⟨p, hp, rfl⟩ := List.mem_map.1 hid
        rw [List.mem_singleton.1 hid']
        exact hnew p hp
      · intro p hp q hq hcall hne
        rcases List.mem_append.1 hp with hp | hp
        · rcases List.mem_append.1 hq with hq | hq
          · exact h.calls p hp q hq hcall hne
          · rw [List.mem_singleton.1 hq] at hcall
            exact absurd hcall hne
        · rw [List.mem_singleton.1 hp] at hne
          exact absurd rfl hne
      · intro p hp
        rcases List.mem_append.1 hp with hp | hp
        · exact h.placed p hp
        · rw [List.mem_singleton.1 hp]
          exact ⟨job, Table.get_eq_some.2 ⟨hjob, rfl⟩⟩

/-- The reservations of the present. -/
theorem Inv.reserves (hw : Inv K S w) (hbound : Bound S w) : Reserves S 0 w w.pool :=
  ⟨hw.ids, hw.calls, fun _ _ hid _ _ ↦ hid, fun _ ↦ hbound, fun i src h ↦ (hw.active i src h).1,
    fun hne ↦ absurd rfl hne, hw.placed⟩

theorem schedulePending_spec (hw : Inv K S w) (hbound : Bound S w) (capacity : ℕ) :
    ∃ pool, Reserves S 0 w pool ∧ w.schedulePending capacity = { w with pool := pool } := by
  have hready : ∀ job ∈ w.jobsReadyForDispatch capacity, job ∈ w.file.jobs.rows := by
    intro job hjob
    have hpending : job ∈ w.data.pending := List.mem_of_mem_filter (List.mem_of_mem_take hjob)
    rw [hw.synced.1] at hpending
    rcases List.mem_append.1 hpending with h | h
    · exact List.mem_of_mem_filter (List.mem_of_mem_filter h)
    · exact List.mem_of_mem_filter (List.mem_of_mem_filter h)
  have hfold : ∀ (jobs : List StoredJob), (∀ job ∈ jobs, job ∈ w.file.jobs.rows) →
      ∀ pool, Reserves S 0 w pool → ∃ pool', Reserves S 0 w pool' ∧
        jobs.foldl (World.dispatch capacity) { w with pool := pool } = { w with pool := pool' } := by
    intro jobs
    induction jobs with
    | nil => exact fun _ pool h ↦ ⟨pool, h, rfl⟩
    | cons job jobs ih =>
      intro hrows pool h
      obtain ⟨pool', h', heq⟩ := h.dispatch hbound capacity (hrows job List.mem_cons_self)
      rw [List.foldl_cons, heq]
      exact ih (fun job hjob ↦ hrows job (List.mem_cons_of_mem _ hjob)) pool' h'
  exact hfold _ hready w.pool (hw.reserves hbound)

theorem schedulePending_safe : Keeps (workerRules K S) 0 (Bound S) (schedulePending S) := by
  intro w hw hbound
  obtain ⟨pool, hreserves, heq⟩ := schedulePending_spec hw hbound S.concurrency
  refine wp_call.2 ?_
  rw [heq]
  exact ⟨.pool hreserves, fun _ ↦ hbound⟩

end Proofmark.Worker
