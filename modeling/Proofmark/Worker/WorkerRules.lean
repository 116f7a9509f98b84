import Proofmark.Pipeline.Addresses
import Proofmark.Worker.Process
import Proofmark.Worker.RelayRules
import Proofmark.Worker.ScanLaws

/-!
# What the threads of a worker may do

The rules under which the threads of one process run. `Replied` is what the outside may answer: the
transport's answers come from replies of the hub's endpoint, and what a library formats has the
shape it formats. `Inv` holds at every moment: memory and file agree, the file is lawful, and the
reservations of the pool are of distinct jobs and run by distinct calls.

A thread of a reservation may take the steps of the relay and write its own job (`TaskMove`); the
main thread, which is call 0, also moves the scan and reserves places (`WorkerMove`). In return a
thread relies on its place in the pool and on its own job (`Rely`), and the main thread on an empty
pool to stay empty.
-/

open Async Async.Program

namespace Proofmark.Worker

variable (K : Packages) (S : Settings)

/-- What `config.ts` requires: the numbers are positive safe integers, and the signer is the address
of a key. The source is a deployed contract. -/
structure Settings.Valid : Prop where
  chainKey : 0 < S.chainKey ∧ IsSafe S.chainKey
  startBlock : 0 < S.startBlock ∧ IsSafe S.startBlock
  hubConfirmations : 0 < S.hubConfirmations
  maxAttempts : IsSafe S.maxAttempts
  signer : Monitor.address K S.signer = true ∧ Monitor.address K S.signer.toLower = true
  source : S.sourceAddress.toLower ≠ "0x0000000000000000000000000000000000000000"

/-! ### What the outside may answer -/

/-- The answers that the endpoints, the transport and the libraries may give. -/
def Replied : (q : Request) → q.Answer → World → Prop
  | .observeProcessed queryId expected, .ok observation, w => ∃ r : EvmRelayTransport.QueryReply,
      r.Safe w.clock ∧
        EvmRelayTransport.observeProcessed S.hubConfirmations queryId expected r = .ok observation
  | .prepare sourceTxHash queryId data _, .ok relay, _ => ∃ r : EvmRelayTransport.PrepareReply,
      IsSafe r.nonce ∧ Monitor.address K r.to_ = true ∧ r.to_.toLower = S.ascAddress.toLower ∧
        EvmRelayTransport.prepare K S.signer sourceTxHash queryId data r = .ok relay
  -- a number of a block is a safe integer
  | .sourceBlock _, .ok block, _ => ∀ b, block = some b → ∀ n, b.number = some n → IsSafe n
  -- an array is shorter than 2^32, and `ethers` formats hashes as 32 bytes of hex
  | .sourceLogs _ _ _, .ok logs, _ => logs.length < 4294967296 ∧ ∀ l ∈ logs,
      isHash l.transactionHash = true ∧ ∀ n, l.transactionIndex = some n → IsSafe n
  -- a contract answers only at an address, and what it answers as one is one
  | .expectedChainKey, .ok _, _ => Monitor.address K S.scope.asc = true
  | .sourceContract, .ok t, _ => K.isAddress t.toLower = true
  | _, _, _ => True

/-- What is known of an answer that a call of the relay has heard. -/
def Fine (now : ℕ) : Entry → Prop
  | .heard _ (.observeProcessed queryId expected) (.ok observation) =>
    (expected = none → isHash queryId = true) ∧
      (observation.status = .confirmed → Checkable observation.toSkipObservation now)
  | .heard _ (.prepare _ queryId _ _) (.ok relay) =>
    isHash queryId = true → relay.queryId = queryId → relay.Of K S.scope
  | _ => True

/-- A call knows what it has heard. -/
def Knows (_ : ℕ) (seen : List Entry) (w : World) : Prop :=
  ∀ e ∈ seen, Fine K S w.clock e

/-- A call may step for the job that it has reserved. -/
def Place (me : ℕ) (src : String) (w : World) : Prop :=
  (src, me) ∈ w.pool ∧ me ≠ 0

variable {K S}

theorem toLower_toLower (t : String) : t.toLower.toLower = t.toLower := by
  show String.map Char.toLower (String.map Char.toLower t) = String.map Char.toLower t
  rw [String.map_map]
  exact congrArg (fun f ↦ String.map f t) (funext Pipeline.toLower_toLower)

theorem Fine.mono {now now' : ℕ} {e : Entry} (h : Fine K S now e) (hnow : now ≤ now') :
    Fine K S now' e := by
  unfold Fine at h ⊢
  split at h
  · exact ⟨h.1, fun hstatus ↦ (h.2 hstatus).mono hnow⟩
  · exact h
  · trivial

theorem Knows.mono {me : ℕ} {seen : List Entry} {w w' : World} (h : Knows K S me seen w)
    (hclock : w.clock ≤ w'.clock) : Knows K S me seen w' :=
  fun e he ↦ (h e he).mono hclock

/-- **What the outside answers is fine.** -/
theorem Replied.fine (hK : K.Documented) (hS : S.Valid K) {me : ℕ} {q : Request} {a : q.Answer}
    {w : World} (h : Replied K S q a w) : Fine K S w.clock (.heard me q a) := by
  unfold Fine
  split
  case h_1 heq =>
    cases heq
    obtain ⟨r, hr, hreply⟩ := h
    exact EvmRelayTransport.observeProcessed_confirmed hS.hubConfirmations hr hreply
  case h_2 heq =>
    cases heq
    obtain ⟨r, hnonce, hto, hlower, hreply⟩ := h
    intro hquery _
    rw [EvmRelayTransport.prepare_ok hreply]
    exact {
      hash := hK.keccak256 _
      queryId := hquery
      nonce := hnonce
      chainId := rfl
      to_ := ⟨hto, hlower.trans (toLower_toLower _).symm⟩
      signer := ⟨hS.signer.1, (toLower_toLower _).symm⟩ }
  case h_3 => trivial

/-! ### The invariant -/

variable (K S)

/-- **What holds at every moment of a process.** -/
structure Inv (w : World) : Prop where
  synced : w.Synced
  lawful : Lawful K w.clock w.file
  bound : w.pool ≠ [] → w.file.scope = some S.scope
  ids : (w.pool.map Prod.fst).Nodup
  calls : ∀ p ∈ w.pool, ∀ q ∈ w.pool, p.2 = q.2 → p.2 ≠ 0 → p = q
  placed : ∀ p ∈ w.pool, ∃ job, w.file.jobs.get p.1 = some job
  active : ∀ i src, w.active = some (i, src) → (src, i) ∈ w.pool ∧ i ≠ 0

/-! ### What a thread may do -/

section Moves

variable (me : ℕ) (w : World)

/-- New contents of the file that a thread may write outside the steps of the relay. -/
structure Allowed (next : Data) : Prop where
  loads : next.Loads
  lawful : Lawful K w.clock next
  relay : next.relay = w.file.relay
  scope : ∀ s, w.file.scope = some s → next.scope = some s
  checkpoints : w.file.checkpoints ≠ [] → next.checkpoints ≠ []
  jobs : ∀ id call job, (id, call) ∈ w.pool → w.file.jobs.get id = some job →
    ∃ job', next.jobs.get id = some job' ∧ (call ≠ me → job' = job)

/-- New reservations: those that other calls run stay. -/
structure Reserves (pool : List (String × ℕ)) : Prop where
  ids : (pool.map Prod.fst).Nodup
  calls : ∀ p ∈ pool, ∀ q ∈ pool, p.2 = q.2 → p.2 ≠ 0 → p = q
  kept : ∀ id call, (id, call) ∈ w.pool → call ≠ me → call ≠ 0 → (id, call) ∈ pool
  bound : pool ≠ [] → w.file.scope = some S.scope
  active : ∀ i src, w.active = some (i, src) → (src, i) ∈ pool
  main : me ≠ 0 → w.pool = [] → pool = []
  placed : ∀ p ∈ pool, ∃ job, w.file.jobs.get p.1 = some job

/-- What a call may do while it runs a reservation. -/
inductive TaskMove : World → Prop
  | relay {w' : World} (h : RelayMove (Knows K S) Place me w w') : TaskMove w'
  | saved {next : Data} (rest : List SaveOutcome) (h : Allowed K me w next) :
      TaskMove { w.commit next with disk := rest }
  | stopped : TaskMove { w with stopped := true }

/-- What a thread may do. -/
inductive WorkerMove : World → Prop
  | task {w' : World} (h : TaskMove K S me w w') : WorkerMove w'
  | pool {next : List (String × ℕ)} (h : Reserves S me w next) : WorkerMove { w with pool := next }

end Moves

/-- What a thread relies on, and keeps itself where it does not say more. -/
structure Rely (me : ℕ) (w w' : World) : Prop extends Kept me w w' where
  clock : w.clock ≤ w'.clock
  scope : ∀ s, w.file.scope = some s → w'.file.scope = some s
  checkpoints : w.file.checkpoints ≠ [] → w'.file.checkpoints ≠ []
  idle : Idle me w → Idle me w'
  place : ∀ id, (id, me) ∈ w.pool → me ≠ 0 → (id, me) ∈ w'.pool ∧
    ∀ job, w.file.jobs.get id = some job → w'.file.jobs.get id = some job
  main : me = 0 → w.pool = [] → w'.pool = []

/-- The rules of a thread while it runs a reservation. -/
def taskRules : Rules World Request.Answer ℕ where
  inv := Inv K S
  answers := Replied K S
  step := TaskMove K S
  rely := Rely

/-- The rules of a process. -/
def workerRules : Rules World Request.Answer ℕ where
  inv := Inv K S
  answers := Replied K S
  step := WorkerMove K S
  rely := Rely

variable {K S}

theorem taskRules_refines : (taskRules K S).Refines (workerRules K S) :=
  ⟨id, id, .task, id⟩

theorem Rely.refl (me : ℕ) (w : World) : Rely me w w where
  toKept := .refl me w
  clock := le_rfl
  scope _ := id
  checkpoints := id
  idle := id
  place _ h _ := ⟨h, fun _ ↦ id⟩
  main _ := id

instance (me : ℕ) : Std.Refl (Rely me) :=
  ⟨Rely.refl me⟩

instance (me : ℕ) : IsTrans World (Rely me) where
  trans _ _ _ h h' :=
    { toKept := h.toKept.trans h'.toKept
      clock := h.clock.trans h'.clock
      scope := fun s hs ↦ h'.scope s (h.scope s hs)
      checkpoints := fun hne ↦ h'.checkpoints (h.checkpoints hne)
      idle := fun hidle ↦ h'.idle (h.idle hidle)
      place := fun id hid hme ↦ by
        obtain ⟨hplace, hjob⟩ := h.place id hid hme
        obtain ⟨hplace', hjob'⟩ := h'.place id hplace hme
        exact ⟨hplace', fun job hget ↦ hjob' job (hjob job hget)⟩
      main := fun hme hpool ↦ h'.main hme (h.main hme hpool) }

/-- A world that differs in nothing that a thread relies on. -/
theorem Rely.of_eq {me : ℕ} {w w' : World} (hlog : w.log <+: w'.log)
    (hactive : w'.active = w.active) (hrelay : w'.file.relay = w.file.relay)
    (hjobs : w'.file.jobs = w.file.jobs) (hscope : w'.file.scope = w.file.scope)
    (hcheckpoints : w'.file.sourceCheckpoints = w.file.sourceCheckpoints)
    (hpool : w'.pool = w.pool) (hclock : w.clock ≤ w'.clock) : Rely me w w' where
  toKept := .of_eq hlog hactive hrelay hjobs
  clock := hclock
  scope s hs := hscope.trans hs
  checkpoints hne := by
    rw [Data.checkpoints, hcheckpoints]
    exact hne
  idle hidle src := hactive ▸ hidle src
  place id hid _ := ⟨hpool ▸ hid, fun job hget ↦ hjobs ▸ hget⟩
  main _ h := hpool.trans h

/-! ### What a step of the relay writes -/

section Write

variable {me : ℕ} {w : World} {next : Data}

/-- A step writes no job but the one that it works on. -/
theorem Write.frame {Stands : ℕ → List Entry → World → Prop} (h : Write Stands me w next) :
    next.scope = w.file.scope ∧ next.sourceCheckpoints = w.file.sourceCheckpoints ∧
      ∀ id job, w.file.jobs.get id = some job →
        ∃ job', next.jobs.get id = some job' ∧ (w.active ≠ some (me, id) → job' = job) := by
  -- the write replaces the job of the flag, and nothing else
  have hset : ∀ {src : String} {old new : StoredJob}, w.active = some (me, src) →
      w.file.jobs.get src = some old → new.key = old.key → next.jobs = w.file.jobs.set new →
      ∀ id job, w.file.jobs.get id = some job →
        ∃ job', next.jobs.get id = some job' ∧ (w.active ≠ some (me, id) → job' = job) := by
    intro src old new hactive hold hkey hjobs id job hget
    have hsrc : new.key = src := hkey.trans (Table.get_eq_some.1 hold).2
    rw [hjobs, Table.get_set, hsrc]
    split
    case isTrue heq => exact ⟨new, rfl, fun hne ↦ absurd (heq ▸ hactive) hne⟩
    case isFalse => exact ⟨job, hget, fun _ ↦ rfl⟩
  cases h with
  | held => exact ⟨rfl, rfl, fun id job hget ↦ ⟨job, hget, fun _ ↦ rfl⟩⟩
  | noted _ active get => exact ⟨rfl, rfl, hset active get (by rfl) rfl⟩
  | reserved _ active _ get => exact ⟨rfl, rfl, hset active get (by rfl) rfl⟩
  | finished active _ get => exact ⟨rfl, rfl, hset active get (by rfl) rfl⟩
  | skipped active _ get => exact ⟨rfl, rfl, hset active get (by rfl) rfl⟩

/-- **A step of the relay keeps the file lawful.** -/
theorem Write.lawful (hw : Inv K S w) (h : Write (Knows K S) me w next) :
    Lawful K w.clock next := by
  have hlawful := hw.lawful
  -- the scope is the one that the process has bound
  have hbound : ∀ {src s}, w.active = some (me, src) → w.file.scope = some s → s = S.scope := by
    intro src s hactive hs
    have hpool := List.ne_nil_of_mem (hw.active me src hactive).1
    exact Option.some.inj (hs.symm.trans (hw.bound hpool))
  have hjob : ∀ {src s job}, w.file.scope = some s → w.file.jobs.get src = some job →
      LawfulJob s.startBlock w.file.cursor w.clock job :=
    fun hs hget ↦ hlawful.jobs _ hs _ (Table.get_eq_some.1 hget).1
  cases h with
  | held => exact { hlawful with }
  | @noted src job error _ get pending =>
    refine hlawful.written (fun s hs ↦ ?_) hlawful.relay
    have hold := hjob hs get
    exact hold.pending_moved pending rfl rfl rfl rfl rfl hold.attempts rfl
  | @reserved job preparation query relay active _ get pending query_eq heard =>
    refine hlawful.written (fun s hs ↦ ?_) fun s hs r hr ↦ ?_
    · have hold := hjob hs get
      exact hold.pending_moved pending rfl rfl rfl rfl rfl
        ⟨hold.attempts.1, fun _ ↦ hold.attempts.2 pending⟩ rfl
    · obtain rfl := Option.some.inj hr
      rw [hbound active hs]
      have hquery := (heard _ List.mem_cons_self).1 rfl
      exact heard _ (List.mem_cons_of_mem _ List.mem_cons_self) hquery query_eq
  | @finished job relay receipt _ relay_eq get _ =>
    refine hlawful.written (fun s hs ↦ ?_) nofun
    have hold := hjob hs get
    obtain ⟨job', hget', hsubmitted, -⟩ := loads_iff.1 hw.synced.2 relay relay_eq
    obtain rfl := Option.some.inj (get.symm.trans hget')
    have hpending : job.state.terminal = false := by rw [hsubmitted]; rfl
    exact hold.pending_moved hpending rfl rfl rfl rfl rfl
      ⟨hold.attempts.1, fun _ ↦ hold.attempts.2 hpending⟩ rfl
  | @skipped src queryId job query final _ _ get pending _ again _ _ heard =>
    refine hlawful.written (fun s hs ↦ ?_) hlawful.relay
    have hold := hjob hs get
    refine hold.moved rfl rfl rfl rfl rfl ⟨hold.attempts.1, nofun⟩ fun o ho ↦ ⟨rfl, ?_⟩
    obtain rfl := Option.some.inj ho
    exact (heard _ (List.mem_cons_of_mem _ List.mem_cons_self)).2 again

end Write

/-! ### The rules are kept -/

section Kept

variable {i j : ℕ} {w w' : World}

/-- Another call's place in the pool is not for the job that a call works on. -/
theorem Inv.place_ne (hw : Inv K S w) {src id : String} (hactive : w.active = some (i, src))
    (hplace : (id, j) ∈ w.pool) (hij : j ≠ i) : id ≠ src := by
  rintro rfl
  have heq := List.inj_on_of_nodup_map hw.ids (hw.active i id hactive).1 hplace rfl
  exact hij (congrArg Prod.snd heq).symm

theorem TaskMove.inv (hw : Inv K S w) (h : TaskMove K S i w w') : Inv K S w' := by
  cases h with
  | relay h =>
    cases h with
    | enter src may free relay =>
      refine { hw with active := fun j src' hactive ↦ ?_ }
      obtain ⟨rfl, rfl⟩ := Prod.mk.inj (Option.some.inj hactive)
      exact may
    | leave => exact { hw with active := nofun }
    | heard | sent | unsaved => exact { hw with }
    | @saved next rest loads write =>
      obtain ⟨hscope, -, hjobs⟩ := write.frame
      have hlawful : Lawful K w.clock next := write.lawful hw
      exact { hw with
        synced := ⟨rfl, loads⟩
        lawful := hlawful
        bound := fun hpool ↦ hscope.trans (hw.bound hpool)
        placed := fun p hp ↦ by
          obtain ⟨job, hget⟩ := hw.placed p hp
          obtain ⟨job', hget', -⟩ := hjobs p.1 job hget
          exact ⟨job', hget'⟩ }
  | saved rest h =>
    exact { hw with
      synced := ⟨rfl, h.loads⟩
      lawful := h.lawful
      bound := fun hpool ↦ h.scope _ (hw.bound hpool)
      placed := fun p hp ↦ by
        obtain ⟨job, hget⟩ := hw.placed p hp
        obtain ⟨job', hget', -⟩ := h.jobs p.1 p.2 job hp hget
        exact ⟨job', hget'⟩ }
  | stopped => exact { hw with }

theorem TaskMove.pool_eq (h : TaskMove K S i w w') : w'.pool = w.pool := by
  cases h with
  | relay h => cases h <;> rfl
  | saved => rfl
  | stopped => rfl

/-- **What a call does, the others may live with.** -/
theorem TaskMove.rely (hw : Inv K S w) (h : TaskMove K S i w w') (hij : j ≠ i) : Rely j w w' := by
  cases h with
  | relay h =>
    have hkept := h.kept hij
    cases h with
    | enter src may free relay =>
      refine { Rely.refl j w with toKept := hkept, idle := fun _ src' hactive ↦ ?_ }
      exact hij (congrArg Prod.fst (Option.some.inj hactive)).symm
    | leave =>
      exact { Rely.refl j w with toKept := hkept, idle := fun _ _ ↦ nofun }
    | heard q a => exact .of_eq (List.prefix_append _ _) rfl rfl rfl rfl rfl rfl le_rfl
    | sent => exact .of_eq (List.prefix_append _ _) rfl rfl rfl rfl rfl rfl le_rfl
    | unsaved => exact .of_eq (List.prefix_refl _) rfl rfl rfl rfl rfl rfl le_rfl
    | @saved next rest loads write =>
      obtain ⟨hscope, hcheckpoints, hjobs⟩ := write.frame
      refine { Rely.refl j w with
        toKept := hkept
        scope := fun s hs ↦ hscope.trans hs
        checkpoints := fun hne ↦ ?_
        place := fun id hid _ ↦ ⟨hid, fun job hget ↦ ?_⟩ }
      · change next.checkpoints ≠ []
        rw [Data.checkpoints, hcheckpoints]
        exact hne
      · obtain ⟨job', hget', hsame⟩ := hjobs id job hget
        rw [← hsame fun hactive ↦ hw.place_ne hactive hid hij rfl]
        exact hget'
  | @saved next rest h =>
    have hown : ∀ id, (id, j) ∈ w.pool → ∀ job, w.file.jobs.get id = some job →
        next.jobs.get id = some job := by
      intro id hid job hget
      obtain ⟨job', hget', hsame⟩ := h.jobs id j job hid hget
      rw [← hsame hij]
      exact hget'
    exact
      { log := List.prefix_append _ _
        active := id
        relay := fun _ ↦ h.relay
        pending := fun {src} hactive hpending job hget ↦ by
          obtain ⟨old, hold⟩ := hw.placed _ (hw.active j src hactive).1
          have hkept := hown src (hw.active j src hactive).1 old hold
          exact Option.some.inj (hkept.symm.trans hget) ▸ hpending old hold
        clock := le_rfl
        scope := h.scope
        checkpoints := h.checkpoints
        idle := id
        place := fun id hid _ ↦ ⟨hid, hown id hid⟩
        main := fun _ ↦ id }
  | stopped => exact .of_eq (List.prefix_refl _) rfl rfl rfl rfl rfl rfl le_rfl

theorem WorkerMove.inv (hw : Inv K S w) (h : WorkerMove K S i w w') : Inv K S w' := by
  cases h with
  | task h => exact h.inv hw
  | pool h =>
    exact { hw with
      bound := h.bound
      ids := h.ids
      calls := h.calls
      placed := h.placed
      active := fun k src hactive ↦ ⟨h.active k src hactive, (hw.active k src hactive).2⟩ }

theorem WorkerMove.rely (hw : Inv K S w) (h : WorkerMove K S i w w') (hij : j ≠ i) :
    Rely j w w' := by
  cases h with
  | task h => exact h.rely hw hij
  | pool h =>
    exact { Rely.refl j w with
      toKept := .of_eq (List.prefix_refl _) rfl rfl rfl
      place := fun id hid hj ↦ ⟨h.kept id j hid hij hj, fun _ hget ↦ hget⟩
      main := fun hj ↦ h.main (hj ▸ hij.symm) }

end Kept

/-! ### The relay and the guards under the rules -/

theorem taskRules_hosts (hK : K.Documented) (hS : S.Valid K) :
    Hosts (taskRules K S) (Knows K S) Place where
  synced hw := hw.synced
  step := .relay
  rely hrely := ⟨hrely.toKept, fun _ hseen ↦ hseen.mono hrely.clock⟩
  nil _ _ := nofun
  heard {me} {q} {a} {w₁} {w₂} {_} {_} _ _ hanswer hrely _ hseen e he := by
    rcases List.mem_append.1 he with he | he
    · exact (hseen e he).mono hrely.clock
    · rw [List.mem_singleton.1 he]
      exact (hanswer.fine hK hS).mono hrely.clock
  note _ _ hseen := hseen
  unsaved _ hseen := hseen
  held _ _ hseen := hseen

/-- A save of something else than jobs, the envelope, the scope and the checkpoints. -/
theorem Rely.saved {me : ℕ} {w : World} {next : Data} (rest : List SaveOutcome)
    (hrelay : next.relay = w.file.relay) (hjobs : next.jobs = w.file.jobs)
    (hscope : next.scope = w.file.scope)
    (hcheckpoints : next.sourceCheckpoints = w.file.sourceCheckpoints) :
    Rely me w { w.commit next with disk := rest } :=
  .of_eq (List.prefix_append _ _) rfl hrelay hjobs hscope hcheckpoints rfl le_rfl

/-- The three ways in which a save of a thread may end. -/
theorem Allowed.commit_wp {me : ℕ} {w : World} {next : Data}
    {post : Except WorkerError Unit → World → Prop} (h : Allowed K me w next) (hw : Inv K S w)
    (hsaved : ∀ rest, post (.ok ()) { w.commit next with disk := rest })
    (hreported : ∀ rest, post (.error .storeWrite) { w.commit next with disk := rest })
    (hunsaved : ∀ rest, post (.error .storeWrite) { w with disk := rest }) :
    (commit next).wp (taskRules K S) me post w := by
  refine wp_call.2 ?_
  obtain ⟨rest, hsave | hsave | hsave⟩ := save_spec hw.synced next h.loads <;> rw [hsave]
  · exact ⟨.saved rest h, fun _ ↦ hsaved rest⟩
  · exact ⟨.saved rest h, fun _ ↦ hreported rest⟩
  · exact ⟨.relay (.unsaved rest), fun _ ↦ hunsaved rest⟩

theorem taskRules_guarded (me : ℕ) : Guarded (taskRules K S) me (Rely me) where
  synced hw := hw.synced
  rely := id
  heard q a _ := ⟨.relay (.heard q a),
    .of_eq (List.prefix_append _ _) rfl rfl rfl rfl rfl rfl le_rfl⟩
  unsaved rest _ := ⟨.relay (.unsaved rest),
    .of_eq (List.prefix_refl _) rfl rfl rfl rfl rfl rfl le_rfl⟩
  sourceHeld reason rest hw :=
    ⟨.relay (.saved rest (hw.synced.2.of_eq rfl rfl) (.held reason)), .saved rest rfl rfl rfl rfl⟩

theorem taskRules_holdsHub (me : ℕ) : HoldsHub (taskRules K S) me (Rely me) := by
  intro w reason rest hw
  refine ⟨.saved rest ?_, .saved rest rfl rfl rfl rfl⟩
  exact
    { loads := hw.synced.2.of_eq rfl rfl
      lawful := { hw.lawful with }
      relay := rfl
      scope := fun _ ↦ id
      checkpoints := id
      jobs := fun _ _ job _ hget ↦ ⟨job, hget, fun _ ↦ rfl⟩ }

theorem reconcileHubRecovery_rely (me confirmations : ℕ) :
    Leaves (taskRules K S) me (Rely me) (reconcileHubRecovery me confirmations) :=
  (taskRules_guarded me).reconcileHubRecovery_leaves (taskRules_holdsHub me) confirmations

end Proofmark.Worker
