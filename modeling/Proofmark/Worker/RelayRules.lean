import Proofmark.Worker.Guards

/-!
# What a step of the relay sender may do

What `RelaySender.step` may do to the world, and the proof that it does no more. Between two awaits
a step replaces the file at most once, and only in one of five ways (`Write`), each with what the
step has heard and what it has found in the store.

A step relies on little: while it holds the flag `active`, nobody else moves the envelope or closes
the job it works on (`Kept`). The flag is in memory and a crash clears it, but a crash also ends the
step that relied on it. A step that fails leaves its job open, unless a save was reported as failed
(`Fails`).

The proof is under any rules that host a step (`Hosts`). The host decides what it means that a call
has heard something (`Stands`): that the answers are in the log, or that they are still true; and
for which jobs a call may step (`May`).
-/

open Async Async.Program

namespace Proofmark.Worker

/-! ### The log -/

/-- What a success has to show: the query processed in the block of the receipt. -/
def processedReading (call : ℕ) (relay : RelayEnvelope) (receipt : RelayReceipt) : List Entry :=
  match receipt.status with
  | .success => [.heard call (.processed relay.queryId receipt.blockNumber) (.ok true)]
  | .reverted => []

/-- The readings that settle an envelope: its receipt, what a success has to show, and the same
receipt again. -/
def observation (call : ℕ) (relay : RelayEnvelope) (receipt : RelayReceipt) : List Entry :=
  [.heard call (.receipt relay) (.ok (some receipt))] ++ processedReading call relay receipt ++
    [.heard call (.receipt relay) (.ok (some receipt))]

/-- The readings from which an envelope is reserved: the query not yet processed, and the signed
envelope. -/
def preparedReading (call : ℕ) (preparation : Preparation) (query : QueryObservation)
    (relay : RelayEnvelope) : List Entry :=
  [.heard call (.observeProcessed preparation.queryId none) (.ok query),
    .heard call (.prepare relay.sourceTxHash preparation.queryId preparation.data
      preparation.gasLimit) (.ok relay)]

/-- The readings that let a job be skipped: its query processed at confirmation depth, and
processed again in the same block. -/
def skipObservation (call : ℕ) (queryId : String) (query final : QueryObservation) : List Entry :=
  [.heard call (.observeProcessed queryId none) (.ok query),
    .heard call (.observeProcessed queryId (some query)) (.ok final)]

/-! ### What a step may write -/

section Moves

variable (Stands : ℕ → List Entry → World → Prop) (May : ℕ → String → World → Prop) (me : ℕ)
  (w : World)

/-- The contents that a step of the relay may give the file. -/
inductive Write : Data → Prop
  /-- The source guard installs a hold. -/
  | held (reason : String) : Write { w.file with sourceHold := some reason }
  /-- A broadcast was lost. -/
  | noted {src : String} {job : StoredJob} (error : String)
      (active : w.active = some (me, src)) (get : w.file.jobs.get src = some job)
      (pending : job.state.terminal = false) :
      Write { w.file with
        jobs := w.file.jobs.set (job.patched { lastError := some error } w.clock) }
  /-- An envelope is reserved for a job that is still open, when there is none. -/
  | reserved {job : StoredJob} {preparation : Preparation} {query : QueryObservation}
      (relay : RelayEnvelope)
      (active : w.active = some (me, relay.sourceTxHash)) (none : w.file.relay = none)
      (get : w.file.jobs.get relay.sourceTxHash = some job) (pending : job.state.terminal = false)
      (query_eq : relay.queryId = preparation.queryId)
      (heard : Stands me (preparedReading me preparation query relay) w) :
      Write (w.file.reserved relay job w.clock)
  /-- The envelope is removed with its receipt. -/
  | finished {job : StoredJob} {relay : RelayEnvelope} {receipt : RelayReceipt}
      (active : w.active = some (me, relay.sourceTxHash)) (relay_eq : w.file.relay = some relay)
      (get : w.file.jobs.get relay.sourceTxHash = some job)
      (heard : Stands me (observation me relay receipt) w) :
      Write (w.file.finished relay job receipt w.clock)
  /-- A job is skipped. -/
  | skipped {src queryId : String} {job : StoredJob} {query final : QueryObservation}
      (active : w.active = some (me, src)) (none : w.file.relay = none)
      (get : w.file.jobs.get src = some job) (pending : job.state.terminal = false)
      (confirmed : query.status = .confirmed) (again : final.status = .confirmed)
      (number : final.blockNumber = query.blockNumber) (hash : final.blockHash = query.blockHash)
      (heard : Stands me (skipObservation me queryId query final) w) :
      Write { w.file with jobs := w.file.jobs.set (job.patched
        { state := some .skipped, queryId := some queryId
          skipObservation := some final.toSkipObservation } w.clock) }

/-- What a step of the relay may do to the world. -/
inductive RelayMove : World → Prop
  | enter (src : String) (may : May me src w) (free : w.active = none)
      (relay : ∀ relay, w.file.relay = some relay → relay.sourceTxHash = src) :
      RelayMove { w with active := some (me, src) }
  | leave {src : String} (active : w.active = some (me, src)) : RelayMove { w with active := none }
  | heard (q : Request) (a : q.Answer) : RelayMove (w.note (.heard me q a))
  | sent {relay : RelayEnvelope} (active : w.active = some (me, relay.sourceTxHash))
      (relay_eq : w.file.relay = some relay) : RelayMove (w.note (.sent relay))
  | unsaved (rest : List SaveOutcome) : RelayMove { w with disk := rest }
  | saved {next : Data} (rest : List SaveOutcome) (loads : next.Loads)
      (write : Write Stands me w next) : RelayMove { w.commit next with disk := rest }

end Moves

/-- The job, if it is there, is not closed. -/
def Pending (src : String) (w : World) : Prop :=
  ∀ job, w.file.jobs.get src = some job → job.state.terminal = false

/-- The call does not hold the flag. -/
def Idle (me : ℕ) (w : World) : Prop :=
  ∀ src, w.active ≠ some (me, src)

/-- What a call relies on: the log grows, and while the call is active, the envelope stays as it is
and its job is not closed. -/
structure Kept (me : ℕ) (w w' : World) : Prop where
  log : w.log <+: w'.log
  active : ∀ {src}, w.active = some (me, src) → w'.active = some (me, src)
  relay : ∀ {src}, w.active = some (me, src) → w'.file.relay = w.file.relay
  pending : ∀ {src}, w.active = some (me, src) → Pending src w → Pending src w'

theorem Kept.refl (me : ℕ) (w : World) : Kept me w w :=
  ⟨List.prefix_refl _, id, fun _ ↦ rfl, fun _ ↦ id⟩

theorem Kept.trans {me : ℕ} {w₁ w₂ w₃ : World} (h : Kept me w₁ w₂) (h' : Kept me w₂ w₃) :
    Kept me w₁ w₃ where
  log := h.log.trans h'.log
  active hact := h'.active (h.active hact)
  relay hact := (h'.relay (h.active hact)).trans (h.relay hact)
  pending hact hpending := h'.pending (h.active hact) (h.pending hact hpending)

/-- A world that differs in nothing a call relies on. -/
theorem Kept.of_eq {me : ℕ} {w w' : World} (hlog : w.log <+: w'.log)
    (hactive : w'.active = w.active) (hrelay : w'.file.relay = w.file.relay)
    (hjobs : w'.file.jobs = w.file.jobs) : Kept me w w' where
  log := hlog
  active h := hactive.trans h
  relay _ := hrelay
  pending _ h := by rw [Pending, hjobs]; exact h

/-- What a call relies on, what it has heard included. -/
structure Steady (Stands : ℕ → List Entry → World → Prop) (me : ℕ) (w w' : World) : Prop extends
    Kept me w w' where
  stands : ∀ {src seen}, w.active = some (me, src) → Stands me seen w → Stands me seen w'

variable {Stands : ℕ → List Entry → World → Prop} {May : ℕ → String → World → Prop}

instance (me : ℕ) : Std.Refl (Steady Stands me) :=
  ⟨fun w ↦ ⟨.refl me w, fun _ ↦ id⟩⟩

instance (me : ℕ) : IsTrans World (Steady Stands me) :=
  ⟨fun _ _ _ h h' ↦ ⟨h.toKept.trans h'.toKept,
    fun hact hseen ↦ h'.stands (h.active hact) (h.stands hact hseen)⟩⟩

/-- Rules under which a step of the relay can run. -/
structure Hosts (R : Rules World Request.Answer ℕ) (Stands : ℕ → List Entry → World → Prop)
    (May : ℕ → String → World → Prop) : Prop where
  synced : ∀ {w}, R.inv w → w.Synced
  step : ∀ {me w w'}, RelayMove Stands May me w w' → R.step me w w'
  rely : ∀ {me w w'}, R.rely me w w' → Steady Stands me w w'
  nil : ∀ me w, Stands me [] w
  heard : ∀ {me q a w₁ w₂ src seen}, R.inv w₁ → R.inv w₂ → R.answers q a w₁ → R.rely me w₁ w₂ →
    w₁.active = some (me, src) → Stands me seen w₁ →
      Stands me (seen ++ [.heard me q a]) (w₂.note (.heard me q a))
  note : ∀ {me seen w} q a, Stands me seen w → Stands me seen (w.note (.heard me q a))
  unsaved : ∀ {me seen w} rest, Stands me seen w → Stands me seen { w with disk := rest }
  held : ∀ {me seen w} reason rest, Stands me seen w → Stands me seen
    { w.commit { w.file with sourceHold := some reason } with disk := rest }

/-! ### The moves are stable -/

/-- A write of one call leaves the envelope and the job of any other active call alone. -/
theorem Write.kept {i j : ℕ} {w : World} {next : Data} (h : Write Stands i w next) (hij : j ≠ i)
    {src : String} (hactive : w.active = some (j, src)) :
    next.relay = w.file.relay ∧ next.jobs = w.file.jobs := by
  have hother : ∀ {src'}, w.active ≠ some (i, src') := fun h' ↦ by
    rw [hactive] at h'
    exact hij (congrArg Prod.fst (Option.some.inj h'))
  cases h with
  | held => exact ⟨rfl, rfl⟩
  | noted _ active => exact absurd active hother
  | reserved _ active => exact absurd active hother
  | finished active => exact absurd active hother
  | skipped active => exact absurd active hother

/-- What one call does, another may live with. -/
theorem RelayMove.kept {i j : ℕ} {w w' : World} (h : RelayMove Stands May i w w') (hij : j ≠ i) :
    Kept j w w' := by
  cases h with
  | enter src _ free =>
    have hnot : ∀ {src}, w.active ≠ some (j, src) := by simp [free]
    exact ⟨List.prefix_refl _, fun h ↦ absurd h hnot, fun _ ↦ rfl, fun _ ↦ id⟩
  | @leave src active =>
    have hnot : ∀ {src}, w.active ≠ some (j, src) := fun h ↦ by
      rw [active] at h
      exact hij (congrArg Prod.fst (Option.some.inj h)).symm
    exact ⟨List.prefix_refl _, fun h ↦ absurd h hnot, fun _ ↦ rfl, fun _ ↦ id⟩
  | heard q a => exact .of_eq (List.prefix_append _ _) rfl rfl rfl
  | sent => exact .of_eq (List.prefix_append _ _) rfl rfl rfl
  | unsaved => exact .of_eq (List.prefix_refl _) rfl rfl rfl
  | saved rest loads write =>
    refine ⟨List.prefix_append _ _, id, fun h ↦ (write.kept hij h).1, fun h ↦ ?_⟩
    rw [Pending, Pending]
    exact fun hpending ↦ (write.kept hij h).2 ▸ hpending

theorem RelayMove.synced {i : ℕ} {w w' : World} (h : RelayMove Stands May i w w') (hw : w.Synced) :
    w'.Synced := by
  cases h with
  | enter | leave | heard | sent | unsaved => exact hw
  | saved rest loads write => exact ⟨rfl, loads⟩

/-! ### Quiet programs -/

variable {R : Rules World Request.Answer ℕ} {me : ℕ} {src : String} {w : World}

/-- The program leaves what its call relies on as it was. -/
abbrev Quiet {β : Type} (R : Rules World Request.Answer ℕ)
    (Stands : ℕ → List Entry → World → Prop) (me : ℕ) (t : WorkerTask β) : Prop :=
  Leaves R me (Steady Stands me) t

namespace Hosts

variable (H : Hosts R Stands May)
include H

/-- An answer is recorded in the log when the call goes on. -/
theorem wp_ask {q : Request} {post : Except WorkerError q.Value → World → Prop}
    (h : ∀ w₁ a w₂, R.inv w₁ → R.inv w₂ → R.rely me w w₁ → R.answers q a w₁ → R.rely me w₁ w₂ →
      post a (w₂.note (.heard me q a))) : (ask me q).wp R me post w := by
  intro w₁ a w₂ hw₁ hw₂ hrely hanswer hrely'
  exact ⟨H.step (.heard q a), fun _ ↦ h w₁ a w₂ hw₁ hw₂ hrely hanswer hrely'⟩

theorem note_steady (w : World) (q : Request) (a : q.Answer) :
    Steady Stands me w (w.note (.heard me q a)) :=
  ⟨.of_eq (List.prefix_append _ _) rfl rfl rfl, fun _ ↦ H.note q a⟩

/-- The three ways in which a save may end. -/
theorem wp_commit {next : Data} {post : Except WorkerError Unit → World → Prop} (hw : R.inv w)
    (hnext : next.Loads) (hwrite : Write Stands me w next)
    (hsaved : ∀ rest, post (.ok ()) { w.commit next with disk := rest })
    (hreported : ∀ rest, post (.error .storeWrite) { w.commit next with disk := rest })
    (hunsaved : ∀ rest, post (.error .storeWrite) { w with disk := rest }) :
    (commit next).wp R me post w := by
  refine wp_call.2 ?_
  obtain ⟨rest, h | h | h⟩ := save_spec (H.synced hw) _ hnext <;> rw [h]
  · exact ⟨H.step (.saved rest hnext hwrite), fun _ ↦ hsaved rest⟩
  · exact ⟨H.step (.saved rest hnext hwrite), fun _ ↦ hreported rest⟩
  · exact ⟨H.step (.unsaved rest), fun _ ↦ hunsaved rest⟩

/-- The guards run under the rules. -/
theorem guarded : Guarded R me (Steady Stands me) where
  synced := H.synced
  rely := H.rely
  heard q a _ := ⟨H.step (.heard q a), H.note_steady _ q a⟩
  unsaved rest _ := ⟨H.step (.unsaved rest),
    .of_eq (List.prefix_refl _) rfl rfl rfl, fun _ ↦ H.unsaved rest⟩
  sourceHeld reason rest hw := ⟨H.step (.saved rest ((H.synced hw).2.of_eq rfl rfl) (.held reason)),
    .of_eq (List.prefix_append _ _) rfl rfl rfl, fun _ ↦ H.held reason rest⟩

end Hosts

/-! ### The parts of a step -/

/-- A call that holds the flag, and whose job is open if it was when the step began. -/
structure Works (began : Prop) (me : ℕ) (src : String) (w : World) : Prop where
  active : w.active = some (me, src)
  pending : began → Pending src w

/-- A call ends, with a value or an error, still holding the flag. -/
def Ends {β : Type} (began : Prop) (me : ℕ) (src : String) (ok : β → World → Prop) :
    Except WorkerError β → World → Prop
  | .ok b, w => w.active = some (me, src) ∧ ok b w
  | .error e, w => e = .storeWrite ∧ w.active = some (me, src) ∨ Works began me src w

theorem Ends.active {β : Type} {began : Prop} {ok : β → World → Prop}
    {result : Except WorkerError β} (h : Ends began me src ok result w) :
    w.active = some (me, src) := by
  cases result with
  | ok => exact h.1
  | error => exact h.elim And.right Works.active

/-- A job that the step may still close. -/
def Open (src : String) (w : World) : Prop :=
  w.file.relay = none ∧ Pending src w

/-- The envelope that the step is to deliver. -/
def Holds (src : String) (relay : RelayEnvelope) (w : World) : Prop :=
  w.file.relay = some relay ∧ relay.sourceTxHash = src

theorem Kept.open {w' : World} (h : Kept me w w') (hactive : w.active = some (me, src))
    (hopen : Open src w) : Open src w' :=
  ⟨(h.relay hactive).trans hopen.1, h.pending hactive hopen.2⟩

theorem Kept.holds {w' : World} {relay : RelayEnvelope} (h : Kept me w w')
    (hactive : w.active = some (me, src)) (hholds : Holds src relay w) : Holds src relay w' :=
  ⟨(h.relay hactive).trans hholds.1, hholds.2⟩

theorem Works.kept {began : Prop} {w' : World} (h : Works began me src w) (hkept : Kept me w w') :
    Works began me src w' :=
  ⟨hkept.active h.active, fun hbegan ↦ hkept.pending h.active (h.pending hbegan)⟩

/-- The job of an envelope is open. -/
theorem Holds.works {began : Prop} {relay : RelayEnvelope} (h : Holds src relay w)
    (hw : w.Synced) (hactive : w.active = some (me, src)) : Works began me src w := by
  obtain ⟨hrelay, rfl⟩ := h
  refine ⟨hactive, fun _ job hget ↦ ?_⟩
  obtain ⟨job', hget', hstate, -⟩ := loads_iff.1 hw.2 relay hrelay
  obtain rfl := Option.some.inj (hget.symm.trans hget')
  rw [hstate]
  rfl

section Sequence

variable {began : Prop} {β γ : Type} {t : WorkerTask β} {k : β → WorkerTask γ}
  {q : β → World → Prop} {ok ok' : γ → World → Prop}

/-- Sequencing of parts that keep the flag. -/
theorem wp_then (hw : R.inv w) (ht : t.wp R me (Ends began me src q) w)
    (hk : ∀ b w', R.inv w' → w'.active = some (me, src) → q b w' →
      (k b).wp R me (Ends began me src ok) w') :
    (t >>= k).wp R me (Ends began me src ok) w :=
  wp_seq hw ht (fun b w' hw' h ↦ hk b w' hw' h.1 h.2) fun _ _ _ h ↦ h

theorem Quiet.ends (h : Quiet R Stands me t) (hw : R.inv w) (hworks : Works began me src w) :
    t.wp R me (Ends began me src fun _ w' ↦ Works began me src w' ∧ Steady Stands me w w') w := by
  refine wp_mono hw (fun result w' _ hkept ↦ ?_) (h w hw)
  have hworks' := hworks.kept hkept.toKept
  cases result with
  | ok b => exact ⟨hworks'.active, hworks', hkept⟩
  | error e => exact .inr hworks'

/-- Sequencing after a quiet part. -/
theorem Hosts.then (_ : Hosts R Stands May) (h : Quiet R Stands me t) (hw : R.inv w) (hworks : Works began me src w)
    (hk : ∀ b w', R.inv w' → Works began me src w' → Steady Stands me w w' →
      (k b).wp R me (Ends began me src ok) w') :
    (t >>= k).wp R me (Ends began me src ok) w :=
  wp_then hw (h.ends hw hworks) fun b w' hw' _ h' ↦ hk b w' hw' h'.1 h'.2

theorem Ends.imp {b : Except WorkerError γ} (h : Ends began me src ok b w)
    (himp : ∀ b, ok b w → ok' b w) : Ends began me src ok' b w := by
  cases b with
  | ok b => exact ⟨h.1, himp b h.2⟩
  | error e => exact h

/-- What a step that failed leaves: its job is open if it was, unless a save was reported as
failed. -/
def Fails (src : String) (w : World) : Except WorkerError Unit → World → Prop
  | .ok _, _ => True
  | .error e, w' => e = .storeWrite ∨ (Pending src w → Pending src w')

end Sequence

namespace Hosts

variable {began : Prop} (H : Hosts R Stands May)
include H

/-- Sequencing after an answer, which the call then knows with all that it knew. -/
theorem ask_then {γ : Type} {q : Request} {k : q.Value → WorkerTask γ} {ok : γ → World → Prop}
    (hworks : Works began me src w)
    (hk : ∀ a w', R.inv w' → Works began me src w' → Steady Stands me w w' →
      (∀ seen, Stands me seen w → Stands me (seen ++ [.heard me q (.ok a)]) w') →
      (k a).wp R me (Ends began me src ok) w') (hw : R.inv w) :
    (ask me q >>= k).wp R me (Ends began me src ok) w := by
  refine wp_then (q := fun a w' ↦ Works began me src w' ∧ Steady Stands me w w' ∧
    ∀ seen, Stands me seen w → Stands me (seen ++ [.heard me q (.ok a)]) w') hw ?_
    fun a w' hw' _ h ↦ hk a w' hw' h.1 h.2.1 h.2.2
  refine H.wp_ask fun w₁ a w₂ hw₁ hw₂ hrely hanswer hrely' ↦ ?_
  have hworks₁ := hworks.kept (H.rely hrely).toKept
  have hkept := IsTrans.trans _ _ _ (IsTrans.trans w w₁ w₂ (H.rely hrely) (H.rely hrely'))
    (H.note_steady w₂ q a)
  have hworks₂ := hworks.kept hkept.toKept
  cases a with
  | ok a =>
    refine ⟨hworks₂.active, hworks₂, hkept, fun seen hseen ↦ ?_⟩
    exact H.heard hw₁ hw₂ hanswer hrely' hworks₁.active ((H.rely hrely).stands hworks.active hseen)
  | error e => exact .inr hworks₂

/-- A save that closes a part of the step. -/
theorem commit_ends {next : Data} (hw : R.inv w) (hactive : w.active = some (me, src))
    (hnext : next.Loads) (hwrite : Write Stands me w next) :
    (commit next).wp R me (Ends began me src fun _ w' ↦ w'.file = next) w :=
  H.wp_commit hw hnext hwrite (fun _ ↦ ⟨hactive, rfl⟩) (fun _ ↦ .inl ⟨rfl, hactive⟩)
    fun _ ↦ .inl ⟨rfl, hactive⟩

/-- What a success has to show is known, after all that was known. -/
theorem requireProcessed_then {γ : Type} {relay : RelayEnvelope} {receipt : RelayReceipt}
    {k : Unit → WorkerTask γ} {ok : γ → World → Prop} (hw : R.inv w)
    (hworks : Works began me src w) {seen : List Entry} (hseen : Stands me seen w)
    (hk : ∀ w', R.inv w' → Works began me src w' → Steady Stands me w w' →
      Stands me (seen ++ processedReading me relay receipt) w' →
      (k ()).wp R me (Ends began me src ok) w') :
    (RelaySender.requireProcessed me relay receipt >>= k).wp R me (Ends began me src ok) w := by
  refine wp_then (q := fun _ w' ↦ Works began me src w' ∧ Steady Stands me w w' ∧
    Stands me (seen ++ processedReading me relay receipt) w') hw ?_
    fun _ w' hw' _ h ↦ hk w' hw' h.1 h.2.1 h.2.2
  unfold RelaySender.requireProcessed processedReading
  rcases hstatus : receipt.status with - | -
  · rw [if_pos rfl]
    refine H.ask_then hworks (fun processed w' _ hworks' hkept hlog ↦ ?_) hw
    cases processed with
    | true => exact ⟨hworks'.active, hworks', hkept, hlog seen hseen⟩
    | false => exact .inr hworks'
  · rw [if_neg (by simp)]
    exact ⟨hworks.active, hworks, Std.Refl.refl w, by rwa [List.append_nil]⟩

/-- The envelope is finished only on the readings that settle it. -/
theorem finishRelay_ends {relay : RelayEnvelope} {receipt : RelayReceipt} (hw : R.inv w)
    (hworks : Works began me src w) (hholds : Holds src relay w)
    (hseen : Stands me (observation me relay receipt) w) :
    (finishRelay relay.hash receipt).wp R me (Ends began me src fun _ _ ↦ True) w := by
  refine H.then assertHubReady_leaves hw hworks fun _ w' hw' hworks' hkept ↦ ?_
  obtain ⟨hrelay, rfl⟩ := hkept.holds hworks.active hholds
  have hsynced := H.synced hw'
  obtain ⟨job, hget, -⟩ := loads_iff.1 hsynced.2 relay hrelay
  rw [wp_get_bind, hsynced.1]
  simp only [hrelay, ne_eq, not_true_eq_false, if_false, hget]
  refine wp_mono hw' (fun result w'' _ h ↦ h.imp fun _ _ ↦ trivial)
    (H.commit_ends hw' hworks'.active (loads_of_relay_none rfl)
      (.finished hworks'.active hrelay hget (hkept.stands hworks.active hseen)))

theorem finish_ends {relay : RelayEnvelope} {receipt : RelayReceipt} (hw : R.inv w)
    (hworks : Works began me src w) (hholds : Holds src relay w)
    (hseen : Stands me [Entry.heard me (.receipt relay) (.ok (some receipt))] w) :
    (RelaySender.finish me src relay receipt).wp R me (Ends began me src fun _ _ ↦ True) w := by
  refine H.then (H.guarded.guardSource_leaves src) hw hworks fun _ w₁ hw₁ hworks₁ hkept₁ ↦ ?_
  refine H.requireProcessed_then hw₁ hworks₁ (hkept₁.stands hworks.active hseen)
    fun w₂ hw₂ hworks₂ hkept₂ hseen₂ ↦ ?_
  refine H.ask_then hworks₂ (fun final w₃ hw₃ hworks₃ hkept₃ hlog ↦ ?_) hw₂
  have hholds₃ := hkept₃.holds hworks₂.active
    (hkept₂.holds hworks₁.active (hkept₁.holds hworks.active hholds))
  split
  case isTrue => exact ⟨hworks₃.active, trivial⟩
  case isFalse hfinal =>
    obtain rfl : final = some receipt := not_not.1 hfinal
    refine H.then throwIfStopped_leaves hw₃ hworks₃ fun _ w₄ hw₄ hworks₄ hkept₄ ↦ ?_
    refine H.then assertSourceReady_leaves hw₄ hworks₄ fun _ w₅ hw₅ hworks₅ hkept₅ ↦ ?_
    refine H.then assertHubReady_leaves hw₅ hworks₅ fun _ w₆ hw₆ hworks₆ hkept₆ ↦ ?_
    have hholds₆ := hkept₆.holds hworks₅.active
      (hkept₅.holds hworks₄.active (hkept₄.holds hworks₃.active hholds₃))
    have hseen₄ := hkept₄.stands hworks₃.active (hlog _ hseen₂)
    exact H.finishRelay_ends hw₆ hworks₆ hholds₆
      (hkept₆.stands hworks₅.active (hkept₅.stands hworks₄.active hseen₄))

/-- Only the envelope that is in the file is sent. -/
theorem broadcast_then {γ : Type} {relay : RelayEnvelope} {k : Unit → WorkerTask γ}
    {ok : γ → World → Prop} (hw : R.inv w) (hactive : w.active = some (me, src))
    (hholds : Holds src relay w)
    (hk : ∀ w', R.inv w' → Works began me src w' → Holds src relay w' →
      (k ()).wp R me (Ends began me src ok) w') :
    (RelaySender.broadcast me src relay >>= k).wp R me (Ends began me src ok) w := by
  refine wp_then (q := fun _ ↦ Holds src relay) hw ?_ fun _ w' hw' hactive' h ↦
    hk w' hw' (h.works (H.synced hw') hactive') h
  obtain ⟨hrelay, rfl⟩ := hholds
  refine wp_tryCatch.2 ⟨H.step (.sent hactive hrelay), fun hsent ↦ ?_⟩
  refine wp_mono hsent (fun result w' hw' hkept ↦ ?_) (H.guarded.ask_leaves (.broadcast relay) _ hsent)
  have hactive' : w'.active = some (me, relay.sourceTxHash) := hkept.active hactive
  have hholds' : w'.file.relay = some relay := (hkept.relay hactive).trans hrelay
  cases result with
  | ok => exact ⟨hactive', hholds', rfl⟩
  | error e =>
    -- a lost answer is noted in the job; the envelope stays as it is
    have hsynced := H.synced hw'
    obtain ⟨job, hget, hjob⟩ := loads_iff.1 hsynced.2 relay hholds'
    change (update _ _).wp R me _ w'
    rw [update, wp_get_bind, hsynced.1]
    simp only [Option.any_none, Bool.false_eq_true, and_false, if_false, hget]
    have hnext : Data.Loads { w'.file with
        jobs := w'.file.jobs.set
          (job.patched { lastError := some "ASC_BROADCAST_UNCONFIRMED" } w'.clock) } := by
      refine loads_iff.2 fun relay' hrelay' ↦ ?_
      obtain rfl : relay = relay' := Option.some.inj (hholds'.symm.trans hrelay')
      refine ⟨_, (congrArg _ (Table.get_eq_some.1 hget).2.symm).trans Table.get_set_self, ?_⟩
      exact hjob
    refine wp_mono hw' (fun result w₃ _ h ↦ h.imp fun _ hfile ↦ ?_)
      (H.commit_ends hw' hactive' hnext (.noted _ hactive' hget (by rw [hjob.1]; rfl)))
    rw [Holds, hfile]
    exact ⟨hholds', rfl⟩

theorem deliver_ends {relay : RelayEnvelope} (hw : R.inv w) (hworks : Works began me src w)
    (hholds : Holds src relay w) :
    (RelaySender.deliver me src relay).wp R me (Ends began me src fun _ _ ↦ True) w := by
  refine H.ask_then hworks (fun answer w₁ hw₁ hworks₁ hkept₁ hlog ↦ ?_) hw
  have hholds₁ := hkept₁.holds hworks.active hholds
  rcases answer with - | receipt
  · refine H.then (H.guarded.guardSource_leaves src) hw₁ hworks₁ fun _ w₂ hw₂ hworks₂ hkept₂ ↦ ?_
    refine H.then assertSourceReady_leaves hw₂ hworks₂ fun _ w₃ hw₃ hworks₃ hkept₃ ↦ ?_
    have hholds₃ := hkept₃.holds hworks₂.active (hkept₂.holds hworks₁.active hholds₁)
    refine H.broadcast_then hw₃ hworks₃.active hholds₃ fun w₄ hw₄ hworks₄ hholds₄ ↦ ?_
    refine H.ask_then hworks₄ (fun answer w₅ hw₅ hworks₅ hkept₅ hlog ↦ ?_) hw₄
    rcases answer with - | receipt
    · exact ⟨hworks₅.active, trivial⟩
    · exact H.finish_ends hw₅ hworks₅ (hkept₅.holds hworks₄.active hholds₄) (hlog [] (H.nil me w₄))
  · exact H.finish_ends hw₁ hworks₁ hholds₁ (hlog [] (H.nil me w))

/-- A job is skipped only on two confirmed observations of one block. -/
theorem skip_ends {preparation : Preparation} {query : QueryObservation} (hw : R.inv w)
    (hworks : Works began me src w) (hopen : Open src w) (hquery : query.status = .confirmed)
    (hseen : Stands me [Entry.heard me (.observeProcessed preparation.queryId none) (.ok query)]
      w) :
    (RelaySender.skip me src preparation query).wp R me (Ends began me src fun _ _ ↦ True) w := by
  refine H.then (H.guarded.guardSource_leaves src) hw hworks fun _ w₁ hw₁ hworks₁ hkept₁ ↦ ?_
  refine H.ask_then hworks₁ (fun final w₂ hw₂ hworks₂ hkept₂ hlog ↦ ?_) hw₁
  split
  case isTrue => exact ⟨hworks₂.active, trivial⟩
  case isFalse hfinal =>
    push Not at hfinal
    obtain ⟨hagain, hnumber, hhash⟩ := hfinal
    refine H.then throwIfStopped_leaves hw₂ hworks₂ fun _ w₃ hw₃ hworks₃ hkept₃ ↦ ?_
    refine H.then assertSourceReady_leaves hw₃ hworks₃ fun _ w₄ hw₄ hworks₄ hkept₄ ↦ ?_
    have hopen₄ := hkept₄.open hworks₃.active (hkept₃.open hworks₂.active
      (hkept₂.open hworks₁.active (hkept₁.open hworks.active hopen)))
    have hseen₂ := hlog _ (hkept₁.stands hworks.active hseen)
    have hseen₄ := hkept₄.stands hworks₃.active (hkept₃.stands hworks₂.active hseen₂)
    have hsynced := H.synced hw₄
    rw [update, wp_get_bind, hsynced.1, if_neg (by simp [hopen₄.1])]
    rcases hget : w₄.file.jobs.get src with - | job
    · exact ⟨hworks₄.active, trivial⟩
    · refine wp_mono hw₄ (fun result w₅ _ h ↦ h.imp fun _ _ ↦ trivial)
        (H.commit_ends hw₄ hworks₄.active (loads_of_relay_none hopen₄.1)
          (.skipped hworks₄.active hopen₄.1 hget (hopen₄.2 job hget) hquery hagain hnumber hhash
            hseen₄))

/-- An envelope that is prepared without an error is in the file. -/
theorem prepare_ends {preparation : Preparation} {query : QueryObservation} (hw : R.inv w)
    (hworks : Works began me src w) (hopen : Open src w)
    (hseen : Stands me [Entry.heard me (.observeProcessed preparation.queryId none) (.ok query)]
      w) :
    (RelaySender.prepare me src preparation).wp R me
      (Ends began me src fun relay ↦ Holds src relay) w := by
  refine H.then (H.guarded.guardSource_leaves src) hw hworks fun _ w₁ hw₁ hworks₁ hkept₁ ↦ ?_
  refine H.ask_then hworks₁ (fun (relay : RelayEnvelope) w₂ hw₂ hworks₂ hkept₂ hlog ↦ ?_) hw₁
  split
  case isTrue => exact .inr hworks₂
  case isFalse hmatch =>
    push Not at hmatch
    obtain ⟨rfl, hqueryId, -⟩ := hmatch
    refine H.then (H.guarded.guardSource_leaves _) hw₂ hworks₂ fun _ w₃ hw₃ hworks₃ hkept₃ ↦ ?_
    refine wp_then (q := fun _ ↦ Holds relay.sourceTxHash relay) hw₃ ?_
      fun _ w' _ hactive' h ↦ ⟨hactive', h⟩
    refine H.then assertSourceReady_leaves hw₃ hworks₃ fun _ w₄ hw₄ hworks₄ hkept₄ ↦ ?_
    refine H.then assertHubReady_leaves hw₄ hworks₄ fun _ w₅ hw₅ hworks₅ hkept₅ ↦ ?_
    have hseen₂ := hlog _ (hkept₁.stands hworks.active hseen)
    have hseen₃ := hkept₃.stands hworks₂.active hseen₂
    have hseen₅ := hkept₅.stands hworks₄.active (hkept₄.stands hworks₃.active hseen₃)
    have hsynced := H.synced hw₅
    rw [wp_get_bind, hsynced.1]
    rcases hrelay : w₅.file.relay with - | other
    · rw [if_neg (by simp)]
      rcases hget : w₅.file.jobs.get relay.sourceTxHash with - | job
      · exact .inr hworks₅
      · rcases hpending : job.state.terminal with - | -
        · have hkey : job.key = relay.sourceTxHash := (Table.get_eq_some.1 hget).2
          have hnext : (w₅.file.reserved relay job w₅.clock).Loads := by
            refine loads_iff.2 fun relay' hrelay' ↦ ?_
            obtain rfl := Option.some.inj hrelay'
            exact ⟨_, (congrArg _ hkey.symm).trans Table.get_set_self, rfl, rfl, rfl⟩
          simp only [hpending, Bool.false_eq_true, if_false]
          refine wp_mono hw₅ (fun result w₆ _ h ↦ h.imp fun _ hfile ↦ ?_)
            (H.commit_ends hw₅ hworks₅.active hnext
              (.reserved relay hworks₅.active hrelay hget hpending hqueryId hseen₅))
          rw [Holds, hfile]
          exact ⟨rfl, rfl⟩
        · simp only [hpending, if_true]
          exact .inr hworks₅
    · exact .inr hworks₅

/-- A step that holds the flag ends with it, if the hub guard does. -/
theorem advance_ends {confirmations : ℕ}
    (hguard : Quiet R Stands me (reconcileHubRecovery me confirmations))
    (preparation : Option Preparation) (hw : R.inv w) (hworks : Works began me src w)
    (hrelay : ∀ relay, w.file.relay = some relay → relay.sourceTxHash = src) :
    (RelaySender.advance me confirmations src preparation).wp R me
      (Ends began me src fun _ _ ↦ True) w := by
  refine H.then assertSourceReady_leaves hw hworks fun _ w₁ hw₁ hworks₁ hkept₁ ↦ ?_
  refine H.then assertHubReady_leaves hw₁ hworks₁ fun _ w₂ hw₂ hworks₂ hkept₂ ↦ ?_
  have hsame := (hkept₂.relay hworks₁.active).trans (hkept₁.relay hworks.active)
  rw [wp_get_bind, (H.synced hw₂).1]
  rcases hget : w₂.file.jobs.get src with - | job
  · exact .inr hworks₂
  · rcases hpending : job.state.terminal with - | -
    · simp only [hpending, Bool.false_eq_true, if_false]
      rcases hfile : w₂.file.relay with - | relay
      · rcases preparation with - | preparation
        · exact .inr hworks₂
        · have hopen : Open src w₂ := ⟨hfile, fun job' hget' ↦ by
            rw [← Option.some.inj (hget.symm.trans hget')]
            exact hpending⟩
          refine H.then hguard hw₂ hworks₂ fun _ w₃ hw₃ hworks₃ hkept₃ ↦ ?_
          refine H.then throwIfStopped_leaves hw₃ hworks₃ fun _ w₄ hw₄ hworks₄ hkept₄ ↦ ?_
          refine H.then assertHubReady_leaves hw₄ hworks₄ fun _ w₅ hw₅ hworks₅ hkept₅ ↦ ?_
          refine H.ask_then hworks₅ (fun query w₆ hw₆ hworks₆ hkept₆ hlog ↦ ?_) hw₅
          have hopen₆ := hkept₆.open hworks₅.active (hkept₅.open hworks₄.active
            (hkept₄.open hworks₃.active (hkept₃.open hworks₂.active hopen)))
          have hseen₆ := hlog [] (H.nil me w₅)
          rcases hstatus : query.status with - | - | -
          · refine wp_then hw₆ (H.prepare_ends hw₆ hworks₆ hopen₆ hseen₆)
              fun relay w₇ hw₇ hactive₇ h ↦ ?_
            exact H.deliver_ends hw₇ (h.works (H.synced hw₇) hactive₇) h
          · exact ⟨hworks₆.active, trivial⟩
          · exact H.skip_ends hw₆ hworks₆ hopen₆ hstatus hseen₆
      · exact H.deliver_ends hw₂ hworks₂ ⟨hfile, hrelay relay (hsame.symm.trans hfile)⟩
    · simp only [hpending, if_true]
      exact .inr hworks₂

/-- **A step of the relay sender does no more than `RelayMove` allows**, if the hub guard does, and
it gives the flag back. -/
theorem step_safe {confirmations : ℕ}
    (hguard : Quiet R Stands me (reconcileHubRecovery me confirmations)) (src : String)
    (preparation : Option Preparation) (hw : R.inv w) (hmay : May me src w) :
    (RelaySender.step me confirmations src preparation).wp R me
      (fun result w' ↦ Fails src w result w' ∧ (Idle me w → Idle me w')) w := by
  have hsynced := H.synced hw
  rw [RelaySender.step, throwIfStopped]
  refine wp_bind.2 (wp_get_bind.2 ?_)
  split
  case isTrue => exact ⟨.inr id, id⟩
  case isFalse =>
    refine wp_pure.2 (wp_get_bind.2 ?_)
    split
    case isTrue => exact ⟨.inr id, id⟩
    case isFalse hfree =>
      push Not at hfree
      obtain ⟨hactive, hany⟩ := hfree
      have hrelay : ∀ relay, w.file.relay = some relay → relay.sourceTxHash = src := by
        intro relay hrelay
        rw [hsynced.1, hrelay] at hany
        simpa using hany
      have hfree : w.active = none := by simpa using hactive
      refine wp_bind.2 ⟨H.step (.enter src hmay hfree hrelay), fun hinv ↦ ?_⟩
      have hends : (RelaySender.advance me confirmations src preparation).wp R me
          (Ends (Pending src w) me src fun _ _ ↦ True) { w with active := some (me, src) } :=
        H.advance_ends hguard preparation hinv ⟨rfl, id⟩ hrelay
      refine wp_finallySet.2 (wp_mono hinv (fun result w'' _ h ↦ ?_) hends)
      refine ⟨H.step (.leave h.active), fun _ ↦ ⟨?_, fun _ _ ↦ nofun⟩⟩
      cases result with
      | ok => trivial
      | error =>
        rcases h with ⟨rfl, -⟩ | hworks
        · exact .inl rfl
        · exact .inr hworks.pending

end Hosts

end Proofmark.Worker
