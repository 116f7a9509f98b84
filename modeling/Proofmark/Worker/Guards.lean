import Proofmark.Worker.Relay

/-!
# The guards of the worker

The programs that look before a call goes on: the checks of the holds and of the abort signal, the
canonicality of a job, and the recovery audit of the hub. They await answers, and all that they ever
write is a hold. `Guarded` says what rules must allow for that, and which relation between the
worlds before and after it respects; every guard then leaves the world in that relation
(`reconcileHubRecovery_leaves`).
-/

open Async Async.Program

namespace Proofmark.Worker

variable {R : Rules World Request.Answer ℕ} {me : ℕ} {rel : World → World → Prop}

/-- Rules under which a call may ask, lose a save and hold the source, each within a relation. -/
structure Guarded (R : Rules World Request.Answer ℕ) (me : ℕ) (rel : World → World → Prop) :
    Prop where
  synced : ∀ {w}, R.inv w → w.Synced
  rely : ∀ {w w'}, R.rely me w w' → rel w w'
  heard : ∀ {w} q a, R.inv w →
    R.step me w (w.note (.heard me q a)) ∧ rel w (w.note (.heard me q a))
  unsaved : ∀ {w} rest, R.inv w → R.step me w { w with disk := rest } ∧ rel w { w with disk := rest }
  sourceHeld : ∀ {w} reason rest, R.inv w →
    R.step me w { w.commit { w.file with sourceHold := some reason } with disk := rest } ∧
      rel w { w.commit { w.file with sourceHold := some reason } with disk := rest }

/-- The rules allow to hold the hub. -/
def HoldsHub (R : Rules World Request.Answer ℕ) (me : ℕ) (rel : World → World → Prop) : Prop :=
  ∀ {w} reason rest, R.inv w →
    R.step me w { w.commit { w.file with hubHold := some reason } with disk := rest } ∧
      rel w { w.commit { w.file with hubHold := some reason } with disk := rest }

/-! ### Loading -/

/-- An envelope can be loaded when its job says that it was submitted with it. -/
theorem loads_iff {d : Data} :
    d.Loads ↔ ∀ relay, d.relay = some relay → ∃ job, d.jobs.get relay.sourceTxHash = some job ∧
      job.state = .submitted ∧ job.ascTxHash = some relay.hash ∧
        job.queryId = some relay.queryId := by
  unfold Data.Loads Data.load
  rcases hrelay : d.relay with - | relay
  · simp
  · rcases hget : d.jobs.get relay.sourceTxHash with - | job
    · simp [hget]
    · simp only [Option.some.injEq, forall_eq', hget, exists_eq_left']
      by_cases h : job.state = .submitted ∧ job.ascTxHash = some relay.hash ∧
          job.queryId = some relay.queryId
      · simp [h]
      · simp only [h, iff_false]
        rw [if_pos (by tauto)]
        rintro ⟨⟩

theorem loads_of_relay_none {d : Data} (h : d.relay = none) : d.Loads :=
  loads_iff.2 fun relay hrelay ↦ by simp [h] at hrelay

/-- Only the envelope and its job matter to loading. -/
theorem Data.Loads.of_eq {d d' : Data} (h : d.Loads) (hrelay : d'.relay = d.relay)
    (hjobs : d'.jobs = d.jobs) : d'.Loads := by
  rw [loads_iff] at h ⊢
  rw [hrelay, hjobs]
  exact h

/-! ### Checks without an await -/

section Checks

variable [Std.Refl rel] [IsTrans World rel]

theorem throwIfStopped_leaves : Leaves R me rel throwIfStopped := by
  refine leaves_get.bind fun w ↦ ?_
  split
  · exact leaves_throw _
  · exact leaves_pure _

theorem assertSourceReady_leaves : Leaves R me rel assertSourceReady := by
  refine leaves_get.bind fun w ↦ ?_
  split
  · exact leaves_throw _
  · exact leaves_pure _

theorem assertHubReady_leaves : Leaves R me rel assertHubReady := by
  refine leaves_get.bind fun w ↦ ?_
  split
  · exact leaves_throw _
  · exact leaves_pure _

end Checks

namespace Guarded

variable (G : Guarded R me rel)
include G

/-! ### Holding and asking -/

/-- A save that changes nothing but a hold, however it ends. -/
theorem commit_leaves {w : World} {next : Data} (hw : R.inv w) (hrelay : next.relay = w.file.relay)
    (hjobs : next.jobs = w.file.jobs)
    (hsaved : ∀ rest, R.step me w { w.commit next with disk := rest } ∧
      rel w { w.commit next with disk := rest }) :
    (commit next).wp R me (fun _ w' ↦ rel w w') w := by
  have hsynced := G.synced hw
  refine wp_call.2 ?_
  obtain ⟨rest, h | h | h⟩ := save_spec hsynced next (hsynced.2.of_eq hrelay hjobs) <;> rw [h]
  · exact ⟨(hsaved rest).1, fun _ ↦ (hsaved rest).2⟩
  · exact ⟨(hsaved rest).1, fun _ ↦ (hsaved rest).2⟩
  · exact ⟨(G.unsaved rest hw).1, fun _ ↦ (G.unsaved rest hw).2⟩

theorem holdSource_leaves {β : Type} (reason : String) :
    Leaves R me rel (holdSource reason : WorkerTask β) := by
  intro w hw
  rw [holdSource, wp_get_bind, (G.synced hw).1]
  exact wp_seq hw (G.commit_leaves hw rfl rfl fun rest ↦ G.sourceHeld reason rest hw)
    (fun _ _ _ h ↦ h) fun _ _ _ h ↦ h

theorem holdHub_leaves (hhold : HoldsHub R me rel) {β : Type} (reason : String) :
    Leaves R me rel (holdHub reason : WorkerTask β) := by
  intro w hw
  rw [holdHub, wp_get_bind, (G.synced hw).1]
  exact wp_seq hw (G.commit_leaves hw rfl rfl fun rest ↦ hhold reason rest hw)
    (fun _ _ _ h ↦ h) fun _ _ _ h ↦ h

variable [IsTrans World rel]

theorem ask_leaves (q : Request) : Leaves R me rel (ask me q) := by
  intro w _ w₁ a w₂ hw₁ hw₂ hrely _ hrely'
  obtain ⟨hstep, hrel⟩ := G.heard q a hw₂
  exact ⟨hstep, fun _ ↦ IsTrans.trans _ _ _ (IsTrans.trans _ _ _ (G.rely hrely) (G.rely hrely'))
    hrel⟩

variable [Std.Refl rel]

theorem askBoth_leaves (q r : Request) : Leaves R me rel (askBoth me q r) := by
  refine (G.ask_leaves _).bind fun first ↦ ?_
  split
  · exact (G.ask_leaves q).bind fun a ↦ (G.ask_leaves r).bind fun b ↦ leaves_pure _
  · exact (G.ask_leaves r).bind fun a ↦ (G.ask_leaves q).bind fun b ↦ leaves_pure _

/-! ### The source guard -/

theorem assertCanonicalJob_leaves (job : StoredJob) :
    Leaves R me rel (assertCanonicalJob me job) := by
  refine assertSourceReady_leaves.bind fun _ ↦ ?_
  split
  · exact leaves_throw _
  · refine (G.askBoth_leaves _ _).bind fun answers ↦ ?_
    split
    · split_ifs
      · exact leaves_throw _
      · exact G.holdSource_leaves _
      · exact leaves_throw _
      · exact throwIfStopped_leaves
    · exact leaves_throw _

theorem guardSource_leaves (id : String) : Leaves R me rel (guardSource me id) := by
  refine throwIfStopped_leaves.bind fun _ ↦ leaves_get.bind fun w ↦ ?_
  split
  · exact leaves_throw _
  · exact G.assertCanonicalJob_leaves _

/-! ### The recovery audit -/

variable (hhold : HoldsHub R me rel)
include hhold

theorem requireBlock_leaves (height : ℕ) (hash reason : String) :
    Leaves R me rel (requireBlock me height hash reason) := by
  refine (G.ask_leaves _).bind fun block ↦ ?_
  split
  · exact G.holdHub_leaves hhold _
  · exact leaves_pure _

theorem requireQuery_leaves (t : Terminal) (receipt : HubReceipt) :
    Leaves R me rel (requireQuery me t receipt) := by
  unfold requireQuery
  split
  · refine (G.ask_leaves _).bind fun processed ↦ ?_
    split
    · exact G.holdHub_leaves hhold _
    · exact leaves_pure _
  · exact leaves_pure _

theorem checkTerminal_leaves (confirmations head : ℕ) (signer asc : String) (t : Terminal) :
    Leaves R me rel (checkTerminal me confirmations head signer asc t) := by
  have hhub : ∀ {β : Type} reason, Leaves R me rel (holdHub reason : WorkerTask β) :=
    G.holdHub_leaves hhold
  refine (G.ask_leaves _).bind fun answer ↦ ?_
  split
  · exact hhub _
  · split
    · exact hhub _
    · exact (G.requireBlock_leaves hhold _ _ _).bind fun _ ↦
        (G.requireQuery_leaves hhold _ _).bind fun _ ↦ G.requireBlock_leaves hhold _ _ _

theorem checkSkipped_leaves (confirmations head : ℕ) (job : StoredJob) :
    Leaves R me rel (checkSkipped me confirmations head job) := by
  have hhub : ∀ {β : Type} reason, Leaves R me rel (holdHub reason : WorkerTask β) :=
    G.holdHub_leaves hhold
  unfold checkSkipped
  split
  · split
    · exact hhub _
    · refine (G.requireBlock_leaves hhold _ _ _).bind fun _ ↦
        (G.ask_leaves _).bind fun processed ↦ ?_
      split
      · exact hhub _
      · exact G.requireBlock_leaves hhold _ _ _
  · exact hhub _

theorem checkCounts_leaves (snapshot : Data) (expected latest pending : ℕ) :
    Leaves R me rel (checkCounts snapshot expected latest pending) := by
  refine leaves_get.bind fun w ↦ ?_
  split
  · split
    all_goals
      split
      · exact G.holdHub_leaves hhold _
      · exact leaves_pure _
  · exact leaves_pure _

theorem compareHub_leaves (confirmations : ℕ) (snapshot : Data) (signer asc : String)
    (baseline : ℕ) (terminal : List Terminal) :
    Leaves R me rel (compareHub me confirmations snapshot signer asc baseline terminal) := by
  refine (G.ask_leaves _).bind fun head ↦ ?_
  split
  · exact leaves_throw _
  · refine (leaves_forM (G.checkTerminal_leaves hhold _ _ _ _) _).bind fun _ ↦
      (leaves_forM (G.checkSkipped_leaves hhold _ _) _).bind fun _ ↦
        (G.askBoth_leaves _ _).bind fun counts ↦ ?_
    split
    · split
      · exact leaves_throw _
      · exact G.checkCounts_leaves hhold _ _ _ _
    · exact leaves_throw _

/-- **The audit writes nothing but a hold.** -/
theorem reconcileHubRecovery_leaves (confirmations : ℕ) :
    Leaves R me rel (reconcileHubRecovery me confirmations) := by
  have hhub : ∀ {β : Type} reason, Leaves R me rel (holdHub reason : WorkerTask β) :=
    G.holdHub_leaves hhold
  refine assertHubReady_leaves.bind fun _ ↦ leaves_get.bind fun w ↦ ?_
  split
  · exact leaves_throw _
  · split
    · exact leaves_throw _
    · split
      · exact hhub _
      · split
        · exact hhub _
        · split
          · exact hhub _
          · exact G.compareHub_leaves hhold _ _ _ _ _ _

end Guarded

end Proofmark.Worker
