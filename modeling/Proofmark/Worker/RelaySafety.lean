import Proofmark.Worker.RelayRules
import Mathlib.Data.List.Infix

/-!
# The safety of the relay

What the log of any run of `RelaySender.step` looks like: any number of calls for any jobs, any
answers, any outcome of every save, a crash and a restart at every await.

The log is the history. `durable` reads the file off it, a moment is a prefix of it, and each law
says what may be appended at a moment. `Ledger` is the invariant of the runs: every envelope that
was ever in the file is there now, or was settled by what was heard and its job is closed.
-/

open Async Async.Program

namespace Proofmark.Worker

/-! ### The history of the file -/

/-- What one line of the log does to the contents of the file. -/
def Entry.write (d : Data) : Entry → Data
  | .saved next => next
  | .heard _ _ _ | .sent _ => d

/-- The contents of the file after the log, from the contents at the start. -/
def durable (start : Data) (log : List Entry) : Data :=
  log.foldl Entry.write start

@[simp]
theorem durable_nil (start : Data) : durable start [] = start :=
  rfl

@[simp]
theorem durable_concat (start : Data) (log : List Entry) (e : Entry) :
    durable start (log ++ [e]) = e.write (durable start log) := by
  simp [durable]

/-- The envelope was in the file at some moment. -/
def Reserved (start : Data) (log : List Entry) (relay : RelayEnvelope) : Prop :=
  ∃ before, before <+: log ∧ (durable start before).relay = some relay

/-- A call has observed the envelope confirmed: the same status, block and hash twice, with the
query processed in the block of a success. -/
def Settled (log : List Entry) (relay : RelayEnvelope) : Prop :=
  ∃ call receipt, (observation call relay receipt).Sublist log

/-- An envelope that was reserved and not yet observed confirmed. -/
def Unresolved (start : Data) (log : List Entry) (relay : RelayEnvelope) : Prop :=
  Reserved start log relay ∧ ¬Settled log relay

/-- The job was closed with a success receipt whose block shows the query processed. -/
def DoneSeen (log : List Entry) (src : String) : Prop :=
  ∃ call relay receipt, relay.sourceTxHash = src ∧ receipt.status = .success ∧
    (observation call relay receipt).Sublist log

/-- The query of the job was observed processed at confirmation depth, and again in the same
block. -/
def SkipSeen (log : List Entry) (job : StoredJob) : Prop :=
  ∃ call queryId query final, query.status = .confirmed ∧ final.status = .confirmed ∧
    final.blockNumber = query.blockNumber ∧ final.blockHash = query.blockHash ∧
      (skipObservation call queryId query final).Sublist log ∧ job.queryId = some queryId ∧
        job.skipObservation = some final.toSkipObservation

/-- **The laws of the relay**, for a log that starts from the given contents of the file. The log
up to a line is the moment at which the line is written. -/
structure RelaySafety (start : Data) (log : List Entry) : Prop where
  one_unresolved : ∀ before, before <+: log → ∀ relay relay',
    Unresolved start before relay → Unresolved start before relay' → relay = relay'
  sent_durable : ∀ before relay, before ++ [.sent relay] <+: log →
    (durable start before).relay = some relay
  one_for_each_job : ∀ relay relay', .sent relay ∈ log → .sent relay' ∈ log →
    relay.sourceTxHash = relay'.sourceTxHash → relay = relay'
  exclusive : ∀ before next relay, before ++ [.saved next] <+: log → next.relay = some relay →
    (durable start before).relay ≠ some relay →
      ∀ earlier, Reserved start before earlier → Settled before earlier
  done_seen : ∀ before next src job, before ++ [.saved next] <+: log →
    next.jobs.get src = some job → job.state = .done →
      (durable start before).jobs.get src = some job ∨ DoneSeen before src
  skipped_seen : ∀ before next src job, before ++ [.saved next] <+: log →
    next.jobs.get src = some job → job.state = .skipped →
      (durable start before).jobs.get src = some job ∨ SkipSeen before job
  terminal_kept : ∀ before next src job, before ++ [.saved next] <+: log →
    (durable start before).jobs.get src = some job → job.state.terminal = true →
      next.jobs.get src = some job

/-! ### A moment later -/

theorem Settled.mono {log log' : List Entry} {relay : RelayEnvelope} (h : Settled log relay)
    (hlog : log.Sublist log') : Settled log' relay := by
  obtain ⟨call, receipt, hseen⟩ := h
  exact ⟨call, receipt, hseen.trans hlog⟩

theorem Reserved.concat {start : Data} {log : List Entry} {e : Entry} {relay : RelayEnvelope}
    (h : Reserved start log relay) : Reserved start (log ++ [e]) relay := by
  obtain ⟨before, hbefore, hrelay⟩ := h
  exact ⟨before, hbefore.trans (List.prefix_append _ _), hrelay⟩

theorem reserved_concat {start : Data} {log : List Entry} {e : Entry} {relay : RelayEnvelope} :
    Reserved start (log ++ [e]) relay ↔
      Reserved start log relay ∨ (e.write (durable start log)).relay = some relay := by
  constructor
  · rintro ⟨before, hbefore, hrelay⟩
    rcases List.prefix_concat_iff.1 hbefore with rfl | hbefore
    · exact .inr (by rwa [durable_concat] at hrelay)
    · exact .inl ⟨before, hbefore, hrelay⟩
  · rintro (h | h)
    · exact h.concat
    · exact ⟨log ++ [e], List.prefix_refl _, by rwa [durable_concat]⟩

theorem reserved_of_durable {start : Data} {log : List Entry} {relay : RelayEnvelope}
    (h : (durable start log).relay = some relay) : Reserved start log relay :=
  ⟨log, List.prefix_refl _, h⟩

/-- A line of a log with one more line is that line or one of the old ones. -/
theorem line_concat {before log : List Entry} {e e' : Entry} :
    before ++ [e] <+: log ++ [e'] ↔ before ++ [e] <+: log ∨ before = log ∧ e = e' := by
  rw [List.prefix_concat_iff, or_comm]
  exact or_congr_right ⟨fun h ↦ by simpa using List.append_inj' h rfl, fun ⟨h, h'⟩ ↦ by rw [h, h']⟩

/-! ### The rules -/

/-- The call has heard these answers, in this order. -/
def Heard (_ : ℕ) (seen : List Entry) (w : World) : Prop :=
  seen.Sublist w.log

/-- A call may step for any job. -/
def AnyJob (_ : ℕ) (_ : String) (_ : World) : Prop :=
  True

/-- What a step may do: what the relay does, and what its hub guard does. -/
inductive StepMove (me : ℕ) (w : World) : World → Prop
  | relay {w' : World} (h : RelayMove Heard AnyJob me w w') : StepMove me w w'
  | hubHeld (reason : String) (rest : List SaveOutcome) :
      StepMove me w { w.commit { w.file with hubHold := some reason } with disk := rest }

/-- The rules of the relay. Nothing is assumed of the answers. -/
def relayRules : Rules World Request.Answer ℕ where
  inv := World.Synced
  answers _ _ _ := True
  step := StepMove
  rely := Kept

theorem Kept.heard {me : ℕ} {w w' : World} (h : Kept me w w') : Steady Heard me w w' :=
  ⟨h, fun _ hseen ↦ hseen.trans h.log.sublist⟩

theorem relayRules_hosts : Hosts relayRules Heard AnyJob where
  synced := id
  step := .relay
  rely := Kept.heard
  nil _ _ := List.nil_sublist _
  heard _ _ _ hrely _ hseen :=
    (hseen.trans hrely.log.sublist).append (List.Sublist.refl _)
  note _ _ hseen := hseen.trans (List.sublist_append_left _ _)
  unsaved _ hseen := hseen
  held _ _ hseen := hseen.trans (List.sublist_append_left _ _)

theorem reconcileHubRecovery_quiet (me confirmations : ℕ) :
    Quiet relayRules Heard me (reconcileHubRecovery me confirmations) :=
  relayRules_hosts.guarded.reconcileHubRecovery_leaves
    (fun reason rest _ ↦ ⟨.hubHeld reason rest,
      Kept.heard (.of_eq (List.prefix_append _ _) rfl rfl rfl)⟩) confirmations

/-! ### What a write changes -/

/-- The job of the envelope is closed. -/
def Closed (d : Data) (relay : RelayEnvelope) : Prop :=
  ∃ job, d.jobs.get relay.sourceTxHash = some job ∧ job.state.terminal = true

/-- New contents of the file, written at a moment: what they may do to the envelope and to the
closed jobs. -/
structure Changes (log : List Entry) (d next : Data) : Prop where
  envelope : ∀ relay, d.relay = some relay →
    next.relay = some relay ∨ Settled log relay ∧ Closed next relay
  reserved : ∀ relay, next.relay = some relay → d.relay = some relay ∨ d.relay = none ∧
    ∃ job, d.jobs.get relay.sourceTxHash = some job ∧ job.state.terminal = false
  terminal : ∀ src job, d.jobs.get src = some job → job.state.terminal = true →
    next.jobs.get src = some job
  done : ∀ src job, next.jobs.get src = some job → job.state = .done →
    d.jobs.get src = some job ∨ DoneSeen log src
  skipped : ∀ src job, next.jobs.get src = some job → job.state = .skipped →
    d.jobs.get src = some job ∨ SkipSeen log job

theorem Changes.same {log : List Entry} {d next : Data} (hrelay : next.relay = d.relay)
    (hjobs : next.jobs = d.jobs) : Changes log d next where
  envelope relay h := .inl (hrelay.trans h)
  reserved relay h := .inl (hrelay.symm.trans h)
  terminal src job h _ := by rwa [hjobs]
  done src job h _ := .inl (by rwa [hjobs] at h)
  skipped src job h _ := .inl (by rwa [hjobs] at h)

section OneJob

variable {d next : Data} {src : String} {job job' : StoredJob}

/-- Replacing an open job leaves the closed ones alone. -/
theorem terminal_of_set (hget : d.jobs.get src = some job) (hpending : job.state.terminal = false)
    (hjobs : next.jobs = d.jobs.set job') (hkey : job'.key = job.key) {src' : String}
    {closed : StoredJob} (hclosed : d.jobs.get src' = some closed)
    (hterminal : closed.state.terminal = true) : next.jobs.get src' = some closed := by
  rw [hjobs, Table.get_set, hkey, if_neg]
  · exact hclosed
  · rintro rfl
    rw [(Table.get_eq_some.1 hget).2] at hclosed
    obtain rfl := Option.some.inj (hget.symm.trans hclosed)
    simp [hpending] at hterminal

/-- After a job is replaced, a job is the new one or an old one. -/
theorem get_of_set (hjobs : next.jobs = d.jobs.set job') {found : StoredJob}
    (hfound : next.jobs.get src = some found) :
    found = job' ∧ src = job'.key ∨ d.jobs.get src = some found := by
  rw [hjobs, Table.get_set] at hfound
  split at hfound
  case isTrue hkey => exact .inl ⟨(Option.some.inj hfound).symm, hkey.symm⟩
  case isFalse => exact .inr hfound

end OneJob

/-- **What a step writes**, seen from the envelope and the closed jobs. -/
theorem Write.changes {call : ℕ} {w : World} {next : Data} (h : Write Heard call w next)
    (hw : w.Synced) : Changes w.log w.file next := by
  cases h with
  | held => exact .same rfl rfl
  | @noted src job error _ hget hpending =>
    refine ⟨fun relay h ↦ .inl h, fun relay h ↦ .inl h,
      fun _ _ ↦ terminal_of_set hget hpending rfl (by rfl), fun src' found hfound hstate ↦ ?_,
      fun src' found hfound hstate ↦ ?_⟩
    all_goals
      rcases get_of_set rfl hfound with ⟨rfl, -⟩ | hold
      · have hjob : job.state.terminal = true := by
          rw [show job.state = _ from hstate]
          rfl
        simp [hpending] at hjob
      · exact .inl hold
  | @reserved job _ _ relay _ hnone hget hpending =>
    refine ⟨fun relay' h ↦ by simp [hnone] at h, fun relay' h ↦ .inr ⟨hnone, ?_⟩,
      fun _ _ ↦ terminal_of_set hget hpending rfl (by rfl), fun src' found hfound hstate ↦ ?_,
      fun src' found hfound hstate ↦ ?_⟩
    · obtain rfl := Option.some.inj h
      exact ⟨job, hget, hpending⟩
    all_goals
      rcases get_of_set rfl hfound with ⟨rfl, -⟩ | hold
      · nomatch hstate
      · exact .inl hold
  | @finished job relay receipt _ hrelay hget hseen =>
    obtain ⟨job', hget', hsubmitted, -⟩ := loads_iff.1 hw.2 relay hrelay
    obtain rfl := Option.some.inj (hget.symm.trans hget')
    have hkey : job.key = relay.sourceTxHash := (Table.get_eq_some.1 hget).2
    refine ⟨fun relay' h ↦ .inr ?_, fun relay' h ↦ (nomatch h),
      fun _ _ ↦ terminal_of_set hget (by rw [hsubmitted]; rfl) rfl (by rfl),
      fun src' found hfound hstate ↦ ?_, fun src' found hfound hstate ↦ ?_⟩
    · obtain rfl := Option.some.inj (hrelay.symm.trans h)
      refine ⟨⟨call, receipt, hseen⟩, job.finished relay receipt w.clock, ?_, ?_⟩
      · exact hkey ▸ Table.get_set_self
      · unfold StoredJob.finished
        cases receipt.status <;> rfl
    · rcases get_of_set rfl hfound with ⟨rfl, rfl⟩ | hold
      · refine .inr ⟨call, relay, receipt, hkey.symm, ?_, hseen⟩
        unfold StoredJob.finished at hstate
        cases hreceipt : receipt.status with
        | success => rfl
        | reverted => simp [hreceipt] at hstate
      · exact .inl hold
    · rcases get_of_set rfl hfound with ⟨rfl, rfl⟩ | hold
      · unfold StoredJob.finished at hstate
        cases hreceipt : receipt.status <;> simp [hreceipt] at hstate
      · exact .inl hold
  | @skipped src queryId job query final _ hnone hget hpending hquery hagain hnumber hhash hseen =>
    refine ⟨fun relay' h ↦ by simp [hnone] at h, fun relay' h ↦ .inl h,
      fun _ _ ↦ terminal_of_set hget hpending rfl (by rfl), fun src' found hfound hstate ↦ ?_,
      fun src' found hfound hstate ↦ ?_⟩
    · rcases get_of_set rfl hfound with ⟨rfl, -⟩ | hold
      · nomatch hstate
      · exact .inl hold
    · rcases get_of_set rfl hfound with ⟨rfl, -⟩ | hold
      · exact .inr ⟨call, queryId, query, final, hquery, hagain, hnumber, hhash, hseen, rfl, rfl⟩
      · exact .inl hold

/-! ### The invariant of the runs -/

/-- What is known at every moment of a run: the laws so far, that the file is what was saved last,
and what became of every envelope. -/
structure Ledger (start : Data) (w : World) : Prop where
  synced : w.Synced
  file : w.file = durable start w.log
  safe : RelaySafety start w.log
  envelope : ∀ relay, Reserved start w.log relay → w.file.relay = some relay ∨
    Settled w.log relay ∧ Closed w.file relay
  distinct : ∀ relay relay', Reserved start w.log relay → Reserved start w.log relay' →
    relay.sourceTxHash = relay'.sourceTxHash → relay = relay'
  sent : ∀ relay, .sent relay ∈ w.log → Reserved start w.log relay

/-- A run starts with an empty log. -/
theorem Ledger.initial {w : World} (hw : w.Synced) (hlog : w.log = []) : Ledger w.file w := by
  have hline : ∀ {before e}, ¬before ++ [e] <+: w.log := fun h ↦ by simp [hlog] at h
  have hreserved : ∀ {before relay}, before <+: w.log → Reserved w.file before relay →
      w.file.relay = some relay := by
    rintro before relay hbefore ⟨first, hfirst, hrelay⟩
    rw [hlog] at hbefore
    obtain rfl := List.prefix_nil.1 (hfirst.trans hbefore)
    exact hrelay
  refine ⟨hw, by rw [hlog]; rfl, ⟨?_, ?_, ?_, ?_, ?_, ?_, ?_⟩, ?_, ?_, ?_⟩
  · intro before hbefore relay relay' h h'
    exact Option.some.inj ((hreserved hbefore h.1).symm.trans (hreserved hbefore h'.1))
  · exact fun _ _ h ↦ absurd h hline
  · intro relay relay' h
    simp [hlog] at h
  · exact fun _ _ _ h ↦ absurd h hline
  · exact fun _ _ _ _ h ↦ absurd h hline
  · exact fun _ _ _ _ h ↦ absurd h hline
  · exact fun _ _ _ _ h ↦ absurd h hline
  · exact fun relay h ↦ .inl (hreserved (List.prefix_refl _) h)
  · exact fun relay relay' h h' _ ↦ Option.some.inj
      ((hreserved (List.prefix_refl _) h).symm.trans (hreserved (List.prefix_refl _) h'))
  · intro relay h
    simp [hlog] at h

section Ledger

variable {start : Data} {w w' : World} {e : Entry}

/-- An envelope of the past is still there, or settled, after one more line. -/
theorem Ledger.envelope_concat (h : Ledger start w) (hlog : w'.log = w.log ++ [e])
    (hfile : w'.file = e.write w.file) (hchanges : Changes w.log w.file w'.file)
    (relay : RelayEnvelope) (hrelay : Reserved start w'.log relay) :
    w'.file.relay = some relay ∨ Settled w'.log relay ∧ Closed w'.file relay := by
  have hsublist : w.log.Sublist w'.log := hlog ▸ List.sublist_append_left _ _
  rw [hlog, reserved_concat, ← h.file, ← hfile] at hrelay
  rcases hrelay with hrelay | hrelay
  · rcases h.envelope relay hrelay with hcurrent | ⟨hsettled, job, hget, hclosed⟩
    · refine (hchanges.envelope relay hcurrent).imp_right fun ⟨hsettled, hclosed⟩ ↦ ?_
      exact ⟨hsettled.mono hsublist, hclosed⟩
    · exact .inr ⟨hsettled.mono hsublist, job, hchanges.terminal _ _ hget hclosed, hclosed⟩
  · exact .inl hrelay

/-- An envelope that is new in the file is for another job than every earlier one. -/
theorem Ledger.distinct_concat (h : Ledger start w) (hlog : w'.log = w.log ++ [e])
    (hfile : w'.file = e.write w.file) (hchanges : Changes w.log w.file w'.file)
    (relay relay' : RelayEnvelope) (hrelay : Reserved start w'.log relay)
    (hrelay' : Reserved start w'.log relay')
    (hsource : relay.sourceTxHash = relay'.sourceTxHash) : relay = relay' := by
  have hnew : ∀ {new old : RelayEnvelope}, Reserved start w.log old → w'.file.relay = some new →
      new.sourceTxHash = old.sourceTxHash → new = old := by
    intro new old hold hnew hsource
    rcases hchanges.reserved new hnew with hcurrent | ⟨hnone, job, hget, hpending⟩
    · exact h.distinct new old (reserved_of_durable (h.file ▸ hcurrent)) hold hsource
    · rcases h.envelope old hold with hcurrent | ⟨-, job', hget', hclosed⟩
      · simp [hnone] at hcurrent
      · rw [← hsource, hget] at hget'
        obtain rfl := Option.some.inj hget'
        simp [hpending] at hclosed
  rw [hlog, reserved_concat, ← h.file, ← hfile] at hrelay hrelay'
  rcases hrelay with hrelay | hrelay <;> rcases hrelay' with hrelay' | hrelay'
  · exact h.distinct relay relay' hrelay hrelay' hsource
  · exact (hnew hrelay hrelay' hsource.symm).symm
  · exact hnew hrelay' hrelay hsource
  · exact Option.some.inj (hrelay.symm.trans hrelay')

/-- **One more line.** -/
theorem Ledger.concat (h : Ledger start w) (hsynced : w'.Synced) (hlog : w'.log = w.log ++ [e])
    (hfile : w'.file = e.write w.file) (hchanges : Changes w.log w.file w'.file)
    (hsent : ∀ relay, e = .sent relay → w.file.relay = some relay) : Ledger start w' := by
  have henvelope := fun relay ↦ h.envelope_concat hlog hfile hchanges relay
  have hdistinct := fun relay relay' ↦
    h.distinct_concat hlog hfile hchanges relay relay'
  have hsentReserved : ∀ relay, .sent relay ∈ w'.log → Reserved start w'.log relay := by
    intro relay hmem
    rw [hlog, List.mem_append, List.mem_singleton] at hmem
    rw [hlog]
    rcases hmem with hmem | rfl
    · exact (h.sent relay hmem).concat
    · exact (reserved_of_durable (h.file ▸ hsent relay rfl)).concat
  have hline : ∀ {before line}, before ++ [line] <+: w'.log →
      before ++ [line] <+: w.log ∨ before = w.log ∧ line = e := fun h ↦ line_concat.1 (hlog ▸ h)
  refine ⟨hsynced, by rw [hlog, durable_concat, ← h.file, hfile], ⟨?_, ?_, ?_, ?_, ?_, ?_, ?_⟩,
    henvelope, hdistinct, hsentReserved⟩
  · -- what is not settled is in the file
    intro before hbefore relay relay' hrelay hrelay'
    rw [hlog, List.prefix_concat_iff, ← hlog] at hbefore
    rcases hbefore with rfl | hbefore
    · have hcurrent : ∀ {relay}, Unresolved start w'.log relay → w'.file.relay = some relay :=
        fun h ↦ (henvelope _ h.1).resolve_right fun h' ↦ h.2 h'.1
      exact Option.some.inj ((hcurrent hrelay).symm.trans (hcurrent hrelay'))
    · exact h.safe.one_unresolved before hbefore relay relay' hrelay hrelay'
  · intro before relay hbefore
    rcases hline hbefore with hbefore | ⟨rfl, he⟩
    · exact h.safe.sent_durable before relay hbefore
    · rw [← h.file]
      exact hsent relay he.symm
  · intro relay relay' hmem hmem' hsource
    exact hdistinct relay relay' (hsentReserved relay hmem) (hsentReserved relay' hmem') hsource
  · intro before next relay hbefore hnext hnew earlier hearlier
    rcases hline hbefore with hbefore | ⟨rfl, rfl⟩
    · exact h.safe.exclusive before next relay hbefore hnext hnew earlier hearlier
    · rw [← h.file] at hnew
      have hrelay := (hchanges.reserved relay (by rw [hfile]; exact hnext)).resolve_left hnew
      rcases h.envelope earlier hearlier with hcurrent | hsettled
      · simp [hrelay.1] at hcurrent
      · exact hsettled.1
  · intro before next src job hbefore hget hstate
    rcases hline hbefore with hbefore | ⟨rfl, rfl⟩
    · exact h.safe.done_seen before next src job hbefore hget hstate
    · rw [← h.file]
      exact hchanges.done src job (by rw [hfile]; exact hget) hstate
  · intro before next src job hbefore hget hstate
    rcases hline hbefore with hbefore | ⟨rfl, rfl⟩
    · exact h.safe.skipped_seen before next src job hbefore hget hstate
    · rw [← h.file]
      exact hchanges.skipped src job (by rw [hfile]; exact hget) hstate
  · intro before next src job hbefore hget hstate
    rcases hline hbefore with hbefore | ⟨rfl, rfl⟩
    · exact h.safe.terminal_kept before next src job hbefore hget hstate
    · have hkept := hchanges.terminal src job (h.file ▸ hget) hstate
      rwa [hfile] at hkept

/-- A move that touches neither the file nor the log. -/
theorem Ledger.of_eq (h : Ledger start w) (hsynced : w'.Synced) (hlog : w'.log = w.log)
    (hfile : w'.file = w.file) : Ledger start w' := by
  obtain ⟨-, hdurable, hsafe, henvelope, hdistinct, hsent⟩ := h
  rw [← hlog] at hdurable hsafe henvelope hdistinct hsent
  rw [← hfile] at hdurable henvelope
  exact ⟨hsynced, hdurable, hsafe, henvelope, hdistinct, hsent⟩

/-- What a step of the relay does keeps the ledger. -/
theorem RelayMove.ledger {i : ℕ} (hmove : RelayMove Heard AnyJob i w w') (h : Ledger start w) :
    Ledger start w' := by
  have hsynced := hmove.synced h.synced
  cases hmove with
  | enter | leave | unsaved => exact h.of_eq hsynced rfl rfl
  | heard q a => exact h.concat (e := .heard i q a) hsynced rfl rfl (.same rfl rfl) nofun
  | sent _ hrelay =>
    refine h.concat hsynced rfl rfl (.same rfl rfl) fun relay he ↦ ?_
    obtain rfl := Entry.sent.inj he
    exact hrelay
  | saved rest loads write =>
    exact h.concat hsynced rfl rfl (write.changes h.synced) nofun

theorem StepMove.synced {i : ℕ} (hmove : StepMove i w w') (hw : w.Synced) : w'.Synced := by
  cases hmove with
  | relay hmove => exact hmove.synced hw
  | hubHeld reason rest => exact ⟨rfl, hw.2.of_eq rfl rfl⟩

theorem StepMove.kept {i j : ℕ} (hmove : StepMove i w w') (hij : j ≠ i) : Kept j w w' := by
  cases hmove with
  | relay hmove => exact hmove.kept hij
  | hubHeld reason rest => exact .of_eq (List.prefix_append _ _) rfl rfl rfl

/-- **What a step does keeps the ledger.** -/
theorem StepMove.ledger {i : ℕ} (hmove : StepMove i w w') (h : Ledger start w) :
    Ledger start w' := by
  cases hmove with
  | relay hmove => exact hmove.ledger h
  | hubHeld reason rest =>
    exact h.concat ⟨rfl, h.synced.2.of_eq rfl rfl⟩ rfl rfl (.same rfl rfl) nofun

end Ledger

/-! ### The runs -/

/-- What changes around a process: the disk, the clock, the abort signal, the hub. -/
structure Outside (w w' : World) : Prop where
  data : w'.data = w.data
  file : w'.file = w.file
  active : w'.active = w.active
  log : w'.log = w.log

/-- A crash, and a new process that loads the file. A file that cannot be loaded stays as it is. -/
def World.restart (w : World) : World :=
  match w.file.load with
  | .ok d => { w with data := d, active := none, stopped := false, pool := [] }
  | .error _ => w

/-- Any number of steps for any jobs, over one file. -/
def relaySystem (confirmations : ℕ) : Async.System World WorkerError Request.Answer ℕ where
  starts call t := ∃ src preparation, t = RelaySender.step call confirmations src preparation
  answers _ _ _ := True
  env := Outside
  crash w w' := w' = w.restart

theorem restart_eq {w : World} (hw : w.Synced) :
    w.restart = { w with active := none, stopped := false, pool := [] } := by
  have hload : w.file.load = .ok w.file := hw.2
  simp [World.restart, hload, hw.1]

theorem relayRules_sound (confirmations : ℕ) : relayRules.Sound (relaySystem confirmations) where
  rely_refl := Kept.refl
  rely_trans := Kept.trans
  step_inv hw hmove := StepMove.synced hmove hw
  step_rely _ hmove hij := StepMove.kept hmove hij
  env_inv {w w'} hw h := by
    change w'.data = w'.file ∧ w'.file.Loads
    rw [h.data, h.file]
    exact hw
  env_rely _ h := .of_eq (by rw [h.log]) h.active (by rw [h.file]) (by rw [h.file])
  crash_inv {w w'} hw h := by
    obtain rfl := h
    rw [restart_eq hw]
    exact hw
  answered _ := trivial
  started := by
    rintro call t w ⟨src, preparation, rfl⟩ hw
    exact wp_mono hw (fun _ _ _ _ ↦ trivial) (relayRules_hosts.step_safe
      (reconcileHubRecovery_quiet call confirmations) src preparation hw trivial)

/-- The moves of a run keep the ledger. -/
theorem Ledger.move {confirmations : ℕ} {start : Data} {w w' : World} (hw : Ledger start w)
    (h : Async.System.Move relayRules (relaySystem confirmations) w w') : Ledger start w' := by
  obtain ⟨hinv, ⟨i, hmove⟩ | houtside | hcrash⟩ := h
  · exact hmove.ledger hw
  · refine hw.of_eq ((relayRules_sound confirmations).env_inv hinv houtside) houtside.log
      houtside.file
  · obtain rfl := hcrash
    refine hw.of_eq ((relayRules_sound confirmations).crash_inv hinv rfl) ?_ ?_ <;>
      rw [restart_eq hinv]

theorem Ledger.moves {confirmations : ℕ} {start : Data} {w w' : World} (hw : Ledger start w)
    (h : Relation.ReflTransGen (Async.System.Move relayRules (relaySystem confirmations)) w w') :
    Ledger start w' := by
  induction h with
  | refl => exact hw
  | tail _ hmove ih => exact ih.move hmove

/-- **Every run of the relay is safe**, and what the process believes is what the file says, which
is what was saved last. -/
theorem relay_safe (confirmations : ℕ) {w : World}
    {c : Async.System.Config World WorkerError Request.Answer ℕ} (hw : w.Synced) (hlog : w.log = [])
    (hrun : (relaySystem confirmations).Reaches ⟨w, fun _ ↦ none⟩ c) :
    RelaySafety w.file c.state.log ∧ c.state.data = c.state.file ∧
      c.state.file = durable w.file c.state.log := by
  have hmoves := ((Async.System.Good.initial hw).run (relayRules_sound confirmations) hrun).2
  have hledger := (Ledger.initial hw hlog).moves hmoves
  exact ⟨hledger.safe, hledger.synced.1, hledger.file⟩

/-! ### One run -/

namespace RelayRun

/-- A job as the scan stores it. -/
def job (txHash : String) : StoredJob :=
  { txHash := txHash, blockNumber := 5, action := 0, eventName := "MarkIssued", logCount := 1
    blockHash := some "0xb5", transactionIndex := some 0, state := .discovered, attempts := 0
    discoveredAt := 0, updatedAt := 0 }

/-- A file with two jobs and a signer without history. -/
def file : Data :=
  { cursor := 5, jobs := (Table.empty.set (job "0xa")).set (job "0xb")
    scope := some ⟨1, 2, 3, "0x50", "0x51", "0x52", 0⟩, hubStartNonce := some 0 }

/-- The envelope that the transport prepares for a job. -/
def relay (sourceTxHash queryId data : String) : RelayEnvelope :=
  ⟨sourceTxHash, queryId, "0xe0", "0xf8", 0, 2, "0x51", "0x52", data⟩

/-- The endpoints before the envelope is mined. -/
def before : (q : Request) → World → q.Answer
  | .order, _ => .ok true
  | .prepare sourceTxHash queryId data _, _ => .ok (relay sourceTxHash queryId data)
  | .receipt _, _ => .ok none
  | .observeProcessed _ _, _ => .ok ⟨⟨9, "0x99", 1, 0⟩, .unprocessed⟩
  | .sourceBlock height, _ => .ok (some ⟨some height, some "0xb5"⟩)
  | .sourceFinalized, _ => .ok (some ⟨some 7, some "0xb7"⟩)
  | .transactionCount _ _, _ => .ok (some 0)
  | .hubBlockNumber, _ => .ok (some 9)
  | _, _ => .error (.error "timeout")

/-- The endpoints after the envelope is mined. -/
def after : (q : Request) → World → q.Answer
  | .receipt _, _ => .ok (some ⟨.success, 11, "0x1b"⟩)
  | .processed _ _, _ => .ok true
  | q, w => before q w

/-- So many answers to a call, each followed by what the call does next. -/
def answers (call count : ℕ) (reply : (q : Request) → World → q.Answer) :
    List (Async.System.Event (relaySystem 1)) :=
  (List.replicate count
    [.answer call reply fun _ _ ↦ trivial, .resume call]).flatten

/-- The first job is reserved and its broadcast is lost; a step for the other job is refused; the
process crashes; the restarted process finds the receipt. The first save that it makes is reported
as failed, though the file was replaced. -/
def events : List (Async.System.Event (relaySystem 1)) :=
  [.start 0 _ ⟨"0xa", some ⟨"q", "d", 21000⟩, rfl⟩, .resume 0] ++ answers 0 16 before ++
    [.start 1 _ ⟨"0xb", some ⟨"p", "d", 21000⟩, rfl⟩, .resume 1] ++ answers 0 1 before ++
    [.crash World.restart fun _ ↦ rfl,
      .env (fun w ↦ { w with disk := [.renamed] }) fun _ ↦ ⟨rfl, rfl, rfl, rfl⟩,
      .start 2 _ ⟨"0xa", none, rfl⟩, .resume 2] ++ answers 2 9 after

/-- The process that they start from. -/
def first : World :=
  { data := file, file := file }

/-- The configuration that they lead to. -/
def last : Async.System.Config World WorkerError Request.Answer ℕ :=
  Async.System.play events ⟨first, fun _ ↦ none⟩

theorem reaches_last : (relaySystem 1).Reaches ⟨first, fun _ ↦ none⟩ last :=
  Async.System.reaches_play events _

end RelayRun

theorem relay_safe_run :
    RelaySafety RelayRun.file RelayRun.last.state.log ∧
      RelayRun.last.state.file.jobs.rows.map (·.state) = [.done, .discovered] :=
  ⟨(relay_safe 1 (w := RelayRun.first) ⟨rfl, by decide +kernel⟩ rfl RelayRun.reaches_last).1,
    by decide +kernel⟩

end Proofmark.Worker
