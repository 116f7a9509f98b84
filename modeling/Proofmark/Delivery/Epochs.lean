import Proofmark.Delivery.Delivered
import Proofmark.Hub.Epochs

/-!
# Epochs of the source on the hub

The source hands out strictly increasing epoch numbers, so a number stands for one announcement
(`EpochsIncrease`). The hub takes the greatest number it has seen and skips smaller ones, so after
any receipts in any order it shows the greatest announcement among them.
-/

open Evm

namespace Proofmark

variable {d : Deployment}

/-! ### Announcements of the source -/

/-- The announcement an event of the source makes. -/
def SourceEvent.announcement? (e : SourceEvent) : Option Announcement :=
  match e.hubEvent with
  | some (.epoch a) => some a
  | _ => none

theorem SourceEvent.announcement?_of_rosterEpoch {e : SourceEvent} (h : e.rosterEpoch? = none) :
    e.announcement? = none := by
  cases e with
  | RosterEpochPublished => simp [rosterEpoch?] at h
  | _ => rfl

/-- The announcements so far have increasing numbers up to the last epoch of the source. -/
structure EpochsIncrease (es : List SourceEvent) (s : ComplianceSource) : Prop where
  increasing : (es.filterMap SourceEvent.announcement?).Pairwise fun a b ↦ a.epoch < b.epoch
  bounded : ∀ a ∈ es.filterMap SourceEvent.announcement?, a.epoch ≠ 0 ∧ a.epoch ≤ s.lastEpoch

section Step

variable {s s' : ComplianceSource} {env : SourceEnv} {call : ComplianceSource.Call}
  {es events : List SourceEvent}

/-- Events of no epoch change nothing. -/
theorem EpochsIncrease.append_other (h : EpochsIncrease es s) (hlast : s'.lastEpoch = s.lastEpoch)
    (hother : ∀ e ∈ events, e.rosterEpoch? = none) : EpochsIncrease (es ++ events) s' := by
  have hnil : events.filterMap SourceEvent.announcement? = [] :=
    List.filterMap_eq_nil_iff.2 fun e he ↦ SourceEvent.announcement?_of_rosterEpoch (hother e he)
  constructor
  case increasing => rw [List.filterMap_append, hnil, List.append_nil]; exact h.increasing
  case bounded => rw [List.filterMap_append, hnil, List.append_nil, hlast]; exact h.bounded

/-- **One call keeps the epochs increasing.** -/
theorem EpochsIncrease.concat (h : EpochsIncrease es s)
    (heffect : ComplianceSource.Effect s env call s' events) : EpochsIncrease (es ++ events) s' := by
  cases heffect with
  | plain keeps plain => exact h.append_other keeps.lastEpoch fun e he ↦ (plain e he).rosterEpoch?
  | denied listVersion epoch denies =>
    refine h.append_other denies.lastEpoch fun e he ↦ ?_
    obtain ⟨u, -, rfl⟩ := List.mem_map.1 he
    rfl
  | proposed => exact h.append_other rfl (by simp [SourceEvent.rosterEpoch?])
  | approved => exact h.append_other rfl (by simp [SourceEvent.rosterEpoch?])
  | executed => exact h.append_other rfl (by simp [SourceEvent.rosterEpoch?])
  | @published _ epoch root listVersion validUntil sourceCutoff snapshotId issuers newer =>
    have hauthorizations : (issuers.flatMap (SourceEvent.authorization epoch root)).filterMap
        SourceEvent.announcement? = [] := by
      refine List.filterMap_eq_nil_iff.2 fun e he ↦ ?_
      rcases SourceEvent.mem_authorization he with ⟨i, rfl⟩ | ⟨i, k, rfl⟩ <;> rfl
    -- one announcement is new, and its number is above all others
    have hnew : ∀ a ∈ es.filterMap SourceEvent.announcement?, a.epoch < epoch := fun a ha ↦
      BitVec.not_le.1 fun hle ↦
        BitVec.not_lt.2 (BitVec.le_trans hle (h.bounded a ha).2) newer
    constructor
    case increasing =>
      rw [List.filterMap_append, List.filterMap_append, hauthorizations, List.nil_append,
        List.pairwise_append]
      refine ⟨h.increasing, List.pairwise_singleton _ _, fun a ha b hb ↦ ?_⟩
      rw [List.mem_singleton.1 hb]
      exact hnew a ha
    case bounded =>
      rw [List.filterMap_append, List.filterMap_append, hauthorizations, List.nil_append]
      intro a ha
      rcases List.mem_append.1 ha with ha | ha
      · exact ⟨(h.bounded a ha).1, BitVec.le_of_lt (hnew a ha)⟩
      · rw [List.mem_singleton.1 ha]
        refine ⟨fun hzero ↦ ?_, BitVec.le_refl _⟩
        rw [show epoch = 0 from hzero] at newer
        exact BitVec.not_lt_zero newer

end Step

/-- **The epochs of a chain increase.** -/
theorem SourceChain.epochsIncrease (C : SourceChain d) : EpochsIncrease C.events C.final := by
  rw [C.events_eq]
  refine C.executed_rule (P := fun done s ↦ EpochsIncrease (done.flatMap Executed.events) s)
    ⟨List.Pairwise.nil, by simp⟩ fun done s x s' hdone hexec ↦ ?_
  rw [List.flatMap_append, List.flatMap_singleton]
  exact hdone.concat (ComplianceSource.exec_effect hexec)

/-! ### Announcements of a trace -/

/-- The announcements of a trace. -/
def Trace.announcements (T : Trace) : List Announcement :=
  T.filterMap fun x ↦
    match x.2.2 with
    | .epoch a => some a
    | _ => none

theorem Trace.mem_announcements {T : Trace} {a : Announcement} :
    a ∈ T.announcements ↔ ∃ R i, (R, i, HubEvent.epoch a) ∈ T := by
  rw [announcements, List.mem_filterMap]
  constructor
  · rintro ⟨⟨R, i, e⟩, hmem, he⟩
    cases e with
    | epoch a' =>
      obtain rfl := Option.some.inj he
      exact ⟨R, i, hmem⟩
    | _ => simp at he
  · rintro ⟨R, i, hmem⟩
    exact ⟨_, hmem, rfl⟩

/-- The announcement with the greatest number. -/
def Trace.GreatestEpoch (T : Trace) (a : Announcement) : Prop :=
  a ∈ T.announcements ∧ ∀ a' ∈ T.announcements, a'.epoch ≤ a.epoch

/-- The announcements of the chain's receipts are those of its events. -/
theorem SourceChain.announcements_trace (C : SourceChain d) :
    C.trace.announcements = C.events.filterMap SourceEvent.announcement? := by
  have hread : C.events.filterMap SourceEvent.announcement? =
      (C.events.filterMap SourceEvent.hubEvent).filterMap fun e ↦
        match e with
        | .epoch a => some a
        | _ => none := by
    rw [List.filterMap_filterMap]
    refine List.filterMap_congr fun e _ ↦ ?_
    rw [SourceEvent.announcement?]
    rcases e.hubEvent with - | (- | - | -) <;> rfl
  rw [hread, ← C.map_trace, List.filterMap_map]
  rfl

/-- A number stands for one announcement. -/
theorem SourceChain.announcement_unique (C : SourceChain d) {a a' : Announcement}
    (ha : a ∈ C.trace.announcements) (ha' : a' ∈ C.trace.announcements)
    (hepoch : a.epoch = a'.epoch) : a = a' := by
  rw [C.announcements_trace] at ha ha'
  have hnd : ((C.events.filterMap SourceEvent.announcement?).map Announcement.epoch).Nodup :=
    List.pairwise_map.2 (C.epochsIncrease.increasing.imp fun hlt ↦ BitVec.ne_of_lt hlt)
  exact List.inj_on_of_nodup_map hnd ha ha' hepoch

theorem SourceChain.announcement_pos (C : SourceChain d) {a : Announcement}
    (ha : a ∈ C.trace.announcements) : a.epoch ≠ 0 := by
  rw [C.announcements_trace] at ha
  exact (C.epochsIncrease.bounded a ha).1

/-! ### The hub -/

section Delivery

variable {C : SourceChain d} {S : List Receipt} {decoder : EvmV1Decoder} {o : Ownable2Step}
  {calls : List ProofmarkASC.Call}

/-- **After any receipts of a chain, in any order, the hub shows the greatest epoch among them.** -/
theorem Delivered.showsEpoch (h : Delivered d.address S decoder o calls)
    (hS : ∀ R ∈ S, R ∈ C.receipts) {a : Announcement}
    (ha : (traceOf d.address S).GreatestEpoch a) :
    (ProofmarkASC.after decoder o calls).ShowsEpoch a := by
  have hledger := ProofmarkASC.epochLedger_after decoder o calls
  have hchain : ∀ a' ∈ (traceOf d.address S).announcements, a' ∈ C.trace.announcements := by
    intro a' ha'
    obtain ⟨R, i, hmem⟩ := Trace.mem_announcements.1 ha'
    obtain ⟨R', hR', hx⟩ := List.mem_flatMap.1 hmem
    exact Trace.mem_announcements.2 ⟨R, i, List.mem_flatMap.2 ⟨R', hS R' hR', hx⟩⟩
  have hle : a.epoch ≤ (ProofmarkASC.after decoder o calls).core.latestEpoch := by
    obtain ⟨R, i, hmem⟩ := Trace.mem_announcements.1 ha.1
    exact hledger.greatest R i a (h.mem_trace.2 hmem)
  have hlatest : (ProofmarkASC.after decoder o calls).core.latestEpoch ≠ 0 := fun hzero ↦ by
    rw [hzero] at hle
    exact C.announcement_pos (hchain a ha.1) (BitVec.le_zero_iff.1 hle)
  -- the log that set the latest epoch is one of the receipts', so it is the greatest
  obtain ⟨R, i, b, hset, -, hshows⟩ := hledger.exists_latest hlatest
  have hb : b ∈ (traceOf d.address S).announcements :=
    Trace.mem_announcements.2 ⟨R, i, h.mem_trace.1 hset.mem⟩
  have hepoch : a.epoch = b.epoch :=
    BitVec.le_antisymm (hshows.epoch ▸ hle) (ha.2 b hb)
  rw [C.announcement_unique (hchain a ha.1) (hchain b hb) hepoch]
  exact hshows.of_core

/-- Without an announcement no epoch is accepted. -/
theorem Delivered.latestEpoch_eq_zero (h : Delivered d.address S decoder o calls)
    (hS : (traceOf d.address S).announcements = []) :
    (ProofmarkASC.after decoder o calls).latestEpoch = 0 := by
  rcases (ProofmarkASC.epochLedger_after decoder o calls).latest with hzero | ⟨R, i, a, hset, -, -⟩
  · exact hzero
  · have ha := Trace.mem_announcements.2 ⟨R, i, h.mem_trace.1 hset.mem⟩
    rw [hS] at ha
    exact absurd ha List.not_mem_nil

/-- **Accepted epochs.** The latest epoch of a hub never decreases and nothing about an accepted
epoch ever changes. The epoch-wide fields are those of the one log that set the latest epoch, with
between 1 and 16 approvals, which are those of its receipt. After any receipts of a source, in any
order, they are those of the greatest epoch among the receipts. -/
theorem epochs_accepted (decoder : EvmV1Decoder) (o : Ownable2Step)
    (calls : List ProofmarkASC.Call) :
    let s := ProofmarkASC.after decoder o calls
    (∀ calls', s.KeepsEpochs (ProofmarkASC.after decoder o (calls ++ calls'))) ∧
      (∀ e, s.epochRoots e ≠ 0 → e ≤ s.latestEpoch) ∧
      (s.latestEpoch ≠ 0 → ∃ R i a,
        ProofmarkASC.SetBy (ProofmarkASC.traceAfter decoder o calls) R i a ∧ s.Records R a ∧
          s.ShowsEpoch a) ∧
      ∀ (d : Deployment) (C : SourceChain d) (S : List Receipt), (∀ R ∈ S, R ∈ C.receipts) →
        Delivered d.address S decoder o calls →
        (∀ a, (traceOf d.address S).GreatestEpoch a → s.ShowsEpoch a) ∧
          ((traceOf d.address S).announcements = [] → s.latestEpoch = 0) := by
  intro s
  have hledger := ProofmarkASC.epochLedger_after decoder o calls
  refine ⟨ProofmarkASC.keepsEpochs_run decoder o calls, fun e he ↦ ?_, fun hlatest ↦ ?_,
    fun d C S hS h ↦ ⟨fun a ha ↦ h.showsEpoch hS ha, h.latestEpoch_eq_zero⟩⟩
  · obtain ⟨R, i, a, -, rfl, hrecords⟩ := hledger.exists_records he
    exact hledger.le_latest hrecords
  · obtain ⟨R, i, a, hset, hrecords, hshows⟩ := hledger.exists_latest hlatest
    exact ⟨R, i, a, hset, hrecords.of_core, hshows.of_core⟩

end Delivery

/-- The announcement of the sample. -/
def sampleAnnouncement : Announcement :=
  ⟨1, 7, 2, 1700090000, 1700086340, 1700086400, 9⟩

theorem greatestEpoch_sampleChain :
    (traceOf sampleDeployment.address sampleChain.receipts).GreatestEpoch sampleAnnouncement := by
  have hone : (traceOf sampleDeployment.address sampleChain.receipts).announcements =
      [sampleAnnouncement] := by decide +kernel
  rw [Trace.GreatestEpoch, hone]
  simp

theorem epochs_accepted_backwards :
    (ProofmarkASC.after sampleDecoder ⟨1, 0⟩ backwards).ShowsEpoch sampleAnnouncement := by
  obtain ⟨-, -, -, hdelivered⟩ := epochs_accepted sampleDecoder ⟨1, 0⟩ backwards
  exact (hdelivered sampleDeployment sampleChain sampleChain.receipts (fun _ hR ↦ hR)
    delivered_backwards).1 sampleAnnouncement greatestEpoch_sampleChain

end Proofmark
