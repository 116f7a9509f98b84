import Proofmark.Hub.Runs
import Proofmark.Source.Invariants

/-!
# The receipts of a chain as the hub reads them

What the hub reads off a receipt of the chain is what the source emitted in that transaction,
whatever other contracts log in between (`filterMap_logs`). Over the whole chain, the trace of the
receipts lists the events of the source in order (`map_trace`) at strictly increasing coordinates
(`traceOf_pairwise`).
-/

open Evm

namespace Proofmark

variable {d : Deployment}

/-! ### One receipt -/

/-- A reading of logs that skips other contracts reads the events of the source. -/
theorem Mined.filterMap_logs {β : Type} (m : Mined d) {f : LogEntry → Option β}
    {g : SourceEvent → Option β} (hforeign : ∀ L, L.address_ ≠ d.address → f L = none)
    (hown : ∀ e : SourceEvent, f (e.toLog d.address) = g e) :
    m.receipt.logs.filterMap f = m.events.filterMap g := by
  rw [receipt, events]
  induction m.outcomes with
  | nil => rfl
  | cons o os ih =>
    rw [List.flatMap_cons, List.flatMap_cons, List.filterMap_append, List.filterMap_append]
    rw [show (os.flatMap Outcome.logs).filterMap f = _ from ih]
    congr 1
    cases o with
    | executed x =>
      rw [Outcome.logs, Outcome.events, List.filterMap_map]
      exact List.filterMap_congr fun e _ ↦ hown e
    | foreign L other =>
      rw [Outcome.logs, Outcome.events, List.filterMap_cons, hforeign L other]
      rfl

/-- A log a receipt of the chain shows under the source's address is an event of the source. -/
theorem Mined.exists_event {m : Mined d} {L : LogEntry} (hL : L ∈ m.receipt.logs)
    (haddr : L.address_ = d.address) : ∃ e ∈ m.events, L = e.toLog d.address := by
  obtain ⟨o, ho, hmem⟩ := List.mem_flatMap.1 hL
  cases o with
  | executed x =>
    obtain ⟨e, he, rfl⟩ := List.mem_map.1 hmem
    exact ⟨e, List.mem_flatMap.2 ⟨_, ho, he⟩, rfl⟩
  | foreign L' other =>
    rw [List.mem_singleton.1 hmem] at haddr
    exact absurd haddr other

/-- A receipt of the chain shows genuine logs only. -/
theorem Mined.genuine (m : Mined d) : ProofmarkASC.Genuine d.address m.receipt.logs := by
  intro L hL haddr
  obtain ⟨e, -, heq⟩ := exists_event hL haddr
  exact ⟨e, heq⟩

/-- Every event of the source in a transaction has its log in the receipt. -/
theorem Mined.mem_logs {m : Mined d} {e : SourceEvent} (h : e ∈ m.events) :
    e.toLog d.address ∈ m.receipt.logs := by
  obtain ⟨o, ho, hmem⟩ := List.mem_flatMap.1 h
  refine List.mem_flatMap.2 ⟨o, ho, ?_⟩
  cases o with
  | executed x => exact List.mem_map_of_mem hmem
  | foreign L other => exact absurd hmem List.not_mem_nil

theorem Mined.authorizedIssuers_eq (m : Mined d) (epoch : Uint 32) (root : Bytes32) :
    ProofmarkASC.authorizedIssuers d.address m.receipt.logs epoch root =
      m.events.filterMap (SourceEvent.authorizes epoch root) :=
  m.filterMap_logs (fun _ hother ↦ if_neg fun h ↦ hother h.1.1)
    (ProofmarkASC.authorizes_toLog epoch root)

theorem Mined.keyBindings_eq (m : Mined d) (epoch : Uint 32) (root : Bytes32) (issuer : Address) :
    m.receipt.logs.filterMap (ProofmarkASC.keyAuthorizes d.address epoch root issuer) =
      m.events.filterMap (SourceEvent.keyAuthorizes epoch root issuer) :=
  m.filterMap_logs (fun _ hother ↦ if_neg fun h ↦ hother h.1.1)
    (ProofmarkASC.keyAuthorizes_toLog epoch root issuer)

/-- An epoch whose issuers the source authorised is announced as the hub demands. -/
theorem AuthorizesEpoch.announced {m : Mined d} {epoch : Uint 32} {root : Bytes32}
    (h : AuthorizesEpoch m.events epoch root) :
    ProofmarkASC.Announced d.address m.receipt.logs epoch root := by
  constructor
  case distinct => rw [m.authorizedIssuers_eq]; exact h.distinct
  case count_pos => rw [m.authorizedIssuers_eq]; exact h.count_pos
  case count_le => rw [m.authorizedIssuers_eq]; exact h.count_le
  case issuer_ne_zero => rw [m.authorizedIssuers_eq]; exact h.issuer_ne_zero
  case key_unique => intro issuer; rw [m.keyBindings_eq]; exact h.key_unique issuer
  case key_ne_zero => intro issuer; rw [m.keyBindings_eq]; exact h.key_ne_zero issuer

/-- The event of a log, without its position. -/
theorem Receipt.map_snd_events (R : Receipt) (source : Address) :
    (R.events source).map Prod.snd = R.logs.filterMap fun L ↦
      if ProofmarkASC.trusted source L then ProofmarkASC.decode L else none := by
  suffices h : ∀ (l : List LogEntry) (n : ℕ),
      ((l.zipIdx n).filterMap (Receipt.eventAt source)).map Prod.snd = l.filterMap fun L ↦
        if ProofmarkASC.trusted source L then ProofmarkASC.decode L else none from h R.logs 0
  intro l
  induction l with
  | nil => intro n; rfl
  | cons L l ih =>
    intro n
    rw [List.zipIdx_cons, List.filterMap_cons, List.filterMap_cons, Receipt.eventAt]
    by_cases htrusted : ProofmarkASC.trusted source L
    · rcases hdecode : ProofmarkASC.decode L with - | e
      · simpa [htrusted, hdecode] using ih (n + 1)
      · simpa [htrusted, hdecode] using ih (n + 1)
    · simpa [htrusted] using ih (n + 1)

/-- What the hub reads in a receipt of the chain. -/
theorem Mined.events_receipt (m : Mined d) :
    (m.receipt.events d.address).map Prod.snd = m.events.filterMap SourceEvent.hubEvent := by
  rw [Receipt.map_snd_events]
  refine m.filterMap_logs (fun L hother ↦ if_neg fun h ↦ hother h.1) fun e ↦ ?_
  rw [if_pos (ProofmarkASC.trusted_toLog e), ProofmarkASC.decode_toLog]

/-! ### Receipts in order -/

/-- The order of receipts on a chain. -/
def Receipt.Before (R R' : Receipt) : Prop :=
  R.height < R'.height ∨ R.height = R'.height ∧ R.txIndex < R'.txIndex

/-- **The coordinates of a trace in order increase strictly.** -/
theorem traceOf_pairwise {source : Address} {Rs : List Receipt} (h : Rs.Pairwise Receipt.Before) :
    (traceOf source Rs).Pairwise fun x y ↦ coordOf x < coordOf y := by
  rw [traceOf, List.pairwise_flatMap]
  constructor
  · -- inside one receipt the position decides
    intro R _
    have hpositions : ((R.events source).map Prod.fst).Pairwise (· < ·) := by
      refine List.Pairwise.sublist (events_positions_sublist source R.logs.zipIdx) ?_
      rw [List.zipIdx_map_snd]
      exact List.pairwise_lt_range'
    rw [List.pairwise_map] at hpositions ⊢
    refine hpositions.imp fun {x y} hlt ↦ ?_
    exact Coord.lt_iff.2 (.inr ⟨rfl, .inr ⟨rfl, hlt⟩⟩)
  · refine h.imp fun hlt x hx y hy ↦ ?_
    obtain ⟨a, -, rfl⟩ := List.mem_map.1 hx
    obtain ⟨b, -, rfl⟩ := List.mem_map.1 hy
    exact Coord.lt_iff.2 (hlt.imp id fun h ↦ ⟨h.1, .inl h.2⟩)

theorem coordinates_nodup {Rs : List Receipt} (h : Rs.Pairwise Receipt.Before) :
    (Rs.map Receipt.coordinates).Nodup := by
  refine List.pairwise_map.2 (h.imp fun {R R'} hlt heq ↦ ?_)
  obtain ⟨hheight, htx⟩ := Prod.mk.inj heq
  rw [Receipt.Before, hheight, htx] at hlt
  rcases hlt with hlt | ⟨-, hlt⟩
  · exact BitVec.lt_irrefl _ hlt
  · exact BitVec.lt_irrefl _ hlt

/-! ### All receipts -/

namespace SourceChain

variable (C : SourceChain d)

/-- The trace of all receipts of the chain, in the order of the chain. -/
def trace : Trace :=
  traceOf d.address C.receipts

/-- **The trace lists the events of the source in order.** -/
theorem map_trace : C.trace.map (fun x ↦ x.2.2) = C.events.filterMap SourceEvent.hubEvent := by
  rw [trace, traceOf, receipts, events, List.flatMap_map, List.map_flatMap, List.filterMap_flatMap]
  congr 1
  funext m
  rw [← m.events_receipt, List.map_map]
  rfl

theorem receipts_pairwise : C.receipts.Pairwise Receipt.Before := by
  have hordered := C.ordered
  rw [← C.map_tx_mined, List.pairwise_map] at hordered
  rw [receipts, List.pairwise_map]
  exact hordered

theorem receipts_pos : ∀ R ∈ C.receipts, 0 < R.height := by
  intro R hR
  obtain ⟨m, hm, rfl⟩ := List.mem_map.1 hR
  refine C.positive m.tx ?_
  rw [← C.map_tx_mined]
  exact List.mem_map_of_mem hm

end SourceChain

/-! ### A chain to try it on -/

/-- Accounts without code. -/
def noCode : External :=
  ⟨fun _ ↦ false, fun _ ↦ none, fun _ ↦ none, fun _ _ _ ↦ none, fun _ _ ↦ none⟩

def sampleDeployment : Deployment :=
  ⟨0x501, by decide, 1, 1⟩

/-- The attributes of a mark in force at the time of the sample. -/
def sampleAttrs : Bytes32 :=
  MarkAttrs.pack 1 3 1 840 1 1700000000 1800000000 1

theorem sampleOwner_ne_zero : (1 : Address) ≠ 0 := by
  decide

theorem sampleIssuer_ne_zero : (0xCA11 : Address) ≠ 0 := by
  decide

theorem sampleApprover_ne_zero : (0xA9900 : Address) ≠ 0 := by
  decide

theorem sampleExecutor_ne_zero : (0xF00D : Address) ≠ 0 := by
  decide

theorem sampleGovernor_ne_zero : (0x0E : Address) ≠ 0 := by
  decide

/-- Roles, a denial, an epoch and an approved correction, with a log of another contract between. -/
def sampleTransaction : Transaction sampleDeployment where
  height := 100
  txIndex := 2
  timestamp := 1700086400
  steps :=
    [.call 1 sampleOwner_ne_zero noCode (.setIssuer 0xCA11 true),
      .call 1 sampleOwner_ne_zero noCode (.setEpochPublisher 0xCA11 true),
      .call 1 sampleOwner_ne_zero noCode (.setDenialCorrectionApprover 0xA9900 true),
      .foreign ((SourceEvent.MarkRevoked 0x3001 7 0).toLog 0xBAD) (by decide),
      .call 0xCA11 sampleIssuer_ne_zero noCode (.deny 0x3001 2 1),
      .call 0xCA11 sampleIssuer_ne_zero noCode (.publishEpoch 1 7 2 1700090000 1700086340 9),
      .call 0xCA11 sampleIssuer_ne_zero noCode (.proposeDenialCorrection 0x3001 sampleAttrs 5 6 4),
      .call 0xA9900 sampleApprover_ne_zero noCode (.approveDenialCorrection 1)]

/-- The correction is executed an hour later, by somebody else. -/
def sampleChain : SourceChain sampleDeployment where
  transactions := [sampleTransaction,
    ⟨101, 0, 1700090000, [.call 0xF00D sampleExecutor_ne_zero noCode (.executeDenialCorrection 1)]⟩]
  ordered := by simp [Transaction.Before, sampleTransaction]
  positive := by simp [sampleTransaction]

example : sampleChain.events.map SourceEvent.name =
    [.IssuerSet, .EpochPublisherSet, .DenialCorrectionApproverSet, .SanctionDenied,
      .RosterIssuerAuthorized, .RosterEpochPublished, .DenialCorrectionProposed,
      .DenialCorrectionApproved, .SanctionDenialCorrected, .MarkIssued] := by
  decide +kernel

end Proofmark
