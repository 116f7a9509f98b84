import Proofmark.Hub.Confluence
import Proofmark.Source.Receipts

/-!
# The hub once receipts are delivered

`Delivered` relates a list of receipts and a run of the hub: the hub is pinned to the source, it
accepted receipts of the list only, which is the soundness of the proof precompile, and it
accepted every receipt that carries an event for it. Then the hub's trace is that of the list up to
order, and if the list is ordered as on the chain, the record of a subject shows the fold of the
subject's events in that order (`Delivered.shows`).
-/

open Evm LastWriter

namespace Proofmark

/-- A run of the hub that was given some receipts of a source, in any order. -/
structure Delivered (source : Address) (S : List Receipt) (decoder : EvmV1Decoder)
    (o : Ownable2Step) (calls : List ProofmarkASC.Call) : Prop where
  pinned : (ProofmarkASC.after decoder o calls).sourceContract = source
  genuine : ∀ R ∈ ProofmarkASC.acceptedReceipts decoder o calls, R ∈ S
  complete : ∀ R ∈ S, R.events source ≠ [] → R ∈ ProofmarkASC.acceptedReceipts decoder o calls

/-- Receipts without an event add nothing to a trace. -/
theorem traceOf_filter (source : Address) (Rs : List Receipt) :
    traceOf source (Rs.filter fun R ↦ !(R.events source).isEmpty) = traceOf source Rs := by
  induction Rs with
  | nil => rfl
  | cons R Rs ih =>
    simp only [traceOf] at ih ⊢
    cases h : R.events source with
    | nil => simp [h, ih]
    | cons x xs => simp [h, ih]

/-- A history listed in order folds to its standing. -/
theorem standing_of_pairwise {E : History} (h : E.Pairwise fun x y ↦ x.1 < y.1) :
    standing E = E.foldl Standing.step Standing.initial := by
  have hnd : (E.map Prod.fst).Nodup := List.pairwise_map.2 (h.imp fun hlt ↦ hlt.ne)
  rw [standing_eq hnd, foldl_step_eq_ofRegisters, replay_eq_of_pairwise _ h]
  rfl

/-- The history of a subject is in order if the trace is. -/
theorem historyOf_pairwise {T : Trace} (h : T.Pairwise fun x y ↦ coordOf x < coordOf y)
    (subject : Address) : (historyOf subject T).Pairwise fun x y ↦ x.1 < y.1 := by
  refine List.Pairwise.filterMap (lifecycleOf subject) (fun x y hlt a ha b hb ↦ ?_) h
  have hcoord : ∀ (x : Receipt × ℕ × HubEvent) a, lifecycleOf subject x = some a →
      a.1 = coordOf x := fun x a hx ↦ by
    simp only [lifecycleOf] at hx
    split at hx
    · split at hx
      · rw [← Option.some.inj hx]
      · simp at hx
    · simp at hx
  rw [hcoord x a ha, hcoord y b hb]
  exact hlt

namespace Delivered

variable {source : Address} {S : List Receipt} {decoder : EvmV1Decoder} {o : Ownable2Step}
  {calls : List ProofmarkASC.Call}

/-- The hub saw the events of the receipts and no others. -/
theorem mem_trace (h : Delivered source S decoder o calls) {x : Receipt × ℕ × HubEvent} :
    x ∈ ProofmarkASC.traceAfter decoder o calls ↔ x ∈ traceOf source S := by
  rw [ProofmarkASC.traceAfter, h.pinned, traceOf, traceOf, List.mem_flatMap, List.mem_flatMap]
  constructor
  · rintro ⟨R, hR, hx⟩
    exact ⟨R, h.genuine R hR, hx⟩
  · rintro ⟨R, hR, hx⟩
    refine ⟨R, h.complete R hR fun hnil ↦ ?_, hx⟩
    rw [hnil] at hx
    exact List.not_mem_nil hx

/-- **The hub's trace is that of the receipts**, up to order. -/
theorem trace_perm (h : Delivered source S decoder o calls) (hS : S.Pairwise Receipt.Before) :
    (ProofmarkASC.traceAfter decoder o calls).Perm (traceOf source S) := by
  rw [ProofmarkASC.traceAfter, h.pinned, ← traceOf_filter, ← traceOf_filter source S]
  refine traceOf_perm _ ((List.perm_ext_iff_of_nodup ?_ ?_).2 fun R ↦ ?_)
  · exact (List.Nodup.of_map _ (ProofmarkASC.receipts_nodup decoder o calls)).filter _
  · exact (List.Nodup.of_map _ (coordinates_nodup hS)).filter _
  · rw [List.mem_filter, List.mem_filter]
    constructor
    · rintro ⟨hR, hevents⟩
      exact ⟨h.genuine R hR, hevents⟩
    · rintro ⟨hR, hevents⟩
      exact ⟨h.complete R hR (by simpa using hevents), hevents⟩

/-- **Once receipts are delivered**, the record of a subject shows the fold of its events in the
order of the chain. -/
theorem shows (h : Delivered source S decoder o calls) (hS : S.Pairwise Receipt.Before)
    (hpos : ∀ R ∈ S, 0 < R.height) (subject : Address) :
    Shows ((ProofmarkASC.after decoder o calls).subjects subject)
      ((historyOf subject (traceOf source S)).foldl Standing.step Standing.initial) := by
  have hheight : ∀ R ∈ ProofmarkASC.acceptedReceipts decoder o calls, 0 < R.height :=
    fun R hR ↦ hpos R (h.genuine R hR)
  have hnd := historyOf_nodup (ProofmarkASC.traceAfter_nodup decoder o calls) subject
  have hshows := (ProofmarkASC.tracks_history hheight subject).shows hnd
  rwa [standing_perm hnd (historyOf_perm subject (h.trace_perm hS)),
    standing_of_pairwise (historyOf_pairwise (traceOf_pairwise hS) subject)] at hshows

end Delivered

/-! ### The history of a subject on the chain -/

variable {d : Deployment}

/-- The lifecycle events of a subject with their coordinates, in the order of the chain. -/
def SourceChain.history (C : SourceChain d) (subject : Address) : History :=
  historyOf subject C.trace

/-- Once all receipts of a chain are delivered, a record shows the history on the chain. -/
theorem Delivered.shows_history {C : SourceChain d} {decoder : EvmV1Decoder} {o : Ownable2Step}
    {calls : List ProofmarkASC.Call} (h : Delivered d.address C.receipts decoder o calls)
    (subject : Address) : Shows ((ProofmarkASC.after decoder o calls).subjects subject)
      ((C.history subject).foldl Standing.step Standing.initial) :=
  h.shows C.receipts_pairwise C.receipts_pos subject

/-- The lifecycle event of a subject an event of the source is, if it is one. -/
def SourceEvent.about (subject : Address) (e : SourceEvent) : Option LifecycleEvent :=
  match e.hubEvent with
  | some (.lifecycle who e) => if who = subject then some e else none
  | _ => none

/-- The lifecycle event of a subject an event of the hub is, if it is one. -/
def HubEvent.about (subject : Address) : HubEvent → Option LifecycleEvent
  | .lifecycle who e => if who = subject then some e else none
  | _ => none

/-- The history of a subject lists the source's events about it. -/
theorem SourceChain.map_snd_history (C : SourceChain d) (subject : Address) :
    (C.history subject).map Prod.snd = C.events.filterMap (SourceEvent.about subject) := by
  have hread : C.events.filterMap (SourceEvent.about subject) =
      (C.events.filterMap SourceEvent.hubEvent).filterMap (HubEvent.about subject) := by
    rw [List.filterMap_filterMap]
    refine List.filterMap_congr fun e _ ↦ ?_
    rw [SourceEvent.about]
    rcases e.hubEvent with - | (- | - | -) <;> rfl
  rw [hread, ← C.map_trace, List.filterMap_map, history, historyOf, List.map_filterMap]
  refine List.filterMap_congr fun x _ ↦ ?_
  simp only [lifecycleOf, Function.comp_apply]
  rcases x.2.2 with ⟨who, e⟩ | a | ⟨issuer, k, b⟩
  · by_cases hwho : who = subject <;> simp [HubEvent.about, hwho]
  · rfl
  · rfl

/-! ### The sample delivered backwards -/

def sampleDecoder : EvmV1Decoder :=
  ProofmarkASC.tableDecoder (sampleChain.receipts.map Receipt.logs)

/-- The hub is pinned to the source, then gets the second receipt before the first. -/
def backwards : List ProofmarkASC.Call :=
  [.configureSource ⟨1, 1700090000, ProofmarkASC.mockBlockProver⟩ 1 0x501,
    ProofmarkASC.deliver .SanctionDenialCorrection 101 0 1,
    ProofmarkASC.deliver .SanctionDenied 100 2 0]

theorem acceptedReceipts_backwards :
    ProofmarkASC.acceptedReceipts sampleDecoder ⟨1, 0⟩ backwards = sampleChain.receipts.reverse := by
  decide +kernel

theorem delivered_backwards :
    Delivered sampleDeployment.address sampleChain.receipts sampleDecoder ⟨1, 0⟩ backwards where
  pinned := by decide +kernel
  genuine R hR := by
    rw [acceptedReceipts_backwards] at hR
    exact List.mem_reverse.1 hR
  complete R hR _ := by
    rw [acceptedReceipts_backwards]
    exact List.mem_reverse.2 hR

end Proofmark
