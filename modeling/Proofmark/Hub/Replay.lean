import Mathlib.Data.Nat.Log
import Proofmark.Hub.Confluence
import Proofmark.Worker.QueryId

/-!
# Exactly once

The replay table over a run of the hub. It holds exactly the ids of the coordinates that accepted
`execute` calls proved (`processedQueries_iff`), and a call whose id is in it reverts, so no
coordinate is accepted twice (`appliedCoordinates_nodup`). Without a collision the table read at an
id therefore says whether the coordinate behind it was applied, and an execution of one that was not
succeeds as if there were no table (`execute_fresh`).
-/

open Evm

namespace Proofmark

namespace ProofmarkASC

/-- The coordinates an `execute` call proves. -/
def Call.coordinates? : Call → Option QueryCoordinates
  | .execute env args =>
    (env.verifier.calculateTxIndex ⟨args.merkleRoot, args.siblings⟩).map fun txIndex ↦
      ⟨args.chainKey, args.blockHeight, txIndex⟩
  | _ => none

/-- The coordinates applied in a run, in order. -/
def appliedCoordinates (decoder : EvmV1Decoder) (o : Ownable2Step) (calls : List Call) :
    List QueryCoordinates :=
  (accepted (exec decoder) (deployed o) calls).filterMap Call.coordinates?

variable {decoder : EvmV1Decoder} {s s' : ProofmarkASC} {env : HubEnv} {args : ExecuteArgs}
  {c : QueryCoordinates}

/-- An execution of a coordinate that is not in the table is its verification and its processing. -/
theorem execute_fresh (hc : Call.coordinates? (.execute env args) = some c)
    (hfresh : s.processedQueries c.queryId = false) :
    s.execute decoder env args = .ok s' ↔
      env.verifier.verifyAndEmit args.chainKey args.blockHeight args.encodedTransaction
          ⟨args.merkleRoot, args.siblings⟩ ⟨args.lowerEndpointDigest, args.continuityRoots⟩ =
        some true ∧
      { s with processedQueries := Function.update s.processedQueries c.queryId true
        }.processAndEmitEvent decoder env.timestamp args.action args.chainKey args.blockHeight
          c.txIndex args.encodedTransaction = .ok s' := by
  obtain ⟨txIndex, htx, rfl⟩ := Option.map_eq_some_iff.1 hc
  replace hfresh : s.processedQueries (computeQueryId args.chainKey args.blockHeight txIndex) =
    false := hfresh
  simp only [execute, htx, bind_eq_ok, getOrRevert_eq_ok, revertIf_eq_ok, Option.some.injEq,
    Bool.not_eq_false']
  constructor
  · rintro ⟨_, rfl, -, -, verified, hverified, -, rfl, h⟩
    exact ⟨hverified, h⟩
  · rintro ⟨hverified, h⟩
    exact ⟨txIndex, rfl, (), hfresh, true, hverified, (), rfl, h⟩

/-- An accepted execution proves a coordinate that was not in the table, and enters it. -/
theorem execute_processedQueries (h : s.execute decoder env args = .ok s') :
    ∃ c R, Call.coordinates? (.execute env args) = some c ∧
      Call.receipt? decoder (.execute env args) = some R ∧
      R.coordinates = (c.blockHeight, c.txIndex) ∧ s.processedQueries c.queryId = false ∧
      s'.processedQueries = Function.update s.processedQueries c.queryId true := by
  obtain ⟨R, matched, hR, hfresh, -, hscan⟩ := execute_spec h
  have hchain : args.chainKey = s.expectedChainKey := by
    obtain ⟨txIndex, -, h⟩ := bind_eq_ok.1 h
    obtain ⟨-, h⟩ := revertIf_bind_eq_ok.1 h
    obtain ⟨verified, -, h⟩ := bind_eq_ok.1 h
    simp only [revertIf_bind_eq_ok, processAndEmitEvent, bne_eq_false_iff_eq] at h
    exact h.2.2.1
  have htable := (receipt_rule (P := fun _ (t : ProofmarkASC) ↦
    t.processedQueries = Function.update s.processedQueries
      (computeQueryId s.expectedChainKey R.height R.txIndex) true)
    (fun _ t i e ht _ ↦ by simpa using ht) hscan rfl).2
  have hreceipt := hR
  simp only [Call.receipt?] at hreceipt
  split at hreceipt
  case h_1 txIndex r htx hr =>
    obtain rfl := Option.some.inj hreceipt
    rw [← hchain] at hfresh htable
    exact ⟨⟨args.chainKey, args.blockHeight, txIndex⟩, _, by simp [Call.coordinates?, htx], hR, rfl,
      hfresh, htable⟩
  case h_2 => exact absurd hreceipt (by simp)

/-- A call that is no execution proves nothing and leaves the table. -/
theorem exec_processedQueries {call : Call} (hcall : ∀ env args, call ≠ .execute env args)
    (h : s.exec decoder call = .ok s') : call.coordinates? = none ∧
      call.receipt? decoder = none ∧ s'.processedQueries = s.processedQueries := by
  cases call with
  | execute env args => exact absurd rfl (hcall env args)
  | configureSource env chainKey sourceContract =>
    obtain ⟨-, -, h⟩ := bind_eq_ok.1 h
    simp only [revertIf_bind_eq_ok] at h
    obtain ⟨-, -, -, h⟩ := h
    obtain rfl := Except.ok.inj h
    exact ⟨rfl, rfl, rfl⟩
  | transferOwnership | acceptOwnership | renounceOwnership =>
    obtain ⟨o, -, h⟩ := bind_eq_ok.1 h
    obtain rfl := Except.ok.inj h
    exact ⟨rfl, rfl, rfl⟩

/-- What the table and the receipts of a run say about the coordinates applied so far. -/
structure Recorded (decoder : EvmV1Decoder) (done : List Call) (s : ProofmarkASC) : Prop where
  table : ∀ id, s.processedQueries id = true ↔
    ∃ c ∈ done.filterMap Call.coordinates?, c.queryId = id
  nodup : (done.filterMap Call.coordinates?).Nodup
  receipts : (done.filterMap Call.coordinates?).map (fun c ↦ (c.blockHeight, c.txIndex)) =
    (receiptsOf decoder done).map Receipt.coordinates

/-- **The table records the coordinates of every run.** -/
theorem recorded_after (decoder : EvmV1Decoder) (o : Ownable2Step) (calls : List Call) :
    Recorded decoder (accepted (exec decoder) (deployed o) calls) (after decoder o calls) := by
  refine run_induction (P := Recorded decoder) ?_ ?_ calls
  · exact ⟨by simp [deployed], by simp, by simp [receiptsOf]⟩
  rintro done s call s' ⟨htable, hnodup, hreceipts⟩ hexec
  by_cases hcall : ∃ env args, call = .execute env args
  · obtain ⟨env, args, rfl⟩ := hcall
    obtain ⟨c, R, hc, hR, hcoordinates, hfresh, hupdate⟩ := execute_processedQueries hexec
    have hdone : (done ++ [Call.execute env args]).filterMap Call.coordinates? =
        done.filterMap Call.coordinates? ++ [c] := by simp [hc]
    have hnew : c ∉ done.filterMap Call.coordinates? := fun hmem ↦ by
      rw [(htable _).2 ⟨c, hmem, rfl⟩] at hfresh
      exact absurd hfresh (by decide)
    constructor
    case table =>
      intro id
      rw [hdone, hupdate, Function.update_apply]
      split
      case isTrue heq => simp [heq]
      case isFalse hne =>
        rw [htable id]
        constructor
        · rintro ⟨d, hd, hid⟩
          exact ⟨d, List.mem_append_left _ hd, hid⟩
        · rintro ⟨d, hd, hid⟩
          rcases List.mem_append.1 hd with hd | hd
          · exact ⟨d, hd, hid⟩
          · rw [List.mem_singleton.1 hd] at hid
            exact absurd hid.symm hne
    case nodup =>
      rw [hdone, ← List.concat_eq_append, List.nodup_concat]
      exact ⟨hnew, hnodup⟩
    case receipts =>
      rw [hdone, List.map_append, hreceipts, receiptsOf, receiptsOf, List.filterMap_append,
        List.map_append]
      simp [hR, hcoordinates]
  · have hother : ∀ env args, call ≠ .execute env args := fun env args heq ↦
      hcall ⟨env, args, heq⟩
    obtain ⟨hnone, hreceipt, hsame⟩ := exec_processedQueries hother hexec
    have hdone : (done ++ [call]).filterMap Call.coordinates? =
        done.filterMap Call.coordinates? := by simp [hnone]
    have hdone' : receiptsOf decoder (done ++ [call]) = receiptsOf decoder done := by
      simp [receiptsOf, hreceipt]
    exact ⟨by rw [hdone, hsame]; exact htable, by rw [hdone]; exact hnodup, by
      rw [hdone, hdone']; exact hreceipts⟩

/-- **No coordinate is applied twice.** -/
theorem appliedCoordinates_nodup (decoder : EvmV1Decoder) (o : Ownable2Step)
    (calls : List Call) : (appliedCoordinates decoder o calls).Nodup :=
  (recorded_after decoder o calls).nodup

/-- The table read at an id. -/
theorem processedQueries_iff (decoder : EvmV1Decoder) (o : Ownable2Step) (calls : List Call)
    (c : QueryCoordinates) (hfree : CollisionFree keccak256 (QueryCoordinates.layout ''
      insert c {d | d ∈ appliedCoordinates decoder o calls})) :
    (after decoder o calls).processedQueries c.queryId = true ↔
      c ∈ appliedCoordinates decoder o calls := by
  rw [(recorded_after decoder o calls).table]
  constructor
  · rintro ⟨d, hd, hid⟩
    obtain rfl := QueryCoordinates.queryId_injOn hfree (Set.mem_insert_of_mem c hd)
      (Set.mem_insert _ _) hid
    exact hd
  · exact fun hc ↦ ⟨c, hc, rfl⟩

/-- The events of a run are applied one after the other, and nothing else is. -/
theorem core_after (decoder : EvmV1Decoder) (o : Ownable2Step) (calls : List Call) :
    (after decoder o calls).core = (traceAfter decoder o calls).foldl
      (fun s x ↦ s.applyEvent x.1 x.2.1 x.2.2) (blank (after decoder o calls).sourceContract) := by
  have h := run_rule (P := fun done s ↦ s = done.foldl (fun s x ↦ s.applyEvent x.1 x.2.1 x.2.2)
    (blank s.sourceContract)) (fun source ↦ rfl) (fun done s R i e now hdone _ ↦ by
      rw [List.foldl_append, applyEvent_sourceContract, ← hdone]
      rfl) decoder o calls
  exact h

/-- What the replay table gives after a run: every trusted log of an applied coordinate acts once and
nothing else acts; a reverted call leaves the state; the worker's id is the id the assembly computes,
and ids tell coordinates apart; the table read at that id says whether the coordinate was applied,
and one that was not can still be. -/
structure ExactlyOnce (E : Ethers) (decoder : EvmV1Decoder) (o : Ownable2Step)
    (calls : List Call) : Prop where
  coordinates : (appliedCoordinates decoder o calls).Nodup ∧
    (appliedCoordinates decoder o calls).map (fun c ↦ (c.blockHeight, c.txIndex)) =
      (acceptedReceipts decoder o calls).map Receipt.coordinates
  logs : ((traceAfter decoder o calls).map coordOf).Nodup ∧
    (after decoder o calls).core = (traceAfter decoder o calls).foldl
      (fun s x ↦ s.applyEvent x.1 x.2.1 x.2.2) (blank (after decoder o calls).sourceContract)
  reverted : ∀ call e, exec decoder (after decoder o calls) call = .error e →
    after decoder o (calls ++ [call]) = after decoder o calls
  ids : ∀ c : QueryCoordinates,
    Worker.computeQueryId E c.chainKey.toNat c.blockHeight.toNat c.txIndex.toNat =
      some c.queryId ∧
    ∀ memory, queryAssembly memory (c.chainKey.setWidth 256) (c.blockHeight.setWidth 256)
      (c.txIndex.setWidth 256) = c.queryId
  distinct : ∀ S, CollisionFree keccak256 (QueryCoordinates.layout '' S) →
    Set.InjOn QueryCoordinates.queryId S
  check : ∀ c, CollisionFree keccak256 (QueryCoordinates.layout ''
      insert c {d | d ∈ appliedCoordinates decoder o calls}) →
    ((after decoder o calls).processedQueries c.queryId = true ↔
      c ∈ appliedCoordinates decoder o calls)
  retry : ∀ c env args s', CollisionFree keccak256 (QueryCoordinates.layout ''
      insert c {d | d ∈ appliedCoordinates decoder o calls}) →
    c ∉ appliedCoordinates decoder o calls → Call.coordinates? (.execute env args) = some c →
    ((after decoder o calls).execute decoder env args = .ok s' ↔
      env.verifier.verifyAndEmit args.chainKey args.blockHeight args.encodedTransaction
          ⟨args.merkleRoot, args.siblings⟩ ⟨args.lowerEndpointDigest, args.continuityRoots⟩ =
        some true ∧
      { after decoder o calls with
        processedQueries := Function.update (after decoder o calls).processedQueries c.queryId true
        }.processAndEmitEvent decoder env.timestamp args.action args.chainKey args.blockHeight
          c.txIndex args.encodedTransaction = .ok s')

/-- **Receipts are applied exactly once**, in every run of the hub. -/
theorem exactlyOnce_after {E : Ethers} (hE : E.Documented) (decoder : EvmV1Decoder)
    (o : Ownable2Step) (calls : List Call) : ExactlyOnce E decoder o calls := by
  have hcheck := processedQueries_iff decoder o calls
  constructor
  case coordinates =>
    exact ⟨appliedCoordinates_nodup decoder o calls, (recorded_after decoder o calls).receipts⟩
  case logs => exact ⟨traceAfter_nodup decoder o calls, core_after decoder o calls⟩
  case reverted =>
    intro call e h
    rw [after, run_concat]
    exact transact_of_error h
  case ids => exact fun c ↦ ⟨Worker.computeQueryId_eq hE c, fun memory ↦ queryAssembly_eq memory c⟩
  case distinct => exact fun S hS ↦ QueryCoordinates.queryId_injOn hS
  case check => exact hcheck
  case retry =>
    intro c env args s' hfree hnew hc
    refine execute_fresh hc (Bool.eq_false_iff.2 fun htrue ↦ hnew ?_)
    exact (hcheck c hfree).1 htrue

/-! ### A run -/

/-- The package, with its documented behaviour. -/
def sampleEthers : Ethers where
  toBeHex v := toBytes (Nat.log 256 v + 1) v
  zeroPadValue bs n :=
    if bs.length ≤ n then some (List.replicate (n - bs.length) 0 ++ bs) else none

theorem sampleEthers_documented : sampleEthers.Documented where
  value v := by
    show ofBytes (toBytes (Nat.log 256 v + 1) v) = v
    rw [ofBytes_toBytes]
    exact Nat.mod_eq_of_lt (Nat.lt_pow_succ_log_self (by decide) v)
  length_le v n hn hv := by
    show (toBytes (Nat.log 256 v + 1) v).length ≤ n
    rw [length_toBytes]
    rcases eq_or_ne v 0 with rfl | hv0
    · rw [Nat.log_zero_right]
      exact hn
    · exact Nat.log_lt_of_lt_pow hv0 hv
  pad bs n h := by
    show (if bs.length ≤ n then _ else _) = _
    rw [if_pos h]

/-- In the sample the table knows the correction that was delivered, and not its neighbour. -/
theorem exactlyOnce_sampleRun :
    (after (tableDecoder sampleReceipts) ⟨1, 0⟩ sampleRun).processedQueries
        (QueryCoordinates.queryId ⟨1, 101, 3⟩) = true ∧
      ¬(after (tableDecoder sampleReceipts) ⟨1, 0⟩ sampleRun).processedQueries
        (QueryCoordinates.queryId ⟨1, 101, 4⟩) = true := by
  have hlaw := exactlyOnce_after sampleEthers_documented (tableDecoder sampleReceipts) ⟨1, 0⟩
    sampleRun
  have happlied : appliedCoordinates (tableDecoder sampleReceipts) ⟨1, 0⟩ sampleRun =
      [⟨1, 101, 3⟩, ⟨1, 100, 2⟩] := by decide +kernel
  have hcorrection : keccak256 (QueryCoordinates.layout ⟨1, 101, 3⟩) =
      0x64778969e5317b582a607b8a17ec957c8c5234532270a91cf8e3d0256fd42432 := by decide +kernel
  have hdenial : keccak256 (QueryCoordinates.layout ⟨1, 100, 2⟩) =
      0x1cc202a6d487a42f921daaae7039a09821716b9cc282137b230d5719e5afa904 := by decide +kernel
  have hneighbour : keccak256 (QueryCoordinates.layout ⟨1, 101, 4⟩) =
      0x19bb212451ffd73fa651bc8455c67a585bb030edad620704f1a001526a837d41 := by decide +kernel
  have hnodup : ((([⟨1, 101, 3⟩, ⟨1, 100, 2⟩, ⟨1, 101, 4⟩] : List QueryCoordinates).map
      QueryCoordinates.layout).map keccak256).Nodup := by
    show [keccak256 (QueryCoordinates.layout ⟨1, 101, 3⟩),
      keccak256 (QueryCoordinates.layout ⟨1, 100, 2⟩),
      keccak256 (QueryCoordinates.layout ⟨1, 101, 4⟩)].Nodup
    rw [hcorrection, hdenial, hneighbour]
    decide
  have hqueried : ∀ c ∈ ([⟨1, 101, 3⟩, ⟨1, 101, 4⟩] : List QueryCoordinates),
      c ∈ ([⟨1, 101, 3⟩, ⟨1, 100, 2⟩, ⟨1, 101, 4⟩] : List QueryCoordinates) := by decide
  have hdelivered : ∀ c ∈ ([⟨1, 101, 3⟩, ⟨1, 100, 2⟩] : List QueryCoordinates),
      c ∈ ([⟨1, 101, 3⟩, ⟨1, 100, 2⟩, ⟨1, 101, 4⟩] : List QueryCoordinates) := by decide
  have hfree : ∀ c ∈ ([⟨1, 101, 3⟩, ⟨1, 101, 4⟩] : List QueryCoordinates),
      CollisionFree keccak256 (QueryCoordinates.layout ''
        insert c {d | d ∈ appliedCoordinates (tableDecoder sampleReceipts) ⟨1, 0⟩ sampleRun}) := by
    intro c hc
    refine CollisionFree.mono (T := {b | b ∈ ([⟨1, 101, 3⟩, ⟨1, 100, 2⟩, ⟨1, 101, 4⟩] :
      List QueryCoordinates).map QueryCoordinates.layout})
      (fun a ha b hb hab ↦ List.inj_on_of_nodup_map hnodup ha hb hab) ?_
    rintro _ ⟨d, hd, rfl⟩
    refine List.mem_map_of_mem ?_
    rw [happlied] at hd
    rcases Set.mem_insert_iff.1 hd with rfl | hd
    · exact hqueried _ hc
    · exact hdelivered _ hd
  constructor
  · exact (hlaw.check _ (hfree _ (by decide))).2 (by rw [happlied]; decide)
  · rw [hlaw.check _ (hfree _ (by decide)), happlied]
    decide

end ProofmarkASC

end Proofmark
