import Proofmark.Numeric.Decimal
import Proofmark.Registry.RevocationCheck
import Proofmark.Registry.StorageMode

/-!
# The state of a revocation is the hub's

What `checkRevocation` reports of a revocation is decided by the receipts the hub executed
(`checkRevocation_agrees`), and `revocationObservation` accepts it as it is, as long as the time is
one it takes (`observation_refused_late`).
-/

open Evm

namespace Proofmark

/-! ### What the cursor of a record tells -/

/-- The cursor is past a coordinate exactly if some event is. -/
theorem Tracks.lt_cursor_iff {E : History} {r : SubjectRecord} (h : Tracks E r) {c : Coord} :
    c < r.cursor ↔ ∃ x ∈ E, c < x.1 := by
  rw [h.cursor]
  rcases hlast : lastEvent E with - | y
  · obtain rfl : E = [] := LastWriter.latest_eq_none.1 hlast
    show c < Coord.zero ↔ _
    simp [Coord.lt_iff, Coord.zero]
  · show c < y.1 ↔ _
    constructor
    · exact fun hlt ↦ ⟨y, LastWriter.mem_of_latest hlast, hlt⟩
    · rintro ⟨x, hx, hlt⟩
      exact hlt.trans_le (LastWriter.le_of_latest hlast hx)

/-- The cursor is at a coordinate exactly if the greatest event is. -/
theorem Tracks.cursor_eq_iff {E : History} {r : SubjectRecord} (h : Tracks E r) {c : Coord}
    (hc : Coord.zero < c) : r.cursor = c ↔ (∃ x ∈ E, x.1 = c) ∧ ¬∃ x ∈ E, c < x.1 := by
  rw [← h.lt_cursor_iff, h.cursor]
  rcases hlast : lastEvent E with - | y
  · obtain rfl : E = [] := LastWriter.latest_eq_none.1 hlast
    show Coord.zero = c ↔ _
    simp [hc.ne]
  · show y.1 = c ↔ _ ∧ ¬c < y.1
    constructor
    · rintro rfl
      exact ⟨⟨y, LastWriter.mem_of_latest hlast, rfl⟩, lt_irrefl _⟩
    · rintro ⟨⟨x, hx, rfl⟩, hlt⟩
      exact le_antisymm (not_lt.1 hlt) (LastWriter.le_of_latest hlast hx)

/-- After a revocation that nothing follows the subject has a tombstone. -/
theorem Tracks.tombstone_of_revoked {E : History} {r : SubjectRecord} (h : Tracks E r)
    (hnd : (E.map Prod.fst).Nodup) {c : Coord} (hc : Coord.zero < c) (hcursor : r.cursor = c)
    (hrevoked : (c, LifecycleEvent.revoked) ∈ E) : r.tombstone = true := by
  have hlast : lastEvent E = some (c, .revoked) := by
    refine (LastWriter.latest_eq_some_iff hnd).2 ⟨hrevoked, fun x hx ↦ ?_⟩
    exact not_lt.1 fun hlt ↦ ((h.cursor_eq_iff hc).1 hcursor).2 ⟨x, hx, hlt⟩
  rw [h.tombstone, decide_eq_true_eq, h.status, hlast]
  by_cases hdenied : r.permanentDenial = true
  · rw [statusOf, if_pos hdenied]
    decide
  · rw [statusOf, if_neg hdenied]
    show LifecycleEvent.revoked.status ≠ _ ∧ LifecycleEvent.revoked.status ≠ _
    decide

namespace RevocationCheck

open Pipeline (Text same)
open Vault

variable {P : Platform} {source : SourceRpc} {hub : HubRpc} {job : RevocationJob}
  {config : RevocationCheckConfig} {now : ℤ}

theorem requireThat_eq_ok {ok : Bool} {code : String} {u : Unit} :
    requireThat ok code = .ok u ↔ ok = true := by
  rw [requireThat, revertIf_eq_ok, Bool.not_eq_false']

/-- How a revocation came to be observed. -/
structure Reading (P : Platform) (source : SourceRpc) (hub : HubRpc) (job : RevocationJob)
    (config : RevocationCheckConfig) (now : ℤ) (tx : RevocationTransaction)
    (receipt : SourceReceipt) (head hubHead : ObservedBlock) (L : LogEntry) (logIndex : ℕ)
    (policies : List ObservedPolicy) : Prop where
  clock : (isInteger now && decide (0 < now) && isInteger config.confirmations
    && decide (0 < config.confirmations)) = true
  addresses : ([config.source, config.asc, config.registry, config.expectedRevoker,
    job.walletAddress].all fun a ↦ P.isAddress a && !same a zeroAddress) = true
  valid : validConfig config = true
  transaction : hash tx.hash = true
  headRead : fresh source.latest now = .ok head
  hubHeadRead : fresh hub.latest now = .ok hubHead
  receiptRead : source.receipt = some receipt
  matching : matchingReceipt config tx receipt head = true
  confirmed : config.confirmations ≤ head.blockNumber - receipt.blockNumber + 1
  revocation : matches_ config.source job.walletAddress receipt.logs = [(L, logIndex, 2)]
  topics : L.topics.length = 4
  policiesRead : observePolicies hub config (walletOf job.walletAddress) = .ok policies
  binding : same (Text.ofAddress hub.sourceContract) config.source = true

/-- What is observed of the source. -/
def sourceOf (tx : RevocationTransaction) (receipt : SourceReceipt) (head : ObservedBlock)
    (logIndex : ℕ) : SourceObservation where
  transactionHash := tx.hash
  blockNumber := receipt.blockNumber
  blockHash := receipt.blockHash
  transactionIndex := receipt.index
  receiptLogIndex := logIndex
  confirmations := head.blockNumber - receipt.blockNumber + 1
  head

/-- What is observed of the hub. -/
def hubOf (hub : HubRpc) (subject : Address) (hubHead : ObservedBlock)
    (policies : List ObservedPolicy) : HubObservation where
  block := hubHead
  tombstone := hub.tombstone subject
  cursor := ⟨Text.ofNat (hub.lastAppliedHeight subject).toNat,
    Text.ofNat (hub.lastAppliedTxIndex subject).toNat,
    Text.ofNat (hub.lastAppliedLogIndex subject).toNat⟩
  policies

theorem observeHub_eq_ok {s : SourceObservation} {head hubHead : ObservedBlock}
    {result : CheckResult} (h : observeHub source hub job config now s head hubHead = .ok result) :
    ∃ policies, observePolicies hub config (walletOf job.walletAddress) = .ok policies ∧
      same (Text.ofAddress hub.sourceContract) config.source = true ∧
      result = .observed (classify hub s (walletOf job.walletAddress) policies).1
        (classify hub s (walletOf job.walletAddress) policies).2 s
        (hubOf hub (walletOf job.walletAddress) hubHead policies) now := by
  simp only [observeHub, bind_eq_ok, requireThat_eq_ok, exists_const] at h
  obtain ⟨policies, hpolicies, hbinding, -, h⟩ := h
  simp only [Bool.and_eq_true] at hbinding
  exact ⟨policies, hpolicies, hbinding.1.1.1.1, (Except.ok.inj h).symm⟩

theorem observeReceipt_eq_ok {tx : RevocationTransaction} {receipt : SourceReceipt}
    {head hubHead : ObservedBlock} {state : ObservationState} {enforced : Bool}
    {s : SourceObservation} {h' : HubObservation} {at_ : ℤ}
    (h : observeReceipt source hub job config now tx receipt head hubHead =
      .ok (.observed state enforced s h' at_)) :
    matchingReceipt config tx receipt head = true ∧
      config.confirmations ≤ head.blockNumber - receipt.blockNumber + 1 ∧
      ∃ L logIndex,
        matches_ config.source job.walletAddress receipt.logs = [(L, logIndex, 2)] ∧
        L.topics.length = 4 ∧
        observeHub source hub job config now (sourceOf tx receipt head logIndex) head hubHead =
          .ok (.observed state enforced s h' at_) := by
  simp only [observeReceipt, bind_eq_ok, requireThat_eq_ok, exists_const] at h
  obtain ⟨hmatching, -, h⟩ := h
  split at h
  next => cases h
  next hdepth =>
    simp only [bind_eq_ok, requireThat_eq_ok, exists_const] at h
    obtain ⟨-, h⟩ := h
    split at h
    next => cases h
    next =>
      simp only [bind_eq_ok, requireThat_eq_ok, exists_const] at h
      obtain ⟨-, h⟩ := h
      split at h
      next L logIndex reasonCode hmatches =>
        simp only [bind_eq_ok, requireThat_eq_ok, exists_const, Bool.and_eq_true, beq_iff_eq] at h
        obtain ⟨⟨⟨rfl, htopics⟩, -⟩, h⟩ := h
        exact ⟨hmatching, not_lt.1 hdepth, L, logIndex, hmatches, htopics, h⟩
      next => cases h

/-- **What is known of an observed revocation.** -/
theorem checkRevocation_eq_ok {state : ObservationState} {enforced : Bool}
    {s : SourceObservation} {h' : HubObservation} {at_ : ℤ}
    (h : checkRevocation P source hub job config now = .ok (.observed state enforced s h' at_)) :
    ∃ tx receipt head hubHead L logIndex policies,
      Reading P source hub job config now tx receipt head hubHead L logIndex policies ∧
      s = sourceOf tx receipt head logIndex ∧
      h' = hubOf hub (walletOf job.walletAddress) hubHead policies ∧ at_ = now ∧
      (state, enforced) = classify hub s (walletOf job.walletAddress) policies := by
  simp only [checkRevocation, bind_eq_ok, requireThat_eq_ok, exists_const] at h
  obtain ⟨hclock, haddresses, hvalid, h⟩ := h
  split at h
  next => cases h
  next tx htx =>
    simp only [bind_eq_ok, requireThat_eq_ok, exists_const, Bool.and_eq_true] at h
    obtain ⟨⟨⟨hhash, -⟩, -⟩, -, -, head, hhead, hubHead, hhubHead, -, h⟩ := h
    split at h
    next => cases h
    next receipt hreceipt =>
      obtain ⟨hmatching, hconfirmed, L, logIndex, hmatches, htopics, h⟩ := observeReceipt_eq_ok h
      obtain ⟨policies, hpolicies, hbinding, hresult⟩ := observeHub_eq_ok h
      injection hresult with hstate henforced hs hh hat
      refine ⟨tx, receipt, head, hubHead, L, logIndex, policies, ?_, hs, hh, hat, ?_⟩
      · exact ⟨hclock, haddresses, hvalid, hhash, hhead, hhubHead, hreceipt, hmatching, hconfirmed,
          hmatches, htopics, hpolicies, hbinding⟩
      · rw [hstate, henforced, hs]

/-! ### The event of the receipt -/

theorem walletOf_of_same {a : Address} {t : Text} (h : same (Text.ofAddress a) t = true) :
    walletOf t = a := by
  rw [walletOf, Pipeline.Eip55.hexNat_of_same h, BitVec.ofNat_toNat, BitVec.setWidth_eq]

/-- A revocation that is found in a receipt. -/
theorem mem_of_matches {contract wallet : Text} {logs : List LogEntry} {L : LogEntry}
    {i reasonCode : ℕ} (h : (L, i, reasonCode) ∈ matches_ contract wallet logs) :
    (L, i) ∈ logs.zipIdx ∧ same (Text.ofAddress L.address_) contract = true ∧
      ProofmarkASC.decode L = some (.lifecycle (walletOf wallet) .revoked) ∧
      L.topics.length ≠ 0 := by
  obtain ⟨⟨L', i'⟩, hmem, hmatch⟩ := List.mem_filterMap.1 h
  dsimp only at hmatch
  split at hmatch
  next haddress =>
    obtain ⟨⟨subject, reasonCode'⟩, hparse, hmatch⟩ := Option.bind_eq_some_iff.1 hmatch
    dsimp only at hmatch
    split at hmatch
    next hsubject =>
      obtain ⟨rfl, hrest⟩ := Prod.mk.inj (Option.some.inj hmatch)
      obtain ⟨rfl, rfl⟩ := Prod.mk.inj hrest
      rw [parseRevoked] at hparse
      split at hparse
      next hrevoked =>
        obtain ⟨rfl, rfl⟩ := Prod.mk.inj (Option.some.inj hparse)
        obtain ⟨hlength, htopic, -⟩ := hrevoked
        refine ⟨hmem, haddress, ?_, by omega⟩
        rw [walletOf_of_same hsubject]
        simp [ProofmarkASC.decode, htopic, ProofmarkASC.SIG_ISSUED, ProofmarkASC.SIG_KEYED_ISSUED,
          ProofmarkASC.SIG_REVOKED]
      next => cases hparse
    next => cases hmatch
  next => cases hmatch

/-- The coordinate of a revocation on the source. -/
def coordOf (s : SourceObservation) : Coord :=
  ⟨BitVec.ofNat 64 s.blockNumber.toNat, BitVec.ofNat 64 s.transactionIndex.toNat,
    s.receiptLogIndex.toNat⟩

/-- The receipt at a coordinate is among some receipts. -/
def Executed (Rs : List Receipt) (c : Coord) : Prop :=
  ∃ R ∈ Rs, R.height = c.height ∧ R.txIndex = c.txIndex

theorem executed_of_mem {pinned subject : Address} {Rs : List Receipt}
    {x : Coord × LifecycleEvent} (hx : x ∈ historyOf subject (traceOf pinned Rs)) :
    Executed Rs x.1 := by
  obtain ⟨⟨R, i, e⟩, hmem, hlifecycle⟩ := List.mem_filterMap.1 hx
  obtain ⟨R', hR', hxR'⟩ := List.mem_flatMap.1 hmem
  obtain ⟨y, -, hy⟩ := List.mem_map.1 hxR'
  obtain rfl : R' = R := congrArg Prod.fst hy
  simp only [lifecycleOf] at hlifecycle
  split at hlifecycle
  · split at hlifecycle
    · rw [← Option.some.inj hlifecycle]
      exact ⟨R', hR', rfl, rfl⟩
    · cases hlifecycle
  · cases hlifecycle

theorem mem_history {pinned subject : Address} {Rs : List Receipt} {R : Receipt} (hR : R ∈ Rs)
    {L : LogEntry} {i : ℕ} (hL : (L, i) ∈ R.logs.zipIdx) (htrusted : ProofmarkASC.trusted pinned L)
    {e : LifecycleEvent} (hdecode : ProofmarkASC.decode L = some (.lifecycle subject e)) :
    (⟨R.height, R.txIndex, i⟩, e) ∈ historyOf subject (traceOf pinned Rs) := by
  have hevent : (i, HubEvent.lifecycle subject e) ∈ R.events pinned := by
    refine List.mem_filterMap.2 ⟨(L, i), hL, ?_⟩
    rw [Receipt.eventAt, if_pos htrusted, hdecode]
    rfl
  refine List.mem_filterMap.2 ⟨(R, i, .lifecycle subject e), ?_, ?_⟩
  · exact List.mem_flatMap.2 ⟨R, hR, List.mem_map_of_mem hevent⟩
  · rw [lifecycleOf]
    exact if_pos rfl

/-! ### Honest nodes -/

/-- The hub's node answers about a subject from one state of the hub. -/
structure HonestHub (hub : HubRpc) (h : HubChain) (subject : Address) : Prop where
  sourceContract : hub.sourceContract = h.asc.sourceContract
  tombstone : hub.tombstone subject = h.asc.tombstone subject
  lastAppliedHeight : hub.lastAppliedHeight subject = (h.asc.subjects subject).lastAppliedHeight
  lastAppliedTxIndex : hub.lastAppliedTxIndex subject = (h.asc.subjects subject).lastAppliedTxIndex
  lastAppliedLogIndex :
    (hub.lastAppliedLogIndex subject).toNat = (h.asc.subjects subject).lastAppliedLogIndex
  /-- at the time of the block -/
  isVerified : ∀ block, hub.latest = some block → ∀ id, (hub.policy subject id).verified =
    h.registry.isVerified h.asc block.timestamp.toNat subject (BitVec.ofNat 256 id.toNat)

/-- The source's node answers from the chain whose receipts the hub executed. -/
structure HonestSource (source : SourceRpc) (Rs : List Receipt) : Prop where
  /-- the first block has no transactions -/
  blockNumber_pos : ∀ r, source.receipt = some r → 0 < r.blockNumber
  /-- a transaction has one receipt -/
  logs : ∀ r, source.receipt = some r → ∀ R ∈ Rs, (R.height.toNat : ℤ) = r.blockNumber →
    (R.txIndex.toNat : ℤ) = r.index → R.logs = r.logs

/-! ### The comparison of the coordinates -/

/-- A coordinate in whole numbers. -/
structure Located (s : SourceObservation) (c : Coord) : Prop where
  height : s.blockNumber = c.height.toNat
  txIndex : s.transactionIndex = c.txIndex.toNat
  logIndex : s.receiptLogIndex = c.logIndex

/-- The state that a record shows for a revocation at `c`. -/
def stateOf (r : SubjectRecord) (c : Coord) (verified : Bool) : ObservationState :=
  if r.cursor = c ∧ r.tombstone = true ∧ verified = false then .enforced
  else if c < r.cursor then .superseded
  else if r.cursor = c then .inconsistent
  else .awaitingHub

theorem isInteger_iff {n : ℤ} : isInteger n = true ↔ 0 ≤ n ∧ n ≤ 9007199254740991 := by
  rw [isInteger, Bool.and_eq_true, decide_eq_true_eq, decide_eq_true_eq]

theorem toNat_ofNat_of_safe {n : ℤ} (h : isInteger n = true) :
    n = ((BitVec.ofNat 64 n.toNat).toNat : ℤ) := by
  obtain ⟨hpos, hle⟩ := isInteger_iff.1 h
  rw [BitVec.toNat_ofNat, Nat.mod_eq_of_lt (by omega)]
  omega

section Compare

variable {h : HubChain} {s : SourceObservation} {c : Coord} {subject : Address}

theorem cursor_eq_iff (hhub : HonestHub hub h subject) (hs : Located s c) :
    (h.asc.subjects subject).cursor = c ↔
      ((hub.lastAppliedHeight subject).toNat : ℤ) = s.blockNumber ∧
      ((hub.lastAppliedTxIndex subject).toNat : ℤ) = s.transactionIndex ∧
      ((hub.lastAppliedLogIndex subject).toNat : ℤ) = s.receiptLogIndex := by
  rw [hs.height, hs.txIndex, hs.logIndex, Int.natCast_inj, Int.natCast_inj, Int.natCast_inj,
    hhub.lastAppliedHeight, hhub.lastAppliedTxIndex, hhub.lastAppliedLogIndex, BitVec.toNat_inj,
    BitVec.toNat_inj]
  obtain ⟨height, txIndex, logIndex⟩ := c
  rw [SubjectRecord.cursor, Coord.mk.injEq]

theorem lt_cursor_iff (hhub : HonestHub hub h subject) (hs : Located s c) :
    c < (h.asc.subjects subject).cursor ↔
      s.blockNumber < (hub.lastAppliedHeight subject).toNat ∨
      ((hub.lastAppliedHeight subject).toNat : ℤ) = s.blockNumber ∧
        (s.transactionIndex < (hub.lastAppliedTxIndex subject).toNat ∨
        ((hub.lastAppliedTxIndex subject).toNat : ℤ) = s.transactionIndex ∧
          s.receiptLogIndex < (hub.lastAppliedLogIndex subject).toNat) := by
  rw [hs.height, hs.txIndex, hs.logIndex, Int.natCast_inj, Int.natCast_inj, Int.ofNat_lt,
    Int.ofNat_lt, Int.ofNat_lt, hhub.lastAppliedHeight, hhub.lastAppliedTxIndex,
    hhub.lastAppliedLogIndex, Coord.lt_iff, SubjectRecord.cursor, BitVec.lt_def, BitVec.lt_def,
    BitVec.toNat_inj, BitVec.toNat_inj, eq_comm (a := c.height), eq_comm (a := c.txIndex)]

/-- **The check compares as the hub does.** -/
theorem classify_eq (hhub : HonestHub hub h subject) (hs : Located s c) {policies : List ObservedPolicy} :
    classify hub s subject policies =
      (stateOf (h.asc.subjects subject) c (policies.any ObservedPolicy.verified),
        decide ((h.asc.subjects subject).cursor = c ∧ (h.asc.subjects subject).tombstone = true ∧
          policies.any ObservedPolicy.verified = false)) := by
  have hexact : (((hub.lastAppliedHeight subject).toNat : ℤ) == s.blockNumber &&
      ((hub.lastAppliedTxIndex subject).toNat : ℤ) == s.transactionIndex &&
      ((hub.lastAppliedLogIndex subject).toNat : ℤ) == s.receiptLogIndex) =
      decide ((h.asc.subjects subject).cursor = c) := by
    rw [Bool.eq_iff_iff, decide_eq_true_eq, cursor_eq_iff hhub hs, Bool.and_eq_true,
      Bool.and_eq_true, beq_iff_eq, beq_iff_eq, beq_iff_eq, and_assoc]
  have hnewer : (decide (s.blockNumber < (hub.lastAppliedHeight subject).toNat) ||
      (((hub.lastAppliedHeight subject).toNat : ℤ) == s.blockNumber &&
        (decide (s.transactionIndex < (hub.lastAppliedTxIndex subject).toNat) ||
        (((hub.lastAppliedTxIndex subject).toNat : ℤ) == s.transactionIndex &&
          decide (s.receiptLogIndex < (hub.lastAppliedLogIndex subject).toNat))))) =
      decide (c < (h.asc.subjects subject).cursor) := by
    rw [Bool.eq_iff_iff, decide_eq_true_eq, lt_cursor_iff hhub hs]
    simp only [Bool.or_eq_true, Bool.and_eq_true, decide_eq_true_eq, beq_iff_eq]
  have htombstone : hub.tombstone subject = (h.asc.subjects subject).tombstone :=
    hhub.tombstone
  have hpolicies : (policies.all fun p ↦ !p.verified) =
      !policies.any ObservedPolicy.verified := List.not_any_eq_all_not.symm
  rw [classify]
  simp only [hexact, hnewer, htombstone, hpolicies, stateOf, Bool.and_eq_true,
    decide_eq_true_eq, Bool.not_eq_true', and_assoc, Prod.mk.injEq, true_and]
  rw [Bool.eq_iff_iff]
  simp only [Bool.and_eq_true, decide_eq_true_eq, Bool.not_eq_true', and_assoc]

end Compare

/-! ### The policies -/

theorem observePolicies_eq_ok {subject : Address} {policies : List ObservedPolicy}
    (h : observePolicies hub config subject = .ok policies) :
    policies = config.policyIds.map fun id ↦ ⟨id, (hub.policy subject id).verified⟩ := by
  have heach := mapM_eq_ok.1 h
  simp only [bind_eq_ok, requireThat_eq_ok, exists_const, pure, Except.pure, Except.ok.injEq]
    at heach
  have hmap := heach.imp (S := fun id p ↦ ⟨id, (hub.policy subject id).verified⟩ = p)
    fun _ _ h ↦ h.2
  rw [← List.forall₂_map_left_iff (f := fun id ↦
    (⟨id, (hub.policy subject id).verified⟩ : ObservedPolicy)), List.forall₂_eq_eq_eq] at hmap
  exact hmap.symm

/-- A tombstone is a negative verdict of every policy. -/
theorem not_verified_of_tombstone {h : HubChain} {subject : Address}
    (hhub : HonestHub hub h subject) {block : Block} (hlatest : hub.latest = some block)
    (htombstone : (h.asc.subjects subject).tombstone = true) {policies : List ObservedPolicy}
    (hpolicies : observePolicies hub config subject = .ok policies) :
    policies.any ObservedPolicy.verified = false := by
  rw [observePolicies_eq_ok hpolicies, List.any_eq_false]
  rintro p hp hverified
  obtain ⟨id, -, rfl⟩ := List.mem_map.1 hp
  dsimp only at hverified
  rw [hhub.isVerified block hlatest] at hverified
  have hnot := (ProofmarkRegistry.registered_of_isVerified hverified).2
  rw [ProofmarkASC.tombstone, htombstone] at hnot
  cases hnot

/-! ### The state -/

theorem stateOf_eq_enforced_iff {r : SubjectRecord} {c : Coord} {verified : Bool} :
    stateOf r c verified = .enforced ↔
      r.cursor = c ∧ r.tombstone = true ∧ verified = false := by
  rw [stateOf]
  split
  next h => simp [h]
  next h =>
    simp only [h, iff_false]
    split <;> [skip; split] <;> simp

/-- The state a record shows is what its events say, if a cursor at the revocation comes with a
tombstone. -/
theorem stateOf_agrees {r : SubjectRecord} {c : Coord} {verified : Bool} {executed later : Prop}
    (hexact : r.cursor = c ↔ executed ∧ ¬later) (hnewer : c < r.cursor ↔ later)
    (htombstone : r.cursor = c → r.tombstone = true ∧ verified = false) :
    (stateOf r c verified = .enforced ↔ executed ∧ ¬later) ∧
      (stateOf r c verified = .superseded ↔ later) ∧
      (stateOf r c verified = .awaitingHub ↔ ¬executed ∧ ¬later) ∧
      stateOf r c verified ≠ .inconsistent := by
  by_cases hc : r.cursor = c
  · obtain ⟨hexecuted, hlater⟩ := hexact.1 hc
    have hstate : stateOf r c verified = .enforced := if_pos ⟨hc, htombstone hc⟩
    simp [hstate, hexecuted, hlater]
  · have hnot := (not_congr hexact).1 hc
    by_cases hlt : c < r.cursor
    · have hlater := hnewer.1 hlt
      have hstate : stateOf r c verified = .superseded := by
        rw [stateOf, if_neg fun h ↦ hc h.1, if_pos hlt]
      simp [hstate, hlater]
    · have hlater := (not_congr hnewer).1 hlt
      have hexecuted : ¬executed := fun h ↦ hnot ⟨h, hlater⟩
      have hstate : stateOf r c verified = .awaitingHub := by
        rw [stateOf, if_neg fun h ↦ hc h.1, if_neg hlt, if_neg hc]
      simp [hstate, hexecuted, hlater]

/-! ### The observation -/

theorem decimalValue_ofNat (n : ℕ) : decimalValue (Text.ofNat n) = n := by
  have h := Nat.ofDigitChars_ten_toDigits (n := n)
  rw [Nat.ofDigitChars_eq_foldl] at h
  exact h

theorem isDecimal_ofNat {n : ℕ} (h : n < 10 ^ 78) : isDecimal (Text.ofNat n) = true := by
  rcases Nat.eq_zero_or_pos n with rfl | hpos
  · decide
  · obtain ⟨c, rest, hdigits, hc⟩ := Numeric.Decimal.exists_digits_eq_cons hpos
    have hlength : (Text.ofNat n).length ≤ 78 :=
      (Numeric.Decimal.length_digits_le_iff (by decide)).2 h
    have hall : (Text.ofNat n).all Char.isDigit = true :=
      List.all_eq_true.2 fun _ ↦ Numeric.Decimal.isDigit_of_mem_digits
    have hhead : (Text.ofNat n).head? = some c := by rw [Text.ofNat, ← Numeric.Decimal.digits, hdigits]; rfl
    rw [isDecimal, hall, hhead, decide_eq_true hlength]
    simp [hc]

theorem coordinate_ofNat {N : ℕ} (hN : N ≤ 256) (w : Uint N) :
    Vault.coordinate (Text.ofNat w.toNat) N = .ok (Text.ofNat w.toNat) := by
  have hlt : w.toNat < 10 ^ 78 :=
    (w.isLt.trans_le (Nat.pow_le_pow_right (by decide) hN)).trans (by norm_num)
  rw [Vault.coordinate, isDecimal_ofNat hlt, decimalValue_ofNat, decide_eq_true w.isLt]
  rfl

theorem observedState_eq {s : SourceObservation} {subject : Address} {hubHead : ObservedBlock}
    {policies : List ObservedPolicy} : observedState s (hubOf hub subject hubHead policies) =
      (classify hub s subject policies).1 := by
  rw [observedState, classify, hubOf]
  simp only [decimalValue_ofNat, cursorOrder]
  generalize ((hub.lastAppliedHeight subject).toNat : ℤ) = height
  generalize ((hub.lastAppliedTxIndex subject).toNat : ℤ) = txIndex
  generalize ((hub.lastAppliedLogIndex subject).toNat : ℤ) = logIndex
  by_cases hheight : height = s.blockNumber
  · by_cases htxIndex : txIndex = s.transactionIndex
    · by_cases hlogIndex : logIndex = s.receiptLogIndex
      · simp [hheight, htxIndex, hlogIndex]
      · by_cases hlt : s.receiptLogIndex < logIndex <;>
          simp [hheight, htxIndex, hlogIndex, hlt]
    · by_cases hlt : s.transactionIndex < txIndex <;> simp [hheight, htxIndex, hlt]
  · by_cases hlt : s.blockNumber < height <;> simp [hheight, hlt]

theorem normalizeRequire_eq_ok {ok : Bool} {u : Unit} :
    Vault.requireThat ok = .ok u ↔ ok = true := by
  rw [Vault.requireThat, revertIf_eq_ok, Bool.not_eq_false']

theorem normalizeHash_eq_ok {t u : Text} :
    normalizeHash t = .ok u ↔ hash t = true ∧ Text.lower t = u := by
  simp only [normalizeHash, bind_eq_ok, normalizeRequire_eq_ok, exists_const, pure, Except.pure,
    Except.ok.injEq, hash]

theorem normalizeAddress_eq_ok {t u : Text} :
    normalizeAddress P t = .ok u ↔
      (P.isAddress t && !same t zeroAddress) = true ∧ Text.lower t = u := by
  have hzero : Text.lower zeroAddress = zeroAddress := by decide
  simp only [normalizeAddress, bind_eq_ok, normalizeRequire_eq_ok, exists_const, pure, Except.pure,
    Except.ok.injEq, same, hzero, decide_not, ne_eq]

theorem coordinate_eq_ok {t u : Text} {bits : ℕ} :
    Vault.coordinate t bits = .ok u ↔ (isDecimal t && decide (decimalValue t < 2 ^ bits)) = true ∧ t = u := by
  simp only [Vault.coordinate, bind_eq_ok, normalizeRequire_eq_ok, exists_const, pure, Except.pure,
    Except.ok.injEq]

/-- What the latest block is known to be. -/
theorem fresh_eq_ok {block : Option Block} {b : ObservedBlock} (h : fresh block now = .ok b) :
    (∃ a, block = some a) ∧ hash b.blockHash = true ∧ isInteger b.blockNumber = true ∧
      isInteger b.timestamp = true ∧ isFresh now b.timestamp = true := by
  simp only [fresh, bind_eq_ok, getOrRevert_eq_ok, requireThat_eq_ok, exists_const] at h
  obtain ⟨a, ha, blockHash, -, hfresh, h⟩ := h
  obtain rfl := Except.ok.inj h
  simp only [Bool.and_eq_true] at hfresh
  obtain ⟨⟨⟨⟨⟨hhash, hnumber⟩, htimestamp⟩, hpos⟩, hle⟩, hage⟩ := hfresh
  refine ⟨⟨a, ha⟩, hhash, hnumber, htimestamp, ?_⟩
  rw [isFresh, hpos, hle, hage]
  rfl

theorem Reading.mem_matches {tx : RevocationTransaction} {receipt : SourceReceipt}
    {head hubHead : ObservedBlock} {L : LogEntry} {logIndex : ℕ} {policies : List ObservedPolicy}
    (h : Reading P source hub job config now tx receipt head hubHead L logIndex policies) :
    (L, logIndex, 2) ∈ matches_ config.source job.walletAddress receipt.logs := by
  rw [h.revocation]
  exact List.mem_singleton.2 rfl

/-- **The observation of a check is accepted**, in a state the hub's cursor shows, exactly up to
the last second that fits in milliseconds. -/
theorem accepted_iff {tx : RevocationTransaction} {receipt : SourceReceipt}
    {head hubHead : ObservedBlock} {L : LogEntry} {logIndex : ℕ} {policies : List ObservedPolicy}
    (h : Reading P source hub job config now tx receipt head hubHead L logIndex policies)
    (hpos : 0 < receipt.blockNumber) {operator : Text} (hoperator : isReference operator = true)
    {state : ObservationState} {enforced : Bool}
    (hstate : state = observedState (sourceOf tx receipt head logIndex)
      (hubOf hub (walletOf job.walletAddress) hubHead policies)) :
    (∃ obs, revocationObservation P (.observed state enforced (sourceOf tx receipt head logIndex)
      (hubOf hub (walletOf job.walletAddress) hubHead policies) now) config operator = .ok obs ∧
        obs.state = state) ↔ now ≤ 9007199254740 := by
  have hclock := h.clock
  have haddresses := h.addresses
  have hvalid := h.valid
  have hmatching := h.matching
  obtain ⟨-, hhead, hheadNumber, hheadTime, hheadFresh⟩ := fresh_eq_ok h.headRead
  obtain ⟨-, hhub, hhubNumber, hhubTime, hhubFresh⟩ := fresh_eq_ok h.hubHeadRead
  have hindex := (mem_of_matches h.mem_matches).1
  have hlogIndex : isInteger (logIndex : ℤ) = true := by
    have hlt := List.snd_lt_of_mem_zipIdx hindex
    have hlength := receipt.length_logs
    rw [isInteger_iff]
    omega
  simp only [Bool.and_eq_true, decide_eq_true_eq, List.all_cons, List.all_nil, validConfig,
    matchingReceipt] at hclock haddresses hvalid hmatching
  have hconfirmations : isInteger (head.blockNumber - receipt.blockNumber + 1) = true := by
    rw [isInteger_iff] at hheadNumber ⊢
    omega
  have hids : policies.map ObservedPolicy.id = config.policyIds := by
    rw [observePolicies_eq_ok h.policiesRead, List.map_map]
    exact List.map_id _
  have hheight := (coordinate_eq_ok.1 (coordinate_ofNat (by decide)
    (hub.lastAppliedHeight (walletOf job.walletAddress)))).1
  have htxIndex := (coordinate_eq_ok.1 (coordinate_ofNat (by decide)
    (hub.lastAppliedTxIndex (walletOf job.walletAddress)))).1
  have hcursorLog := (coordinate_eq_ok.1 (coordinate_ofNat (by decide)
    (hub.lastAppliedLogIndex (walletOf job.walletAddress)))).1
  rw [revocationObservation, if_neg (by omega)]
  simp only [normalizeRevocationObservation, bind_eq_ok, normalizeRequire_eq_ok, normalizeHash_eq_ok,
    normalizeAddress_eq_ok, coordinate_eq_ok, exists_const, pure, Except.pure, Except.ok.injEq,
    and_assoc, exists_eq_left', exists_and_left]
  constructor
  · rintro ⟨-, hlimit, -⟩
    simp only [Bool.and_eq_true, decide_eq_true_eq] at hlimit
    omega
  · intro hlimit
    obtain ⟨⟨⟨hnow, hnowPos⟩, hconfirm⟩, hconfirmPos⟩ := hclock
    obtain ⟨hsource, hasc, hregistry, hrevoker, -⟩ := haddresses
    obtain ⟨⟨⟨⟨⟨hsourceCode, hascCode, hregistryCode, -⟩, hnonempty⟩, hcount⟩, hsafe⟩, hnodup⟩ :=
      hvalid
    obtain ⟨⟨⟨⟨-, hnumber⟩, hle⟩, hposition⟩, hblockHash⟩ := hmatching
    simp only [Bool.and_eq_true, decide_eq_true_eq, List.all_cons, List.all_nil, and_true]
      at hheight htxIndex hcursorLog ⊢
    exact ⟨⟨trivial, hoperator⟩, ⟨⟨⟨⟨hnow, hnowPos⟩, by omega⟩, hconfirm⟩, hconfirmPos⟩,
      ⟨⟨⟨hnonempty, hcount⟩, hsafe⟩, hnodup⟩,
      ⟨⟨⟨hnumber, hposition, hlogIndex, hconfirmations, hheadNumber, hheadTime, hhubNumber,
        hhubTime⟩, h.confirmed⟩, hhubFresh⟩,
      ⟨⟨hle, rfl⟩, hheadFresh⟩, hids, hheight, htxIndex, hcursorLog, hstate, hsource, hasc,
      hregistry, hrevoker, hsourceCode, hascCode, hregistryCode, h.transaction, hblockHash, hhead,
      hhub⟩

/-! ### Agreement with the hub -/

/-- A receipt that the source's node holds for the transaction of the job, mined deep enough and
not reverted. -/
structure Confirmed (source : SourceRpc) (job : RevocationJob) (config : RevocationCheckConfig)
    (receipt : SourceReceipt) : Prop where
  signed : job.transaction ≠ none
  receiptRead : source.receipt = some receipt
  status : receipt.status = some 1
  depth : ∀ head, source.latest = some head →
    config.confirmations ≤ head.number - receipt.blockNumber + 1

/-- A check of a confirmed receipt that does not fail observes the hub. -/
theorem Confirmed.exists_observed {receipt : SourceReceipt} {result : CheckResult}
    (hc : Confirmed source job config receipt)
    (h : checkRevocation P source hub job config now = .ok result) :
    ∃ state enforced s hubSide, result = .observed state enforced s hubSide now := by
  simp only [checkRevocation, bind_eq_ok, requireThat_eq_ok, exists_const] at h
  obtain ⟨-, -, -, h⟩ := h
  split at h
  next htx => exact absurd htx hc.signed
  next tx _ =>
    simp only [bind_eq_ok, requireThat_eq_ok, exists_const] at h
    obtain ⟨-, -, -, head, hhead, hubHead, -, -, h⟩ := h
    rw [hc.receiptRead] at h
    simp only [observeReceipt, bind_eq_ok, requireThat_eq_ok, exists_const] at h
    obtain ⟨-, -, h⟩ := h
    simp only [fresh, bind_eq_ok, getOrRevert_eq_ok] at hhead
    obtain ⟨block, hblock, blockHash, -, -, -, hhead⟩ := hhead
    have hnumber : block.number = head.blockNumber := congrArg ObservedBlock.blockNumber
      (Except.ok.inj hhead)
    have hdepth := hc.depth block hblock
    rw [hnumber] at hdepth
    rw [if_neg (not_lt.2 hdepth), hc.status] at h
    simp only [bind_eq_ok, requireThat_eq_ok, exists_const, Option.some.injEq, reduceIte,
      one_ne_zero] at h
    obtain ⟨-, -, h⟩ := h
    split at h
    next =>
      simp only [bind_eq_ok, requireThat_eq_ok, exists_const] at h
      obtain ⟨policies, -, -, hresult⟩ := observeHub_eq_ok h.2
      exact ⟨_, _, _, _, hresult⟩
    next => cases h

section Agreement

variable {decoder : EvmV1Decoder} {o : Ownable2Step} {calls : List HubChain.Call}
  {tx : RevocationTransaction} {receipt : SourceReceipt} {head hubHead : ObservedBlock}
  {L : LogEntry} {logIndex : ℕ} {policies : List ObservedPolicy}

theorem Reading.located
    (h : Reading P source hub job config now tx receipt head hubHead L logIndex policies) :
    Located (sourceOf tx receipt head logIndex) (coordOf (sourceOf tx receipt head logIndex)) := by
  have hmatching := h.matching
  simp only [matchingReceipt, Bool.and_eq_true] at hmatching
  obtain ⟨⟨⟨⟨-, hnumber⟩, -⟩, hposition⟩, -⟩ := hmatching
  exact ⟨toNat_ofNat_of_safe hnumber, toNat_ofNat_of_safe hposition, rfl⟩

theorem Reading.zero_lt
    (h : Reading P source hub job config now tx receipt head hubHead L logIndex policies)
    (hpos : 0 < receipt.blockNumber) :
    Coord.zero < coordOf (sourceOf tx receipt head logIndex) := by
  have hheight : receipt.blockNumber = _ := h.located.height
  refine Coord.zero_lt_of_height (BitVec.lt_def.2 ?_)
  show 0 < (coordOf (sourceOf tx receipt head logIndex)).height.toNat
  omega

/-- The receipt is executed exactly if the hub has applied its revocation. -/
theorem Reading.mem_of_executed
    (h : Reading P source hub job config now tx receipt head hubHead L logIndex policies)
    (hhub : HonestHub hub (HubChain.after decoder o calls) (walletOf job.walletAddress))
    (hsource : HonestSource source (HubChain.acceptedReceipts decoder o calls))
    (hexecuted : Executed (HubChain.acceptedReceipts decoder o calls)
      (coordOf (sourceOf tx receipt head logIndex))) :
    (coordOf (sourceOf tx receipt head logIndex), LifecycleEvent.revoked) ∈
      historyOf (walletOf job.walletAddress) (HubChain.trace decoder o calls) := by
  obtain ⟨R, hR, hheight, htxIndex⟩ := hexecuted
  obtain ⟨hL, haddress, hdecode, htopics⟩ := mem_of_matches h.mem_matches
  have hlogs : R.logs = receipt.logs := by
    refine hsource.logs receipt h.receiptRead R hR ?_ ?_
    · rw [hheight]
      exact h.located.height.symm
    · rw [htxIndex]
      exact h.located.txIndex.symm
  have htrusted : ProofmarkASC.trusted (ProofmarkASC.after decoder o
      (HubChain.ascCalls calls)).sourceContract L := by
    refine ⟨?_, htopics⟩
    rw [← HubChain.after_asc, ← hhub.sourceContract, ← walletOf_of_same haddress,
      ← walletOf_of_same h.binding]
  rw [← hlogs] at hL
  have hmem := mem_history hR hL htrusted hdecode
  rwa [hheight, htxIndex] at hmem

/-- What the record of the subject tells of the revocation. -/
theorem Reading.record_spec
    (h : Reading P source hub job config now tx receipt head hubHead L logIndex policies)
    (hheight : ∀ R ∈ HubChain.acceptedReceipts decoder o calls, 0 < R.height)
    (hhub : HonestHub hub (HubChain.after decoder o calls) (walletOf job.walletAddress))
    (hsource : HonestSource source (HubChain.acceptedReceipts decoder o calls)) :
    let c := coordOf (sourceOf tx receipt head logIndex)
    let r := (HubChain.after decoder o calls).asc.subjects (walletOf job.walletAddress)
    let E := historyOf (walletOf job.walletAddress) (HubChain.trace decoder o calls)
    (r.cursor = c ↔ Executed (HubChain.acceptedReceipts decoder o calls) c ∧ ¬∃ x ∈ E, c < x.1) ∧
      (c < r.cursor ↔ ∃ x ∈ E, c < x.1) ∧
      (r.cursor = c → r.tombstone = true ∧ policies.any ObservedPolicy.verified = false) := by
  intro c r E
  have hzero : Coord.zero < c := h.zero_lt (hsource.blockNumber_pos receipt h.receiptRead)
  have hnd : (E.map Prod.fst).Nodup :=
    historyOf_nodup (ProofmarkASC.traceAfter_nodup decoder o _) _
  have htracks : Tracks E r := by
    show Tracks E ((HubChain.after decoder o calls).asc.subjects _)
    rw [HubChain.after_asc]
    exact ProofmarkASC.tracks_history hheight _
  have hexecuted : Executed (HubChain.acceptedReceipts decoder o calls) c ↔
      ∃ x ∈ E, x.1 = c := by
    constructor
    · exact fun hex ↦ ⟨_, h.mem_of_executed hhub hsource hex, rfl⟩
    · rintro ⟨x, hx, hxc⟩
      rw [← hxc]
      exact executed_of_mem hx
  have hcursor := htracks.cursor_eq_iff hzero
  rw [← hexecuted] at hcursor
  refine ⟨hcursor, htracks.lt_cursor_iff, fun heq ↦ ?_⟩
  have hrevoked := h.mem_of_executed hhub hsource (hcursor.1 heq).1
  have htombstone := htracks.tombstone_of_revoked hnd hzero heq hrevoked
  obtain ⟨⟨block, hblock⟩, -⟩ := fresh_eq_ok h.hubHeadRead
  exact ⟨htombstone, not_verified_of_tombstone hhub hblock htombstone h.policiesRead⟩

end Agreement

/-- **The check agrees with the hub.** The state of a confirmed revocation is `ENFORCED` exactly if
its receipt was executed and no later event of the subject was, `SUPERSEDED` exactly if a later one
was and `AWAITING_HUB` otherwise. Up to the last second that fits in milliseconds the result is
accepted as an observation, in the same state. -/
theorem checkRevocation_agrees (decoder : EvmV1Decoder) (o : Ownable2Step)
    (calls : List HubChain.Call)
    (hheight : ∀ R ∈ HubChain.acceptedReceipts decoder o calls, 0 < R.height)
    (hhub : HonestHub hub (HubChain.after decoder o calls) (walletOf job.walletAddress))
    (hsource : HonestSource source (HubChain.acceptedReceipts decoder o calls))
    {receipt : SourceReceipt} (hconfirmed : Confirmed source job config receipt)
    {result : CheckResult} (h : checkRevocation P source hub job config now = .ok result) :
    let Rs := HubChain.acceptedReceipts decoder o calls
    let E := historyOf (walletOf job.walletAddress) (HubChain.trace decoder o calls)
    ∃ state s hubSide, result = .observed state (decide (state = .enforced)) s hubSide now ∧
      s.blockNumber = receipt.blockNumber ∧ s.transactionIndex = receipt.index ∧
      (∃ L, matches_ config.source job.walletAddress receipt.logs =
        [(L, s.receiptLogIndex.toNat, 2)]) ∧
      (state = .enforced ↔ Executed Rs (coordOf s) ∧ ¬∃ x ∈ E, coordOf s < x.1) ∧
      (state = .superseded ↔ ∃ x ∈ E, coordOf s < x.1) ∧
      (state = .awaitingHub ↔ ¬Executed Rs (coordOf s) ∧ ¬∃ x ∈ E, coordOf s < x.1) ∧
      state ≠ .inconsistent ∧
      ∀ operator, isReference operator = true →
        ((∃ obs, revocationObservation P result config operator = .ok obs ∧ obs.state = state) ↔
          now ≤ 9007199254740) := by
  intro Rs E
  obtain ⟨state, enforced, s, hubSide, rfl⟩ := hconfirmed.exists_observed h
  obtain ⟨tx, receipt', head, hubHead, L, logIndex, policies, hreading, rfl, rfl, -, hclass⟩ :=
    checkRevocation_eq_ok h
  obtain rfl : receipt' = receipt :=
    Option.some.inj (hreading.receiptRead.symm.trans hconfirmed.receiptRead)
  have hobserved : state = observedState (sourceOf tx receipt' head logIndex)
      (hubOf hub (walletOf job.walletAddress) hubHead policies) := by
    rw [observedState_eq, ← hclass]
  rw [classify_eq hhub hreading.located] at hclass
  obtain ⟨hstate, henforced⟩ := Prod.mk.inj hclass
  obtain ⟨hexact, hnewer, htombstone⟩ := hreading.record_spec hheight hhub hsource
  obtain ⟨hall, hsuperseded, hawaiting, hconsistent⟩ := stateOf_agrees hexact hnewer htombstone
  rw [← hstate] at hall hsuperseded hawaiting hconsistent
  refine ⟨state, sourceOf tx receipt' head logIndex,
    hubOf hub (walletOf job.walletAddress) hubHead policies, ?_, rfl, rfl,
    ⟨L, hreading.revocation⟩, hall, hsuperseded, hawaiting, hconsistent, fun operator hoperator ↦ ?_⟩
  · have hdecide : enforced = decide (state = .enforced) := by
      rw [henforced, hstate]
      exact decide_eq_decide.2 stateOf_eq_enforced_iff.symm
    rw [hdecide]
  · exact accepted_iff hreading (hsource.blockNumber_pos receipt' hreading.receiptRead) hoperator
      hobserved

/-! ### A revocation to try it on -/

/-- The receipt of one revocation. -/
def sampleReceipts : List (List LogEntry) :=
  [[(SourceEvent.MarkRevoked 0x3001 2 1).toLog 0x501]]

/-- The revocation is delivered to the hub. -/
def sampleRun : List HubChain.Call :=
  [.asc (.configureSource ⟨1, 1700086400, ProofmarkASC.mockBlockProver⟩ 1 0x501),
    .asc (ProofmarkASC.deliver .MarkRevoked 100 2 0),
    .registry (.registerPolicy 7 HubChain.samplePolicy)]

def sampleChain : HubChain :=
  HubChain.after (ProofmarkASC.tableDecoder sampleReceipts) ⟨1, 0⟩ sampleRun

def sampleHash : Text :=
  Text.ofWord 0xB10C

def sampleCode : Bytes :=
  [0x60]

def samplePlatform : Platform where
  deriveVaultKey secret := secret
  keyIdentifier key := key
  deletionDigest _ := []
  reviewDigest key _ := key
  collates _ _ := true
  isAddress := Pipeline.eip55.isAddress

def sampleConfig : RevocationCheckConfig where
  source := Text.ofAddress 0x501
  asc := Text.ofAddress 0xA5C
  registry := Text.ofAddress 0x7E6
  expectedRevoker := Text.ofAddress 0xCA11
  sourceCodeHash := Text.ofWord (keccak256 sampleCode)
  ascCodeHash := Text.ofWord (keccak256 sampleCode)
  registryCodeHash := Text.ofWord (keccak256 sampleCode)
  policyIds := [1]
  confirmations := 12

def sampleJob : RevocationJob where
  id := ['j']
  recordId := ['r']
  walletAddress := Text.ofAddress 0x3001
  createdAt := 1700086400000
  state := .prepared
  sourceTarget := none
  transaction := some ⟨sampleHash, [], 11155111, Text.ofAddress 0x501⟩
  confirmedAt := none
  lastError := none
  observations := []

def sampleReceipt : SourceReceipt where
  hash := sampleHash
  to_ := some (Text.ofAddress 0x501)
  from_ := Text.ofAddress 0xCA11
  blockNumber := 100
  blockHash := sampleHash
  index := 2
  status := some 1
  logs := [(SourceEvent.MarkRevoked 0x3001 2 1).toLog 0x501]
  length_logs := by decide

/-- The source at some time. -/
def sampleSource (time : ℤ) : SourceRpc where
  chainId := SOURCE_CHAIN_ID
  latest := some ⟨120, some sampleHash, time⟩
  code _ := sampleCode
  receipt := some sampleReceipt
  block n := some ⟨n, some sampleHash, time⟩
  blockAgain n := some ⟨n, some sampleHash, time⟩

/-- The hub at some time. -/
def sampleHub (time : ℤ) : HubRpc where
  chainId := HUB_CHAIN_ID
  latest := some ⟨900, some sampleHash, time⟩
  ascCode := sampleCode
  registryCode := sampleCode
  sourceContract := sampleChain.asc.sourceContract
  expectedChainKey := 1
  transactionProcessingVersion := 2
  boundAsc := 0xA5C
  policySchemaVersion := 2
  tombstone := sampleChain.asc.tombstone
  lastAppliedHeight a := (sampleChain.asc.subjects a).lastAppliedHeight
  lastAppliedTxIndex a := (sampleChain.asc.subjects a).lastAppliedTxIndex
  lastAppliedLogIndex a := BitVec.ofNat 256 (sampleChain.asc.subjects a).lastAppliedLogIndex
  policy a id := ⟨7, true, sampleChain.registry.isVerified sampleChain.asc time.toNat a
    (BitVec.ofNat 256 id.toNat)⟩
  blockAgain n := some ⟨n, some sampleHash, time⟩

theorem acceptedReceipts_sampleRun :
    HubChain.acceptedReceipts (ProofmarkASC.tableDecoder sampleReceipts) ⟨1, 0⟩ sampleRun =
      [⟨100, 2, sampleReceipt.logs⟩] := by
  decide +kernel

theorem height_sampleRun : ∀ R ∈ HubChain.acceptedReceipts
    (ProofmarkASC.tableDecoder sampleReceipts) ⟨1, 0⟩ sampleRun, 0 < R.height := by
  rw [acceptedReceipts_sampleRun]
  simp

theorem honest_sampleHub (time : ℤ) :
    HonestHub (sampleHub time) sampleChain (walletOf sampleJob.walletAddress) where
  sourceContract := rfl
  tombstone := rfl
  lastAppliedHeight := rfl
  lastAppliedTxIndex := rfl
  lastAppliedLogIndex := by
    show (BitVec.ofNat 256 _).toNat = _
    decide +kernel
  isVerified block hblock id := by
    obtain rfl := Option.some.inj hblock
    rfl

theorem honest_sampleSource (time : ℤ) : HonestSource (sampleSource time)
    (HubChain.acceptedReceipts (ProofmarkASC.tableDecoder sampleReceipts) ⟨1, 0⟩ sampleRun) where
  blockNumber_pos r hr := by
    obtain rfl := Option.some.inj hr
    decide
  logs r hr R hR _ _ := by
    obtain rfl := Option.some.inj hr
    rw [acceptedReceipts_sampleRun, List.mem_singleton] at hR
    rw [hR]

theorem confirmed_sampleReceipt (time : ℤ) :
    Confirmed (sampleSource time) sampleJob sampleConfig sampleReceipt where
  signed := nofun
  receiptRead := rfl
  status := rfl
  depth head hhead := by
    obtain rfl := Option.some.inj hhead
    show sampleConfig.confirmations ≤ 120 - sampleReceipt.blockNumber + 1
    decide

/-- What is observed of the sample. -/
def sampleResult (time : ℤ) : CheckResult :=
  .observed .enforced true ⟨sampleHash, 100, sampleHash, 2, 0, 21, ⟨120, sampleHash, time⟩⟩
    ⟨⟨900, sampleHash, time⟩, true, ⟨Text.ofNat 100, Text.ofNat 2, Text.ofNat 0⟩, [⟨1, false⟩]⟩ time

theorem pinnedCode_sampleCode :
    pinnedCode sampleCode (Text.ofWord (keccak256 sampleCode)) = true := by
  simp [pinnedCode, same]

theorem validConfig_sampleConfig : validConfig sampleConfig = true := by
  have hhash : hash (Text.ofWord (keccak256 sampleCode)) = true := Text.isHexString_ofWord _
  simp [validConfig, sampleConfig, hhash, isInteger]

theorem fresh_sample {time : ℤ} (number : ℤ) (hnumber : isInteger number = true)
    (hpositive : 0 < time) (htime : isInteger time = true) :
    fresh (some ⟨number, some sampleHash, time⟩) time = .ok ⟨number, sampleHash, time⟩ := by
  have hhash : hash sampleHash = true := by decide
  simp only [fresh, getOrRevert, bind_eq_ok, requireThat_eq_ok, exists_const]
  refine ⟨_, rfl, _, rfl, ?_, rfl⟩
  simp [hhash, hnumber, htime, hpositive]

/-- The source of the sample, as observed at some time. -/
def sampleSide (time : ℤ) : SourceObservation :=
  ⟨sampleHash, 100, sampleHash, 2, 0, 21, ⟨120, sampleHash, time⟩⟩

/-- The check of the sample, up to what it observes on the hub. -/
theorem checkRevocation_sample {time : ℤ} (hpositive : 0 < time) (htime : isInteger time = true)
    (hhub : observeHub (sampleSource time) (sampleHub time) sampleJob sampleConfig time
      (sampleSide time) ⟨120, sampleHash, time⟩ ⟨900, sampleHash, time⟩ =
        .ok (sampleResult time)) :
    checkRevocation samplePlatform (sampleSource time) (sampleHub time) sampleJob sampleConfig time =
      .ok (sampleResult time) := by
  have haddresses : ([sampleConfig.source, sampleConfig.asc, sampleConfig.registry,
      sampleConfig.expectedRevoker, sampleJob.walletAddress].all fun a ↦
        samplePlatform.isAddress a && !same a zeroAddress) = true := by decide +kernel
  have hmatches : matches_ sampleConfig.source sampleJob.walletAddress sampleReceipt.logs =
      [((SourceEvent.MarkRevoked 0x3001 2 1).toLog 0x501, 0, 2)] := by decide +kernel
  simp only [checkRevocation, sampleJob, bind_eq_ok, requireThat_eq_ok, exists_const]
  refine ⟨?_, haddresses, validConfig_sampleConfig, by decide, by decide, rfl, _,
    fresh_sample 120 (by decide) hpositive htime, _, fresh_sample 900 (by decide) hpositive htime,
    ?_, ?_⟩
  · rw [htime, decide_eq_true hpositive]
    decide
  · have hpin : pinnedCode ((sampleSource time).code 120) sampleConfig.sourceCodeHash = true :=
      pinnedCode_sampleCode
    have hpin' : pinnedCode (sampleHub time).ascCode sampleConfig.ascCodeHash = true :=
      pinnedCode_sampleCode
    have hpin'' : pinnedCode (sampleHub time).registryCode sampleConfig.registryCodeHash = true :=
      pinnedCode_sampleCode
    simp only [hpin, hpin', hpin'', Bool.and_true]
    rfl
  · have hpin : pinnedCode ((sampleSource time).code sampleReceipt.blockNumber)
        sampleConfig.sourceCodeHash = true := pinnedCode_sampleCode
    simp only [sampleSource, observeReceipt, bind_eq_ok, requireThat_eq_ok, exists_const]
    have hmatching : matchingReceipt sampleConfig
        ⟨sampleHash, [], 11155111, Text.ofAddress 0x501⟩ sampleReceipt ⟨120, sampleHash, time⟩ =
          true := rfl
    have hdepth : ¬ (120 - sampleReceipt.blockNumber + 1 < sampleConfig.confirmations) := by decide
    have hstatus : sampleReceipt.status ≠ some 0 := by decide
    refine ⟨hmatching, rfl, ?_⟩
    rw [if_neg hdepth]
    simp only [bind_eq_ok, requireThat_eq_ok, exists_const]
    refine ⟨rfl, ?_⟩
    rw [if_neg hstatus]
    simp only [bind_eq_ok, requireThat_eq_ok, exists_const]
    refine ⟨hpin, ?_⟩
    rw [show matches_ sampleConfig.source (Text.ofAddress 0x3001) sampleReceipt.logs = _
      from hmatches]
    simp only [bind_eq_ok, requireThat_eq_ok, exists_const]
    exact ⟨by decide +kernel, hhub⟩

theorem checkRevocation_samples :
    checkRevocation samplePlatform (sampleSource 1700086400) (sampleHub 1700086400) sampleJob
        sampleConfig 1700086400 = .ok (sampleResult 1700086400) ∧
      checkRevocation samplePlatform (sampleSource 9007199254741) (sampleHub 9007199254741)
        sampleJob sampleConfig 9007199254741 = .ok (sampleResult 9007199254741) := by
  refine ⟨checkRevocation_sample (by decide) (by decide) (toOption_eq_some.1 ?_),
    checkRevocation_sample (by decide) (by decide) (toOption_eq_some.1 ?_)⟩
  · decide +kernel
  · decide +kernel

def sampleOperator : Text :=
  "reviewer-1".toList

theorem checkRevocation_agrees_sample : ∃ obs, revocationObservation samplePlatform
    (sampleResult 1700086400) sampleConfig sampleOperator = .ok obs := by
  obtain ⟨state, s, hubSide, -, -, -, -, -, -, -, -, haccepted⟩ :=
    checkRevocation_agrees (ProofmarkASC.tableDecoder sampleReceipts) ⟨1, 0⟩ sampleRun
      height_sampleRun (honest_sampleHub 1700086400) (honest_sampleSource 1700086400)
      (confirmed_sampleReceipt 1700086400) checkRevocation_samples.1
  obtain ⟨obs, hobs, -⟩ := (haccepted sampleOperator (by decide)).2 (by decide)
  exact ⟨obs, hobs⟩

/-- A time that does not fit in milliseconds is checked and not recorded. -/
theorem observation_refused_late :
    (∀ R ∈ HubChain.acceptedReceipts (ProofmarkASC.tableDecoder sampleReceipts) ⟨1, 0⟩ sampleRun,
      0 < R.height) ∧
    HonestHub (sampleHub 9007199254741) sampleChain (walletOf sampleJob.walletAddress) ∧
      HonestSource (sampleSource 9007199254741) (HubChain.acceptedReceipts
        (ProofmarkASC.tableDecoder sampleReceipts) ⟨1, 0⟩ sampleRun) ∧
      Confirmed (sampleSource 9007199254741) sampleJob sampleConfig sampleReceipt ∧
      checkRevocation samplePlatform (sampleSource 9007199254741) (sampleHub 9007199254741)
        sampleJob sampleConfig 9007199254741 = .ok (sampleResult 9007199254741) ∧
      isReference sampleOperator = true ∧
      (revocationObservation samplePlatform (sampleResult 9007199254741) sampleConfig
        sampleOperator).toOption = none :=
  ⟨height_sampleRun, honest_sampleHub _, honest_sampleSource _, confirmed_sampleReceipt _,
    checkRevocation_samples.2, by decide, by decide⟩

end RevocationCheck

end Proofmark
