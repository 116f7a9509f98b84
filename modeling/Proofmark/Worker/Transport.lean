import Proofmark.Worker.Relay

/-!
# The relay transport

`EvmRelayTransport` of `relay.ts`, as a function of what the hub's endpoint and the packages reply
while a request of the sender is pending. The constructor refuses a depth of zero. Nothing is
assumed of the endpoint but that its heights and those after them are safe integers
(`SampleReply.Safe`, `QueryReply.Safe`); the clock is read when a sample ends.

A query that is observed processed at depth comes with a block that can be checked again
(`observeProcessed_confirmed`), and an envelope that is prepared is one of the hub's chain, of the
ASC and of the signer (`prepare_ok`).
-/

namespace Proofmark.Worker

/-- `Number.isSafeInteger`, of a number that is not negative. -/
def IsSafe (n : ℕ) : Prop :=
  n ≤ 9007199254740991

instance (n : ℕ) : Decidable (IsSafe n) :=
  inferInstanceAs (Decidable (_ ≤ _))

/-- What `ethers.Transaction.from` reads. -/
structure SignedTransaction where
  isSigned : Bool
  hash : String
  nonce : ℕ
  chainId : ℕ
  to_ : Option String
  from_ : String
  data : String
  value : ℕ

/-- The functions of the packages. -/
structure Packages where
  /-- `ethers.Transaction.from`, unless it throws -/
  transactionFrom : String → Option SignedTransaction
  /-- `ethers.keccak256` -/
  keccak256 : String → String
  /-- `ethers.id` -/
  id : String → String
  /-- `ethers.isAddress` -/
  isAddress : String → Bool

/-- A digest is 32 bytes of hex. -/
structure Packages.Documented (K : Packages) : Prop where
  keccak256 : ∀ raw, isHash (K.keccak256 raw) = true

/-- An observation that a monitor accepts once it is stored. -/
structure Checkable (o : SkipObservation) (now : ℕ) : Prop where
  number : IsSafe o.blockNumber
  hash : isHash o.blockHash = true
  confirmations : 0 < o.confirmations ∧ IsSafe o.confirmations
  observedAt : o.observedAt ≤ now

theorem Checkable.mono {o : SkipObservation} {now now' : ℕ} (h : Checkable o now)
    (hnow : now ≤ now') : Checkable o now' :=
  { h with observedAt := h.observedAt.trans hnow }

namespace EvmRelayTransport

/-! ### Observing a query -/

/-- What the endpoint replies to one `sample`, and the time at its end. -/
structure SampleReply where
  block : Option BlockAnswer
  /-- `none` if the contract answers no boolean -/
  processed : Option Bool
  finalHead : Option ℕ
  again : Option BlockAnswer
  observedAt : ℕ

/-- `sample`. The library writes a `bytes32` argument only if it is 32 bytes of hex. -/
def sample (queryId : String) (height : ℕ) (expectedHash : Option String) (r : SampleReply) :
    Except WorkerError (Bool × SkipObservation) :=
  match r.block with
  | some ⟨some number, some hash⟩ =>
    if number ≠ height ∨ isHash hash = false ∨ expectedHash.any (· ≠ hash) then
      .error (.error "ASC_QUERY_OBSERVATION_CHANGED")
    else if isHash queryId = false then .error (.error "invalid BytesLike value")
    else
      match r.processed with
      | none => .error (.error "ASC_QUERY_OBSERVATION_UNAVAILABLE")
      | some value =>
        match r.finalHead, r.again with
        | some finalHead, some ⟨some numberAgain, some hashAgain⟩ =>
          if numberAgain ≠ height ∨ hashAgain ≠ hash ∨ finalHead < height then
            .error (.error "ASC_QUERY_OBSERVATION_CHANGED")
          else .ok (value, ⟨height, hash, finalHead - height + 1, r.observedAt⟩)
        | _, _ => .error (.error "ASC_QUERY_OBSERVATION_CHANGED")
  | _ => .error (.error "ASC_QUERY_OBSERVATION_CHANGED")

/-- What the endpoint replies while a query is observed. -/
structure QueryReply where
  head : Option ℕ
  latest : SampleReply
  /-- the ASC has code at the confirmation floor -/
  deployed : Bool
  stable : SampleReply

/-- The status of a sample at the confirmation floor. -/
def confirmedStatus (confirmations : ℕ) (s : Bool × SkipObservation) : QueryObservation :=
  ⟨s.2, if s.1 && confirmations ≤ s.2.confirmations then .confirmed else .pending⟩

/-- `observeProcessed` -/
def observeProcessed (confirmations : ℕ) (queryId : String) (expected : Option QueryObservation)
    (r : QueryReply) : Except WorkerError QueryObservation :=
  match r.head with
  | none => .error (.error "ASC_QUERY_OBSERVATION_UNAVAILABLE")
  | some head =>
    match expected with
    | some expected =>
      if expected.status ≠ .confirmed ∨ ¬IsSafe expected.blockNumber ∨
          isHash expected.blockHash = false then
        .error (.error "ASC_QUERY_OBSERVATION_UNAVAILABLE")
      else if head + 1 < confirmations + expected.blockNumber then
        .ok { expected with status := .pending }
      else
        (sample queryId expected.blockNumber (some expected.blockHash) r.stable).map
          (confirmedStatus confirmations)
    | none => do
      let latest ← sample queryId head none r.latest
      if latest.1 = false then return ⟨latest.2, .unprocessed⟩
      else if head + 1 < confirmations then return ⟨latest.2, .pending⟩
      else if r.deployed = false then return ⟨latest.2, .pending⟩
      else if head + 1 - confirmations = head then return confirmedStatus confirmations latest
      else do
        let stable ← sample queryId (head + 1 - confirmations) none r.stable
        return confirmedStatus confirmations stable

/-- The heights of a reply, and those after them, are safe integers. -/
def SampleReply.Safe (r : SampleReply) : Prop :=
  ∀ finalHead, r.finalHead = some finalHead → IsSafe (finalHead + 1)

/-- The heights of the replies are safe integers, and their times are not after the present. -/
structure QueryReply.Safe (r : QueryReply) (now : ℕ) : Prop where
  head : ∀ head, r.head = some head → IsSafe head
  latest : r.latest.Safe ∧ r.latest.observedAt ≤ now
  stable : r.stable.Safe ∧ r.stable.observedAt ≤ now

theorem sample_ok {queryId : String} {height now : ℕ} {expectedHash : Option String}
    {r : SampleReply} {s : Bool × SkipObservation} (hr : r.Safe) (hnow : r.observedAt ≤ now)
    (hheight : IsSafe height) (h : sample queryId height expectedHash r = .ok s) :
    isHash queryId = true ∧ Checkable s.2 now := by
  unfold sample at h
  split at h
  case h_2 => cases h
  case h_1 number hash hblock =>
    split at h
    · cases h
    case isFalse hsame =>
      split at h
      · cases h
      case isFalse hquery =>
        split at h
        · cases h
        case h_2 value =>
          split at h
          case h_2 => cases h
          case h_1 finalHead numberAgain hashAgain hfinal hagain =>
            split at h
            · cases h
            case isFalse hkept =>
              obtain rfl := Except.ok.inj h
              push Not at hsame hkept
              have hsafe := hr finalHead hfinal
              refine ⟨by simpa using hquery, hheight, by simpa using hsame.2.1,
                ⟨Nat.succ_pos _, ?_⟩, hnow⟩
              show finalHead - height + 1 ≤ 9007199254740991
              have hle : finalHead + 1 ≤ 9007199254740991 := hsafe
              omega

/-- **A query observed processed can be checked again**, and one that is observed at all has an
identity of 32 bytes. -/
theorem observeProcessed_confirmed {confirmations now : ℕ} {queryId : String}
    {expected : Option QueryObservation} {r : QueryReply} {o : QueryObservation}
    (hconfirmations : 0 < confirmations) (hr : r.Safe now)
    (h : observeProcessed confirmations queryId expected r = .ok o) :
    (expected = none → isHash queryId = true) ∧
      (o.status = .confirmed → Checkable o.toSkipObservation now) := by
  unfold observeProcessed at h
  split at h
  · cases h
  case h_2 head hhead =>
    have hsafe := hr.head head hhead
    split at h
    case h_1 expected =>
      refine ⟨fun hnone ↦ (by cases hnone), fun hstatus ↦ ?_⟩
      split at h
      · cases h
      case isFalse hexpected =>
        push Not at hexpected
        split at h
        · obtain rfl := Except.ok.inj h
          cases hstatus
        · cases hsample : sample queryId expected.blockNumber (some expected.blockHash) r.stable with
          | error e =>
            rw [hsample] at h
            cases h
          | ok s =>
            rw [hsample] at h
            obtain rfl := Except.ok.inj h
            exact (sample_ok hr.stable.1 hr.stable.2 hexpected.2.1 hsample).2
    case h_2 =>
      cases hlatest : sample queryId head none r.latest with
      | error e =>
        rw [hlatest] at h
        cases h
      | ok latest =>
        obtain ⟨hquery, hchecked⟩ := sample_ok hr.latest.1 hr.latest.2 hsafe hlatest
        refine ⟨fun _ ↦ hquery, fun hstatus ↦ ?_⟩
        rw [hlatest] at h
        change (if _ then _ else _) = _ at h
        split at h
        · obtain rfl := Except.ok.inj h
          cases hstatus
        · split at h
          · obtain rfl := Except.ok.inj h
            cases hstatus
          · split at h
            · obtain rfl := Except.ok.inj h
              cases hstatus
            · split at h
              · obtain rfl := Except.ok.inj h
                exact hchecked
              · cases hstable : sample queryId (head + 1 - confirmations) none r.stable with
                | error e =>
                  rw [hstable] at h
                  cases h
                | ok stable =>
                  rw [hstable] at h
                  obtain rfl := Except.ok.inj h
                  have hfloor : IsSafe (head + 1 - confirmations) := by
                    have hle : head ≤ 9007199254740991 := hsafe
                    show head + 1 - confirmations ≤ 9007199254740991
                    omega
                  exact (sample_ok hr.stable.1 hr.stable.2 hfloor hstable).2

/-! ### Preparing an envelope -/

variable (K : Packages)

/-- `validateRelay` -/
def validateRelay (relay : RelayEnvelope) (chainId : ℕ) (asc signer : String) :
    Except WorkerError Unit :=
  match K.transactionFrom relay.raw with
  | none => .error (.error "unsupported transaction")
  | some tx =>
    if tx.isSigned = false ∨ tx.hash ≠ relay.hash ∨ tx.nonce ≠ relay.nonce ∨
        tx.chainId ≠ chainId ∨ relay.chainId ≠ chainId ∨
        tx.to_.map String.toLower ≠ some asc.toLower ∨ relay.to_.toLower ≠ asc.toLower ∨
        tx.from_.toLower ≠ signer.toLower ∨ relay.signer.toLower ≠ signer.toLower ∨
        tx.data ≠ relay.data ∨ tx.value ≠ 0 then
      .error (.error "RELAY_SIGNATURE_TARGET_MISMATCH")
    else .ok ()

/-- What the packages reply while an envelope is prepared: the ASC's address, and the transaction
that the wallet populates and signs. -/
structure PrepareReply where
  to_ : String
  nonce : ℕ
  chainId : ℕ
  raw : String

/-- `prepare` -/
def prepare (signer sourceTxHash queryId data : String) (r : PrepareReply) :
    Except WorkerError RelayEnvelope := do
  let relay : RelayEnvelope :=
    ⟨sourceTxHash, queryId, K.keccak256 r.raw, r.raw, r.nonce, r.chainId, r.to_, signer, data⟩
  validateRelay K relay 102031 r.to_ signer
  return relay

variable {K}

theorem prepare_ok {signer sourceTxHash queryId data : String} {r : PrepareReply}
    {relay : RelayEnvelope} (h : prepare K signer sourceTxHash queryId data r = .ok relay) :
    relay = ⟨sourceTxHash, queryId, K.keccak256 r.raw, r.raw, r.nonce, 102031, r.to_, signer,
      data⟩ := by
  unfold prepare validateRelay at h
  simp only at h
  split at h
  · cases h
  · split at h
    · cases h
    case isFalse hvalid =>
      push Not at hvalid
      obtain rfl := Except.ok.inj h
      simp only [RelayEnvelope.mk.injEq, true_and, and_true]
      exact hvalid.2.2.2.2.1

end EvmRelayTransport

end Proofmark.Worker
