import Proofmark.Contracts.GatedRwaNote

/-!
# What a call does to the asset

Every path into `_update` is one `Flow`: a function of the base contract prepares a movement, the
override checks its two ends, and `ERC20._update` applies it. Two facts about a flow carry the rest:
an account that gains is verified (`Flow.gain`), and one that loses is verified too unless the bypass
is on (`Flow.loss`). `Effect` lists what a call that does not revert can do.
-/

open Evm

namespace Proofmark

/-! ### The inherited token -/

/-- What the note relies on in `ERC20`: balances change in `_update` only, `_burn` and `_transfer` hand
it their arguments, and it moves the amount. -/
structure Erc20.Lawful (T : Erc20) : Prop where
  route_balance : ∀ entry b b' m, T.route entry b = some (b', m) → T.balanceOf b' = T.balanceOf b
  route_burn : ∀ account value b b' m, T.route (.burn account value) b = some (b', m) →
    m = some ⟨account, 0, value⟩
  route_move : ∀ source target value b b' m, T.route (.move source target value) b = some (b', m) →
    m = some ⟨source, target, value⟩
  update_balance : ∀ b m b', T.superUpdate b m = some b' → ∀ a, a ≠ 0 →
    (T.balanceOf b' a).toNat + (if a = m.from_ then m.value.toNat else 0) =
      (T.balanceOf b a).toNat + (if a = m.to_ then m.value.toNat else 0)

namespace GatedRwaNote

variable {T : Erc20} {s s' : GatedRwaNote T} {env : NoteEnv} {call : Call} {events : List NoteEvent}

/-! ### The hook -/

@[simp]
theorem requireVerified_eq_ok {account : Address} {e : NoteError} {u : Unit} :
    s.requireVerified env account e = .ok u ↔ env.isVerified account s.POLICY_ID = some true := by
  simp only [requireVerified, bind_eq_ok, getOrRevert_eq_ok, revertIf_eq_ok, Bool.not_eq_false']
  constructor
  · rintro ⟨_, h, ha⟩
    exact ha ▸ h
  · exact fun h ↦ ⟨true, h, rfl⟩

/-- The checks of the override. -/
structure Checked (env : NoteEnv) (policyId : Uint 256) (bypass : Bool) (m : Movement) : Prop where
  source : bypass = false → m.from_ ≠ 0 → env.isVerified m.from_ policyId = some true
  target : m.to_ ≠ 0 → env.isVerified m.to_ policyId = some true

theorem update_eq_ok {m : Movement} : s.update env m = .ok s' ↔
    Checked env s.POLICY_ID s.complianceBypass m ∧
      ∃ base, T.superUpdate s.base m = some base ∧ s' = { s with base := base } := by
  simp only [update, checkIf_bind_eq_ok, requireVerified_eq_ok, Bool.and_eq_true,
    Bool.not_eq_true', bne_iff_ne]
  constructor
  · rintro ⟨hfrom, hto, h⟩
    obtain ⟨base, hbase, h⟩ := bind_eq_ok.1 h
    exact ⟨⟨fun h h' ↦ hfrom ⟨h, h'⟩, hto⟩, base, getOrRevert_eq_ok.1 hbase,
      (Except.ok.inj h).symm⟩
  · rintro ⟨hchecked, base, hbase, rfl⟩
    exact ⟨fun h ↦ hchecked.source h.1 h.2, hchecked.target,
      bind_eq_ok.2 ⟨base, getOrRevert_eq_ok.2 hbase, rfl⟩⟩

/-- A function of the base contract takes the token from `b` to `b'` through the hook. -/
def Flow (env : NoteEnv) (policyId : Uint 256) (bypass : Bool) (entry : TokenEntry)
    (b b' : T.Storage) : Prop :=
  ∃ b₀ movement, T.route entry b = some (b₀, movement) ∧
    match movement with
    | none => b' = b₀
    | some m => Checked env policyId bypass m ∧ T.superUpdate b₀ m = some b'

theorem enter_eq_ok {entry : TokenEntry} : s.enter env entry = .ok s' ↔
    ∃ base, Flow env s.POLICY_ID s.complianceBypass entry s.base base ∧
      s' = { s with base := base } := by
  rw [enter, bind_eq_ok]
  constructor
  · rintro ⟨⟨b₀, movement⟩, hroute, h⟩
    rw [getOrRevert_eq_ok] at hroute
    cases movement with
    | none => exact ⟨b₀, ⟨b₀, none, hroute, rfl⟩, (Except.ok.inj h).symm⟩
    | some m =>
      obtain ⟨hchecked, base, hbase, hs'⟩ := update_eq_ok.1 h
      exact ⟨base, ⟨b₀, some m, hroute, hchecked, hbase⟩, hs'⟩
  · rintro ⟨base, ⟨b₀, movement, hroute, h⟩, rfl⟩
    refine ⟨⟨b₀, movement⟩, getOrRevert_eq_ok.2 hroute, ?_⟩
    cases movement with
    | none =>
      obtain rfl := h
      rfl
    | some m => exact update_eq_ok.2 ⟨h.1, base, h.2, rfl⟩

namespace Flow

variable {policyId : Uint 256} {bypass : Bool} {entry : TokenEntry} {b b' : T.Storage} {a : Address}

/-- Whoever gains is verified. -/
theorem gain (hT : T.Lawful) (h : Flow env policyId bypass entry b b') (ha : a ≠ 0)
    (hlt : T.balanceOf b a < T.balanceOf b' a) : env.isVerified a policyId = some true := by
  obtain ⟨b₀, movement, hroute, h⟩ := h
  rw [← hT.route_balance _ _ _ _ hroute, BitVec.lt_def] at hlt
  cases movement with
  | none =>
    obtain rfl := h
    exact absurd hlt (lt_irrefl _)
  | some m =>
    have hbalance := hT.update_balance _ _ _ h.2 a ha
    have hto : a = m.to_ := by
      by_contra hne
      rw [if_neg hne] at hbalance
      omega
    exact hto ▸ h.1.target (hto ▸ ha)

/-- Whoever loses is the source of the movement, and loses all of it. -/
theorem source_of_lt (hT : T.Lawful) {b₀ : T.Storage} {m : Movement}
    (hroute : T.route entry b = some (b₀, some m)) (hupdate : T.superUpdate b₀ m = some b')
    (ha : a ≠ 0) (hlt : T.balanceOf b' a < T.balanceOf b a) :
    a = m.from_ ∧ (T.balanceOf b a).toNat = (T.balanceOf b' a).toNat + m.value.toNat := by
  have hbalance := hT.update_balance _ _ _ hupdate a ha
  rw [hT.route_balance _ _ _ _ hroute] at hbalance
  rw [BitVec.lt_def] at hlt
  have hfrom : a = m.from_ := by
    by_contra hne
    rw [if_neg hne] at hbalance
    omega
  have hto : a ≠ m.to_ := by
    intro heq
    rw [if_pos heq] at hbalance
    split at hbalance <;> omega
  rw [if_pos hfrom, if_neg hto] at hbalance
  exact ⟨hfrom, hbalance.symm⟩

/-- Whoever loses while the bypass is off is verified. -/
theorem loss (hT : T.Lawful) (h : Flow env policyId false entry b b') (ha : a ≠ 0)
    (hlt : T.balanceOf b' a < T.balanceOf b a) : env.isVerified a policyId = some true := by
  obtain ⟨b₀, movement, hroute, h⟩ := h
  cases movement with
  | none =>
    obtain rfl := h
    rw [hT.route_balance _ _ _ _ hroute] at hlt
    exact absurd hlt (lt_irrefl _)
  | some m =>
    obtain ⟨rfl, -⟩ := source_of_lt hT hroute h.2 ha hlt
    exact h.1.source rfl ha

/-- Whoever loses in a recovery is the account it names, and loses the amount it names. -/
theorem recovered (hT : T.Lawful) {request : RecoveryRequest}
    (h : Flow env policyId bypass (recoveryEntry request) b b') (ha : a ≠ 0)
    (hlt : T.balanceOf b' a < T.balanceOf b a) :
    a = request.from_ ∧
      (T.balanceOf b a).toNat = (T.balanceOf b' a).toNat + request.amount.toNat := by
  obtain ⟨b₀, movement, hroute, h⟩ := h
  have hmovement : ∃ target, movement = some ⟨request.from_, target, request.amount⟩ := by
    rw [recoveryEntry] at hroute
    split at hroute
    · exact ⟨_, hT.route_move _ _ _ _ _ _ hroute⟩
    · exact ⟨_, hT.route_burn _ _ _ _ _ hroute⟩
  obtain ⟨target, rfl⟩ := hmovement
  exact source_of_lt hT hroute h.2 ha hlt

end Flow

/-! ### Recoveries -/

/-- What `proposeRecovery` stores. -/
def proposal (env : NoteEnv) (kind : RecoveryKind) (source target : Address) (amount : Uint 256)
    (reasonHash : Bytes32) : RecoveryRequest where
  from_ := source
  to_ := target
  amount := amount
  reasonHash := reasonHash
  proposer := env.sender
  approver := 0
  executeAfter := BitVec.ofNat 40 (env.timestamp + MIN_RECOVERY_DELAY)
  kind := kind
  executed := false

/-- The write to one recovery. -/
def setRecovery (s : GatedRwaNote T) (id : Uint 256) (request : RecoveryRequest) : GatedRwaNote T :=
  { s with recoveryRequests := Function.update s.recoveryRequests id request }

/-- What `executeRecovery` asks for. -/
structure Executable (s : GatedRwaNote T) (env : NoteEnv) (id : Uint 256) (base : T.Storage) :
    Prop where
  proposed : (s.recoveryRequests id).proposer ≠ 0
  unexecuted : (s.recoveryRequests id).executed = false
  approved : (s.recoveryRequests id).approver ≠ 0
  due : (s.recoveryRequests id).executeAfter.toNat ≤ env.timestamp
  recipient : (s.recoveryRequests id).kind = .Transfer →
    env.isVerified (s.recoveryRequests id).to_ s.POLICY_ID = some true
  flow : Flow env s.POLICY_ID true (recoveryEntry (s.recoveryRequests id)) s.base base

/-- The state after an execution. -/
def recover (s : GatedRwaNote T) (id : Uint 256) (base : T.Storage) : GatedRwaNote T :=
  { s.setRecovery id { s.recoveryRequests id with executed := true } with
    base := base
    complianceBypass := false }

/-- The state after a proposal. -/
def addRecovery (s : GatedRwaNote T) (request : RecoveryRequest) : GatedRwaNote T :=
  { s.setRecovery s.nextRecoveryId request with nextRecoveryId := s.nextRecoveryId + 1 }

@[simp]
theorem setRecovery_self (s : GatedRwaNote T) (id : Uint 256) (request : RecoveryRequest) :
    (s.setRecovery id request).recoveryRequests id = request :=
  Function.update_self ..

theorem setRecovery_of_ne {id id' : Uint 256} {request : RecoveryRequest} (h : id' ≠ id) :
    (s.setRecovery id request).recoveryRequests id' = s.recoveryRequests id' :=
  Function.update_of_ne h ..

/-- **An execution goes through exactly if the request is executable.** -/
theorem executeRecovery_eq_ok {id : Uint 256} :
    (∃ events, s.executeRecovery env id = .ok (s', events)) ↔
      ∃ base, s.Executable env id base ∧ s' = s.recover id base := by
  simp only [executeRecovery, revertIf_bind_eq_ok, checkIf_bind_eq_ok, requireVerified_eq_ok,
    beq_iff_eq, Bool.or_eq_false_iff, beq_eq_false_iff_ne, ne_eq, decide_eq_false_iff_not, not_lt]
  constructor
  · rintro ⟨events, ⟨hproposer, hunexecuted⟩, happrover, hdue, hrecipient, h⟩
    obtain ⟨s₁, hs₁, h⟩ := bind_eq_ok.1 h
    obtain ⟨base, hflow, rfl⟩ := enter_eq_ok.1 hs₁
    obtain ⟨rfl, -⟩ := Prod.mk.inj (Except.ok.inj h)
    exact ⟨base, ⟨hproposer, hunexecuted, happrover, hdue, hrecipient, hflow⟩, rfl⟩
  · rintro ⟨base, h, rfl⟩
    refine ⟨_, ⟨h.proposed, h.unexecuted⟩, h.approved, h.due, h.recipient,
      bind_eq_ok.2 ⟨_, enter_eq_ok.2 ⟨base, ?_, rfl⟩, rfl⟩⟩
    exact h.flow

theorem approveRecovery_eq_ok {id : Uint 256} (h : s.approveRecovery env id = .ok (s', events)) :
    env.sender = s.recoveryApprover ∧ (s.recoveryRequests id).proposer ≠ 0 ∧
      (s.recoveryRequests id).approver = 0 ∧ (s.recoveryRequests id).executed = false ∧
      s' = s.setRecovery id { s.recoveryRequests id with approver := env.sender } := by
  simp only [approveRecovery, revertIf_bind_eq_ok, bne_eq_false_iff_eq, Bool.or_eq_false_iff,
    beq_eq_false_iff_ne, pure, Except.pure, Except.ok.injEq, Prod.mk.injEq] at h
  obtain ⟨hsender, ⟨⟨hproposer, happrover⟩, hexecuted⟩, rfl, -⟩ := h
  exact ⟨hsender, hproposer, happrover, hexecuted, rfl⟩

theorem proposeRecovery_eq_ok {kind : RecoveryKind} {source target : Address} {amount : Uint 256}
    {reasonHash : Bytes32}
    (h : s.proposeRecovery env kind source target amount reasonHash = .ok (s', events)) :
    env.sender = s.recoveryProposer ∧ source ≠ 0 ∧ amount ≠ 0 ∧
      s.nextRecoveryId ≠ BitVec.allOnes 256 ∧
      s' = s.addRecovery (proposal env kind source target amount reasonHash) := by
  simp only [proposeRecovery, revertIf_bind_eq_ok, checkIf_bind_eq_ok, bne_eq_false_iff_eq, Bool.or_eq_false_iff, beq_eq_false_iff_ne, pure,
    Except.pure, Except.ok.injEq, Prod.mk.injEq] at h
  obtain ⟨hsender, ⟨⟨⟨⟨hsource, hamount⟩, -⟩, -⟩, -⟩, -, hid, -, rfl, -⟩ := h
  exact ⟨hsender, hsource, hamount, hid, rfl⟩

theorem configureRecoveryGovernance_eq_ok {proposer approver : Address}
    (h : s.configureRecoveryGovernance env proposer approver = .ok (s', events)) :
    s.recoveryProposer = 0 ∧ proposer ≠ 0 ∧ approver ≠ 0 ∧ proposer ≠ approver ∧
      s' = { s with recoveryProposer := proposer, recoveryApprover := approver } := by
  obtain ⟨u, -, h⟩ := bind_eq_ok.1 h
  simp only [revertIf_bind_eq_ok, bne_eq_false_iff_eq, Bool.or_eq_false_iff, beq_eq_false_iff_ne,
    pure, Except.pure, Except.ok.injEq, Prod.mk.injEq] at h
  obtain ⟨hnone, ⟨⟨hproposer, happrover⟩, hne⟩, rfl, -⟩ := h
  exact ⟨hnone, hproposer, happrover, hne, rfl⟩

/-! ### Calls -/

/-- The calls about recoveries. -/
def Call.recovers : Call → Bool
  | .configureRecoveryGovernance .. | .proposeRecovery .. | .approveRecovery _
  | .executeRecovery _ => true
  | _ => false

/-- What a call that does not revert does. -/
inductive Effect (s : GatedRwaNote T) (env : NoteEnv) : Call → GatedRwaNote T → Prop
  /-- An ordinary movement, approval or change of owner. -/
  | token {call : Call} (hcall : call.recovers = false) (ownable : Ownable2Step)
      (base : T.Storage) (flow : base = s.base ∨ ∃ entry,
        Flow env s.POLICY_ID s.complianceBypass entry s.base base) :
      Effect s env call { s with ownable := ownable, base := base }
  | configured (proposer approver : Address) (hnone : s.recoveryProposer = 0)
      (hproposer : proposer ≠ 0) (happrover : approver ≠ 0) (hne : proposer ≠ approver) :
      Effect s env (.configureRecoveryGovernance proposer approver)
        { s with recoveryProposer := proposer, recoveryApprover := approver }
  | proposed (kind : RecoveryKind) (source target : Address) (amount : Uint 256)
      (reasonHash : Bytes32) (hsender : env.sender = s.recoveryProposer) (hsource : source ≠ 0)
      (hamount : amount ≠ 0) (hid : s.nextRecoveryId ≠ BitVec.allOnes 256) :
      Effect s env (.proposeRecovery kind source target amount reasonHash)
        (s.addRecovery (proposal env kind source target amount reasonHash))
  | approved (id : Uint 256) (hsender : env.sender = s.recoveryApprover)
      (hproposer : (s.recoveryRequests id).proposer ≠ 0)
      (happrover : (s.recoveryRequests id).approver = 0)
      (hexecuted : (s.recoveryRequests id).executed = false) :
      Effect s env (.approveRecovery id)
        (s.setRecovery id { s.recoveryRequests id with approver := env.sender })
  | executed (id : Uint 256) (base : T.Storage) (h : s.Executable env id base) :
      Effect s env (.executeRecovery id) (s.recover id base)

/-- **Every call that goes through has its effect.** -/
theorem exec_effect (h : s.exec env call = .ok (s', events)) : Effect s env call s' := by
  have hflow : ∀ {entry : TokenEntry} {call : Call}, call.recovers = false →
      s.enter env entry = .ok s' → Effect s env call s' := by
    intro entry call hcall hs'
    obtain ⟨base, hflow, rfl⟩ := enter_eq_ok.1 hs'
    exact .token hcall s.ownable base (.inr ⟨entry, hflow⟩)
  have howner : ∀ {x : Except NoteError Ownable2Step} {call : Call}, call.recovers = false →
      (x >>= fun o ↦ pure ({ s with ownable := o }, ([] : List NoteEvent))) = .ok (s', events) →
      Effect s env call s' := by
    intro x call hcall hx
    obtain ⟨o, -, ho⟩ := bind_eq_ok.1 hx
    obtain ⟨rfl, -⟩ := Prod.mk.inj (Except.ok.inj ho)
    exact .token hcall o s.base (.inl rfl)
  cases call with
  | mint to_ amount =>
    obtain ⟨u, -, h⟩ := bind_eq_ok.1 h
    obtain ⟨s₁, hs₁, h⟩ := bind_eq_ok.1 h
    obtain ⟨rfl, -⟩ := Prod.mk.inj (Except.ok.inj h)
    exact hflow rfl hs₁
  | burn amount =>
    obtain ⟨s₁, hs₁, h⟩ := bind_eq_ok.1 h
    obtain ⟨rfl, -⟩ := Prod.mk.inj (Except.ok.inj h)
    exact hflow rfl hs₁
  | configureRecoveryGovernance proposer approver =>
    obtain ⟨hnone, hproposer, happrover, hne, rfl⟩ := configureRecoveryGovernance_eq_ok h
    exact .configured proposer approver hnone hproposer happrover hne
  | proposeRecovery kind source target amount reasonHash =>
    obtain ⟨hsender, hsource, hamount, hid, rfl⟩ := proposeRecovery_eq_ok h
    exact .proposed kind source target amount reasonHash hsender hsource hamount hid
  | approveRecovery id =>
    obtain ⟨hsender, hproposer, happrover, hexecuted, rfl⟩ := approveRecovery_eq_ok h
    exact .approved id hsender hproposer happrover hexecuted
  | executeRecovery id =>
    obtain ⟨base, hexecutable, rfl⟩ := executeRecovery_eq_ok.1 ⟨events, h⟩
    exact .executed id base hexecutable
  | transfer | transferFrom | approve =>
    obtain ⟨s₁, hs₁, h⟩ := bind_eq_ok.1 h
    obtain ⟨rfl, -⟩ := Prod.mk.inj (Except.ok.inj h)
    exact hflow rfl hs₁
  | transferOwnership | acceptOwnership | renounceOwnership => exact howner rfl h

end GatedRwaNote

end Proofmark
