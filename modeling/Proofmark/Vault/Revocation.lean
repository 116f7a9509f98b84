import Proofmark.Vault.Writer
import Proofmark.Async.Program

/-!
# Delivery of revocations

`deliverRevocations` of `rescreen.ts`: sign, make durable, broadcast, reconcile. Any number of
deliveries run beside each other and beside every other use of the vault. Whatever the transport
answers and wherever a write goes wrong, a delivery changes the vault by its operations only
(`deliver_run`), so that what is proved of runs of operations holds of it.
-/

open Async

namespace Proofmark.Vault

open Pipeline (Text)

inductive Receipt
  | success | reverted
  deriving DecidableEq

/-- What a delivery asks of its transport. -/
inductive TransportCall
  | prepare (job : RevocationJob)
  | receipt (transaction : RevocationTransaction)
  | broadcast (transaction : RevocationTransaction)
  | wait (transaction : RevocationTransaction)

/-- The answers; `none` is a promise that is rejected. -/
abbrev TransportCall.Answer : TransportCall → Type
  | prepare _ => Option RevocationTransaction
  | receipt _ => Option (Option Receipt)
  | broadcast _ => Option Unit
  | wait _ => Option (Option Receipt)

section Delivery

variable {ι : Type} [DecidableEq ι]

abbrev Delivery (ι : Type) (β : Type) :=
  Program (World ι) String TransportCall.Answer β

/-- A rejected promise throws where it is awaited. -/
def demand {β : Type} : Option β → Delivery ι β
  | some b => pure b
  | none => throw "transport failure"

/-- What a delivery is started with: the platform, its vault, the check of a signed transaction,
its clock, and where its writes go wrong. -/
structure Deliverer (ι : Type) where
  platform : Platform
  vault : ι
  assertJob : RevocationJob → RevocationTransaction → Bool
  now : RevocationJob → ℤ
  fault : Operation → Fault

namespace Deliverer

variable (D : Deliverer ι)

def mutate (operation : Operation) : Delivery ι Unit :=
  Program.call fun w ↦ w.call D.platform D.vault operation (D.fault operation)

def assertWritable : Delivery ι Unit := do
  let w ← Program.get
  if w.locked || (w.instances D.vault).all Instance.writeUnconfirmed then
    throw World.unconfirmedError
  else pure ()

def load : Delivery ι Data := do
  let w ← Program.get
  match w.instances D.vault with
  | none => throw "no such instance"
  | some me =>
    match w.load me.key with
    | .ok d => pure d
    | .error error => throw error

def listPendingRevocations : Delivery ι (List RevocationJob) := do
  let d ← D.load
  return d.revocations.rows.filter fun job ↦ job.state ≠ .confirmed

/-- The signed transaction of a job, which is durable before it is used. -/
def signed (job : RevocationJob) : Delivery ι RevocationTransaction :=
  match job.transaction with
  | some transaction => pure transaction
  | none => do
    let transaction ← demand (← Program.request (.prepare job))
    D.mutate (.prepareRevocation job.id transaction)
    return transaction

/-- The receipt of a transaction, which is broadcast when there is none. -/
def reconcile (transaction : RevocationTransaction) : Delivery ι (Option Receipt) := do
  match ← demand (← Program.request (.receipt transaction)) with
  | some receipt => pure (some receipt)
  | none => do
    D.assertWritable
    -- A failed broadcast includes "already known" and a crash after the original broadcast.
    let _ ← Program.request (.broadcast transaction)
    demand (← Program.request (.wait transaction))

/-- One job: its receipt, and whether the loop goes on. -/
def deliver (job : RevocationJob) : Delivery ι (Bool × Bool) := do
  let transaction ← D.signed job
  if !D.assertJob job transaction then throw "revocation job assertion"
  else do
    match ← D.reconcile transaction with
    | some .success => do
      D.mutate (.finishRevocation job.id (D.now job))
      return (true, true)
    | some .reverted => do
      D.mutate (.failRevocation job.id "source transaction reverted".toList true)
      return (false, true)
    | none => do
      D.mutate (.failRevocation job.id "source confirmation pending".toList false)
      -- Preserve ordering/nonces; do not sign later jobs behind an unknown pending transaction.
      return (false, false)

def deliverOrFail (job : RevocationJob) : Delivery ι (Bool × Bool) :=
  Program.tryCatch (D.deliver job) fun _ ↦ do
    D.mutate (.failRevocation job.id
      "transport or persistence failure; reconcile by stored transaction hash".toList false)
    return (false, false)

/-- The loop over the pending jobs, which counts the confirmed and the failed ones. -/
def deliverAll : List RevocationJob → ℕ → ℕ → Delivery ι (ℕ × ℕ)
  | [], confirmed, failed => pure (confirmed, failed)
  | job :: jobs, confirmed, failed => do
    match ← D.deliverOrFail job with
    | (true, _) => deliverAll jobs (confirmed + 1) failed
    | (false, true) => deliverAll jobs confirmed (failed + 1)
    | (false, false) => pure (confirmed, failed + 1)

structure Result where
  confirmed : ℕ
  failed : ℕ
  pending : ℕ

/-- `deliverRevocations` -/
def deliverRevocations : Delivery ι Result := do
  D.assertWritable
  let jobs ← D.listPendingRevocations
  let (confirmed, failed) ← D.deliverAll jobs 0 0
  let pending ← D.listPendingRevocations
  return ⟨confirmed, failed, pending.length⟩

end Deliverer

/-! ### Deliveries beside everything else -/

variable (P : Platform)

/-- Any number of deliveries; meanwhile, anyone may use the vault. -/
def deliverySystem : Async.System (World ι) String TransportCall.Answer ℕ where
  starts _ t := ∃ D : Deliverer ι, D.platform = P ∧
    t = do
      let _ ← D.deliverRevocations
      return ()
  answers _ _ _ := True
  env w w' := ∃ e, w' = w.step P e
  crash w w' := w' = w

/-- Every step is an event of the vault. -/
def deliveryRules : Rules (World ι) TransportCall.Answer ℕ where
  inv _ := True
  answers _ _ _ := True
  step _ w w' := ∃ e, w' = w.step P e
  rely _ _ _ := True

namespace Deliverer

open Program

variable {P} {D : Deliverer ι} {me : ℕ}

theorem steps_mutate (hD : D.platform = P) (operation : Operation) :
    Steps (deliveryRules P) me (D.mutate operation) :=
  steps_call fun _ _ ↦ ⟨.call D.vault operation (D.fault operation), by subst hD; rfl⟩

theorem steps_assertWritable : Steps (deliveryRules P) me D.assertWritable := by
  refine steps_get.bind fun w ↦ ?_
  split
  · exact steps_throw _
  · exact steps_pure _

theorem steps_listPendingRevocations : Steps (deliveryRules P) me D.listPendingRevocations := by
  refine Steps.bind (steps_get.bind fun w ↦ ?_) fun d ↦ steps_pure _
  split
  · exact steps_throw _
  · split
    · exact steps_pure _
    · exact steps_throw _

theorem steps_demand {β : Type} (x : Option β) :
    Steps (deliveryRules P) me (demand x : Delivery ι β) := by
  cases x with
  | none => exact steps_throw _
  | some b => exact steps_pure b

theorem steps_signed (hD : D.platform = P) (job : RevocationJob) :
    Steps (deliveryRules P) me (D.signed job) := by
  unfold signed
  split
  · exact steps_pure _
  · refine (steps_request _).bind fun answer ↦ (steps_demand answer).bind fun transaction ↦ ?_
    exact (steps_mutate hD _).bind fun _ ↦ steps_pure _

theorem steps_reconcile (transaction : RevocationTransaction) :
    Steps (deliveryRules P) me (D.reconcile transaction) := by
  refine (steps_request _).bind fun answer ↦ (steps_demand answer).bind fun receipt ↦ ?_
  split
  · exact steps_pure _
  · refine steps_assertWritable.bind fun _ ↦ (steps_request _).bind fun _ ↦ ?_
    exact (steps_request _).bind fun answer ↦ steps_demand answer

theorem steps_deliver (hD : D.platform = P) (job : RevocationJob) :
    Steps (deliveryRules P) me (D.deliver job) := by
  refine (steps_signed hD job).bind fun transaction ↦ ?_
  split
  · exact steps_throw _
  · refine (steps_reconcile transaction).bind fun receipt ↦ ?_
    split <;> exact (steps_mutate hD _).bind fun _ ↦ steps_pure _

theorem steps_deliverAll (hD : D.platform = P) (jobs : List RevocationJob)
    (confirmed failed : ℕ) :
    Steps (deliveryRules P) me (D.deliverAll jobs confirmed failed) := by
  induction jobs generalizing confirmed failed with
  | nil => exact steps_pure _
  | cons job jobs ih =>
    refine Steps.bind ?_ fun result ↦ ?_
    · refine (steps_deliver hD job).tryCatch fun _ ↦ ?_
      exact (steps_mutate hD _).bind fun _ ↦ steps_pure _
    · split
      · exact ih _ _
      · exact ih _ _
      · exact steps_pure _

theorem steps_deliverRevocations (hD : D.platform = P) :
    Steps (deliveryRules P) me D.deliverRevocations := by
  refine steps_assertWritable.bind fun _ ↦ steps_listPendingRevocations.bind fun jobs ↦ ?_
  refine (steps_deliverAll hD jobs 0 0).bind fun counts ↦ ?_
  exact steps_listPendingRevocations.bind fun _ ↦ steps_pure _

end Deliverer

theorem deliveryRules_sound : (deliveryRules P).Sound (deliverySystem (ι := ι) P) where
  rely_refl _ _ := trivial
  rely_trans _ _ := trivial
  step_inv _ _ := trivial
  step_rely _ _ _ := trivial
  env_inv _ _ := trivial
  env_rely _ _ := trivial
  crash_inv _ _ := trivial
  answered _ := trivial
  started := by
    rintro i t w ⟨D, hD, rfl⟩ -
    exact (Deliverer.steps_deliverRevocations hD).bind (fun _ ↦ Program.steps_pure _) w trivial

variable {P}

/-- **A delivery uses the vault's operations only.** Whatever state a run with deliveries reaches,
events of the vault alone lead there. -/
theorem deliver_run {w : World ι} {c : Async.System.Config (World ι) String TransportCall.Answer ℕ}
    (h : (deliverySystem P).Reaches ⟨w, fun _ ↦ none⟩ c) :
    ∃ events, c.state = w.after P events := by
  obtain ⟨-, hmoves⟩ := (Async.System.Good.initial (R := deliveryRules P) trivial).run
    (deliveryRules_sound P) h
  generalize c.state = last at hmoves ⊢
  induction hmoves with
  | refl => exact ⟨[], rfl⟩
  | @tail w₁ w₂ _ hmove ih =>
    obtain ⟨events, rfl⟩ := ih
    have hstep : w₂ = w.after P events ∨ ∃ e, w₂ = (w.after P events).step P e := by
      rcases hmove.2 with ⟨_, hstep⟩ | henv | hcrash
      · exact .inr hstep
      · exact .inr henv
      · exact .inl hcrash
    rcases hstep with rfl | ⟨e, rfl⟩
    · exact ⟨events, rfl⟩
    · exact ⟨events ++ [e], by simp [World.after]⟩

end Delivery

end Proofmark.Vault
