import Proofmark.Evm.Execution
import Proofmark.Hub.Receipts
import Proofmark.Source.Effects

/-!
# Runs of the source and the receipts they leave

A transaction calls the source any number of times, from any callers, and logs of other contracts
stand between the source's. A call of the source that reverts inside a transaction that goes
through leaves nothing, and neither does a transaction that fails, so a chain lists the successful
transactions only. It starts after the deployment of the source.

`executed_rule` is the induction over the calls that succeeded, inside one transaction or along the
chain; every invariant of the source goes through it.
-/

open Evm

namespace Proofmark

/-- Where the source lives, and who owned it first. -/
structure Deployment where
  address : Address
  address_ne_zero : address ≠ 0
  chainId : Uint 256
  owner : Address

variable {d : Deployment}

/-- A step of a transaction: a call to the source, or a log of another contract. -/
inductive Step (d : Deployment)
  | call (sender : Address) (sender_ne_zero : sender ≠ 0) (ext : External)
      (call : ComplianceSource.Call)
  | foreign (L : LogEntry) (other : L.address_ ≠ d.address)

/-- A transaction that goes through, with the header of its block. -/
structure Transaction (d : Deployment) where
  height : Uint 64
  txIndex : Uint 64
  timestamp : ℕ
  steps : List (Step d)

/-- A call to the source that succeeded, with the events it emitted. -/
structure Executed where
  env : SourceEnv
  call : ComplianceSource.Call
  events : List SourceEvent

/-- What a step left behind. -/
inductive Outcome (d : Deployment)
  | executed (x : Executed)
  | foreign (L : LogEntry) (other : L.address_ ≠ d.address)

namespace Outcome

def executed? : Outcome d → Option Executed
  | executed x => some x
  | foreign _ _ => none

theorem filterMap_foreign (L : LogEntry) (other : L.address_ ≠ d.address) (os : List (Outcome d)) :
    (foreign L other :: os).filterMap executed? = os.filterMap executed? :=
  rfl

/-- The events of the source. -/
def events : Outcome d → List SourceEvent
  | executed x => x.events
  | foreign _ _ => []

/-- The logs, of whichever contract. -/
def logs : Outcome d → List LogEntry
  | executed x => x.events.map (·.toLog d.address)
  | foreign L _ => [L]

end Outcome

namespace Transaction

/-- The environment of a call made in the transaction. -/
def env (t : Transaction d) (sender : Address) (sender_ne_zero : sender ≠ 0) (ext : External) :
    SourceEnv where
  self := d.address
  chainId := d.chainId
  number := t.height
  timestamp := t.timestamp
  sender := sender
  sender_ne_zero := sender_ne_zero
  ext := ext

/-- Take one step, on the state of the source and the outcomes so far. -/
def step (t : Transaction d) (acc : ComplianceSource × List (Outcome d)) :
    Step d → ComplianceSource × List (Outcome d)
  | .call sender sender_ne_zero ext call =>
    match acc.1.exec (t.env sender sender_ne_zero ext) call with
    | .ok (s, events) =>
      (s, acc.2 ++ [.executed ⟨t.env sender sender_ne_zero ext, call, events⟩])
    | .error _ => acc
  | .foreign L other => (acc.1, acc.2 ++ [.foreign L other])

/-- Take all steps. -/
def run (t : Transaction d) (s : ComplianceSource) : ComplianceSource × List (Outcome d) :=
  t.steps.foldl t.step (s, [])

/-- The order of transactions on the chain. -/
def Before (t u : Transaction d) : Prop :=
  t.height < u.height ∨ t.height = u.height ∧ t.txIndex < u.txIndex

end Transaction

/-- A transaction with what it left behind. -/
structure Mined (d : Deployment) where
  tx : Transaction d
  outcomes : List (Outcome d)

namespace Mined

def executed (m : Mined d) : List Executed :=
  m.outcomes.filterMap Outcome.executed?

def events (m : Mined d) : List SourceEvent :=
  m.outcomes.flatMap Outcome.events

def receipt (m : Mined d) : Receipt :=
  ⟨m.tx.height, m.tx.txIndex, m.outcomes.flatMap Outcome.logs⟩

theorem events_eq (m : Mined d) : m.events = m.executed.flatMap Executed.events := by
  rw [events, executed]
  induction m.outcomes with
  | nil => rfl
  | cons o os ih =>
    cases o with
    | executed x => simp [Outcome.events, Outcome.executed?, ih]
    | foreign L other => simpa [Outcome.events, Outcome.filterMap_foreign] using ih

end Mined

/-- Run one more transaction. -/
def mine (acc : ComplianceSource × List (Mined d)) (t : Transaction d) :
    ComplianceSource × List (Mined d) :=
  ((t.run acc.1).1, acc.2 ++ [⟨t, (t.run acc.1).2⟩])

/-- **A chain**: the transactions that touched the source, in order, above height zero. -/
structure SourceChain (d : Deployment) where
  transactions : List (Transaction d)
  ordered : transactions.Pairwise Transaction.Before
  positive : ∀ t ∈ transactions, 0 < t.height

namespace SourceChain

/-- The state of the source and the transactions run. -/
def outcome (C : SourceChain d) : ComplianceSource × List (Mined d) :=
  C.transactions.foldl mine (ComplianceSource.deployed d.owner, [])

/-- The state of the source at the end of the chain. -/
def final (C : SourceChain d) : ComplianceSource :=
  C.outcome.1

def mined (C : SourceChain d) : List (Mined d) :=
  C.outcome.2

def receipts (C : SourceChain d) : List Receipt :=
  C.mined.map Mined.receipt

/-- The calls that succeeded, in order. -/
def executed (C : SourceChain d) : List Executed :=
  C.mined.flatMap Mined.executed

/-- The events of the source, in order. -/
def events (C : SourceChain d) : List SourceEvent :=
  C.mined.flatMap Mined.events

theorem events_eq (C : SourceChain d) : C.events = C.executed.flatMap Executed.events := by
  rw [events, executed, List.flatMap_assoc]
  congr 1
  funext m
  exact m.events_eq

end SourceChain

/-! ### Induction over calls -/

/-- **Induction over the calls of a transaction.** -/
theorem Transaction.executed_rule {P : List Executed → ComplianceSource → Prop} (t : Transaction d)
    {s : ComplianceSource} {before : List Executed} (hinit : P before s)
    (hstep : ∀ done s x s', P done s → x.env.number = t.height → x.env.timestamp = t.timestamp →
      s.exec x.env x.call = .ok (s', x.events) → P (done ++ [x]) s') :
    P (before ++ (t.run s).2.filterMap Outcome.executed?) (t.run s).1 := by
  rw [run]
  induction t.steps using List.reverseRecOn with
  | nil => simpa using hinit
  | append_singleton steps step ih =>
    rw [List.foldl_append, List.foldl_cons, List.foldl_nil]
    generalize steps.foldl t.step (s, []) = acc at ih ⊢
    cases step with
    | foreign L other => simpa [Transaction.step, Outcome.filterMap_foreign] using ih
    | call sender hsender ext call =>
      rw [Transaction.step]
      split
      case h_1 s' events hexec =>
        have hnext := hstep _ _ ⟨t.env sender hsender ext, call, events⟩ s' ih rfl rfl hexec
        simpa [Outcome.executed?, List.append_assoc] using hnext
      case h_2 => exact ih

namespace SourceChain

/-- Induction over the transactions of a chain: a state property, with what one transaction shows
while it holds. -/
theorem mined_rule {I : List (Mined d) → ComplianceSource → Prop} (C : SourceChain d)
    (hinit : I [] (ComplianceSource.deployed d.owner))
    (hstep : ∀ done s t, I done s → I (done ++ [⟨t, (t.run s).2⟩]) (t.run s).1) :
    I C.mined C.final := by
  rw [mined, final, outcome]
  induction C.transactions using List.reverseRecOn with
  | nil => exact hinit
  | append_singleton ts t ih =>
    rw [List.foldl_append, List.foldl_cons, List.foldl_nil]
    exact hstep _ _ t ih

/-- **Induction over the calls of a chain.** -/
theorem executed_rule {P : List Executed → ComplianceSource → Prop} (C : SourceChain d)
    (hinit : P [] (ComplianceSource.deployed d.owner))
    (hstep : ∀ done s x s', P done s → s.exec x.env x.call = .ok (s', x.events) →
      P (done ++ [x]) s') : P C.executed C.final := by
  refine C.mined_rule (I := fun ms s ↦ P (ms.flatMap Mined.executed) s) hinit
    fun done s t hdone ↦ ?_
  have hrun := t.executed_rule hdone fun done s x s' hP _ _ hexec ↦ hstep done s x s' hP hexec
  simpa [Mined.executed] using hrun

/-- The transactions run are those of the chain. -/
theorem map_tx_mined (C : SourceChain d) : C.mined.map Mined.tx = C.transactions := by
  rw [mined, outcome]
  induction C.transactions using List.reverseRecOn with
  | nil => rfl
  | append_singleton ts t ih =>
    rw [List.foldl_append, List.foldl_cons, List.foldl_nil]
    simp [mine, ih]

end SourceChain

end Proofmark
