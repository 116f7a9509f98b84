import Mathlib.Logic.Function.Basic
import Proofmark.Numeric.Decimal
import Proofmark.Pipeline.Json

/-!
# The gas budget of issuances

`issuance-budget.ts`. One script keeps two kinds of Redis hashes: a ledger per issuer for one UTC
day, and a record per request that holds what was reserved and, once reconciled, what was used. The
client turns the script's texts back into numbers.

A number leaves the script in one of two ways. As a reply it is formatted with `tostring`, which
is `%.14g`; stored in a hash it is written with seventeen digits, which is exact below `2 ^ 53`. So
a fresh reservation and its repetition report the same totals in different texts.

All sums that are kept are below `2 ^ 53` and exact; a sum that is only compared with a limit may
pass `2 ^ 53`, where rounding cannot bring it back to the limit. Issuers and requests are their
keys.
-/

namespace Proofmark.Budget

open Pipeline (Text)
open Numeric.Decimal

def MAX_SAFE_INTEGER : ℕ := 2 ^ 53 - 1

def dayMs : ℕ := 86400000

/-- The limits the constructor accepts. -/
structure Limits where
  dailyGasLimit : ℕ
  dailyTransactionLimit : ℕ
  gas_pos : 1 ≤ dailyGasLimit
  gas_safe : dailyGasLimit ≤ MAX_SAFE_INTEGER
  transaction_pos : 1 ≤ dailyTransactionLimit
  transaction_safe : dailyTransactionLimit ≤ MAX_SAFE_INTEGER

inductive Code
  | INVALID_BUDGET_INPUT
  | BUDGET_REQUEST_CONFLICT
  | DAILY_GAS_BUDGET_EXCEEDED
  | DAILY_TRANSACTION_BUDGET_EXCEEDED
  | BUDGET_RESERVATION_MISSING
  | BUDGET_ACTUAL_EXCEEDS_RESERVATION
  | BUDGET_STATE_INVALID
  deriving DecidableEq

/-! ### The hashes -/

structure DayLedger where
  day : ℕ
  gas : ℕ
  tx : ℕ
  expireAt : ℕ

structure RequestRecord where
  issuer : Text
  request : Text
  day : ℕ
  reserved : ℕ
  reconciled : Bool
  used : Option ℕ
  ledgerGas : ℕ
  ledgerTx : ℕ
  expireAt : Option ℕ

structure Store where
  ledgers : Text → Option DayLedger
  requests : Text → Option RequestRecord

namespace Store

def empty : Store :=
  ⟨fun _ ↦ none, fun _ ↦ none⟩

variable (s : Store) (now : ℕ)

/-- A key exists until its deadline has passed. -/
def ledgerAt (issuer : Text) : Option DayLedger :=
  (s.ledgers issuer).filter fun l ↦ now ≤ l.expireAt

def recordAt (request : Text) : Option RequestRecord :=
  (s.requests request).filter fun r ↦ r.expireAt.all (now ≤ ·)

/-- The ledger of an issuer, if it is the current day's. -/
def todayAt (issuer : Text) : Option DayLedger :=
  (s.ledgerAt now issuer).filter fun l ↦ l.day = now / dayMs

/-- `totalGas`: what the script counts for the current day. -/
def totalGas (issuer : Text) : ℕ :=
  ((s.todayAt now issuer).map DayLedger.gas).getD 0

def totalTx (issuer : Text) : ℕ :=
  ((s.todayAt now issuer).map DayLedger.tx).getD 0

end Store

/-! ### `ISSUANCE_BUDGET_LUA` -/

inductive LuaReply
  | ok (values : List Text)
  | failed (code : Code)

/-- `tostring` of a number. -/
def tostring (n : ℕ) : Text :=
  formatG 14 n

inductive Op
  | status | reserve | reconcile
  deriving DecidableEq

variable (c : Limits) (now : ℕ)

/-- The records a reservation writes. -/
def Store.reserve (s : Store) (issuer request : Text) (amount totalGas totalTx : ℕ) : Store where
  ledgers := Function.update s.ledgers issuer
    (some ⟨now / dayMs, totalGas, totalTx, (now / dayMs + 3) * dayMs⟩)
  requests := Function.update s.requests request
    (some ⟨issuer, request, now / dayMs, amount, false, none, totalGas, totalTx, none⟩)

/-- The record a reconciliation leaves; it is kept for two more days. -/
def RequestRecord.settled (r : RequestRecord) (amount : ℕ) : RequestRecord :=
  { r with
    reconciled := true
    used := some amount
    expireAt := some (now + 172800000) }

def Store.settle (s : Store) (request : Text) (r : RequestRecord) (amount : ℕ) : Store :=
  { s with requests := Function.update s.requests request (some (r.settled now amount)) }

/-- `HSET KEYS[1] 'gas'`. -/
def Store.setGas (s : Store) (issuer : Text) (l : DayLedger) (gas : ℕ) : Store :=
  { s with ledgers := Function.update s.ledgers issuer (some { l with gas := gas }) }

def lua (op : Op) (issuer request : Text) (amount : ℕ) (s : Store) : LuaReply × Store :=
  let totalGas := s.totalGas now issuer
  let totalTx := s.totalTx now issuer
  match op with
  | .status => (.ok [tostring totalGas, tostring totalTx], s)
  | .reserve =>
    match s.recordAt now request with
    | some r =>
      if r.issuer ≠ issuer ∨ r.reserved ≠ amount then (.failed .BUDGET_REQUEST_CONFLICT, s)
      else (.ok [digits r.ledgerGas, digits r.ledgerTx], s)
    | none =>
      if amount = 0 ∨ c.dailyGasLimit < amount then (.failed .DAILY_GAS_BUDGET_EXCEEDED, s)
      else if c.dailyGasLimit < totalGas + amount then (.failed .DAILY_GAS_BUDGET_EXCEEDED, s)
      else if c.dailyTransactionLimit < totalTx + 1 then
        (.failed .DAILY_TRANSACTION_BUDGET_EXCEEDED, s)
      else
        (.ok [tostring (totalGas + amount), tostring (totalTx + 1)],
          s.reserve now issuer request amount (totalGas + amount) (totalTx + 1))
  | .reconcile =>
    match s.recordAt now request with
    | none => (.failed .BUDGET_RESERVATION_MISSING, s)
    | some r =>
      if r.issuer ≠ issuer then (.failed .BUDGET_REQUEST_CONFLICT, s)
      else if r.reserved < amount then (.failed .BUDGET_ACTUAL_EXCEEDS_RESERVATION, s)
      else if r.reconciled then
        if r.used ≠ some amount then (.failed .BUDGET_REQUEST_CONFLICT, s) else (.ok [], s)
      else
        match s.todayAt now issuer with
        | some l =>
          if r.day = now / dayMs then
            -- `totalGas - reserved + amount < 0`
            if totalGas + amount < r.reserved then (.failed .BUDGET_STATE_INVALID, s)
            else (.ok [], (s.setGas issuer l (totalGas + amount - r.reserved)).settle now request
              r amount)
          else (.ok [], s.settle now request r amount)
        | none => (.ok [], s.settle now request r amount)

/-! ### `RedisIssuanceBudget` -/

inductive Call
  | status (issuer : Text)
  | reserve (issuer request : Text) (gasLimit : ℤ)
  | reconcile (issuer request : Text) (gasUsed : ℤ)

inductive Reply
  | status (reservedGas transactionCount : ℕ)
  | reconciled
  | failed (code : Code)
  deriving DecidableEq

/-- `safeInteger`. -/
def safeInteger (value : ℤ) : Option ℕ :=
  if value < 0 ∨ MAX_SAFE_INTEGER < value then none else some value.toNat

/-- `BigInt` of the first number, `Number` of the second; whatever fails is an invalid state. -/
def statusResult : LuaReply → Reply
  | .failed code => .failed code
  | .ok [gas, transactions] =>
    match ofDigits? gas, numberOf transactions with
    | some gas, some transactions =>
      if transactions ≤ MAX_SAFE_INTEGER then .status gas transactions
      else .failed .BUDGET_STATE_INVALID
    | _, _ => .failed .BUDGET_STATE_INVALID
  | .ok _ => .failed .BUDGET_STATE_INVALID

def reconcileResult : LuaReply → Reply
  | .failed code => .failed code
  | .ok _ => .reconciled

/-- One call of the client. -/
def answer (call : Call) (s : Store) : Reply × Store :=
  match call with
  | .status issuer => (lua c now .status issuer [] 0 s).map statusResult id
  | .reserve issuer request gasLimit =>
    match safeInteger gasLimit with
    | none => (.failed .INVALID_BUDGET_INPUT, s)
    | some amount => (lua c now .reserve issuer request amount s).map statusResult id
  | .reconcile issuer request gasUsed =>
    match safeInteger gasUsed with
    | none => (.failed .INVALID_BUDGET_INPUT, s)
    | some amount => (lua c now .reconcile issuer request amount s).map reconcileResult id

end Proofmark.Budget
