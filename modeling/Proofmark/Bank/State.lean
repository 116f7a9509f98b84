import Proofmark.Pipeline.Json
import Mathlib.Logic.Function.Basic

/-!
# Bank challenges: the two stores

`bank-state.ts`. A reservation opens a one-time challenge for a request, charges four start budgets
and points the flow at the challenge; the challenge is activated once the deposit is sent, and then
verified. `lua` is the script that Redis runs, `demo` the in-memory adapter. They keep the same
data under different expiries: Redis forgets a key once the clock has passed its deadline, the
adapter purges what has reached its deadline, at a reservation only.

`Moves` says what a call can do to the live data, and both stores do no more than drop data that is
due and then make such a move (`lua_moves`, `demo_moves`).
-/

namespace Proofmark.Bank

open Pipeline (Text)

/-! ### `BANK_LIMITS` -/

def attemptLimit : ℕ := 5

def lifetimeMs : ℕ := 600000

def budgetMs : ℕ := 86400000

structure BankReservation where
  requestKey : Text
  flowKey : Text
  accountKey : Text
  walletKey : Text
  fingerprint : Text
  challengeId : Text
  deriving DecidableEq

/-- What `activate` and `verify` name. -/
structure ChallengeRef where
  requestKey : Text
  flowKey : Text
  challengeId : Text
  deriving DecidableEq

inductive Call
  | reserve (input : BankReservation)
  | activate (input : ChallengeRef) (response : Text)
  | verify (input : ChallengeRef) (matches_ : Bool)
  deriving DecidableEq

inductive Reply
  | reserved (expiresAt : ℕ)
  | cached (response : Option Text)
  | activated
  | verified
  | mismatch (remaining : ℕ)
  | failed (code : String)
  deriving DecidableEq

/-! ### The data -/

inductive ChallengeState
  | pending | ready | locked | consumed
  deriving DecidableEq

/-- The record of a request. -/
structure Challenge where
  fingerprint : Text
  id : Text
  state : ChallengeState
  expires : ℕ
  attempts : ℕ
  response : Option Text
  deleteAt : ℕ
  deriving DecidableEq

/-- A start counter; that of a flow also names the flow's current challenge. -/
structure Budget where
  count : ℕ
  expiresAt : ℕ
  current : Option Text
  deriving DecidableEq

/-- A counter after one more start; a new one opens a window. -/
def Budget.charged (now : ℕ) : Option Budget → Budget
  | some b => { b with count := b.count + 1 }
  | none => ⟨1, now + budgetMs, none⟩

inductive BudgetKey
  | flow (key : Text)
  | account (key : Text)
  | wallet (key : Text)
  | global
  deriving DecidableEq

def BudgetKey.limit : BudgetKey → ℕ
  | flow _ => 3
  | account _ => 3
  | wallet _ => 5
  | global => 1000

theorem BudgetKey.limit_pos (key : BudgetKey) : 0 < key.limit := by
  cases key <;> exact Nat.succ_pos _

structure Store where
  records : Text → Option Challenge
  budgets : BudgetKey → Option Budget

namespace Store

variable (s : Store)

def empty : Store :=
  ⟨fun _ ↦ none, fun _ ↦ none⟩

def setRecord (key : Text) (record : Challenge) : Store :=
  { s with records := Function.update s.records key (some record) }

def count (key : BudgetKey) : ℕ :=
  ((s.budgets key).map Budget.count).getD 0

/-- The challenge that a flow points at. -/
def current (flowKey : Text) : Option Text :=
  (s.budgets (.flow flowKey)).bind Budget.current

/-- Only what satisfies a test on its deadline. -/
def live (p : ℕ → Bool) : Store :=
  ⟨fun key ↦ (s.records key).filter fun r ↦ p r.deleteAt,
    fun key ↦ (s.budgets key).filter fun b ↦ p b.expiresAt⟩

/-- One more start, in the window that is open or in a new one. -/
def charge (now : ℕ) (key : BudgetKey) : Store :=
  { s with budgets := Function.update s.budgets key (some (Budget.charged now (s.budgets key))) }

def setCurrent (flowKey id : Text) : Store :=
  let pointed := (s.budgets (.flow flowKey)).map fun b ↦ { b with current := some id }
  { s with budgets := Function.update s.budgets (.flow flowKey) pointed }

end Store

def BankReservation.budgetKeys (input : BankReservation) : List BudgetKey :=
  [.flow input.flowKey, .account input.accountKey, .wallet input.walletKey, .global]

/-- The record that a reservation writes. -/
def BankReservation.record (input : BankReservation) (now : ℕ) : Challenge where
  fingerprint := input.fingerprint
  id := input.challengeId
  state := .pending
  expires := now + lifetimeMs
  attempts := 0
  response := none
  deleteAt := now + budgetMs

/-- The data after a reservation: four starts charged, the flow's pointer and the record. -/
def Store.reserved (s : Store) (now : ℕ) (input : BankReservation) : Store :=
  let s := input.budgetKeys.foldl (fun s key ↦ s.charge now key) s
  (s.setCurrent input.flowKey input.challengeId).setRecord input.requestKey (input.record now)

/-! ### `BANK_STATE_LUA` -/

/-- A key past its deadline does not exist. -/
def expire (s : Store) (now : ℕ) : Store :=
  s.live fun deadline ↦ now ≤ deadline

def luaReserve (now : ℕ) (input : BankReservation) (s : Store) : Reply × Store :=
  match s.records input.requestKey with
  | some r =>
    if r.fingerprint ≠ input.fingerprint then (.failed "CONFLICT", s)
    else if r.state = .ready ∧ s.current input.flowKey = some r.id ∧ now < r.expires then
      (.cached r.response, s)
    else
      (.failed (if r.state = .pending then "START_PENDING" else "CHALLENGE_UNAVAILABLE"), s)
  | none =>
    if input.budgetKeys.any fun key ↦ key.limit ≤ s.count key then
      (.failed "START_BUDGET_EXCEEDED", s)
    else (.reserved (now + lifetimeMs), s.reserved now input)

def luaActivate (now : ℕ) (input : ChallengeRef) (response : Text) (s : Store) : Reply × Store :=
  match s.records input.requestKey with
  | none => (.failed "CHALLENGE_UNAVAILABLE", s)
  | some r =>
    if r.id ≠ input.challengeId ∨ s.current input.flowKey ≠ some input.challengeId then
      (.failed "CHALLENGE_UNAVAILABLE", s)
    else if r.expires ≤ now then (.failed "CHALLENGE_EXPIRED", s)
    else if r.state ≠ .pending then (.failed "CHALLENGE_UNAVAILABLE", s)
    else
      (.activated, s.setRecord input.requestKey { r with state := .ready, response := some response })

def luaVerify (now : ℕ) (input : ChallengeRef) (matches_ : Bool) (s : Store) : Reply × Store :=
  match s.records input.requestKey with
  | none => (.failed "CHALLENGE_UNAVAILABLE", s)
  | some r =>
    if r.id ≠ input.challengeId ∨ s.current input.flowKey ≠ some input.challengeId then
      (.failed "CHALLENGE_UNAVAILABLE", s)
    else if r.expires ≤ now then (.failed "CHALLENGE_EXPIRED", s)
    else if r.state = .locked then (.failed "TOO_MANY_ATTEMPTS", s)
    else if r.state ≠ .ready then (.failed "CHALLENGE_UNAVAILABLE", s)
    else if matches_ then
      (.verified, s.setRecord input.requestKey { r with state := .consumed, response := none })
    else if attemptLimit ≤ r.attempts + 1 then
      (.failed "TOO_MANY_ATTEMPTS", s.setRecord input.requestKey
        { r with attempts := r.attempts + 1, state := .locked, response := none })
    else
      (.mismatch (attemptLimit - (r.attempts + 1)),
        s.setRecord input.requestKey { r with attempts := r.attempts + 1 })

/-- The script, run at a time. -/
def lua (now : ℕ) (call : Call) (s : Store) : Reply × Store :=
  match call with
  | .reserve input => luaReserve now input (expire s now)
  | .activate input response => luaActivate now input response (expire s now)
  | .verify input matches_ => luaVerify now input matches_ (expire s now)

/-! ### `DemoBankStateStore` -/

/-- What `reserve` deletes before it looks. -/
def purge (s : Store) (now : ℕ) : Store :=
  s.live fun deadline ↦ now < deadline

def demoReserve (now : ℕ) (input : BankReservation) (s : Store) : Reply × Store :=
  let s := purge s now
  match s.records input.requestKey with
  | some old =>
    if old.fingerprint ≠ input.fingerprint then (.failed "CONFLICT", s)
    else if old.state = .ready ∧ now < old.expires ∧ s.current input.flowKey = some old.id then
      (.cached old.response, s)
    else
      (.failed (if old.state = .pending then "START_PENDING" else "CHALLENGE_UNAVAILABLE"), s)
  | none =>
    if input.budgetKeys.any fun key ↦ key.limit ≤ s.count key then
      (.failed "START_BUDGET_EXCEEDED", s)
    else (.reserved (now + lifetimeMs), s.reserved now input)

/-- `current(input)` -/
def demoCurrent (now : ℕ) (input : ChallengeRef) (s : Store) : Except String Challenge :=
  match s.records input.requestKey with
  | none => .error "CHALLENGE_UNAVAILABLE"
  | some record =>
    if record.id ≠ input.challengeId ∨ s.current input.flowKey ≠ some input.challengeId then
      .error "CHALLENGE_UNAVAILABLE"
    else if record.expires ≤ now then .error "CHALLENGE_EXPIRED"
    else .ok record

def demoActivate (now : ℕ) (input : ChallengeRef) (response : Text) (s : Store) : Reply × Store :=
  match demoCurrent now input s with
  | .error code => (.failed code, s)
  | .ok record =>
    if record.state ≠ .pending then (.failed "CHALLENGE_UNAVAILABLE", s)
    else
      (.activated,
        s.setRecord input.requestKey { record with state := .ready, response := some response })

def demoVerify (now : ℕ) (input : ChallengeRef) (matches_ : Bool) (s : Store) : Reply × Store :=
  match demoCurrent now input s with
  | .error code => (.failed code, s)
  | .ok record =>
    if record.state = .locked then (.failed "TOO_MANY_ATTEMPTS", s)
    else if record.state ≠ .ready then (.failed "CHALLENGE_UNAVAILABLE", s)
    else if matches_ then
      (.verified, s.setRecord input.requestKey { record with state := .consumed, response := none })
    else if attemptLimit ≤ record.attempts + 1 then
      (.failed "TOO_MANY_ATTEMPTS", s.setRecord input.requestKey
        { record with attempts := record.attempts + 1, state := .locked, response := none })
    else
      (.mismatch (attemptLimit - (record.attempts + 1)),
        s.setRecord input.requestKey { record with attempts := record.attempts + 1 })

/-- The in-memory adapter, called at a time. -/
def demo (now : ℕ) (call : Call) (s : Store) : Reply × Store :=
  match call with
  | .reserve input => demoReserve now input s
  | .activate input response => demoActivate now input response s
  | .verify input matches_ => demoVerify now input matches_ s

/-- The two implementations of `BankStateStore`. -/
inductive Mode
  | redis | demoMemory
  deriving DecidableEq

def Mode.run : Mode → ℕ → Call → Store → Reply × Store
  | redis => lua
  | demoMemory => demo

/-! ### What a call does -/

/-- Data is dropped only when its deadline is reached. -/
structure Drops (now : ℕ) (s s' : Store) : Prop where
  records : ∀ key, s'.records key = s.records key ∨
    s'.records key = none ∧ ∀ r, s.records key = some r → r.deleteAt ≤ now
  budgets : ∀ key, s'.budgets key = s.budgets key ∨
    s'.budgets key = none ∧ ∀ b, s.budgets key = some b → b.expiresAt ≤ now

/-- The challenge that a call names: on record, the flow's current one, and not expired. -/
structure Names (s : Store) (now : ℕ) (input : ChallengeRef) (r : Challenge) : Prop where
  record : s.records input.requestKey = some r
  id : r.id = input.challengeId
  current : s.current input.flowKey = some input.challengeId
  expires : now < r.expires

/-- What a call makes of the live data. -/
inductive Moves (now : ℕ) (s : Store) : Call → Reply → Store → Prop
  | refused {call : Call} {code : String} : Moves now s call (.failed code) s
  | cached {input : BankReservation} {response : Option Text} :
      Moves now s (.reserve input) (.cached response) s
  | reserved {input : BankReservation} (hnone : s.records input.requestKey = none)
      (hcount : ∀ key ∈ input.budgetKeys, s.count key < key.limit) :
      Moves now s (.reserve input) (.reserved (now + lifetimeMs)) (s.reserved now input)
  | activated {input : ChallengeRef} {response : Text} {r : Challenge} (h : Names s now input r)
      (hstate : r.state = .pending) :
      Moves now s (.activate input response) .activated
        (s.setRecord input.requestKey { r with state := .ready, response := some response })
  | verified {input : ChallengeRef} {r : Challenge} (h : Names s now input r)
      (hstate : r.state = .ready) :
      Moves now s (.verify input true) .verified
        (s.setRecord input.requestKey { r with state := .consumed, response := none })
  | mismatched {input : ChallengeRef} {r : Challenge} (h : Names s now input r)
      (hstate : r.state = .ready) (hattempts : r.attempts + 1 < attemptLimit) :
      Moves now s (.verify input false) (.mismatch (attemptLimit - (r.attempts + 1)))
        (s.setRecord input.requestKey { r with attempts := r.attempts + 1 })
  | locked {input : ChallengeRef} {r : Challenge} (h : Names s now input r)
      (hstate : r.state = .ready) (hattempts : attemptLimit ≤ r.attempts + 1) :
      Moves now s (.verify input false) (.failed "TOO_MANY_ATTEMPTS")
        (s.setRecord input.requestKey
          { r with attempts := r.attempts + 1, state := .locked, response := none })

theorem drops_refl (now : ℕ) (s : Store) : Drops now s s :=
  ⟨fun _ ↦ .inl rfl, fun _ ↦ .inl rfl⟩

theorem drops_live {now : ℕ} {s : Store} {p : ℕ → Bool} (hp : ∀ n, p n = false → n ≤ now) :
    Drops now s (s.live p) where
  records key := by
    rcases h : s.records key with - | r
    · exact .inl (by simp [Store.live, h])
    · cases hdue : p r.deleteAt with
      | true => exact .inl (by simp [Store.live, h, hdue])
      | false => exact .inr ⟨by simp [Store.live, h, hdue], fun r hr ↦ Option.some.inj hr ▸ hp _ hdue⟩
  budgets key := by
    rcases h : s.budgets key with - | b
    · exact .inl (by simp [Store.live, h])
    · cases hdue : p b.expiresAt with
      | true => exact .inl (by simp [Store.live, h, hdue])
      | false => exact .inr ⟨by simp [Store.live, h, hdue], fun b hb ↦ Option.some.inj hb ▸ hp _ hdue⟩

variable {now : ℕ} {s s' : Store} {call : Call} {reply : Reply}

theorem luaReserve_moves {input : BankReservation} :
    Moves now s (.reserve input) (luaReserve now input s).1 (luaReserve now input s).2 := by
  unfold luaReserve
  split
  case h_1 =>
    split_ifs
    · exact .refused
    · exact .cached
    · exact .refused
    · exact .refused
  case h_2 hnone =>
    split
    case isTrue => exact .refused
    case isFalse hcount => exact .reserved hnone (by simpa using hcount)

theorem luaActivate_moves {input : ChallengeRef} {response : Text} :
    Moves now s (.activate input response) (luaActivate now input response s).1
      (luaActivate now input response s).2 := by
  unfold luaActivate
  split
  case h_1 => exact .refused
  case h_2 r hrecord =>
    split_ifs with hnames hexpires hstate
    · exact .refused
    · exact .refused
    · exact .refused
    · simp only [not_or, not_not] at hnames
      exact .activated ⟨hrecord, hnames.1, hnames.2, not_le.1 hexpires⟩ (not_not.1 hstate)

theorem luaVerify_moves {input : ChallengeRef} {matches_ : Bool} :
    Moves now s (.verify input matches_) (luaVerify now input matches_ s).1
      (luaVerify now input matches_ s).2 := by
  unfold luaVerify
  split
  case h_1 => exact .refused
  case h_2 r hrecord =>
    split_ifs with hnames hexpires hlocked hstate hmatches hattempts
    · exact .refused
    · exact .refused
    · exact .refused
    · exact .refused
    all_goals
      simp only [not_or, not_not] at hnames
      have h : Names s now input r := ⟨hrecord, hnames.1, hnames.2, not_le.1 hexpires⟩
    · subst hmatches
      exact .verified h (not_not.1 hstate)
    · obtain rfl := Bool.eq_false_of_not_eq_true hmatches
      exact .locked h (not_not.1 hstate) hattempts
    · obtain rfl := Bool.eq_false_of_not_eq_true hmatches
      exact .mismatched h (not_not.1 hstate) (not_le.1 hattempts)

/-- **The script** drops what is past its deadline and makes a move. -/
theorem lua_moves (now : ℕ) (call : Call) (s : Store) :
    ∃ s₀, Drops now s s₀ ∧ Moves now s₀ call (lua now call s).1 (lua now call s).2 := by
  refine ⟨expire s now, drops_live fun n hn ↦ ?_, ?_⟩
  · exact (not_le.1 (of_decide_eq_false hn)).le
  · cases call with
    | reserve input => exact luaReserve_moves
    | activate input response => exact luaActivate_moves
    | verify input matches_ => exact luaVerify_moves

theorem demoCurrent_eq_ok {input : ChallengeRef} {r : Challenge}
    (h : demoCurrent now input s = .ok r) : Names s now input r := by
  unfold demoCurrent at h
  split at h
  case h_1 => exact nomatch h
  case h_2 record hrecord =>
    split_ifs at h with hnames hexpires
    obtain rfl := Except.ok.inj h
    simp only [not_or, not_not] at hnames
    exact ⟨hrecord, hnames.1, hnames.2, not_le.1 hexpires⟩

/-- **The adapter** does too; outside a reservation it drops nothing. -/
theorem demo_moves :
    ∃ s₀, Drops now s s₀ ∧ Moves now s₀ call (demo now call s).1 (demo now call s).2 := by
  cases call with
  | reserve input =>
    refine ⟨purge s now, drops_live fun n hn ↦ not_lt.1 (of_decide_eq_false hn), ?_⟩
    simp only [demo, demoReserve]
    split
    case h_1 =>
      split_ifs
      · exact .refused
      · exact .cached
      · exact .refused
      · exact .refused
    case h_2 hnone =>
      split
      case isTrue => exact .refused
      case isFalse hcount => exact .reserved hnone (by simpa using hcount)
  | activate input response =>
    refine ⟨s, drops_refl now s, ?_⟩
    simp only [demo, demoActivate]
    split
    case h_1 => exact .refused
    case h_2 r hr =>
      split
      case isTrue => exact .refused
      case isFalse hstate => exact .activated (demoCurrent_eq_ok hr) (not_not.1 hstate)
  | verify input matches_ =>
    refine ⟨s, drops_refl now s, ?_⟩
    simp only [demo, demoVerify]
    split
    case h_1 => exact .refused
    case h_2 r hr =>
      have h := demoCurrent_eq_ok hr
      split_ifs with hlocked hstate hmatches hattempts
      · exact .refused
      · exact .refused
      · subst hmatches
        exact .verified h (not_not.1 hstate)
      · obtain rfl := Bool.eq_false_of_not_eq_true hmatches
        exact .locked h (not_not.1 hstate) hattempts
      · obtain rfl := Bool.eq_false_of_not_eq_true hmatches
        exact .mismatched h (not_not.1 hstate) (not_le.1 hattempts)

/-- **Either store** makes such a move on data of which it may drop what is due. -/
theorem Mode.moves (mode : Mode) : ∃ s₀, Drops now s s₀ ∧
    Moves now s₀ call (mode.run now call s).1 (mode.run now call s).2 := by
  cases mode with
  | redis => exact lua_moves _ _ _
  | demoMemory => exact demo_moves

end Proofmark.Bank
