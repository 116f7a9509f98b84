import Mathlib.Algebra.Order.BigOperators.Group.List
import Proofmark.Budget.State
import Proofmark.Clocked.Run

/-!
# What the day's ledger counts

The history of a store says which reservations were made and what became of them (`made`), and the
ledger of the current day is the sum over it. Three facts carry this. A record without a deadline
is exactly a reservation whose outcome is open. The ledger of an issuer is never of an earlier day
than one of its reservations, so a reservation made today finds today's ledger when it is
reconciled. And the ledger is only asked to be right on its own day: a reconciliation after
midnight changes the past, which nothing counts any more.

The replies are another matter: `tostring` leaves a total of fifteen digits and more in scientific
notation, which `BigInt` does not read. `ledgerExact_iff` says when that happens.
-/

namespace Proofmark.Budget

open Pipeline (Text)
open Numeric.Decimal
open Clocked

abbrev Log := List (Entry Call Reply Store)

/-! ### The history -/

/-- A reservation that was made, with what it turned out to use. -/
structure Made where
  issuer : Text
  request : Text
  day : ℕ
  reserved : ℕ
  used : Option ℕ

/-- What a reservation counts for. -/
def Made.charge (m : Made) : ℕ :=
  m.used.getD m.reserved

/-- An open reservation of a request. -/
def Made.isOpen (request : Text) (m : Made) : Bool :=
  decide (m.request = request) && m.used.isNone

def Made.settle (request : Text) (amount : ℕ) (m : Made) : Made :=
  if m.isOpen request then { m with used := some amount } else m

/-- A call makes a reservation when it gives its request a record the request did not have, and it
settles one when it marks the record of its request reconciled. -/
def note (ms : List Made) (e : Entry Call Reply Store) : List Made :=
  match e.input with
  | .status _ => ms
  | .reserve issuer request gasLimit =>
    if (e.state.recordAt e.now request).isNone && (e.next.recordAt e.now request).isSome then
      ms ++ [⟨issuer, request, e.now / dayMs, gasLimit.toNat, none⟩]
    else ms
  | .reconcile _ request gasUsed =>
    if (e.state.recordAt e.now request).any (!·.reconciled) &&
        (e.next.recordAt e.now request).any (·.reconciled) then
      ms.map (Made.settle request gasUsed.toNat)
    else ms

/-- The reservations of a history. -/
def made (log : Log) : List Made :=
  log.foldl note []

theorem made_concat (log : Log) (e : Entry Call Reply Store) :
    made (log ++ [e]) = note (made log) e := by
  rw [made, List.foldl_append]
  rfl

/-- The reservations an issuer made on a day. -/
def madeOn (ms : List Made) (issuer : Text) (day : ℕ) : List Made :=
  ms.filter fun m ↦ decide (m.issuer = issuer ∧ m.day = day)

/-! ### What one call does -/

section Cases

variable {c : Limits} {now : ℕ} {s : Store} {x : Call}

/-- A reservation the script takes. -/
structure Fits (c : Limits) (now : ℕ) (s : Store) (issuer request : Text) (amount : ℕ) : Prop where
  fresh : s.recordAt now request = none
  pos : amount ≠ 0
  gas : s.totalGas now issuer + amount ≤ c.dailyGasLimit
  tx : s.totalTx now issuer + 1 ≤ c.dailyTransactionLimit

/-- A reconciliation the script takes. -/
structure Settles (now : ℕ) (s : Store) (issuer request : Text) (r : RequestRecord) (amount : ℕ) :
    Prop where
  record : s.recordAt now request = some r
  issuer : r.issuer = issuer
  amount_le : amount ≤ r.reserved
  not_reconciled : r.reconciled = false

theorem safeInteger_eq_some {z : ℤ} {n : ℕ} (h : safeInteger z = some n) : z.toNat = n := by
  rw [safeInteger] at h
  split at h
  · exact absurd h (by simp)
  · exact Option.some.inj h

theorem lua_reserve_of_fits {issuer request : Text} {amount : ℕ}
    (h : Fits c now s issuer request amount) :
    lua c now .reserve issuer request amount s =
      (.ok [tostring (s.totalGas now issuer + amount), tostring (s.totalTx now issuer + 1)],
        s.reserve now issuer request amount (s.totalGas now issuer + amount)
          (s.totalTx now issuer + 1)) := by
  have hgas := h.gas
  have htx := h.tx
  simp only [lua, h.fresh]
  rw [if_neg (by rintro (h0 | h1); exacts [h.pos h0, by omega]), if_neg (by omega),
    if_neg (by omega)]

/-- A reservation that does not fit leaves the store; its reply is a refusal, or the totals of the
first time. -/
theorem lua_reserve_of_not_fits {issuer request : Text} {amount : ℕ}
    (h : ¬Fits c now s issuer request amount) :
    (lua c now .reserve issuer request amount s).2 = s ∧
      ((∃ r, s.recordAt now request = some r ∧
        (lua c now .reserve issuer request amount s).1 =
          .ok [digits r.ledgerGas, digits r.ledgerTx]) ∨
      ∃ code, code ≠ .BUDGET_STATE_INVALID ∧
        (lua c now .reserve issuer request amount s).1 = .failed code) := by
  simp only [lua]
  cases hrecord : s.recordAt now request with
  | some r =>
    dsimp only
    split
    · exact ⟨rfl, .inr ⟨_, by simp, rfl⟩⟩
    · exact ⟨rfl, .inl ⟨r, rfl, rfl⟩⟩
  | none =>
    dsimp only
    split
    · exact ⟨rfl, .inr ⟨_, by simp, rfl⟩⟩
    · next hpos =>
      split
      · exact ⟨rfl, .inr ⟨_, by simp, rfl⟩⟩
      · next hgas =>
        split
        · exact ⟨rfl, .inr ⟨_, by simp, rfl⟩⟩
        · next htx =>
          exact absurd ⟨hrecord, fun h0 ↦ hpos (.inl h0), by omega, by omega⟩ h

/-- What a reconciliation makes of the store. -/
def settled (now : ℕ) (s : Store) (issuer request : Text) (r : RequestRecord) (amount : ℕ) :
    Store :=
  match s.todayAt now issuer with
  | some l =>
    if r.day = now / dayMs then
      (s.setGas issuer l (s.totalGas now issuer + amount - r.reserved)).settle now request r amount
    else s.settle now request r amount
  | none => s.settle now request r amount

/-- The script's check that the ledger stays positive. -/
def Covered (now : ℕ) (s : Store) (issuer : Text) (r : RequestRecord) (amount : ℕ) : Prop :=
  (s.todayAt now issuer).isSome → r.day = now / dayMs → r.reserved ≤ s.totalGas now issuer + amount

theorem lua_reconcile_of_settles {issuer request : Text} {r : RequestRecord} {amount : ℕ}
    (h : Settles now s issuer request r amount) (hcovered : Covered now s issuer r amount) :
    lua c now .reconcile issuer request amount s =
      (.ok [], settled now s issuer request r amount) := by
  have hle := h.amount_le
  simp only [lua, h.record, h.issuer, h.not_reconciled, settled, ne_eq, not_true_eq_false, if_false,
    Bool.false_eq_true]
  rw [if_neg (by omega)]
  cases htoday : s.todayAt now issuer with
  | none => rfl
  | some l =>
    dsimp only
    split
    · next hday =>
      have hge := hcovered (by simp [htoday]) hday
      rw [if_neg (by omega)]
    · rfl

theorem lua_reconcile_of_not_settles {issuer request : Text} {amount : ℕ}
    (h : ∀ r, ¬Settles now s issuer request r amount) :
    (lua c now .reconcile issuer request amount s).2 = s ∧
      ((lua c now .reconcile issuer request amount s).1 = .ok [] ∨
      ∃ code, code ≠ .BUDGET_STATE_INVALID ∧
        (lua c now .reconcile issuer request amount s).1 = .failed code) := by
  simp only [lua]
  cases hrecord : s.recordAt now request with
  | none => exact ⟨rfl, .inr ⟨_, by simp, rfl⟩⟩
  | some r =>
    dsimp only
    split
    · exact ⟨rfl, .inr ⟨_, by simp, rfl⟩⟩
    · next hissuer =>
      split
      · exact ⟨rfl, .inr ⟨_, by simp, rfl⟩⟩
      · next hle =>
        split
        · split
          · exact ⟨rfl, .inr ⟨_, by simp, rfl⟩⟩
          · exact ⟨rfl, .inl rfl⟩
        · next hreconciled =>
          exact absurd ⟨hrecord, not_not.1 hissuer, by omega, by simpa using hreconciled⟩ (h r)

end Cases

/-! ### The invariant -/

/-- The reservation a record without a deadline stands for. -/
def RequestRecord.toMade (r : RequestRecord) (request : Text) : Made :=
  ⟨r.issuer, request, r.day, r.reserved, none⟩

/-- The open reservations of a request, as its record tells. -/
def Store.openAt (s : Store) (request : Text) : List Made :=
  (((s.requests request).filter fun r ↦ r.expireAt.isNone).map (·.toMade request)).toList

/-- What a ledger says on a day about the reservations made. -/
structure LedgerKept (c : Limits) (ms : List Made) (now : ℕ) (issuer : Text) (l : DayLedger) :
    Prop where
  day_le : l.day ≤ now / dayMs
  expireAt : l.expireAt = (l.day + 3) * dayMs
  gas_le : l.gas ≤ c.dailyGasLimit
  tx_le : l.tx ≤ c.dailyTransactionLimit
  gas : l.day = now / dayMs → l.gas = ((madeOn ms issuer l.day).map Made.charge).sum
  tx : l.day = now / dayMs → l.tx = (madeOn ms issuer l.day).length

/-- A record's deadline is set when it is reconciled, and its totals were within the limits. -/
structure RecordKept (c : Limits) (r : RequestRecord) : Prop where
  expireAt : r.expireAt = none ↔ r.reconciled = false
  gas_le : r.ledgerGas ≤ c.dailyGasLimit
  tx_le : r.ledgerTx ≤ c.dailyTransactionLimit

/-- What the history says about the store. -/
structure Kept (c : Limits) (ms : List Made) (now : ℕ) (s : Store) : Prop where
  opened : ∀ k, ms.filter (Made.isOpen k) = s.openAt k
  record : ∀ k r, s.requests k = some r → RecordKept c r
  ledger : ∀ i l, s.ledgers i = some l → LedgerKept c ms now i l
  day_le : ∀ m ∈ ms, ∃ l, s.ledgers m.issuer = some l ∧ m.day ≤ l.day

section Kept

variable {c : Limits} {ms : List Made} {now : ℕ} {s : Store}

theorem kept_empty : Kept c [] now .empty :=
  ⟨fun _ ↦ rfl, by simp [Store.empty], by simp [Store.empty], by simp⟩

/-- Time passes: a ledger that is still the current day's was so before. -/
theorem Kept.later (h : Kept c ms now s) {later : ℕ} (hle : now ≤ later) : Kept c ms later s := by
  have hday : now / dayMs ≤ later / dayMs := Nat.div_le_div_right hle
  refine ⟨h.opened, h.record, fun i l hl ↦ ?_, h.day_le⟩
  have hkept := h.ledger i l hl
  have hold := hkept.day_le
  exact ⟨hold.trans hday, hkept.expireAt, hkept.gas_le, hkept.tx_le,
    fun hnow ↦ hkept.gas (by omega), fun hnow ↦ hkept.tx (by omega)⟩

theorem todayAt_eq_some (h : Kept c ms now s) {issuer : Text} {l : DayLedger} :
    s.todayAt now issuer = some l ↔ s.ledgers issuer = some l ∧ l.day = now / dayMs := by
  simp only [Store.todayAt, Store.ledgerAt, Option.filter_eq_some_iff, decide_eq_true_eq]
  constructor
  · rintro ⟨⟨hl, -⟩, hday⟩
    exact ⟨hl, hday⟩
  · rintro ⟨hl, hday⟩
    refine ⟨⟨hl, ?_⟩, hday⟩
    have hexpire := (h.ledger issuer l hl).expireAt
    have hlt : now < (now / dayMs + 1) * dayMs := Nat.lt_mul_of_div_lt (Nat.lt_succ_self _)
      (by decide)
    rw [hexpire, hday]
    exact hlt.le.trans (Nat.mul_le_mul_right _ (by omega))

/-- **The script's totals are those of the day's reservations.** -/
theorem totals_eq (h : Kept c ms now s) (issuer : Text) :
    s.totalGas now issuer = ((madeOn ms issuer (now / dayMs)).map Made.charge).sum ∧
      s.totalTx now issuer = (madeOn ms issuer (now / dayMs)).length := by
  cases htoday : s.todayAt now issuer with
  | some l =>
    obtain ⟨hl, hday⟩ := (todayAt_eq_some h).1 htoday
    have hkept := h.ledger issuer l hl
    rw [Store.totalGas, Store.totalTx, htoday, ← hday]
    exact ⟨hkept.gas hday, hkept.tx hday⟩
  | none =>
    -- a reservation of today would have left today's ledger
    have hnone : madeOn ms issuer (now / dayMs) = [] := by
      refine List.filter_eq_nil_iff.2 fun m hm ↦ ?_
      rw [decide_eq_true_eq]
      rintro ⟨rfl, hday⟩
      obtain ⟨l, hl, hle⟩ := h.day_le m hm
      have hge := (h.ledger _ l hl).day_le
      rw [(todayAt_eq_some h).2 ⟨hl, by omega⟩] at htoday
      exact absurd htoday (by simp)
    rw [Store.totalGas, Store.totalTx, htoday, hnone]
    exact ⟨rfl, rfl⟩

theorem totals_le (h : Kept c ms now s) (issuer : Text) :
    s.totalGas now issuer ≤ c.dailyGasLimit ∧
      s.totalTx now issuer ≤ c.dailyTransactionLimit := by
  rw [Store.totalGas, Store.totalTx]
  cases htoday : s.todayAt now issuer with
  | some l =>
    have hkept := h.ledger issuer l ((todayAt_eq_some h).1 htoday).1
    exact ⟨hkept.gas_le, hkept.tx_le⟩
  | none => exact ⟨Nat.zero_le _, Nat.zero_le _⟩

/-! ### A reservation -/

theorem openAt_of_fresh {request : Text} (hfresh : s.recordAt now request = none) : s.openAt request = [] := by
  rw [Store.openAt]
  cases hrecord : s.requests request with
  | none => rfl
  | some r =>
    have hexpired : r.expireAt ≠ none := by
      intro hnone
      rw [Store.recordAt, hrecord, Option.filter_some, hnone] at hfresh
      exact absurd hfresh (by simp)
    rw [Option.filter_some, if_neg (by simpa using hexpired)]
    rfl

/-- **A reservation keeps the history and the store in step.** -/
theorem kept_reserve (h : Kept c ms now s) {issuer request : Text} {amount : ℕ}
    (hfits : Fits c now s issuer request amount) :
    Kept c (ms ++ [⟨issuer, request, now / dayMs, amount, none⟩]) now
      (s.reserve now issuer request amount (s.totalGas now issuer + amount)
        (s.totalTx now issuer + 1)) := by
  obtain ⟨hgas, htx⟩ := totals_eq h issuer
  refine ⟨fun k ↦ ?_, fun k r hr ↦ ?_, fun i l hl ↦ ?_, fun m hm ↦ ?_⟩
  · rw [List.filter_append, h.opened k, Store.openAt, Store.openAt]
    dsimp only [Store.reserve]
    by_cases hk : k = request
    · subst hk
      have hopen : Made.isOpen k ⟨issuer, k, now / dayMs, amount, none⟩ = true := by
        simp [Made.isOpen]
      rw [← Store.openAt, openAt_of_fresh hfits.fresh, Function.update_self,
        List.filter_cons_of_pos hopen]
      rfl
    · rw [Function.update_of_ne hk]
      simp [Made.isOpen, Ne.symm hk]
  · by_cases hk : k = request
    · subst hk
      simp only [Store.reserve, Function.update_self, Option.some.injEq] at hr
      rw [← hr]
      exact ⟨by simp, hfits.gas, hfits.tx⟩
    · simp only [Store.reserve, Function.update_of_ne hk] at hr
      exact h.record k r hr
  · by_cases hi : i = issuer
    · subst hi
      simp only [Store.reserve, Function.update_self, Option.some.injEq] at hl
      rw [← hl]
      refine ⟨le_rfl, rfl, hfits.gas, hfits.tx, fun _ ↦ ?_, fun _ ↦ ?_⟩
      · rw [hgas, madeOn, madeOn, List.filter_append]
        simp [Made.charge]
      · rw [htx, madeOn, madeOn, List.filter_append]
        simp
    · simp only [Store.reserve, Function.update_of_ne hi] at hl
      have hkept := h.ledger i l hl
      have hsame : madeOn (ms ++ [⟨issuer, request, now / dayMs, amount, none⟩]) i l.day =
          madeOn ms i l.day := by
        rw [madeOn, madeOn, List.filter_append]
        simp [Ne.symm hi]
      exact ⟨hkept.day_le, hkept.expireAt, hkept.gas_le, hkept.tx_le, by rw [hsame]; exact hkept.gas,
        by rw [hsame]; exact hkept.tx⟩
  · by_cases hi : m.issuer = issuer
    · dsimp only [Store.reserve]
      rw [hi, Function.update_self]
      refine ⟨_, rfl, ?_⟩
      rcases List.mem_append.1 hm with hm | hm
      · obtain ⟨l, hl, hle⟩ := h.day_le m hm
        exact hle.trans (h.ledger _ l hl).day_le
      · rw [List.mem_singleton.1 hm]
    · rcases List.mem_append.1 hm with hm | hm
      · obtain ⟨l, hl, hle⟩ := h.day_le m hm
        exact ⟨l, (Function.update_of_ne hi _ _).trans hl, hle⟩
      · rw [List.mem_singleton.1 hm] at hi
        exact absurd rfl hi

/-! ### A reconciliation -/

/-- Settling the only open reservation of a request changes that entry and nothing else. -/
theorem map_settle_eq {request : Text} {m : Made} (h : ms.filter (Made.isOpen request) = [m])
    (amount : ℕ) : ∃ as bs, ms = as ++ m :: bs ∧
      ms.map (Made.settle request amount) = as ++ { m with used := some amount } :: bs := by
  obtain ⟨as, bs, rfl, has, hm, hbs⟩ := List.filter_eq_cons_iff.1 h
  have hid : ∀ l : List Made, (∀ x ∈ l, ¬Made.isOpen request x = true) →
      l.map (Made.settle request amount) = l := fun l hl ↦ by
    conv_rhs => rw [← List.map_id l]
    exact List.map_congr_left fun x hx ↦ if_neg (hl x hx)
  refine ⟨as, bs, rfl, ?_⟩
  rw [List.map_append, List.map_cons, hid as has, hid bs (List.filter_eq_nil_iff.1 hbs),
    Made.settle, if_pos hm]

/-- Settling one request leaves the open reservations of the others. -/
theorem filter_open_settle {k request : Text} (hk : k ≠ request) (amount : ℕ) (ms : List Made) :
    (ms.map (Made.settle request amount)).filter (Made.isOpen k) = ms.filter (Made.isOpen k) := by
  induction ms with
  | nil => rfl
  | cons m ms ih =>
    rw [List.map_cons, List.filter_cons, List.filter_cons, ih, Made.settle]
    by_cases hm : m.isOpen request = true
    · have hrequest : m.request = request := by
        simp only [Made.isOpen, Bool.and_eq_true, decide_eq_true_eq] at hm
        exact hm.1
      rw [if_pos hm]
      simp [Made.isOpen, hrequest, Ne.symm hk]
    · rw [if_neg hm]

/-- Settling changes neither who made a reservation nor when. -/
theorem settle_issuer_day (request : Text) (amount : ℕ) (m : Made) :
    (m.settle request amount).issuer = m.issuer ∧ (m.settle request amount).day = m.day := by
  rw [Made.settle]
  split <;> exact ⟨rfl, rfl⟩

/-- A record that can be settled stands for the only open reservation of its request. -/
theorem filter_open_of_settles (h : Kept c ms now s) {issuer request : Text} {r : RequestRecord}
    {amount : ℕ} (hsettles : Settles now s issuer request r amount) :
    s.requests request = some r ∧
      ms.filter (Made.isOpen request) = [⟨issuer, request, r.day, r.reserved, none⟩] := by
  have hr : s.requests request = some r := (Option.filter_eq_some_iff.1 hsettles.record).1
  have hdeadline := (h.record request r hr).expireAt.2 hsettles.not_reconciled
  refine ⟨hr, ?_⟩
  rw [h.opened, Store.openAt, hr, Option.filter_some, if_pos (by simp [hdeadline]), Option.map_some,
    RequestRecord.toMade, hsettles.issuer]
  rfl

/-- The ledger that is not adjusted is not of the reservation's day. -/
theorem settled_eq (h : Kept c ms now s) {issuer request : Text} {r : RequestRecord} {amount : ℕ}
    (hsettles : Settles now s issuer request r amount) :
    (r.day ≠ now / dayMs ∧
      settled now s issuer request r amount = s.settle now request r amount) ∨
    ∃ l, s.ledgers issuer = some l ∧ l.day = now / dayMs ∧ r.day = now / dayMs ∧
      settled now s issuer request r amount =
        (s.setGas issuer l (s.totalGas now issuer + amount - r.reserved)).settle now request r
          amount := by
  by_cases hday : r.day = now / dayMs
  · obtain ⟨-, hopen⟩ := filter_open_of_settles h hsettles
    have hmem : (⟨issuer, request, r.day, r.reserved, none⟩ : Made) ∈ ms :=
      (List.mem_filter.1 (hopen ▸ List.mem_singleton_self _)).1
    obtain ⟨l, hl, hle⟩ := h.day_le _ hmem
    have hge := (h.ledger issuer l hl).day_le
    have htoday : l.day = now / dayMs := by
      dsimp only at hle
      omega
    refine .inr ⟨l, hl, htoday, hday, ?_⟩
    rw [settled, (todayAt_eq_some h).2 ⟨hl, htoday⟩]
    exact if_pos hday
  · refine .inl ⟨hday, ?_⟩
    rw [settled]
    cases s.todayAt now issuer with
    | none => rfl
    | some l => exact if_neg hday

/-- **The ledger never falls below zero.** -/
theorem covered_of_settles (h : Kept c ms now s) {issuer request : Text} {r : RequestRecord}
    {amount : ℕ} (hsettles : Settles now s issuer request r amount) :
    Covered now s issuer r amount := by
  intro _ hday
  obtain ⟨-, hopen⟩ := filter_open_of_settles h hsettles
  have hmem : (⟨issuer, request, r.day, r.reserved, none⟩ : Made) ∈
      madeOn ms issuer (now / dayMs) :=
    List.mem_filter.2 ⟨(List.mem_filter.1 (hopen ▸ List.mem_singleton_self _)).1, by simp [hday]⟩
  have hle := List.single_le_sum (l := (madeOn ms issuer (now / dayMs)).map Made.charge)
    (fun _ _ ↦ Nat.zero_le _) r.reserved (List.mem_map.2 ⟨_, hmem, rfl⟩)
  rw [(totals_eq h issuer).1]
  exact hle.trans (Nat.le_add_right _ _)

/-- What a settled reservation leaves of the sums of its own day and of any other. -/
theorem madeOn_settle {request : Text} {m : Made} (h : ms.filter (Made.isOpen request) = [m])
    (amount : ℕ) (issuer : Text) (day : ℕ) :
    (madeOn (ms.map (Made.settle request amount)) issuer day).length = (madeOn ms issuer day).length ∧
      ((m.issuer = issuer ∧ m.day = day) →
        ((madeOn (ms.map (Made.settle request amount)) issuer day).map Made.charge).sum + m.charge =
          ((madeOn ms issuer day).map Made.charge).sum + amount) ∧
      (¬(m.issuer = issuer ∧ m.day = day) →
        ((madeOn (ms.map (Made.settle request amount)) issuer day).map Made.charge).sum =
          ((madeOn ms issuer day).map Made.charge).sum) := by
  obtain ⟨as, bs, hms, hmap⟩ := map_settle_eq h amount
  rw [hmap, hms]
  simp only [madeOn, List.filter_append, List.filter_cons]
  by_cases hm : m.issuer = issuer ∧ m.day = day
  · simp only [hm, and_self, decide_true, if_true, List.map_append, List.map_cons, List.sum_append,
      List.sum_cons, List.length_append, List.length_cons, Made.charge, Option.getD_some, true_and,
      forall_const, not_true_eq_false, IsEmpty.forall_iff, and_true]
    omega
  · simp [hm]

/-- The ledgers after a reconciliation. -/
theorem ledgerKept_settle (h : Kept c ms now s) {issuer request : Text} {r : RequestRecord}
    {amount : ℕ} (hsettles : Settles now s issuer request r amount) {i : Text} {l : DayLedger}
    (hl : (settled now s issuer request r amount).ledgers i = some l) :
    LedgerKept c (ms.map (Made.settle request amount)) now i l := by
  obtain ⟨-, hopen⟩ := filter_open_of_settles h hsettles
  have hsums := fun day ↦ madeOn_settle hopen amount i day
  -- a ledger that is not touched, of an issuer or a day that the reservation is not of
  have hother : ∀ l', s.ledgers i = some l' →
      (l'.day = now / dayMs → ¬(issuer = i ∧ r.day = l'.day)) →
        LedgerKept c (ms.map (Made.settle request amount)) now i l' := by
    intro l' hl' hne
    have hkept := h.ledger i l' hl'
    exact ⟨hkept.day_le, hkept.expireAt, hkept.gas_le, hkept.tx_le,
      fun hday ↦ (hkept.gas hday).trans ((hsums l'.day).2.2 (hne hday)).symm,
      fun hday ↦ (hkept.tx hday).trans (hsums l'.day).1.symm⟩
  rcases settled_eq h hsettles with ⟨hday, heq⟩ | ⟨l₀, hl₀, hl₀day, hday, heq⟩
  · rw [heq] at hl
    exact hother l hl fun htoday hsame ↦ hday (hsame.2.trans htoday)
  · rw [heq] at hl
    by_cases hi : i = issuer
    · subst hi
      obtain rfl : { l₀ with gas := s.totalGas now i + amount - r.reserved } = l :=
        Option.some.inj ((Function.update_self i _ _).symm.trans hl)
      have hkept := h.ledger i l₀ hl₀
      have hle := hsettles.amount_le
      have htotal := (totals_le h i).1
      have hcovered := covered_of_settles h hsettles
        (by rw [(todayAt_eq_some h).2 ⟨hl₀, hl₀day⟩]; rfl) hday
      refine ⟨hkept.day_le, hkept.expireAt, ?_, hkept.tx_le, fun _ ↦ ?_,
        fun htoday ↦ (hkept.tx htoday).trans (hsums l₀.day).1.symm⟩
      · show s.totalGas now i + amount - r.reserved ≤ c.dailyGasLimit
        omega
      · have hsum := (hsums l₀.day).2.1 ⟨rfl, hday.trans hl₀day.symm⟩
        have hgas := (totals_eq h i).1
        rw [← hl₀day] at hgas
        have hcharge : Made.charge ⟨i, request, r.day, r.reserved, none⟩ = r.reserved := rfl
        rw [hcharge, ← hgas] at hsum
        show s.totalGas now i + amount - r.reserved =
          ((madeOn (ms.map (Made.settle request amount)) i l₀.day).map Made.charge).sum
        omega
    · have hl' : s.ledgers i = some l := (Function.update_of_ne hi _ _).symm.trans hl
      exact hother l hl' fun _ hsame ↦ hi hsame.1.symm

/-- **A reconciliation keeps the history and the store in step.** -/
theorem kept_settle (h : Kept c ms now s) {issuer request : Text} {r : RequestRecord} {amount : ℕ}
    (hsettles : Settles now s issuer request r amount) :
    Kept c (ms.map (Made.settle request amount)) now (settled now s issuer request r amount) := by
  obtain ⟨hr, -⟩ := filter_open_of_settles h hsettles
  have hrequests : (settled now s issuer request r amount).requests =
      Function.update s.requests request (some (r.settled now amount)) := by
    rcases settled_eq h hsettles with ⟨-, heq⟩ | ⟨l, -, -, -, heq⟩ <;> rw [heq] <;> rfl
  refine ⟨fun k ↦ ?_, fun k q hq ↦ ?_, fun i l hl ↦ ledgerKept_settle h hsettles hl, fun m hm ↦ ?_⟩
  · rw [Store.openAt, hrequests]
    by_cases hk : k = request
    · subst hk
      have hnone : (ms.map (Made.settle k amount)).filter (Made.isOpen k) = [] := by
        refine List.filter_eq_nil_iff.2 fun m hm ↦ ?_
        obtain ⟨m, -, rfl⟩ := List.mem_map.1 hm
        rw [Made.settle]
        split
        · simp [Made.isOpen]
        · next hclosed => exact hclosed
      rw [hnone, Function.update_self]
      rfl
    · rw [filter_open_settle hk, Function.update_of_ne hk]
      exact h.opened k
  · rw [hrequests] at hq
    by_cases hk : k = request
    · subst hk
      rw [Function.update_self] at hq
      have hkept := h.record k r hr
      rw [← Option.some.inj hq]
      exact ⟨by simp [RequestRecord.settled], hkept.gas_le, hkept.tx_le⟩
    · rw [Function.update_of_ne hk] at hq
      exact h.record k q hq
  · obtain ⟨m₀, hm₀, rfl⟩ := List.mem_map.1 hm
    obtain ⟨l, hl, hle⟩ := h.day_le m₀ hm₀
    rw [(settle_issuer_day request amount m₀).1, (settle_issuer_day request amount m₀).2]
    rcases settled_eq h hsettles with ⟨-, heq⟩ | ⟨l₀, hl₀, -, -, heq⟩
    · exact ⟨l, by rw [heq]; exact hl, hle⟩
    · rw [heq]
      by_cases hi : m₀.issuer = issuer
      · rw [hi] at hl ⊢
        obtain rfl := Option.some.inj (hl₀.symm.trans hl)
        exact ⟨_, Function.update_self _ _ _, hle⟩
      · exact ⟨l, (Function.update_of_ne hi _ _).trans hl, hle⟩

end Kept

/-! ### What is reported -/

/-- A gas total of fourteen digits, and a count that is a safe integer to fourteen digits. -/
def Printable (gas tx : ℕ) : Prop :=
  gas < 10 ^ 14 ∧ rounded 14 tx ≤ MAX_SAFE_INTEGER

/-- The totals the script prints with `tostring` at a call, if it does, can be read back. -/
def Reportable (c : Limits) (now : ℕ) (s : Store) : Call → Prop
  | .status issuer => Printable (s.totalGas now issuer) (s.totalTx now issuer)
  | .reserve issuer request gasLimit => ∀ amount, safeInteger gasLimit = some amount →
      Fits c now s issuer request amount →
        Printable (s.totalGas now issuer + amount) (s.totalTx now issuer + 1)
  | .reconcile _ _ _ => True

theorem statusResult_tostring (gas tx : ℕ) :
    statusResult (.ok [tostring gas, tostring tx]) = .failed .BUDGET_STATE_INVALID ↔
      ¬Printable gas tx := by
  rw [Printable, ← length_digits_le_iff (by norm_num)]
  simp only [statusResult, tostring, ofDigits?_formatG, numberOf_formatG]
  by_cases hgas : (digits gas).length ≤ 14
  · by_cases htx : rounded 14 tx ≤ MAX_SAFE_INTEGER <;> simp [hgas, htx]
  · simp [hgas]

theorem statusResult_digits (gas : ℕ) {tx : ℕ} (h : tx ≤ MAX_SAFE_INTEGER) :
    statusResult (.ok [digits gas, digits tx]) = .status gas tx := by
  simp [statusResult, h]

/-- **What one call does.** It changes nothing, or makes a reservation, or settles one. -/
theorem answer_cases {c : Limits} {ms : List Made} {now : ℕ} {s : Store} (h : Kept c ms now s)
    (x : Call) :
    ((answer c now x s).2 = s ∧
      ((answer c now x s).1 = .failed .BUDGET_STATE_INVALID ↔ ¬Reportable c now s x) ∧
      (∀ issuer request gasLimit amount, x = .reserve issuer request gasLimit →
        safeInteger gasLimit = some amount → ¬Fits c now s issuer request amount)) ∨
    (∃ issuer request gasLimit amount, x = .reserve issuer request gasLimit ∧
      safeInteger gasLimit = some amount ∧ Fits c now s issuer request amount ∧
      answer c now x s = (statusResult (.ok [tostring (s.totalGas now issuer + amount),
        tostring (s.totalTx now issuer + 1)]), s.reserve now issuer request amount
          (s.totalGas now issuer + amount) (s.totalTx now issuer + 1))) ∨
    (∃ issuer request gasUsed amount r, x = .reconcile issuer request gasUsed ∧
      safeInteger gasUsed = some amount ∧ Settles now s issuer request r amount ∧
      answer c now x s = (.reconciled, settled now s issuer request r amount)) := by
  cases x with
  | status issuer => exact .inl ⟨rfl, statusResult_tostring _ _, by simp⟩
  | reserve issuer request gasLimit =>
    cases hamount : safeInteger gasLimit with
    | none => exact .inl ⟨by simp [answer, hamount], by simp [answer, hamount, Reportable],
        by rintro _ _ _ _ ⟨⟩ hsome; rw [hamount] at hsome; exact absurd hsome (by simp)⟩
    | some amount =>
      have hanswer : answer c now (.reserve issuer request gasLimit) s =
          (lua c now .reserve issuer request amount s).map statusResult id := by
        simp [answer, hamount]
      by_cases hfits : Fits c now s issuer request amount
      · refine .inr (.inl ⟨issuer, request, gasLimit, amount, rfl, hamount, hfits, ?_⟩)
        rw [hanswer, lua_reserve_of_fits hfits]
        rfl
      · obtain ⟨hstore, hreply⟩ := lua_reserve_of_not_fits hfits
        refine .inl ⟨by rw [hanswer]; exact hstore, ?_, ?_⟩
        · have hreportable : Reportable c now s (.reserve issuer request gasLimit) := by
            intro a ha hf
            rw [hamount] at ha
            exact absurd (Option.some.inj ha ▸ hf) hfits
          rw [hanswer, Prod.map_fst]
          refine iff_of_false ?_ (not_not.2 hreportable)
          rcases hreply with ⟨r, hrecord, hreply⟩ | ⟨code, hcode, hreply⟩
          · have hr := h.record request r (Option.filter_eq_some_iff.1 hrecord).1
            rw [hreply, statusResult_digits _ (hr.tx_le.trans c.transaction_safe)]
            simp
          · rw [hreply]
            exact fun hsame ↦ hcode (Reply.failed.inj hsame)
        · rintro _ _ _ a ⟨⟩ ha
          rw [hamount] at ha
          exact Option.some.inj ha ▸ hfits
  | reconcile issuer request gasUsed =>
    cases hamount : safeInteger gasUsed with
    | none => exact .inl ⟨by simp [answer, hamount], by simp [answer, hamount, Reportable], by simp⟩
    | some amount =>
      have hanswer : answer c now (.reconcile issuer request gasUsed) s =
          (lua c now .reconcile issuer request amount s).map reconcileResult id := by
        simp [answer, hamount]
      by_cases hsettles : ∃ r, Settles now s issuer request r amount
      · obtain ⟨r, hsettles⟩ := hsettles
        refine .inr (.inr ⟨issuer, request, gasUsed, amount, r, rfl, hamount, hsettles, ?_⟩)
        rw [hanswer, lua_reconcile_of_settles hsettles (covered_of_settles h hsettles)]
        rfl
      · obtain ⟨hstore, hreply⟩ := lua_reconcile_of_not_settles (c := c) (not_exists.1 hsettles)
        refine .inl ⟨by rw [hanswer]; exact hstore, ?_, by simp⟩
        rw [hanswer, Prod.map_fst]
        refine iff_of_false ?_ (not_not.2 trivial)
        rcases hreply with hreply | ⟨code, hcode, hreply⟩
        · rw [hreply]
          simp [reconcileResult]
        · rw [hreply]
          exact fun hsame ↦ hcode (Reply.failed.inj hsame)

/-! ### Runs -/

section Runs

variable {c : Limits} {ms : List Made} {now : ℕ} {s : Store}

theorem note_of_unchanged (x : Call) (reply : Reply) : note ms ⟨now, x, reply, s, s⟩ = ms := by
  cases x with
  | status issuer => rfl
  | reserve issuer request gasLimit =>
    simp only [note]
    cases s.recordAt now request <;> simp
  | reconcile issuer request gasUsed =>
    simp only [note]
    cases hrecord : s.recordAt now request with
    | none => simp
    | some r => cases hr : r.reconciled <;> simp [hr]

theorem settled_requests (issuer request : Text) (r : RequestRecord) (amount : ℕ) :
    (settled now s issuer request r amount).requests =
      Function.update s.requests request (some (r.settled now amount)) := by
  rw [settled]
  split
  · split <;> rfl
  · rfl

/-- **One call keeps the history and the store in step.** -/
theorem kept_answer (h : Kept c ms now s) (x : Call) :
    Kept c (note ms ⟨now, x, (answer c now x s).1, s, (answer c now x s).2⟩) now
      (answer c now x s).2 := by
  rcases answer_cases h x with ⟨hsame, -, -⟩ |
    ⟨issuer, request, gasLimit, amount, rfl, hamount, hfits, hanswer⟩ |
    ⟨issuer, request, gasUsed, amount, r, rfl, hamount, hsettles, hanswer⟩
  · rw [hsame, note_of_unchanged]
    exact h
  · have hnext : ((s.reserve now issuer request amount (s.totalGas now issuer + amount)
        (s.totalTx now issuer + 1)).recordAt now request).isSome = true := by
      simp [Store.recordAt, Store.reserve]
    rw [hanswer]
    simp only [note, hfits.fresh, hnext, Option.isNone_none, Bool.and_self, if_true,
      safeInteger_eq_some hamount]
    exact kept_reserve h hfits
  · have hnext : ((settled now s issuer request r amount).recordAt now request).any
        (·.reconciled) = true := by
      simp [Store.recordAt, settled_requests, RequestRecord.settled]
    rw [hanswer]
    simp only [note, hsettles.record, Option.any_some, hsettles.not_reconciled, Bool.not_false,
      hnext, Bool.and_self, if_true, safeInteger_eq_some hamount]
    exact kept_settle h hsettles

/-- A call that repeats what its request's record holds, or is answered with an error, and what a
call may not answer. -/
structure EntryExact (e : Entry Call Reply Store) : Prop where
  refused : ∀ code, e.reply = .failed code → e.next = e.state
  reserve_again : ∀ issuer request gasLimit, e.input = .reserve issuer request gasLimit →
    (e.state.recordAt e.now request).isSome → e.next = e.state
  reconcile_again : ∀ issuer request gasUsed, e.input = .reconcile issuer request gasUsed →
    (e.state.recordAt e.now request).any (·.reconciled) → e.next = e.state
  reply_ne : e.reply ≠ .failed .BUDGET_STATE_INVALID

theorem entryExact_iff (h : Kept c ms now s) (x : Call) :
    EntryExact ⟨now, x, (answer c now x s).1, s, (answer c now x s).2⟩ ↔ Reportable c now s x := by
  rcases answer_cases h x with ⟨hsame, hreply, -⟩ |
    ⟨issuer, request, gasLimit, amount, rfl, hamount, hfits, hanswer⟩ |
    ⟨issuer, request, gasUsed, amount, r, rfl, hamount, hsettles, hanswer⟩
  · constructor
    · intro hexact
      by_contra hnot
      exact hexact.reply_ne (hreply.2 hnot)
    · intro hreportable
      exact ⟨fun _ _ ↦ hsame, fun _ _ _ _ _ ↦ hsame, fun _ _ _ _ _ ↦ hsame,
        fun hbad ↦ hreply.1 hbad hreportable⟩
  · have hprintable : Reportable c now s (.reserve issuer request gasLimit) ↔
        Printable (s.totalGas now issuer + amount) (s.totalTx now issuer + 1) := by
      constructor
      · exact fun hreportable ↦ hreportable amount hamount hfits
      · intro hprintable a ha _
        rw [hamount] at ha
        exact Option.some.inj ha ▸ hprintable
    rw [hprintable, hanswer]
    constructor
    · intro hexact
      by_contra hnot
      exact hexact.reply_ne ((statusResult_tostring _ _).2 hnot)
    · intro hok
      have hne := fun hbad ↦ (statusResult_tostring _ _).1 hbad hok
      have hfresh := hfits.fresh
      refine ⟨fun code hcode ↦ ?_, ?_, by simp, hne⟩
      · -- the only error of a reply with two totals is an unreadable one
        have hbad : code = .BUDGET_STATE_INVALID := by
          simp only [statusResult] at hcode
          split at hcode
          · split at hcode
            · exact absurd hcode (by simp)
            · exact (Reply.failed.inj hcode).symm
          · exact (Reply.failed.inj hcode).symm
        rw [hbad] at hcode
        exact absurd hcode hne
      · rintro i k g heq hsome
        obtain ⟨rfl, rfl, rfl⟩ := Call.reserve.inj heq
        rw [hfresh] at hsome
        exact absurd hsome (by simp)
  · rw [hanswer]
    refine iff_of_true ⟨by simp, by simp, ?_, by simp⟩ trivial
    rintro i k g heq hany
    obtain ⟨rfl, rfl, rfl⟩ := Call.reconcile.inj heq
    simp [hsettles.record, hsettles.not_reconciled] at hany

end Runs

/-- **What the day's ledger is for**, after a run: at every later moment the totals of every issuer
are the sum and the number of the reservations it made that day, a reconciled one counted with what
it used, and within the limits; and no call of the run did otherwise than it should. -/
structure LedgerExact (c : Limits) (r : Run Call Reply Store) : Prop where
  totals : ∀ issuer now, r.now ≤ now →
    r.state.totalGas now issuer =
        ((madeOn (made r.log) issuer (now / dayMs)).map Made.charge).sum ∧
      r.state.totalTx now issuer = (madeOn (made r.log) issuer (now / dayMs)).length ∧
      r.state.totalGas now issuer ≤ c.dailyGasLimit ∧
      r.state.totalTx now issuer ≤ c.dailyTransactionLimit
  entries : ∀ e ∈ r.log, EntryExact e

/-- **The ledger is exact in every run, except for what is reported of large totals.** In a run of
any calls from the empty store, everything holds if and only if no call makes the script print a
gas total of fifteen digits or more, or a count that fourteen digits round past the safe
integers. -/
theorem ledgerExact_iff (c : Limits) (clock : ℕ) (inputs : List (ℕ × Call)) :
    LedgerExact c (run (answer c) clock .empty inputs) ↔
      ∀ e ∈ (run (answer c) clock .empty inputs).log, Reportable c e.now e.state e.input := by
  have hkept := run_rule (answer c)
    (P := fun log now s ↦ Kept c (made log) now s ∧
      ∀ e ∈ log, EntryExact e ↔ Reportable c e.now e.state e.input)
    clock ⟨kept_empty, by simp⟩
    (fun log now later s h hle ↦ ⟨h.1.later hle, h.2⟩)
    (fun log now s x h ↦ ⟨by rw [made_concat]; exact kept_answer h.1 x, fun e he ↦ by
      rcases List.mem_append.1 he with he | he
      · exact h.2 e he
      · rw [List.mem_singleton.1 he]
        exact entryExact_iff h.1 x⟩) inputs
  constructor
  · intro h e he
    exact (hkept.2 e he).1 (h.entries e he)
  · intro h
    refine ⟨fun issuer now hle ↦ ?_, fun e he ↦ (hkept.2 e he).2 (h e he)⟩
    have hnow := hkept.1.later hle
    obtain ⟨hgas, htx⟩ := totals_eq hnow issuer
    exact ⟨hgas, htx, totals_le hnow issuer⟩

/-- A budget of one gas more than fourteen digits hold. -/
def largeLimits : Limits where
  dailyGasLimit := 10 ^ 14
  dailyTransactionLimit := 10
  gas_pos := by norm_num
  gas_safe := by simp [MAX_SAFE_INTEGER]
  transaction_pos := by norm_num
  transaction_safe := by simp [MAX_SAFE_INTEGER]

/-- One unreadable answer is enough. -/
theorem not_ledgerExact {c : Limits} {clock elapsed : ℕ} {x : Call}
    (h : (answer c (clock + elapsed) x .empty).1 = .failed .BUDGET_STATE_INVALID) :
    ¬LedgerExact c (run (answer c) clock .empty [(elapsed, x)]) := fun hexact ↦
  (hexact.entries _ (List.mem_singleton_self _)).reply_ne h

/-- A first reservation of the whole budget is charged and answered with an invalid state. -/
theorem ledger_unreadable :
    ¬LedgerExact largeLimits
      (run (answer largeLimits) 0 .empty [(0, .reserve ['a'] ['1'] 100000000000000)]) :=
  not_ledgerExact (by decide +kernel)

end Proofmark.Budget
