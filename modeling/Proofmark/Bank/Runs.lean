import Proofmark.Bank.State
import Mathlib.Data.List.Basic

/-!
# Runs of a bank store

A run is a list of calls, each with the time that passed before it, so that the clock never goes
back. Its log holds for every call the time, the reply and the data before and after. The lemmas
say what an entry does to one request, one flow and one budget; nothing later unfolds a store.
-/

namespace Proofmark.Bank

open Pipeline (Text)

/-- A call that was made. -/
structure Entry where
  now : ℕ
  call : Call
  reply : Reply
  store : Store
  next : Store

/-- The log of a run from a time and data. -/
def history (mode : Mode) : ℕ → Store → List (ℕ × Call) → List Entry
  | _, _, [] => []
  | clock, s, (elapsed, call) :: inputs =>
    let result := mode.run (clock + elapsed) call s
    ⟨clock + elapsed, call, result.1, s, result.2⟩ ::
      history mode (clock + elapsed) result.2 inputs

/-- The time after a run. -/
def clockAfter (clock : ℕ) (inputs : List (ℕ × Call)) : ℕ :=
  inputs.foldl (fun clock input ↦ clock + input.1) clock

/-- The data after a run. -/
def storeAfter (mode : Mode) (clock : ℕ) (s : Store) (inputs : List (ℕ × Call)) : Store :=
  ((history mode clock s inputs).getLast?.map Entry.next).getD s

attribute [local grind =] history

section Runs

variable {mode : Mode} {clock : ℕ} {s : Store}

theorem length_history (inputs : List (ℕ × Call)) :
    (history mode clock s inputs).length = inputs.length := by
  induction inputs generalizing clock s with
  | nil => rfl
  | cons input inputs ih => simp [history, ih]

/-- A part of a log is the log of a part. -/
theorem take_history (mode : Mode) (clock : ℕ) (s : Store) (n : ℕ) (inputs : List (ℕ × Call)) :
    (history mode clock s inputs).take n = history mode clock s (inputs.take n) := by
  induction inputs generalizing clock s n with
  | nil => simp [history]
  | cons input inputs ih =>
    cases n with
    | zero => rfl
    | succ n => simp [history, ih]

theorem storeAfter_cons (input : ℕ × Call) (inputs : List (ℕ × Call)) :
    storeAfter mode clock s (input :: inputs) =
      storeAfter mode (clock + input.1) (mode.run (clock + input.1) input.2 s).2 inputs := by
  simp only [storeAfter, history]
  cases history mode (clock + input.1) (mode.run (clock + input.1) input.2 s).2 inputs with
  | nil => rfl
  | cons e log =>
    rw [List.getLast?_cons_cons, List.getLast?_eq_some_getLast (List.cons_ne_nil e log)]
    rfl

/-- **One more call.** -/
theorem history_concat (inputs : List (ℕ × Call)) (elapsed : ℕ) (call : Call) :
    let now := clockAfter clock inputs + elapsed
    let result := mode.run now call (storeAfter mode clock s inputs)
    history mode clock s (inputs ++ [(elapsed, call)]) = history mode clock s inputs ++
      [⟨now, call, result.1, storeAfter mode clock s inputs, result.2⟩] := by
  induction inputs generalizing clock s with
  | nil => rfl
  | cons input inputs ih =>
    simp only [List.cons_append, history, storeAfter_cons, clockAfter, List.foldl_cons]
    exact congrArg _ ih

theorem storeAfter_concat (inputs : List (ℕ × Call)) (elapsed : ℕ) (call : Call) :
    storeAfter mode clock s (inputs ++ [(elapsed, call)]) =
      (mode.run (clockAfter clock inputs + elapsed) call (storeAfter mode clock s inputs)).2 := by
  rw [storeAfter, history_concat]
  simp

theorem clockAfter_concat (inputs : List (ℕ × Call)) (elapsed : ℕ) (call : Call) :
    clockAfter clock (inputs ++ [(elapsed, call)]) = clockAfter clock inputs + elapsed := by
  simp [clockAfter]

end Runs

/-! ### What an entry is -/

def Call.requestKey : Call → Text
  | .reserve input => input.requestKey
  | .activate input _ => input.requestKey
  | .verify input _ => input.requestKey

namespace Entry

/-- The reservation of an entry that made one. -/
def reservation (e : Entry) : Option BankReservation :=
  match e.call, e.reply with
  | .reserve input, .reserved _ => some input
  | _, _ => none

/-- A reservation of a request. -/
def reserves (k : Text) (e : Entry) : Bool :=
  e.reservation.any fun input ↦ input.requestKey = k

/-- A start that a budget is charged for. -/
def charges (key : BudgetKey) (e : Entry) : Bool :=
  e.reservation.any fun input ↦ key ∈ input.budgetKeys

/-- The first start of a window of a budget. -/
def opens (key : BudgetKey) (e : Entry) : Bool :=
  e.charges key && e.next.count key = 1

def activates (k : Text) (e : Entry) : Bool :=
  e.call.requestKey = k && e.reply = .activated

def verifies (k : Text) (e : Entry) : Bool :=
  e.call.requestKey = k && e.reply = .verified

/-- A mismatch that is recorded: one more attempt on the request's record. -/
def mismatches (k : Text) (e : Entry) : Bool :=
  match e.call with
  | .verify input false => input.requestKey = k &&
      (e.next.records k).any fun r' ↦
        (e.store.records k).any fun r ↦ r'.attempts = r.attempts + 1
  | _ => false

end Entry

/-- The challenge of the newest reservation of a flow. -/
def newest (flowKey : Text) (log : List Entry) : Option Text :=
  ((log.filterMap Entry.reservation).filter fun input ↦ input.flowKey = flowKey).getLast?.map
    BankReservation.challengeId

/-! ### What a reservation writes -/

section Reserved

variable {s : Store} {now : ℕ} {input : BankReservation}

theorem charge_budgets (key key' : BudgetKey) :
    (s.charge now key).budgets key' =
      if key' = key then some (Budget.charged now (s.budgets key)) else s.budgets key' := by
  exact Function.update_apply _ _ _ _

theorem reserved_records (k : Text) :
    (s.reserved now input).records k =
      if k = input.requestKey then some (input.record now) else s.records k :=
  Function.update_apply _ _ _ _

/-- A budget after a reservation: charged if it is one of the four, and the flow's points at the new
challenge. -/
theorem reserved_budgets (key : BudgetKey) :
    (s.reserved now input).budgets key =
      if key ∈ input.budgetKeys then
        some { Budget.charged now (s.budgets key) with
          current := if key = .flow input.flowKey then some input.challengeId
            else (Budget.charged now (s.budgets key)).current }
      else s.budgets key := by
  simp only [Store.reserved, Store.setRecord, Store.setCurrent, BankReservation.budgetKeys,
    List.foldl_cons, List.foldl_nil, Function.update_apply, charge_budgets]
  cases key with
  | flow key =>
    by_cases h : key = input.flowKey
    · simp [h]
    · simp [h]
  | account key =>
    by_cases h : key = input.accountKey
    · simp [h]
    · simp [h]
  | wallet key =>
    by_cases h : key = input.walletKey
    · simp [h]
    · simp [h]
  | global => simp

end Reserved

/-! ### What an entry does -/

/-- An entry that a store made. -/
def Entry.Real (e : Entry) : Prop :=
  ∃ s, Drops e.now e.store s ∧ Moves e.now s e.call e.reply e.next

/-- What an entry makes of the record of a request that it leaves on record. -/
inductive Advance (k : Text) (e : Entry) (r : Challenge) : Challenge → Prop
  | quiet (hv : e.verifies k = false) (hm : e.mismatches k = false) : Advance k e r r
  | activated {response : Text} (hstate : r.state = .pending) (ha : e.activates k = true)
      (hv : e.verifies k = false) (hm : e.mismatches k = false) :
      Advance k e r { r with state := .ready, response := some response }
  | verified {ref : ChallengeRef} (hstate : r.state = .ready) (hcall : e.call = .verify ref true)
      (hid : r.id = ref.challengeId) (hcurrent : e.store.current ref.flowKey = some r.id)
      (hexpires : e.now < r.expires) (hv : e.verifies k = true) (hm : e.mismatches k = false) :
      Advance k e r { r with state := .consumed, response := none }
  | mismatched (hstate : r.state = .ready) (hattempts : r.attempts + 1 < attemptLimit)
      (hv : e.verifies k = false) (hm : e.mismatches k = true) :
      Advance k e r { r with attempts := r.attempts + 1 }
  | locked (hstate : r.state = .ready) (hattempts : attemptLimit ≤ r.attempts + 1)
      (hv : e.verifies k = false) (hm : e.mismatches k = true) :
      Advance k e r { r with attempts := r.attempts + 1, state := .locked, response := none }

variable {e : Entry} {k : Text}

theorem Drops.current {now : ℕ} {s s' : Store} (h : Drops now s s') {flowKey id : Text}
    (hid : s'.current flowKey = some id) : s.current flowKey = some id := by
  rcases h.budgets (.flow flowKey) with heq | ⟨hnone, -⟩
  · rwa [Store.current, ← heq]
  · rw [Store.current, hnone] at hid
    exact nomatch hid

/-- What an entry does to a request. -/
inductive OnRequest (k : Text) (e : Entry) : Prop
  | reserved {input : BankReservation} (hreservation : e.reservation = some input)
      (hkey : input.requestKey = k) (hnext : e.next.records k = some (input.record e.now))
      (hdue : ∀ r, e.store.records k = some r → r.deleteAt ≤ e.now)
  | absent (hreserves : e.reserves k = false) (hnext : e.next.records k = none)
      (hv : e.verifies k = false) (hm : e.mismatches k = false)
      (hdue : ∀ r, e.store.records k = some r → r.deleteAt ≤ e.now)
  | advanced {r r' : Challenge} (hreserves : e.reserves k = false)
      (hstore : e.store.records k = some r) (hnext : e.next.records k = some r')
      (hadvance : Advance k e r r')

/-- An entry that leaves the live record of a request as it is. -/
theorem OnRequest.of_same {s : Store} (hd : Drops e.now e.store s)
    (hnext : e.next.records k = s.records k) (hreserves : e.reserves k = false)
    (hv : e.verifies k = false) : OnRequest k e := by
  have hsame (h : e.next.records k = e.store.records k) : e.mismatches k = false := by
    unfold Entry.mismatches
    split
    case h_1 input hcall =>
      rw [h]
      rcases e.store.records k with - | r <;> simp
    case h_2 => rfl
  rcases hd.records k with heq | ⟨hnone, hdue⟩
  · have heq := hnext.trans heq
    rcases hr : e.store.records k with - | r
    · exact .absent hreserves (heq.trans hr) hv (hsame heq) (by simp [hr])
    · exact .advanced hreserves hr (heq.trans hr) (.quiet hv (hsame heq))
  · have hnone := hnext.trans hnone
    refine .absent hreserves hnone hv ?_ hdue
    unfold Entry.mismatches
    split
    case h_1 input hcall => simp [hnone]
    case h_2 => rfl

/-- An entry that writes the record that a call names. -/
theorem OnRequest.of_named {s : Store} {ref : ChallengeRef} {r r' : Challenge}
    (hd : Drops e.now e.store s) (h : Names s e.now ref r) (hkey : e.call.requestKey = ref.requestKey)
    (hnext : e.next = s.setRecord ref.requestKey r') (hreservation : e.reservation = none)
    (hadvance : ref.requestKey = k → e.store.records k = some r → e.next.records k = some r' →
      Advance k e r r') : OnRequest k e := by
  have hreserves : e.reserves k = false := by simp [Entry.reserves, hreservation]
  by_cases hk : ref.requestKey = k
  · have hnext' : e.next.records k = some r' := by simp [hnext, Store.setRecord, hk]
    have hstore : e.store.records k = some r := by
      have hrecord := h.record
      rw [hk] at hrecord
      rcases hd.records k with heq | ⟨hnone, -⟩
      · exact heq ▸ hrecord
      · exact absurd (hrecord.symm.trans hnone) nofun
    exact .advanced hreserves hstore hnext' (hadvance hk hstore hnext')
  · refine .of_same hd ?_ hreserves (by simp [Entry.verifies, hkey, hk])
    rw [hnext]
    exact Function.update_of_ne (Ne.symm hk) _ _

/-- A recorded mismatch shows in the record. -/
theorem mismatches_of_record {ref : ChallengeRef} {r r' : Challenge}
    (hcall : e.call = .verify ref false) (hk : ref.requestKey = k)
    (hstore : e.store.records k = some r) (hnext : e.next.records k = some r') :
    e.mismatches k = decide (r'.attempts = r.attempts + 1) := by
  simp [Entry.mismatches, hcall, hk, hstore, hnext]

/-- **What an entry does to a request**: it reserves it, leaves it off record, or advances its
record. -/
theorem Entry.Real.onRequest (h : e.Real) (k : Text) : OnRequest k e := by
  obtain ⟨s, hd, hmove⟩ := h
  obtain ⟨now, call, reply, store, next⟩ := e
  dsimp only at hd hmove
  cases hmove with
  | @refused _ code =>
    refine .of_same hd rfl ?_ (by simp [Entry.verifies])
    cases call <;> simp [Entry.reserves, Entry.reservation]
  | cached => exact .of_same hd rfl rfl (by simp [Entry.verifies])
  | @reserved input hnone hcount =>
    by_cases hk : k = input.requestKey
    · subst hk
      refine .reserved rfl rfl (by simp [reserved_records]) fun r hr ↦ ?_
      rcases hd.records input.requestKey with heq | ⟨-, hdue⟩
      · exact absurd (heq.symm.trans hnone) (by simp at hr; simp [hr])
      · exact hdue r hr
    · refine .of_same hd (by simp [reserved_records, hk]) ?_ (by simp [Entry.verifies])
      simp [Entry.reserves, Entry.reservation, Ne.symm hk]
  | activated h hstate =>
    refine .of_named hd h rfl rfl rfl fun hk _ _ ↦ ?_
    exact .activated hstate (by simp [Entry.activates, Call.requestKey, hk])
      (by simp [Entry.verifies]) rfl
  | verified h hstate =>
    refine .of_named hd h rfl rfl rfl fun hk _ _ ↦ ?_
    exact .verified hstate rfl h.id (hd.current (h.id ▸ h.current)) h.expires
      (by simp [Entry.verifies, Call.requestKey, hk]) rfl
  | mismatched h hstate hattempts =>
    refine .of_named hd h rfl rfl rfl fun hk hstore hnext ↦ ?_
    refine .mismatched hstate hattempts (by simp [Entry.verifies]) ?_
    rw [mismatches_of_record rfl hk hstore hnext]
    simp
  | locked h hstate hattempts =>
    refine .of_named hd h rfl rfl rfl fun hk hstore hnext ↦ ?_
    refine .locked hstate hattempts (by simp [Entry.verifies]) ?_
    rw [mismatches_of_record rfl hk hstore hnext]
    simp

/-- Only a reservation writes a budget. -/
theorem Entry.Real.budgets (h : e.Real) : ∃ s, Drops e.now e.store s ∧
    ((∃ input, e.reservation = some input ∧ (∀ key ∈ input.budgetKeys, s.count key < key.limit) ∧
        e.next = s.reserved e.now input) ∨
      e.reservation = none ∧ e.next.budgets = s.budgets) := by
  obtain ⟨s, hd, hmove⟩ := h
  refine ⟨s, hd, ?_⟩
  obtain ⟨now, call, reply, store, next⟩ := e
  dsimp only at hd hmove
  cases hmove with
  | @refused _ code => exact .inr ⟨by cases call <;> rfl, rfl⟩
  | @reserved input _ hcount => exact .inl ⟨input, rfl, hcount, rfl⟩
  | cached | activated | verified | mismatched | locked => exact .inr ⟨rfl, rfl⟩

/-- What an entry does to a budget. -/
inductive OnBudget (key : BudgetKey) (e : Entry) : Prop
  | kept (hcharges : e.charges key = false) (hnext : e.next.budgets key = e.store.budgets key)
  | dropped (hcharges : e.charges key = false) (hnext : e.next.budgets key = none)
      (hdue : ∀ b, e.store.budgets key = some b → b.expiresAt ≤ e.now)
  | charged {b g : Budget} (hcharges : e.charges key = true) (hstore : e.store.budgets key = some b)
      (hnext : e.next.budgets key = some g) (hlimit : b.count < key.limit)
      (hcount : g.count = b.count + 1) (hexpires : g.expiresAt = b.expiresAt)
  | opened {g : Budget} (hcharges : e.charges key = true) (hnext : e.next.budgets key = some g)
      (hcount : g.count = 1) (hexpires : g.expiresAt = e.now + budgetMs)
      (hdue : ∀ b, e.store.budgets key = some b → b.expiresAt ≤ e.now)

/-- **What an entry does to a budget**: it charges the open window, opens one, or leaves it. -/
theorem Entry.Real.onBudget (h : e.Real) (key : BudgetKey) : OnBudget key e := by
  obtain ⟨s, hd, ⟨input, hreservation, hcount, hnext⟩ | ⟨hnone, hbudgets⟩⟩ := h.budgets
  · by_cases hkey : key ∈ input.budgetKeys
    · have hcharges : e.charges key = true := by simp [Entry.charges, hreservation, hkey]
      have hnext' := congrFun (congrArg Store.budgets hnext) key
      rw [reserved_budgets, if_pos hkey] at hnext'
      have hlimit := hcount key hkey
      rcases hb : s.budgets key with - | b
      · refine .opened hcharges hnext' (by rw [hb]; rfl) (by rw [hb]; rfl) fun b hstore ↦ ?_
        rcases hd.budgets key with heq | ⟨-, hdue⟩
        · exact absurd (hstore.symm.trans (heq.symm.trans hb)) nofun
        · exact hdue b hstore
      · rcases hd.budgets key with heq | ⟨hnone, -⟩
        · refine .charged hcharges (heq.symm.trans hb) hnext' ?_ (by rw [hb]; rfl) (by rw [hb]; rfl)
          simpa [Store.count, hb] using hlimit
        · exact absurd (hb.symm.trans hnone) nofun
    · have hcharges : e.charges key = false := by simp [Entry.charges, hreservation, hkey]
      have hnext' : e.next.budgets key = s.budgets key := by
        rw [hnext, reserved_budgets, if_neg hkey]
      rcases hd.budgets key with heq | ⟨hnone, hdue⟩
      · exact .kept hcharges (hnext'.trans heq)
      · exact .dropped hcharges (hnext'.trans hnone) hdue
  · have hcharges : e.charges key = false := by simp [Entry.charges, hnone]
    rcases hd.budgets key with heq | ⟨hnone', hdue⟩
    · exact .kept hcharges (by rw [hbudgets, heq])
    · exact .dropped hcharges (by rw [hbudgets, hnone']) hdue

/-- **What an entry does to the pointer of a flow**: a reservation of the flow sets it, and nothing
else does. -/
theorem Entry.Real.current (h : e.Real) {flowKey id : Text}
    (hid : e.next.current flowKey = some id) :
    (∃ input, e.reservation = some input ∧ input.flowKey = flowKey ∧ input.challengeId = id) ∨
      (∀ input, e.reservation = some input → input.flowKey ≠ flowKey) ∧
        e.store.current flowKey = some id := by
  obtain ⟨s, hd, ⟨input, hreservation, -, hnext⟩ | ⟨hnone, hbudgets⟩⟩ := h.budgets
  · by_cases hflow : input.flowKey = flowKey
    · refine .inl ⟨input, hreservation, hflow, ?_⟩
      subst hflow
      rw [Store.current, hnext, reserved_budgets, if_pos (by simp [BankReservation.budgetKeys])]
        at hid
      simpa using hid
    · refine .inr ⟨fun input' h ↦ ?_, hd.current ?_⟩
      · obtain rfl := Option.some.inj (hreservation.symm.trans h)
        exact hflow
      · rw [Store.current, hnext, reserved_budgets,
          if_neg (by simp [BankReservation.budgetKeys, Ne.symm hflow])] at hid
        exact hid
  · refine .inr ⟨fun input h ↦ absurd (hnone.symm.trans h) nofun, hd.current ?_⟩
    rwa [Store.current, hbudgets] at hid

/-- A reservation of a request that replies anything else charges nothing. -/
theorem Entry.Real.count_le (h : e.Real) (hnone : e.reservation = none) (key : BudgetKey) :
    e.next.count key ≤ e.store.count key := by
  obtain ⟨s, hd, ⟨input, hreservation, -, -⟩ | ⟨-, hbudgets⟩⟩ := h.budgets
  · exact absurd (hnone.symm.trans hreservation) nofun
  · rw [Store.count, Store.count, hbudgets]
    rcases hd.budgets key with heq | ⟨hnone', -⟩
    · rw [heq]
    · rw [hnone']
      exact Nat.zero_le _

end Proofmark.Bank
