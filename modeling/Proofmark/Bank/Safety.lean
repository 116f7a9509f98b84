import Proofmark.Bank.Runs
import Proofmark.Collection.Log

/-!
# Safety of bank challenges

What a run of either store guarantees. A reservation's record lives for `budgetMs`, so everything
is said of one reservation and of the calls up to the next one of the same request (`Stretch`).
`Tied` reads the record as a summary of that stretch; from it come the single verification and the
bound on mismatches. `Window` reads a counter as the number of starts since its window opened.

A verification is checked against the flow that the call names. It is the flow of the reservation
as long as no other reservation has the same challenge id, which callers draw at random.
-/

namespace Proofmark.Bank

open Pipeline (Text)

/-! ### One reservation -/

/-- A reservation, and the calls after it without another of its request. -/
structure Stretch (res : Entry) (input : BankReservation) (after : List Entry) : Prop where
  reserved : res.reservation = some input
  until_ : ∀ e ∈ after, e.reserves input.requestKey = false

/-- What holds when a reservation's challenge is verified, after some calls. -/
structure VerifiedSoundly (before : List Entry) (res : Entry) (input : BankReservation)
    (after : List Entry) (v : Entry) : Prop where
  attempts : after.countP (Entry.mismatches input.requestKey) < attemptLimit
  activated : ∃ e ∈ after, e.activates input.requestKey = true
  time : v.now < res.now + lifetimeMs
  /-- It is the newest challenge of the flow that the call names. -/
  newest : ∃ ref, v.call = .verify ref true ∧ ref.challengeId = input.challengeId ∧
    newest ref.flowKey (before ++ res :: after) = some input.challengeId
  /-- And of its own flow, if no other reservation has its challenge id. -/
  own : (∀ e ∈ before ++ after, ∀ other, e.reservation = some other →
      other.challengeId ≠ input.challengeId) →
    ∀ e ∈ after, ∀ other, e.reservation = some other → other.flowKey ≠ input.flowKey

/-- **The law of a reservation**, for the calls after it without another of its request. -/
structure ChallengeLaw (before : List Entry) (res : Entry) (input : BankReservation)
    (after : List Entry) : Prop where
  once : after.countP (Entry.verifies input.requestKey) ≤ 1
  mismatches : after.countP (Entry.mismatches input.requestKey) ≤ attemptLimit
  verified : ∀ first v rest, after = first ++ v :: rest →
    v.verifies input.requestKey = true → VerifiedSoundly before res input first v
  /-- A repeated reserve consumes no budget. -/
  free : ∀ e ∈ after, ∀ again, e.call = .reserve again →
    again.requestKey = input.requestKey → ∀ key, e.next.count key ≤ e.store.count key

/-- The record of a reservation, as a summary of the calls after it. -/
structure Tied (res : Entry) (input : BankReservation) (after : List Entry) (r : Challenge) :
    Prop where
  id : r.id = input.challengeId
  expires : r.expires = res.now + lifetimeMs
  deleteAt : r.deleteAt = res.now + budgetMs
  attempts : after.countP (Entry.mismatches input.requestKey) = r.attempts
  le : r.attempts ≤ attemptLimit
  once : after.countP (Entry.verifies input.requestKey) = if r.state = .consumed then 1 else 0
  pending : r.state = .pending → r.attempts < attemptLimit
  ready : r.state = .ready → r.attempts < attemptLimit ∧
    ∃ e ∈ after, e.activates input.requestKey = true

/-! ### One window of a budget -/

/-- The starts that a budget is charged for before a time. -/
def startsBefore (key : BudgetKey) (deadline : ℕ) (log : List Entry) : ℕ :=
  log.countP fun e ↦ e.charges key && e.now < deadline

/-- A window of a budget since its first start: never over the limit, and counted by the live
counter until it ends. -/
structure Window (key : BudgetKey) (first : Entry) (after : List Entry) (clock : ℕ) (s : Store) :
    Prop where
  bound : startsBefore key (first.now + budgetMs) (first :: after) ≤ key.limit
  live : first.now + budgetMs ≤ clock ∨ ∃ b, s.budgets key = some b ∧
    b.expiresAt = first.now + budgetMs ∧ b.count = (first :: after).countP (Entry.charges key)

/-! ### A run -/

/-- **What every run keeps.** -/
structure Kept (log : List Entry) (clock : ℕ) (s : Store) : Prop where
  times : ∀ e ∈ log, e.now ≤ clock
  absent : ∀ k, (∀ e ∈ log, e.reserves k = false) → s.records k = none
  law : ∀ before res input after, log = before ++ res :: after → Stretch res input after →
    ChallengeLaw before res input after
  tied : ∀ before res input after, log = before ++ res :: after → Stretch res input after →
    ∀ r, s.records input.requestKey = some r → Tied res input after r
  gone : ∀ before res input after, log = before ++ res :: after → Stretch res input after →
    s.records input.requestKey = none → res.now + budgetMs ≤ clock
  apart : ∀ before res input after again rest, log = before ++ res :: (after ++ again :: rest) →
    Stretch res input after → again.reserves input.requestKey = true →
    res.now + budgetMs ≤ again.now
  current : ∀ flowKey id, s.current flowKey = some id → newest flowKey log = some id
  count : ∀ key b, s.budgets key = some b → 0 < b.count ∧ b.count ≤ key.limit
  windows : ∀ key before first after, log = before ++ first :: after → first.opens key = true →
    Window key first after clock s

variable {log before after : List Entry} {res e : Entry} {input : BankReservation} {clock : ℕ}
  {s : Store} {r r' : Challenge} {k : Text}

/-! ### The newest challenge of a flow -/

theorem newest_concat_none (flowKey : Text) (hr : e.reservation = none) :
    newest flowKey (log ++ [e]) = newest flowKey log := by
  rw [newest, newest, List.filterMap_append, List.filterMap_cons_none hr, List.filterMap_nil,
    List.append_nil]

theorem newest_concat_some (flowKey : Text) (hr : e.reservation = some input) :
    newest flowKey (log ++ [e]) =
      if input.flowKey = flowKey then some input.challengeId else newest flowKey log := by
  rw [newest, newest, List.filterMap_append, List.filterMap_cons_some hr, List.filterMap_nil,
    List.filter_append]
  split
  case isTrue h => simp [h]
  case isFalse h => simp [h]

theorem newest_append (flowKey : Text) (a b : List Entry) : newest flowKey (a ++ b) =
    (newest flowKey b).or (newest flowKey a) := by
  unfold newest
  rw [List.filterMap_append, List.filter_append, List.getLast?_append]
  cases (List.filter _ (List.filterMap Entry.reservation b)).getLast? <;> rfl

/-- The newest challenge of a flow is that of a reservation. -/
theorem exists_of_newest {flowKey id : Text} (h : newest flowKey log = some id) :
    ∃ e ∈ log, ∃ input, e.reservation = some input ∧ input.flowKey = flowKey ∧
      input.challengeId = id := by
  obtain ⟨input, hlast, hid⟩ := Option.map_eq_some_iff.1 h
  obtain ⟨hmem, hflow⟩ := List.mem_filter.1 (List.mem_of_getLast? hlast)
  obtain ⟨e, he, hreservation⟩ := List.mem_filterMap.1 hmem
  exact ⟨e, he, input, hreservation, of_decide_eq_true hflow, hid⟩

theorem newest_eq_none {flowKey : Text} : newest flowKey log = none ↔
    ∀ e ∈ log, ∀ input, e.reservation = some input → input.flowKey ≠ flowKey := by
  simp only [newest, Option.map_eq_none_iff, List.getLast?_eq_none_iff, List.filter_eq_nil_iff,
    List.mem_filterMap, decide_eq_true_eq]
  exact ⟨fun h e he input hr ↦ h input ⟨e, he, hr⟩, fun h input ⟨e, he, hr⟩ ↦ h e he input hr⟩

/-- A challenge id that no other reservation has is the newest of no flow but its own, and there
nothing newer was reserved. -/
theorem own_of_newest {flowKey : Text} (hres : res.reservation = some input)
    (hfresh : ∀ e ∈ before ++ after, ∀ other, e.reservation = some other →
      other.challengeId ≠ input.challengeId)
    (h : newest flowKey (before ++ res :: after) = some input.challengeId) :
    ∀ e ∈ after, ∀ other, e.reservation = some other → other.flowKey ≠ input.flowKey := by
  rw [List.append_cons before res after, newest_append, newest_concat_some flowKey hres] at h
  rcases hafter : newest flowKey after with - | id
  · rw [hafter, Option.none_or] at h
    by_cases hflow : input.flowKey = flowKey
    · exact hflow ▸ newest_eq_none.1 hafter
    · rw [if_neg hflow] at h
      obtain ⟨e, he, other, hother, -, hid⟩ := exists_of_newest h
      exact absurd hid (hfresh e (List.mem_append_left _ he) other hother)
  · obtain rfl : id = input.challengeId := by simpa [hafter] using h
    obtain ⟨e, he, other, hother, -, hid⟩ := exists_of_newest hafter
    exact absurd hid (hfresh e (List.mem_append_right _ he) other hother)

/-! ### One more call of a stretch -/

theorem reserves_of_reservation (h : e.reservation = some input) :
    e.reserves input.requestKey = true := by
  simp [Entry.reserves, h]

theorem countP_concat (p : Entry → Bool) :
    (log ++ [e]).countP p = log.countP p + if p e = true then 1 else 0 := by
  rw [List.countP_append, List.countP_singleton]

theorem Stretch.of_concat (h : Stretch res input (after ++ [e])) :
    Stretch res input after ∧ e.reserves input.requestKey = false :=
  ⟨⟨h.reserved, fun e' he' ↦ h.until_ e' (List.mem_append_left _ he')⟩,
    h.until_ e (List.mem_append_right _ List.mem_cons_self)⟩

/-- The law of a reservation that was just made. -/
theorem ChallengeLaw.nil : ChallengeLaw before res input [] where
  once := Nat.zero_le 1
  mismatches := Nat.zero_le _
  verified first v rest h := absurd h (by simp)
  free e he := absurd he List.not_mem_nil

theorem Tied.record : Tied res input [] (input.record res.now) where
  id := rfl
  expires := rfl
  deleteAt := rfl
  attempts := rfl
  le := Nat.zero_le _
  once := rfl
  pending _ := Nat.zero_lt_succ _
  ready h := nomatch h

/-- One more call keeps the law if its own verification, mismatch and charges do. -/
theorem ChallengeLaw.concat (h : ChallengeLaw before res input after)
    (hreal : e.Real) (hreserves : e.reserves input.requestKey = false)
    (hv : e.verifies input.requestKey = true →
      after.countP (Entry.verifies input.requestKey) = 0 ∧
        VerifiedSoundly before res input after e)
    (hm : e.mismatches input.requestKey = true →
      after.countP (Entry.mismatches input.requestKey) < attemptLimit) :
    ChallengeLaw before res input (after ++ [e]) where
  once := by
    rw [countP_concat]
    split
    case isTrue hverifies => rw [(hv hverifies).1]
    case isFalse => exact h.once
  mismatches := by
    rw [countP_concat]
    split
    case isTrue hmismatches => exact hm hmismatches
    case isFalse => exact h.mismatches
  verified first v rest heq hverifies := by
    rcases List.eq_nil_or_concat rest with rfl | ⟨rest, last, rfl⟩
    · obtain ⟨rfl, hlast⟩ := List.append_inj' heq rfl
      obtain rfl : e = v := List.singleton_inj.1 hlast
      exact (hv hverifies).2
    · rw [List.concat_eq_append, ← List.cons_append, ← List.append_assoc] at heq
      exact h.verified first v rest (List.append_inj_left' heq rfl) hverifies
  free e' he' again hcall hkey key := by
    rcases List.mem_append.1 he' with he' | he'
    · exact h.free e' he' again hcall hkey key
    · obtain rfl := List.mem_singleton.1 he'
      refine hreal.count_le ?_ key
      rcases hr : e'.reservation with - | other
      · rfl
      · have hother : other = again := by
          unfold Entry.reservation at hr
          rw [hcall] at hr
          split at hr
          · rename_i h₁ h₂
            cases h₁
            exact (Option.some.inj hr).symm
          · exact nomatch hr
        subst hother
        exact absurd (hkey ▸ reserves_of_reservation hr) (by simp [hreserves])

/-- What a call makes of the record of a stretch. -/
theorem Tied.advance (h : Tied res input after r)
    (hadvance : Advance input.requestKey e r r') : Tied res input (after ++ [e]) r' := by
  cases hadvance with
  | quiet hv hm =>
    refine ⟨h.id, h.expires, h.deleteAt, ?_, h.le, ?_, h.pending, fun hr ↦ ?_⟩
    · simpa [countP_concat, hm] using h.attempts
    · simpa [countP_concat, hv] using h.once
    · obtain ⟨hlt, act, hact, hactivates⟩ := h.ready hr
      exact ⟨hlt, act, List.mem_append_left _ hact, hactivates⟩
  | activated hstate ha hv hm =>
    refine ⟨h.id, h.expires, h.deleteAt, ?_, h.le, ?_, nofun, fun _ ↦ ⟨h.pending hstate, e, ?_, ha⟩⟩
    · simpa [countP_concat, hm] using h.attempts
    · simpa [countP_concat, hv, hstate] using h.once
    · exact List.mem_append_right _ List.mem_cons_self
  | @verified ref hstate hcall hid hcurrent hexpires hv hm =>
    refine ⟨h.id, h.expires, h.deleteAt, ?_, h.le, ?_, nofun, nofun⟩
    · simpa [countP_concat, hm] using h.attempts
    · have honce := h.once
      rw [hstate] at honce
      simp [honce, hv]
  | mismatched hstate hattempts hv hm =>
    refine ⟨h.id, h.expires, h.deleteAt, ?_, hattempts.le, ?_, fun hr ↦ ?_, fun _ ↦ ⟨hattempts, ?_⟩⟩
    · simp [hm, h.attempts]
    · simpa [countP_concat, hv] using h.once
    · exact absurd (hstate.symm.trans hr) nofun
    · obtain ⟨-, act, hact, hactivates⟩ := h.ready hstate
      exact ⟨act, List.mem_append_left _ hact, hactivates⟩
  | locked hstate hattempts hv hm =>
    refine ⟨h.id, h.expires, h.deleteAt, ?_, (h.ready hstate).1, ?_, nofun, nofun⟩
    · simp [hm, h.attempts]
    · simpa [countP_concat, hv, hstate] using h.once

/-- A verified call is sound: the record says that the challenge was activated, has attempts left,
is not expired and is the newest of the flow. -/
theorem Tied.verifiedSoundly (h : Tied res input after r) (hres : res.reservation = some input)
    (hadvance : Advance input.requestKey e r r') (hv : e.verifies input.requestKey = true)
    (hcurrent : ∀ flowKey id, e.store.current flowKey = some id →
      newest flowKey (before ++ res :: after) = some id) :
    after.countP (Entry.verifies input.requestKey) = 0 ∧
      VerifiedSoundly before res input after e := by
  cases hadvance with
  | quiet hv' | activated _ _ hv' | mismatched _ _ hv' | locked _ _ hv' =>
    exact absurd (hv.symm.trans hv') nofun
  | @verified ref hstate hcall hid hpointer hexpires =>
    have hnewest := hcurrent ref.flowKey r.id hpointer
    rw [h.id] at hnewest
    refine ⟨by simpa [hstate] using h.once, ⟨?_, (h.ready hstate).2, h.expires ▸ hexpires,
      ⟨ref, hcall, hid.symm.trans h.id, hnewest⟩, fun hfresh ↦ own_of_newest hres hfresh hnewest⟩⟩
    rw [h.attempts]
    exact (h.ready hstate).1

theorem Tied.mismatches_lt (h : Tied res input after r)
    (hadvance : Advance input.requestKey e r r') (hm : e.mismatches input.requestKey = true) :
    after.countP (Entry.mismatches input.requestKey) < attemptLimit := by
  rw [h.attempts]
  cases hadvance with
  | quiet _ hm' | activated _ _ _ hm' | verified _ _ _ _ _ _ hm' =>
    exact absurd (hm.symm.trans hm') nofun
  | mismatched hstate | locked hstate => exact (h.ready hstate).1

/-! ### One more call of a run -/

section Step

variable (h : Kept log clock e.store) (hreal : e.Real) (hclock : clock ≤ e.now)

include h hreal hclock

/-- A request that is reserved again was reserved `budgetMs` ago. -/
theorem Kept.apart_step (hlog : log = before ++ res :: after) (hstretch : Stretch res input after)
    (hagain : e.reserves input.requestKey = true) : res.now + budgetMs ≤ e.now := by
  rcases hreal.onRequest input.requestKey with ⟨-, -, -, hdue⟩ | ⟨hreserves, -⟩ | ⟨hreserves, -⟩
  · rcases hr : e.store.records input.requestKey with - | r
    · exact (h.gone before res input after hlog hstretch hr).trans hclock
    · exact (h.tied before res input after hlog hstretch r hr).deleteAt ▸ hdue r hr
  · exact absurd (hagain.symm.trans hreserves) nofun
  · exact absurd (hagain.symm.trans hreserves) nofun

/-- One more call of the last stretch of a request. -/
theorem Kept.stretch_step (hlog : log = before ++ res :: after)
    (hstretch : Stretch res input after) (hreserves : e.reserves input.requestKey = false) :
    ChallengeLaw before res input (after ++ [e]) ∧
      (∀ r, e.next.records input.requestKey = some r → Tied res input (after ++ [e]) r) ∧
      (e.next.records input.requestKey = none → res.now + budgetMs ≤ e.now) := by
  have hlaw := h.law before res input after hlog hstretch
  have htied := h.tied before res input after hlog hstretch
  have hcurrent := h.current
  rw [hlog] at hcurrent
  cases hreal.onRequest input.requestKey with
  | reserved hreservation hkey =>
    have hagain := reserves_of_reservation hreservation
    rw [hkey, hreserves] at hagain
    exact nomatch hagain
  | absent _ hnext hv hm hdue =>
    refine ⟨hlaw.concat hreal hreserves (fun hv' ↦ ?_) (fun hm' ↦ ?_), fun r hr ↦ ?_, fun _ ↦ ?_⟩
    · exact absurd (hv'.symm.trans hv) nofun
    · exact absurd (hm'.symm.trans hm) nofun
    · exact absurd (hnext.symm.trans hr) nofun
    · rcases hr : e.store.records input.requestKey with - | r
      · exact (h.gone before res input after hlog hstretch hr).trans hclock
      · exact (htied r hr).deleteAt ▸ hdue r hr
  | advanced _ hstore hnext hadvance =>
    have hr := htied _ hstore
    refine ⟨hlaw.concat hreal hreserves (fun hv ↦ ?_) (hr.mismatches_lt hadvance), fun r' hr' ↦ ?_,
      fun hnone ↦ absurd (hnext.symm.trans hnone) nofun⟩
    · exact hr.verifiedSoundly hstretch.reserved hadvance hv hcurrent
    · obtain rfl := Option.some.inj (hnext.symm.trans hr')
      exact hr.advance hadvance

/-- A reservation opens a stretch. -/
theorem Kept.record_step (hres : e.reservation = some input)
    (hr : e.next.records input.requestKey = some r) : Tied e input [] r := by
  have hreserves := reserves_of_reservation hres
  cases hreal.onRequest input.requestKey with
  | reserved hreservation hkey hnext =>
    obtain rfl := Option.some.inj (hreservation.symm.trans hres)
    obtain rfl := Option.some.inj (hnext.symm.trans hr)
    exact .record
  | absent hnot | advanced hnot => exact absurd (hreserves.symm.trans hnot) nofun

/-- A counter stays positive and within its limit. -/
theorem Kept.count_step (key : BudgetKey) (b : Budget) (hb : e.next.budgets key = some b) :
    0 < b.count ∧ b.count ≤ key.limit := by
  cases hreal.onBudget key with
  | kept _ hnext => exact h.count key b (hnext ▸ hb)
  | dropped _ hnext => exact absurd (hnext.symm.trans hb) nofun
  | charged _ _ hnext hlimit hcount =>
    obtain rfl := Option.some.inj (hnext.symm.trans hb)
    rw [hcount]
    exact ⟨Nat.succ_pos _, hlimit⟩
  | opened _ hnext hcount =>
    obtain rfl := Option.some.inj (hnext.symm.trans hb)
    rw [hcount]
    exact ⟨Nat.one_pos, key.limit_pos⟩

/-- A first start opens a window. -/
theorem Kept.window_open {key : BudgetKey} (hopens : e.opens key = true) :
    Window key e [] e.now e.next := by
  obtain ⟨hcharges, hone⟩ := Bool.and_eq_true_iff.1 hopens
  have hone : e.next.count key = 1 := of_decide_eq_true hone
  refine ⟨?_, ?_⟩
  · calc startsBefore key (e.now + budgetMs) [e]
      _ ≤ 1 := List.countP_le_length
      _ ≤ key.limit := key.limit_pos
  · cases hreal.onBudget key with
    | kept hnot | dropped hnot => exact absurd (hcharges.symm.trans hnot) nofun
    | @charged b g _ hstore hnext _ hcount =>
      have hpos := (h.count key b hstore).1
      rw [Store.count, hnext] at hone
      have hone : g.count = 1 := hone
      omega
    | @opened g _ hnext hcount hexpires =>
      exact .inr ⟨g, hnext, hexpires, by simp [hcount, hcharges]⟩

/-- One more call after a window's first start. -/
theorem Kept.window_step {key : BudgetKey} {first : Entry} (hw : Window key first after clock e.store) :
    Window key first (after ++ [e]) e.now e.next := by
  have hbound (hnot : (e.charges key && e.now < first.now + budgetMs) = false) :
      startsBefore key (first.now + budgetMs) (first :: (after ++ [e])) ≤ key.limit := by
    rw [startsBefore, ← List.cons_append, countP_concat, hnot]
    exact hw.bound
  rcases hw.live with hover | ⟨b, hb, hexpires, hcount⟩
  · exact ⟨hbound (by simp; omega), .inl (hover.trans hclock)⟩
  · cases hreal.onBudget key with
    | kept hcharges hnext =>
      refine ⟨hbound (by simp [hcharges]), .inr ⟨b, hnext.trans hb, hexpires, ?_⟩⟩
      rw [hcount, ← List.cons_append, countP_concat, hcharges]
      rfl
    | dropped hcharges _ hdue => exact ⟨hbound (by simp [hcharges]), .inl (hexpires ▸ hdue b hb)⟩
    | opened _ _ _ _ hdue =>
      have hover : first.now + budgetMs ≤ e.now := hexpires ▸ hdue b hb
      exact ⟨hbound (by simp; omega), .inl hover⟩
    | @charged b' g hcharges hstore hnext hlimit hcount' hexpires' =>
      obtain rfl := Option.some.inj (hstore.symm.trans hb)
      have hall : (first :: (after ++ [e])).countP (Entry.charges key) = b'.count + 1 := by
        rw [hcount, ← List.cons_append, countP_concat, if_pos hcharges]
      refine ⟨?_, .inr ⟨g, hnext, hexpires'.trans hexpires, hcount'.trans hall.symm⟩⟩
      calc startsBefore key (first.now + budgetMs) (first :: (after ++ [e]))
        _ ≤ (first :: (after ++ [e])).countP (Entry.charges key) :=
          List.countP_mono_left fun e' _ he' ↦ (Bool.and_eq_true_iff.1 he').1
        _ = b'.count + 1 := hall
        _ ≤ key.limit := hlimit

omit hclock in
/-- The pointer of a flow stays at its newest challenge. -/
theorem Kept.current_step (flowKey id : Text) (hid : e.next.current flowKey = some id) :
    newest flowKey (log ++ [e]) = some id := by
  rcases hreal.current hid with ⟨input, hreservation, hflow, rfl⟩ | ⟨hother, hstore⟩
  · rw [newest_concat_some flowKey hreservation, if_pos hflow]
  · rw [← h.current flowKey id hstore]
    rcases hr : e.reservation with - | input
    · exact newest_concat_none flowKey hr
    · rw [newest_concat_some flowKey hr, if_neg (hother input hr)]

/-- **What one call keeps.** -/
theorem Kept.step : Kept (log ++ [e]) e.now e.next where
  times e' he' := by
    rcases List.mem_append.1 he' with he' | he'
    · exact (h.times e' he').trans hclock
    · rw [List.mem_singleton.1 he']
  absent k hk := by
    have hstore := h.absent k fun e' he' ↦ hk e' (List.mem_append_left _ he')
    have hreserves := hk e (List.mem_append_right _ List.mem_cons_self)
    cases hreal.onRequest k with
    | reserved hreservation hkey =>
      exact absurd (hkey ▸ reserves_of_reservation hreservation) (by simp [hreserves])
    | absent _ hnext => exact hnext
    | advanced _ hr => exact absurd (hstore.symm.trans hr) nofun
  law before res input after hlog hstretch := by
    rcases Log.split_concat hlog with ⟨rfl, -, -⟩ | ⟨after, rfl, hlog'⟩
    · exact .nil
    · obtain ⟨hstretch, hreserves⟩ := hstretch.of_concat
      exact (h.stretch_step hreal hclock hlog' hstretch hreserves).1
  tied before res input after hlog hstretch r hr := by
    rcases Log.split_concat hlog with ⟨rfl, -, rfl⟩ | ⟨after, rfl, hlog'⟩
    · exact h.record_step hreal hclock hstretch.reserved hr
    · obtain ⟨hstretch, hreserves⟩ := hstretch.of_concat
      exact (h.stretch_step hreal hclock hlog' hstretch hreserves).2.1 r hr
  gone before res input after hlog hstretch hnone := by
    rcases Log.split_concat hlog with ⟨rfl, -, rfl⟩ | ⟨after, rfl, hlog'⟩
    · have hreserves := reserves_of_reservation hstretch.reserved
      cases hreal.onRequest input.requestKey with
      | reserved _ _ hnext => exact absurd (hnext.symm.trans hnone) nofun
      | absent hnot | advanced hnot => exact absurd (hreserves.symm.trans hnot) nofun
    · obtain ⟨hstretch, hreserves⟩ := hstretch.of_concat
      exact (h.stretch_step hreal hclock hlog' hstretch hreserves).2.2 hnone
  apart before res input after again rest hlog hstretch hagain := by
    rcases Log.split_concat hlog with ⟨hnil, -, -⟩ | ⟨calls, hcalls, hlog'⟩
    · exact absurd hnil (by simp)
    · rcases Log.split_concat hcalls.symm with ⟨-, rfl, rfl⟩ | ⟨rest, rfl, rfl⟩
      · exact h.apart_step hreal hclock hlog' hstretch hagain
      · exact h.apart before res input after again rest hlog' hstretch hagain
  current := h.current_step hreal
  count := h.count_step hreal hclock
  windows key before first after hlog hopens := by
    rcases Log.split_concat hlog with ⟨rfl, -, rfl⟩ | ⟨after, rfl, hlog'⟩
    · exact h.window_open hreal hclock hopens
    · exact h.window_step hreal hclock (h.windows key before first after hlog' hopens)

end Step

theorem kept_nil : Kept [] 0 .empty where
  times _ he := absurd he List.not_mem_nil
  absent _ _ := rfl
  law _ _ _ _ h := absurd h (by simp)
  tied _ _ _ _ h := absurd h (by simp)
  gone _ _ _ _ h := absurd h (by simp)
  apart _ _ _ _ _ _ h := absurd h (by simp)
  current _ _ h := nomatch h
  count _ _ h := nomatch h
  windows _ _ _ _ h := absurd h (by simp)

/-- **What every run keeps.** -/
theorem kept_history (mode : Mode) (inputs : List (ℕ × Call)) :
    Kept (history mode 0 .empty inputs) (clockAfter 0 inputs)
      (storeAfter mode 0 .empty inputs) := by
  induction inputs using List.reverseRecOn with
  | nil => exact kept_nil
  | append_singleton inputs input ih =>
    obtain ⟨elapsed, call⟩ := input
    rw [history_concat, storeAfter_concat, clockAfter_concat]
    exact ih.step mode.moves (Nat.le_add_right _ _)

/-! ### The law of a run -/

/-- What a run of a store guarantees. -/
structure ChallengeSafety (log : List Entry) : Prop where
  /-- Every reservation, with the calls up to the next one of its request. -/
  challenge : ∀ before res input after rest, log = before ++ res :: (after ++ rest) →
    Stretch res input after → ChallengeLaw before res input after
  /-- The next reservation of a request comes when the record of the last one has expired. -/
  apart : ∀ before res input after again rest, log = before ++ res :: (after ++ again :: rest) →
    Stretch res input after → again.reserves input.requestKey = true →
    res.now + budgetMs ≤ again.now
  /-- No window of a budget admits more starts than its limit. -/
  windows : ∀ key before first after, log = before ++ first :: after → first.opens key = true →
    startsBefore key (first.now + budgetMs) (first :: after) ≤ key.limit

/-- **Bank challenge safety.** In every run of either store, whoever calls it and with whatever
identifiers. -/
theorem challenge_safe (mode : Mode) (inputs : List (ℕ × Call)) :
    ChallengeSafety (history mode 0 .empty inputs) where
  challenge before res input after rest hlog hstretch := by
    have htake := take_history mode 0 .empty
      (before ++ res :: after).length inputs
    rw [hlog, ← List.cons_append, ← List.append_assoc, List.take_left] at htake
    exact (kept_history mode _).law before res input after htake.symm hstretch
  apart := (kept_history mode inputs).apart
  windows key before first after hlog hopens :=
    ((kept_history mode inputs).windows key before first after hlog hopens).bound

/-- A request that is reserved again, unchanged, a day and a millisecond later. -/
def reservedTwice : List (ℕ × Call) :=
  let key (c : Char) : Text := List.replicate 16 c
  let input : BankReservation := ⟨key 'r', key 'f', key 'a', key 'w', key 'p', key 'c'⟩
  [(0, .reserve input), (budgetMs + 1, .reserve input)]

/-- A repeated reserve of one request never yields a second challenge. -/
def NeverAgain (log : List Entry) : Prop :=
  ∀ k, log.countP (Entry.reserves k) ≤ 1

/-- **A repeated reserve is refused only while the record lives**: a day later it opens a second
challenge, in either store. -/
theorem reserved_again :
    ¬NeverAgain (history .redis 0 .empty reservedTwice) ∧
      ¬NeverAgain (history .demoMemory 0 .empty reservedTwice) := by
  constructor
  · exact fun h ↦ absurd (h (List.replicate 16 'r')) (by decide +kernel)
  · exact fun h ↦ absurd (h (List.replicate 16 'r')) (by decide +kernel)

end Proofmark.Bank
