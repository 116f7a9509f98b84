import Proofmark.Pipeline.WalletFence

/-!
# When a wallet's answer is believed

The steps of a promise, over the calls and events of `Proofmark.Pipeline.WalletFence`. A timer, the
first microtask and a check are steps like any call. The handlers settle one request on top of
that: one rejects it, the other may resolve it, and what it resolves is of the session as it stands
(`Fenced`).
-/

namespace Proofmark.Wallet

variable {P : Type}

/-! ### What one task does -/

/-- What a task, or a run of tasks, does to a session. -/
structure Follows (s s' : Session P) : Prop where
  inv : Inv s'
  revision : s.revision ≤ s'.revision
  binds : s.binds ≤ s'.binds
  address : s'.revision = s.revision → s'.binds = s.binds → s'.address = s.address
  /-- a request keeps what it captured, and is settled once -/
  requests : ∀ (p : ℕ) (r : Request P), s.requests[p]? = some r →
    ∃ r', s'.requests[p]? = some r' ∧ r.Same r' ∧ (r.outcome.isSome → r'.outcome = r.outcome)
  /-- what resolves is no request of an earlier revision -/
  resolved : ∀ (p : ℕ) (value : Answered), s'.Resolved p value → ¬s.Resolved p value →
    ∃ r, s'.requests[p]? = some r ∧ s.revision ≤ r.revision

theorem Follows.trans {s t u : Session P} (h : Follows s t) (h' : Follows t u) : Follows s u := by
  refine ⟨h'.inv, h.revision.trans h'.revision, h.binds.trans h'.binds, fun heq hbinds ↦ ?_,
    fun p r hr ↦ ?_, fun p v hv hnot ↦ ?_⟩
  · have hst := h.revision
    have htu := h'.revision
    have hb := h.binds
    have hb' := h'.binds
    rw [h'.address (by omega) (by omega), h.address (by omega) (by omega)]
  · obtain ⟨r', hr', hsame, houtcome⟩ := h.requests p r hr
    obtain ⟨r'', hr'', hsame', houtcome'⟩ := h'.requests p r' hr'
    refine ⟨r'', hr'', hsame.trans hsame', fun hsome ↦ ?_⟩
    have heq := houtcome hsome
    rw [houtcome' (heq ▸ hsome), heq]
  · by_cases ht : t.Resolved p v
    · obtain ⟨r, hr, hle⟩ := h.resolved p v ht hnot
      obtain ⟨r', hr', hsame, -⟩ := h'.requests p r hr
      exact ⟨r', hr', hsame.revision ▸ hle⟩
    · obtain ⟨r, hr, hle⟩ := h'.resolved p v hv ht
      exact ⟨r, hr, h.revision.trans hle⟩

theorem Steps.follows {s s' : Session P} (h : Steps s s') : Follows s s' := by
  refine ⟨h.inv, h.evolves.revision, h.evolves.binds, h.evolves.address, fun p r hr ↦ ?_,
    fun p v hv hnot ↦ absurd (h.evolves.resolved p v hv) hnot⟩
  obtain ⟨r', hr', hsame, houtcome⟩ := h.evolves.requests p r hr
  refine ⟨r', hr', hsame, fun hsome ↦ ?_⟩
  obtain ⟨outcome, heq⟩ := Option.isSome_iff_exists.1 hsome
  rw [houtcome, heq]
  simp

/-- A rise of the revision rejects whatever was not settled. -/
def Rejects (s s' : Session P) : Prop :=
  s.revision < s'.revision → ∀ (p : ℕ) (r : Request P), s.requests[p]? = some r →
    ∃ r', s'.requests[p]? = some r' ∧ r.Same r' ∧ r'.outcome = some (r.outcome.getD .rejected)

theorem Steps.rejects {s s' : Session P} (h : Steps s s') : Rejects s s' := by
  intro hlt p r hr
  obtain ⟨r', hr', hsame, houtcome⟩ := h.evolves.requests p r hr
  exact ⟨r', hr', hsame, by rw [houtcome, if_neg hlt.ne']⟩

/-! ### Settling one request -/

section Finish

variable {s : Session P} {p : ℕ} {outcome : Outcome}

theorem inv_finish (hs : Inv s) : Inv (s.finish p outcome) := by
  have hrequest : ∀ (q : ℕ) (r : Request P), (s.finish p outcome).requests[q]? = some r →
      ∃ r', s.requests[q]? = some r' ∧ r'.Same r := by
    intro q r hr
    rw [Session.getElem?_finish] at hr
    obtain ⟨r', hr', rfl⟩ := Option.map_eq_some_iff.1 hr
    refine ⟨r', hr', ?_⟩
    unfold Request.settle
    split_ifs <;> exact ⟨rfl, rfl, rfl, rfl⟩
  refine ⟨Session.settling_finish hs.settling, fun q r hr ↦ ?_, fun q r hr ↦ ?_⟩
  · obtain ⟨r', hr', hsame⟩ := hrequest q r hr
    rw [Session.finish_eq, hsame.revision, hsame.provider]
    exact hs.captured q r' hr'
  · obtain ⟨r', hr', hsame⟩ := hrequest q r hr
    rw [hsame.timeoutMs]
    exact hs.limited q r' hr'

/-- Settling a request leaves the others, and a request that is settled already. -/
theorem requests_finish (p : ℕ) (outcome : Outcome) {q : ℕ} {r : Request P}
    (hr : s.requests[q]? = some r) :
    ∃ r', (s.finish p outcome).requests[q]? = some r' ∧ r.Same r' ∧
      (r.outcome.isSome → r'.outcome = r.outcome) := by
  refine ⟨_, by rw [Session.getElem?_finish, hr, Option.map_some], ?_, fun hsome ↦ ?_⟩
  · unfold Request.settle
    split_ifs <;> exact ⟨rfl, rfl, rfl, rfl⟩
  · simp [Request.settle, hsome]

/-- What resolves when a request is settled is that request, with that value. -/
theorem resolved_finish {q : ℕ} {value : Answered}
    (h : (s.finish p outcome).Resolved q value) (hnot : ¬s.Resolved q value) :
    q = p ∧ outcome = .resolved value ∧ ∃ r, s.requests[p]? = some r ∧ r.outcome = none := by
  obtain ⟨r, hr, hv⟩ := h
  rw [Session.getElem?_finish] at hr
  obtain ⟨r', hr', rfl⟩ := Option.map_eq_some_iff.1 hr
  have hunresolved : r'.outcome ≠ some (.resolved value) := fun heq ↦ hnot ⟨r', hr', heq⟩
  by_cases hq : q = p
  · subst hq
    rw [if_pos rfl] at hv
    cases hsettled : r'.outcome with
    | some outcome' =>
      rw [Request.settle, if_pos (hsettled ▸ rfl)] at hv
      exact absurd hv hunresolved
    | none =>
      rw [Request.settle, hsettled] at hv
      exact ⟨rfl, Option.some.inj hv, r', hr', hsettled⟩
  · rw [if_neg hq] at hv
    exact absurd hv hunresolved

/-- A rejection on top of a step. -/
theorem follows_reject {t : Session P} (h : Steps s t) : Follows s (t.finish p .rejected) := by
  have hfollows := h.follows
  refine ⟨inv_finish h.inv, ?_, ?_, ?_, fun q r hr ↦ ?_, fun q v hv hnot ↦ ?_⟩
  · rw [Session.finish_eq]
    exact hfollows.revision
  · rw [Session.finish_eq]
    exact hfollows.binds
  · rw [Session.finish_eq]
    exact hfollows.address
  · obtain ⟨r', hr', hsame, houtcome⟩ := hfollows.requests q r hr
    obtain ⟨r'', hr'', hsame', houtcome'⟩ := requests_finish p .rejected hr'
    refine ⟨r'', hr'', hsame.trans hsame', fun hsome ↦ ?_⟩
    have heq := houtcome hsome
    rw [houtcome' (heq ▸ hsome), heq]
  · have hnot' : ¬t.Resolved q v := fun ht ↦ hnot (h.evolves.resolved q v ht)
    obtain ⟨-, hne, -⟩ := resolved_finish hv hnot'
    cases hne

theorem rejects_reject {t : Session P} (h : Steps s t) : Rejects s (t.finish p .rejected) := by
  intro hlt q r hr
  rw [Session.finish_eq] at hlt
  obtain ⟨r', hr', hsame, houtcome⟩ := h.rejects hlt q r hr
  obtain ⟨r'', hr'', hsame', houtcome'⟩ := requests_finish p .rejected hr'
  exact ⟨r'', hr'', hsame.trans hsame', by rw [houtcome' (by rw [houtcome]; rfl), houtcome]⟩

/-- A handler moves on, and nothing else does. -/
theorem steps_setStage (hs : Inv s) (p : ℕ) (stage : Stage) : Steps s (s.setStage p stage) := by
  have hget : ∀ q, (s.setStage p stage).requests[q]? =
      (s.requests[q]?).map fun r ↦ if p = q then { r with stage } else r :=
    fun q ↦ List.getElem?_modify ..
  have hrequest : ∀ (q : ℕ) (r : Request P), (s.setStage p stage).requests[q]? = some r →
      ∃ r', s.requests[q]? = some r' ∧ r'.Same r ∧ r.outcome = r'.outcome := by
    intro q r hr
    rw [hget] at hr
    obtain ⟨r', hr', rfl⟩ := Option.map_eq_some_iff.1 hr
    refine ⟨r', hr', ?_⟩
    split_ifs <;> exact ⟨⟨rfl, rfl, rfl, rfl⟩, rfl⟩
  refine ⟨⟨⟨hs.settling.nodup, fun q hq ↦ ?_, fun q r hr ↦ ?_⟩, fun q r hr ↦ ?_, fun q r hr ↦ ?_⟩,
    ⟨le_refl _, le_refl _, fun _ ↦ rfl, fun _ _ ↦ rfl, fun q v hv ↦ ?_, fun q r hr ↦ ?_⟩⟩
  · show q < (s.requests.modify p _).length
    rw [List.length_modify]
    exact hs.settling.known q hq
  · obtain ⟨r', hr', -, houtcome⟩ := hrequest q r hr
    rw [houtcome]
    exact hs.settling.unsettled q r' hr'
  · obtain ⟨r', hr', hsame, -⟩ := hrequest q r hr
    rw [hsame.revision, hsame.provider]
    exact hs.captured q r' hr'
  · obtain ⟨r', hr', hsame, -⟩ := hrequest q r hr
    rw [hsame.timeoutMs]
    exact hs.limited q r' hr'
  · obtain ⟨r, hr, hv⟩ := hv
    obtain ⟨r', hr', -, houtcome⟩ := hrequest q r hr
    exact ⟨r', hr', houtcome ▸ hv⟩
  · refine ⟨_, by rw [hget, hr, Option.map_some], ?_, ?_⟩
    · split_ifs <;> exact ⟨rfl, rfl, rfl, rfl⟩
    · rw [if_pos (show (s.setStage p stage).revision = s.revision from rfl)]
      split_ifs <;> rfl

end Finish

/-! ### The steps of a promise -/

section Steps

variable {s : Session P} {notified : Meanwhile P} {p : ℕ}

theorem steps_timeout (hn : Good notified) (hs : Inv s) (p : ℕ) :
    Steps s (timeout notified p s) := by
  unfold timeout
  split
  · exact hs.steps_self
  · split
    · exact hs.steps_self
    · exact hn.invalidate s hs

/-- A handler that gives up rejects its request, after a step. -/
theorem giveUp_cases (hn : Good notified) (hs : Inv s) (p : ℕ) (r : Request P) :
    ∃ t, Steps s t ∧ giveUp notified p r s = t.finish p .rejected := by
  unfold giveUp
  split
  · exact ⟨_, hn.invalidate s hs, rfl⟩
  · exact ⟨_, hs.steps_self, rfl⟩

theorem rejected_cases (hn : Good notified) (hs : Inv s) (p : ℕ) :
    Steps s (rejected notified p s) ∨
      ∃ t, Steps s t ∧ rejected notified p s = t.finish p .rejected := by
  unfold rejected
  split
  · exact .inl hs.steps_self
  case h_2 r _ =>
    split
    · exact .inl hs.steps_self
    · have hstage := steps_setStage hs p .handled
      simp only
      split
      · exact .inl hstage
      · obtain ⟨t, ht, heq⟩ := giveUp_cases hn hstage.inv p r
        exact .inr ⟨t, hstage.trans ht, heq⟩

theorem steps_ask [DecidableEq P] {asking requesting : Meanwhile P} (hn : Good notified)
    (ha : Good asking) (hr : Good requesting) (hs : Inv s) (r : Request P) (now late : Reading)
    (current : Current P) :
    Steps s (left (ask notified r now late asking current requesting s)) := by
  refine steps_assertCurrent hn hs fun _ ↦ ?_
  split
  · exact hn.invalidate s hs
  · have hasked := ha s hs
    simp only
    split
    · exact hasked
    · exact hasked.trans (hr _ hasked.inv)

theorem steps_dispatch [DecidableEq P] {asking requesting : Meanwhile P} (hn : Good notified)
    (ha : Good asking) (hr : Good requesting) (hs : Inv s) (p : ℕ) (now late : Reading)
    (current : Current P) :
    Steps s (dispatch notified p now late asking current requesting s) := by
  unfold dispatch
  split
  · exact hs.steps_self
  case h_2 r _ =>
    split
    · exact hs.steps_self
    · have hasked := steps_ask hn ha hr hs r now late current
      split
      case h_1 s' heq =>
        rw [heq] at hasked
        exact hasked.trans (steps_setStage hasked.inv p .asked)
      case h_2 s' heq =>
        rw [heq] at hasked
        exact hasked.trans (steps_setStage hasked.inv p .failed)

theorem steps_checked [DecidableEq P] {asking : Meanwhile P} (hn : Good notified)
    (ha : Good asking) (hs : Inv s) (p : ℕ) (now : Reading) (current : Current P) :
    Steps s (checked notified p now asking current s) := by
  unfold checked
  split
  · exact hs.steps_self
  · split
    · exact hs.steps_self
    · split
      · exact hs.steps_self
      case h_2 r _ _ outcome _ =>
        have herased : Steps s { s with checks := s.checks.erase p } :=
          hs.steps_of_same rfl rfl rfl rfl (le_refl _) fun _ ↦ rfl
        refine herased.trans (steps_assertCurrent hn herased.inv fun _ ↦ ?_)
        cases outcome with
        | rejected => exact hn.invalidate _ herased.inv
        | resolved accounts =>
          have hasked := ha _ herased.inv
          cases current with
          | none => exact hasked
          | some current =>
            simp only
            split
            · exact hasked.trans (hn.invalidate _ hasked.inv)
            · exact hasked

/-! ### The moment a promise resolves -/

/-- What holds of a request at the moment its promise resolves. -/
structure Fenced (s s' : Session P) (r : Request P) (late now : Reading) (current : Current P) :
    Prop where
  revision : s.revision = r.revision ∧ s'.revision = r.revision
  provider : s.provider = some r.provider ∧ s'.provider = some r.provider
  current : current = some (some r.provider)
  deadline : s'.deadline = s.deadline ∧ ∀ d, s.deadline = some d → d.passed now = false
  wall : r.started.wall ≤ late.wall ∧ late.wall - r.started.wall < r.timeoutMs
  monotonic : r.started.monotonic ≤ late.monotonic ∧
    late.monotonic - r.started.monotonic < r.timeoutMs

/-- A reading that is not late is one of less than the timeout. -/
theorem lt_of_late_eq_false {r : Request P} {late : Reading}
    (hsafe : isSafeInteger r.timeoutMs = true) (hpos : 1 ≤ r.timeoutMs)
    (hlate : r.late late = false) :
    (r.started.wall ≤ late.wall ∧ late.wall - r.started.wall < r.timeoutMs) ∧
      r.started.monotonic ≤ late.monotonic ∧
        late.monotonic - r.started.monotonic < r.timeoutMs := by
  simp only [isSafeInteger, Bool.and_eq_true, decide_eq_true_eq] at hsafe
  have hnum : ((r.timeoutMs.num.toNat : ℕ) : ℚ) = r.timeoutMs := by
    have hnonneg : 0 ≤ r.timeoutMs.num := Rat.num_nonneg.2 (by linarith)
    have hcast : ((r.timeoutMs.num.toNat : ℕ) : ℤ) = r.timeoutMs.num := Int.toNat_of_nonneg hnonneg
    rw [← Int.cast_natCast, hcast]
    exact Rat.coe_int_num_of_den_eq_one hsafe.1
  have hlt : r.timeoutMs.num.toNat < 2 ^ 53 := by
    have hle := (le_abs_self r.timeoutMs).trans hsafe.2
    rw [← hnum] at hle
    have hle' : ((r.timeoutMs.num.toNat + 1 : ℕ) : ℚ) ≤ ((2 ^ 53 : ℕ) : ℚ) := by
      push_cast
      linarith
    exact_mod_cast hle'
  unfold Request.late at hlate
  simp only [Bool.or_eq_false_iff, decide_eq_false_iff_not, not_lt, not_le] at hlate
  obtain ⟨⟨⟨hwall, hmonotonic⟩, helapsed⟩, helapsed'⟩ := hlate
  rw [← hnum] at helapsed helapsed' ⊢
  exact ⟨⟨hwall, Numeric.lt_of_nearest_lt hlt helapsed⟩, hmonotonic,
    Numeric.lt_of_nearest_lt hlt helapsed'⟩

theorem assertCurrent_eq_ok {t : Session P} {revision : ℕ} {now : Reading}
    (h : assertCurrent notified revision now s = .ok t) : t = s ∧ Currently revision now s := by
  unfold assertCurrent at h
  split at h
  case isTrue => cases h
  case isFalse hrevision =>
    unfold expireIfNeeded at h
    split at h
    case h_1 hnone =>
      exact ⟨(Except.ok.inj h).symm, not_not.1 hrevision, fun d hd ↦ by rw [hnone] at hd; cases hd⟩
    case h_2 d hsome =>
      split at h
      case isTrue => cases h
      case isFalse hpassed =>
        refine ⟨(Except.ok.inj h).symm, not_not.1 hrevision, fun d' hd' ↦ ?_⟩
        obtain rfl := Option.some.inj (hsome.symm.trans hd')
        exact Bool.eq_false_iff.2 hpassed

/-- A confirmed answer comes after a step, with the checks made on the way. -/
theorem confirm_cases [DecidableEq P] {asking : Meanwhile P} (hn : Good notified)
    (ha : Good asking) (hs : Inv s) (r : Request P) (now : Reading) (current : Current P) :
    Steps s (left (confirm notified r now asking current s)) ∧
      ∀ t, confirm notified r now asking current s = .ok t →
        t = asking s ∧ Currently r.revision now s ∧ current = some (some r.provider) := by
  refine ⟨steps_assertCurrent hn hs fun _ ↦ ?_, fun t hok ↦ ?_⟩
  · have hasked := ha s hs
    cases current with
    | none => exact hasked
    | some current =>
      simp only
      split
      · exact hasked.trans (hn.invalidate _ hasked.inv)
      · exact hasked
  · unfold confirm at hok
    cases hassert : assertCurrent notified r.revision now s with
    | error t' =>
      rw [hassert] at hok
      cases hok
    | ok t' =>
      rw [hassert] at hok
      obtain ⟨rfl, hcurrently⟩ := assertCurrent_eq_ok hassert
      cases current with
      | none => cases hok
      | some current =>
        change (if _ then Except.error _ else Except.ok _) = _ at hok
        split at hok
        · cases hok
        case isFalse hcurrent =>
          simp only [isCurrent, Bool.not_eq_true', Bool.not_eq_false, Bool.and_eq_true,
            decide_eq_true_eq] at hcurrent
          exact ⟨(Except.ok.inj hok).symm, hcurrently, congrArg some hcurrent.2⟩

/-- What `fulfilled` comes to: a step, a rejection on top of one, or an answer that was confirmed. -/
theorem fulfilled_cases [DecidableEq P] {asking : Meanwhile P} (hn : Good notified)
    (ha : Good asking) (hw : Watched asking) (hs : Inv s) (p : ℕ) (value : Answered)
    (late now : Reading) (current : Current P) :
    Steps s (fulfilled notified p value late now asking current s) ∨
      (∃ t, Steps s t ∧
        fulfilled notified p value late now asking current s = t.finish p .rejected) ∨
      ∃ t r, Steps s t ∧
        fulfilled notified p value late now asking current s = t.finish p (.resolved value) ∧
        s.requests[p]? = some r ∧ Fenced s t r late now current := by
  unfold fulfilled
  split
  · exact .inl hs.steps_self
  case h_2 r hr =>
    split
    · exact .inl hs.steps_self
    · have hstage := steps_setStage hs p .handled
      simp only
      split
      · exact .inl hstage
      case isFalse hunsettled =>
        split
        · exact .inl (hstage.trans (hn.invalidate _ hstage.inv))
        case isFalse hlate =>
          obtain ⟨hconfirm, hok⟩ := confirm_cases hn ha hstage.inv r now current
          split
          case h_2 t heq =>
            rw [heq] at hconfirm
            obtain ⟨u, hu, hfinish⟩ := giveUp_cases hn hconfirm.inv p r
            exact .inr (.inl ⟨u, (hstage.trans hconfirm).trans hu, hfinish⟩)
          case h_1 t heq =>
            obtain ⟨rfl, hcurrently, hcurrent⟩ := hok t heq
            have hasked := hstage.trans (ha _ hstage.inv)
            by_cases hkept : (asking (s.setStage p .handled)).revision = s.revision
            · obtain ⟨observed, hwatched⟩ := hw _ hstage.inv hkept
              have hlimited := hs.limited p r hr
              have hprovider := (hs.captured p r hr).2 hcurrently.revision
              obtain ⟨hwall, hmonotonic⟩ := lt_of_late_eq_false hlimited.1 hlimited.2.1
                (Bool.eq_false_iff.2 hlate)
              exact .inr (.inr ⟨_, r, hasked, rfl, hr,
                { revision := ⟨hcurrently.revision.symm, hkept.trans hcurrently.revision.symm⟩
                  provider := ⟨hprovider, (hasked.evolves.provider hkept).trans hprovider⟩
                  current := hcurrent
                  deadline := ⟨by rw [hwatched]; rfl, hcurrently.deadline⟩
                  wall := hwall
                  monotonic := hmonotonic }⟩)
            · -- the promise was rejected meanwhile
              obtain ⟨r', hr', -, houtcome⟩ := hasked.evolves.requests p r hr
              rw [if_neg hkept] at houtcome
              refine .inl ?_
              rw [Session.finish_of_isSome hr' (by rw [houtcome]; rfl)]
              exact hasked

/-- A confirmed answer resolves its promise, and settles nothing else. -/
theorem follows_resolve {t : Session P} {r : Request P} (value : Answered) {late now : Reading}
    {current : Current P} (h : Steps s t) (hr : s.requests[p]? = some r)
    (hfenced : Fenced s t r late now current) :
    Follows s (t.finish p (.resolved value)) ∧ Rejects s (t.finish p (.resolved value)) ∧
      Fenced s (t.finish p (.resolved value)) r late now current := by
  have hrevision : (t.finish p (.resolved value)).revision = s.revision := by
    rw [Session.finish_eq]
    exact hfenced.revision.2.trans hfenced.revision.1.symm
  refine ⟨⟨inv_finish h.inv, hrevision.ge, ?_, ?_, fun q r' hr' ↦ ?_, fun q v hv hnot ↦ ?_⟩,
    fun hlt ↦ absurd hrevision hlt.ne', ?_⟩
  · rw [Session.finish_eq]
    exact h.evolves.binds
  · rw [Session.finish_eq]
    exact h.evolves.address
  · obtain ⟨r'', hr'', hsame, houtcome⟩ := h.follows.requests q r' hr'
    obtain ⟨r₃, hr₃, hsame', houtcome'⟩ :=
      requests_finish p (.resolved value) hr''
    refine ⟨r₃, hr₃, hsame.trans hsame', fun hsome ↦ ?_⟩
    have heq := houtcome hsome
    rw [houtcome' (heq ▸ hsome), heq]
  · have hnot' : ¬t.Resolved q v := fun ht ↦ hnot (h.evolves.resolved q v ht)
    obtain ⟨rfl, -, -⟩ := resolved_finish hv hnot'
    obtain ⟨r', hr', hsame, -⟩ := h.evolves.requests q r hr
    obtain ⟨r'', hr'', hsame', -⟩ := requests_finish q (.resolved value) hr'
    exact ⟨r'', hr'', by rw [hsame'.revision, hsame.revision, hfenced.revision.1]⟩
  · rw [Session.finish_eq]
    exact ⟨hfenced.revision, hfenced.provider, hfenced.current, hfenced.deadline, hfenced.wall,
      hfenced.monotonic⟩

end Steps

/-! ### Runs -/

section Runs

variable {s : Session P}

/-- What a task resolves is an answer of the wallet that was confirmed. -/
def Confirms (s s' : Session P) (task : Task P) : Prop :=
  ∀ (p : ℕ) (value : Answered), s'.Resolved p value → ¬s.Resolved p value →
    ∃ (late now : Reading) (asking : List (Fired P)) (current : Current P)
      (notified : List (Call P)) (r : Request P),
      task = .fulfilled p value late now asking current notified ∧
        s.requests[p]? = some r ∧ Fenced s s' r late now current

theorem Steps.confirms {s s' : Session P} (h : Steps s s') (task : Task P) : Confirms s s' task :=
  fun p v hv hnot ↦ absurd (h.evolves.resolved p v hv) hnot

theorem confirms_reject {t : Session P} (h : Steps s t) (p : ℕ) (task : Task P) :
    Confirms s (t.finish p .rejected) task := by
  intro q v hv hnot
  obtain ⟨-, hne, -⟩ := resolved_finish hv fun ht ↦ hnot (h.evolves.resolved q v ht)
  cases hne

/-- What one task does to a session. -/
structure Tasked (s s' : Session P) (task : Task P) : Prop where
  follows : Follows s s'
  rejects : Rejects s s'
  confirms : Confirms s s' task

theorem Steps.tasked {s s' : Session P} (h : Steps s s') (task : Task P) : Tasked s s' task :=
  ⟨h.follows, h.rejects, h.confirms task⟩

theorem tasked_reject {t : Session P} (h : Steps s t) (p : ℕ) (task : Task P) :
    Tasked s (t.finish p .rejected) task :=
  ⟨follows_reject h, rejects_reject h, confirms_reject h p task⟩

theorem inv_start : Inv (Session.start : Session P) := by
  refine ⟨⟨List.nodup_nil, fun p hp ↦ ?_, fun p r hr ↦ ?_⟩, fun p r hr ↦ ?_, fun p r hr ↦ ?_⟩
  · cases hp
  · cases hr
  · cases hr
  · cases hr

variable [DecidableEq P] (timeouts : RequestTimeouts)

theorem tasked_run (hs : Inv s) (task : Task P) : Tasked s (task.run timeouts s) task := by
  cases task with
  | call call => exact (good_perform timeouts call s hs).tasked _
  | event event => exact (good_fire timeouts event s hs).tasked _
  | timer p notified => exact (steps_timeout (good_performAll timeouts notified) hs p).tasked _
  | dispatch p now late asking current requesting notified =>
    exact (steps_dispatch (good_performAll timeouts notified) (good_fireAll timeouts asking)
      (good_fireAll timeouts requesting) hs p now late current).tasked _
  | checked p now asking current notified =>
    exact (steps_checked (good_performAll timeouts notified) (good_fireAll timeouts asking) hs p now
      current).tasked _
  | rejected p notified =>
    rcases rejected_cases (good_performAll timeouts notified) hs p with h | ⟨t, h, heq⟩
    · exact h.tasked _
    · rw [Task.run, heq]
      exact tasked_reject h p _
  | fulfilled p value late now asking current notified =>
    rcases fulfilled_cases (good_performAll timeouts notified) (good_fireAll timeouts asking)
      (watched_fireAll timeouts asking) hs p value late now current with
      h | ⟨t, h, heq⟩ | ⟨t, r, h, heq, hr, hfenced⟩
    · exact h.tasked _
    · rw [Task.run, heq]
      exact tasked_reject h p _
    · rw [Task.run, heq]
      obtain ⟨hfollows, hrejects, hfenced'⟩ := follows_resolve value h hr hfenced
      refine ⟨hfollows, hrejects, fun q v hv hnot ↦ ?_⟩
      obtain ⟨rfl, hvalue, -⟩ := resolved_finish hv fun ht ↦ hnot (h.evolves.resolved q v ht)
      obtain rfl := Outcome.resolved.inj hvalue
      exact ⟨late, now, asking, current, notified, r, rfl, hr, hfenced'⟩

theorem follows_runAll (hs : Inv s) (tasks : List (Task P)) :
    Follows s (runAll timeouts tasks s) := by
  induction tasks generalizing s with
  | nil => exact hs.steps_self.follows
  | cons task tasks ih =>
    have htask := (tasked_run timeouts hs task).follows
    exact htask.trans (ih htask.inv)

/-- **The fence of the wallet session.** Wherever a run of calls, events, timers and answers has
come to: what the next task resolves is a confirmed answer of a request of the session as it
stands; a task that raises the revision, and a disposal always does, rejects whatever was pending;
from then on no request of an earlier revision resolves; and unless an account is bound or the
revision rises, the address stays. -/
theorem session_fence (tasks : List (Task P)) :
    let s : Session P := runAll timeouts tasks .start
    (∀ task : Task P, Confirms s (task.run timeouts s) task ∧ Rejects s (task.run timeouts s)) ∧
    s.revision < s.dispose.revision ∧ Rejects s s.dispose ∧
    (∀ notified : List (Call P),
      s.revision < (perform timeouts (.invalidate notified) s).revision) ∧
    ∀ later : List (Task P),
      let s' := runAll timeouts later s
      (∀ (p : ℕ) (r : Request P), s.requests[p]? = some r →
        ∃ r', s'.requests[p]? = some r' ∧ r.Same r' ∧
          (r.outcome.isSome → r'.outcome = r.outcome)) ∧
      (∀ (p : ℕ) (value : Answered), s'.Resolved p value → ¬s.Resolved p value →
        ∃ r, s'.requests[p]? = some r ∧ s.revision ≤ r.revision) ∧
      (s'.revision = s.revision → s'.binds = s.binds → s'.address = s.address) := by
  intro s
  have hs : Inv s := (follows_runAll timeouts inv_start tasks).inv
  have hdispose : s.dispose.revision = s.revision + 1 := by rw [Session.dispose_eq]
  refine ⟨fun task ↦ ?_, by omega, (steps_dispose hs).rejects, fun notified ↦ ?_, fun later ↦ ?_⟩
  · have htask := tasked_run timeouts hs task
    exact ⟨htask.confirms, htask.rejects⟩
  · rw [perform]
    exact lt_invalidate (good_performAll timeouts notified) hs
  · have hlater := follows_runAll timeouts hs later
    exact ⟨hlater.requests, hlater.resolved, hlater.address⟩

end Runs

/-! ### A sample -/

/-- A wallet is attached, and asked for its account. -/
def sampleTasks : List (Task ℕ) :=
  [.call (.attach 7 true [] true),
    .call (.request 1 .ethRequestAccounts ⟨1000, 5⟩ [] (some (some 7)) ⟨1000, 5⟩ []),
    .dispatch 0 ⟨1000, 5⟩ ⟨1000, 5⟩ [] (some (some 7)) [] []]

/-- The wallet answers at once. -/
def sampleAnswer : Task ℕ :=
  .fulfilled 0 .other ⟨1000, 5⟩ ⟨1000, 5⟩ [] (some (some 7)) []

/-- The outcome is the answer of the sample. -/
def isOther (r : Request ℕ) : Bool :=
  match r.outcome with
  | some (.resolved .other) => true
  | _ => false

theorem session_fence_sample :
    let s : Session ℕ := runAll ⟨10000, 120000⟩ sampleTasks .start
    ∃ r : Request ℕ, s.requests[0]? = some r ∧
      Fenced s (sampleAnswer.run ⟨10000, 120000⟩ s) r ⟨1000, 5⟩ ⟨1000, 5⟩ (some (some 7)) := by
  intro s
  have hresolved : ((sampleAnswer.run ⟨10000, 120000⟩ s).requests[0]?).map isOther = some true := by
    decide +kernel
  have hpending : (s.requests[0]?).map (fun r ↦ r.outcome.isSome) = some false := by decide +kernel
  obtain ⟨r', hr', houtcome'⟩ := Option.map_eq_some_iff.1 hresolved
  obtain ⟨r, hr, houtcome⟩ := Option.map_eq_some_iff.1 hpending
  obtain ⟨late, now, asking, current, notified, r₀, htask, hr₀, hfenced⟩ :=
    ((session_fence ⟨10000, 120000⟩ sampleTasks).1 sampleAnswer).1 0 .other
      ⟨r', hr', by
        rw [isOther] at houtcome'
        split at houtcome' <;> first | assumption | cases houtcome'⟩
      (by
        rintro ⟨r'', hr'', hv⟩
        obtain rfl := Option.some.inj (hr.symm.trans hr'')
        rw [hv] at houtcome
        cases houtcome)
  cases htask
  exact ⟨r₀, hr₀, hfenced⟩

end Proofmark.Wallet
