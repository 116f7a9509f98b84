import Proofmark.Pipeline.WalletSession

/-!
# What the wallet session fences off

Whatever is called, fired or answered, a session only moves forward (`Evolves`): its revision never
falls, and within one revision its provider stays, its address stays unless an account is bound, and
no request is settled by a call. A step of the revision settles every request that was pending.
-/

namespace Proofmark.Wallet

variable {P : Type}

/-! ### Settling -/

/-- The pending requests are those that are not settled. -/
structure Settling (s : Session P) : Prop where
  nodup : s.pending.Nodup
  known : ∀ p ∈ s.pending, p < s.requests.length
  unsettled : ∀ p r, s.requests[p]? = some r → (r.outcome = none ↔ p ∈ s.pending)

/-- A request after it is settled once more. -/
def Request.settle (r : Request P) (outcome : Outcome) : Request P :=
  if r.outcome.isSome then r else { r with outcome := some outcome }

theorem Request.settle_settle (r : Request P) (outcome outcome' : Outcome) :
    (r.settle outcome).settle outcome' = r.settle outcome := by
  by_cases h : r.outcome.isSome <;> simp [Request.settle, h]

namespace Session

variable {s : Session P} {p : ℕ} {outcome : Outcome}

/-- Settling a request touches nothing else. -/
theorem finish_eq (s : Session P) (p : ℕ) (outcome : Outcome) :
    s.finish p outcome = { s with
      pending := (s.finish p outcome).pending
      requests := (s.finish p outcome).requests } := by
  unfold finish
  split
  · rfl
  · split <;> rfl

theorem getElem?_finish (s : Session P) (p q : ℕ) (outcome : Outcome) :
    (s.finish p outcome).requests[q]? =
      (s.requests[q]?).map fun r ↦ if q = p then r.settle outcome else r := by
  unfold finish
  split
  case h_1 hnone =>
    by_cases hq : q = p
    · rw [hq, hnone, Option.map_none]
    · simp [hq]
  case h_2 r hr =>
    have hp : p < s.requests.length := (List.getElem?_eq_some_iff.1 hr).1
    by_cases hq : q = p
    · subst hq
      split
      case isTrue hsome => simp [hr, Request.settle, hsome]
      case isFalse hnone =>
        show (s.requests.set q _)[q]? = _
        rw [List.getElem?_set_self hp, hr, Option.map_some, if_pos rfl, Request.settle,
          if_neg hnone]
    · simp only [hq, if_false, Option.map_id']
      split
      · rfl
      · exact List.getElem?_set_ne (Ne.symm hq)

theorem length_finish (s : Session P) (p : ℕ) (outcome : Outcome) :
    (s.finish p outcome).requests.length = s.requests.length := by
  unfold finish
  split
  · rfl
  · split
    · rfl
    · exact List.length_set ..

theorem pending_finish (s : Session P) (p : ℕ) (outcome : Outcome) :
    (s.finish p outcome).pending = s.pending ∨
      (s.finish p outcome).pending = s.pending.erase p := by
  unfold finish
  split
  · exact .inl rfl
  · split
    · exact .inl rfl
    · exact .inr rfl

theorem getElem?_finish_self {r : Request P} (hr : s.requests[p]? = some r) :
    (s.finish p outcome).requests[p]? = some (r.settle outcome) := by
  rw [getElem?_finish, hr, Option.map_some, if_pos rfl]

theorem getElem?_finish_of_ne {q : ℕ} (h : q ≠ p) :
    (s.finish p outcome).requests[q]? = s.requests[q]? := by
  rw [getElem?_finish]
  simp [h]

/-- A request that is settled stays as it is. -/
theorem finish_of_isSome {r : Request P} (hr : s.requests[p]? = some r) (h : r.outcome.isSome) :
    s.finish p outcome = s := by
  rw [finish, hr]
  exact if_pos h

theorem settling_finish (h : Settling s) : Settling (s.finish p outcome) := by
  by_cases hp : p ∈ s.pending
  · obtain ⟨r, hr⟩ : ∃ r, s.requests[p]? = some r := ⟨_, List.getElem?_eq_getElem (h.known p hp)⟩
    have hnone : r.outcome = none := (h.unsettled p r hr).2 hp
    have hpending : (s.finish p outcome).pending = s.pending.erase p := by
      rw [finish, hr]
      simp [hnone]
    refine ⟨hpending ▸ h.nodup.erase p, fun q hq ↦ ?_, fun q r' hr' ↦ ?_⟩
    · rw [length_finish]
      exact h.known q (List.mem_of_mem_erase (hpending ▸ hq))
    · rw [hpending, h.nodup.mem_erase_iff]
      by_cases hq : q = p
      · subst hq
        rw [getElem?_finish_self hr] at hr'
        obtain rfl := Option.some.inj hr'
        simp [Request.settle, hnone]
      · rw [getElem?_finish_of_ne hq] at hr'
        simp [h.unsettled q r' hr', hq]
  · have hsame : s.finish p outcome = s := by
      cases hr : s.requests[p]? with
      | none => rw [finish, hr]
      | some r =>
        refine finish_of_isSome hr ?_
        rw [Option.isSome_iff_ne_none]
        exact fun hnone ↦ hp ((h.unsettled p r hr).1 hnone)
    rw [hsame]
    exact h

/-! ### Disposal -/

/-- The requests of some places are settled, one after another. -/
def finishAll (s : Session P) (l : List ℕ) (outcome : Outcome) : Session P :=
  l.foldl (fun s p ↦ s.finish p outcome) s

theorem finishAll_eq (s : Session P) (l : List ℕ) (outcome : Outcome) :
    s.finishAll l outcome = { s with
      pending := (s.finishAll l outcome).pending
      requests := (s.finishAll l outcome).requests } := by
  induction l generalizing s with
  | nil => rfl
  | cons p l ih =>
    show (s.finish p outcome).finishAll l outcome = { s with
      pending := ((s.finish p outcome).finishAll l outcome).pending
      requests := ((s.finish p outcome).finishAll l outcome).requests }
    rw [ih, finish_eq]

theorem getElem?_finishAll (s : Session P) (l : List ℕ) (q : ℕ) (outcome : Outcome) :
    (s.finishAll l outcome).requests[q]? =
      (s.requests[q]?).map fun r ↦ if q ∈ l then r.settle outcome else r := by
  induction l generalizing s with
  | nil => simp [finishAll]
  | cons p l ih =>
    show ((s.finish p outcome).finishAll l outcome).requests[q]? = _
    rw [ih, getElem?_finish, Option.map_map]
    refine congrArg (Option.map · s.requests[q]?) (funext fun r ↦ ?_)
    by_cases hq : q = p
    · simp [hq, Request.settle_settle]
    · simp [hq]

theorem settling_finishAll (l : List ℕ) (outcome : Outcome) (h : Settling s) :
    Settling (s.finishAll l outcome) := by
  induction l generalizing s with
  | nil => exact h
  | cons p l ih => exact ih (settling_finish h)

theorem length_finishAll (s : Session P) (l : List ℕ) (outcome : Outcome) :
    (s.finishAll l outcome).requests.length = s.requests.length := by
  induction l generalizing s with
  | nil => rfl
  | cons p l ih => exact (ih (s.finish p outcome)).trans (length_finish s p outcome)

/-- The session while it is disposed of, before its pending requests are cancelled. -/
def moved (s : Session P) : Session P :=
  { s with revision := s.revision + 1, deadline := none }

theorem dispose_eq (s : Session P) : s.dispose = { s with
    revision := s.revision + 1
    deadline := none
    pending := s.dispose.pending
    requests := s.dispose.requests
    provider := none
    address := none
    observed := none } := by
  have h := finishAll_eq s.moved s.pending .rejected
  show { s.moved.finishAll s.pending .rejected with
    provider := none, address := none, observed := none } = _
  conv_lhs => rw [h]
  rfl

theorem getElem?_dispose (s : Session P) (q : ℕ) :
    s.dispose.requests[q]? =
      (s.requests[q]?).map fun r ↦ if q ∈ s.pending then r.settle .rejected else r :=
  getElem?_finishAll s.moved s.pending q .rejected

theorem length_dispose (s : Session P) : s.dispose.requests.length = s.requests.length :=
  length_finishAll s.moved s.pending .rejected

/-- **Disposal settles every request.** -/
theorem settled_dispose (h : Settling s) {q : ℕ} {r : Request P}
    (hr : s.dispose.requests[q]? = some r) : r.outcome.isSome := by
  rw [getElem?_dispose] at hr
  obtain ⟨r', hr', rfl⟩ := Option.map_eq_some_iff.1 hr
  split
  case isTrue => by_cases hsome : r'.outcome.isSome <;> simp [Request.settle, hsome]
  case isFalse hq =>
    rw [Option.isSome_iff_ne_none]
    exact fun hnone ↦ hq ((h.unsettled q r' hr').1 hnone)

theorem settling_dispose (h : Settling s) : Settling s.dispose :=
  let hmoved : Settling s.moved := ⟨h.nodup, h.known, h.unsettled⟩
  let hfinished := settling_finishAll s.pending .rejected hmoved
  ⟨hfinished.nodup, hfinished.known, hfinished.unsettled⟩

end Session

/-! ### The invariant, and how a session evolves -/

/-- What two states of a request have in common. -/
structure Request.Same (r r' : Request P) : Prop where
  revision : r'.revision = r.revision
  provider : r'.provider = r.provider
  timeoutMs : r'.timeoutMs = r.timeoutMs
  started : r'.started = r.started

theorem Request.Same.refl (r : Request P) : r.Same r :=
  ⟨rfl, rfl, rfl, rfl⟩

theorem Request.Same.trans {r r' r'' : Request P} (h : r.Same r') (h' : r'.Same r'') :
    r.Same r'' :=
  ⟨h'.revision.trans h.revision, h'.provider.trans h.provider, h'.timeoutMs.trans h.timeoutMs,
    h'.started.trans h.started⟩

/-- The promise of a request resolved with a value. -/
def Session.Resolved (s : Session P) (p : ℕ) (value : Answered) : Prop :=
  ∃ r, s.requests[p]? = some r ∧ r.outcome = some (.resolved value)

/-- A request of the session's revision is one of its provider. -/
structure Inv (s : Session P) : Prop where
  settling : Settling s
  captured : ∀ (p : ℕ) (r : Request P), s.requests[p]? = some r →
    r.revision ≤ s.revision ∧ (r.revision = s.revision → s.provider = some r.provider)
  limited : ∀ (p : ℕ) (r : Request P), s.requests[p]? = some r →
    isSafeInteger r.timeoutMs = true ∧ 1 ≤ r.timeoutMs ∧ r.timeoutMs ≤ 120000

/-- What one state of a session says of a later one. -/
structure Evolves (s s' : Session P) : Prop where
  revision : s.revision ≤ s'.revision
  binds : s.binds ≤ s'.binds
  provider : s'.revision = s.revision → s'.provider = s.provider
  address : s'.revision = s.revision → s'.binds = s.binds → s'.address = s.address
  /-- no promise resolves -/
  resolved : ∀ (p : ℕ) (value : Answered), s'.Resolved p value → s.Resolved p value
  /-- a step of the revision rejects what is pending, and nothing else is settled -/
  requests : ∀ (p : ℕ) (r : Request P), s.requests[p]? = some r →
    ∃ r', s'.requests[p]? = some r' ∧ r.Same r' ∧
      r'.outcome = if s'.revision = s.revision then r.outcome else some (r.outcome.getD .rejected)

theorem Evolves.refl (s : Session P) : Evolves s s :=
  ⟨le_refl _, le_refl _, fun _ ↦ rfl, fun _ _ ↦ rfl, fun _ _ h ↦ h,
    fun _ r hr ↦ ⟨r, hr, .refl r, (if_pos rfl).symm⟩⟩

theorem Evolves.trans {s t u : Session P} (h : Evolves s t) (h' : Evolves t u) : Evolves s u := by
  have hrevision : u.revision = s.revision → t.revision = s.revision ∧ u.revision = t.revision := by
    have hst := h.revision
    have htu := h'.revision
    omega
  refine ⟨h.revision.trans h'.revision, h.binds.trans h'.binds, fun heq ↦ ?_, fun heq hbinds ↦ ?_,
    fun p v hv ↦ h.resolved p v (h'.resolved p v hv), fun p r hr ↦ ?_⟩
  · obtain ⟨hst, htu⟩ := hrevision heq
    rw [h'.provider htu, h.provider hst]
  · obtain ⟨hst, htu⟩ := hrevision heq
    have hb := h.binds
    have hb' := h'.binds
    rw [h'.address htu (by omega), h.address hst (by omega)]
  · obtain ⟨r', hr', hsame, houtcome⟩ := h.requests p r hr
    obtain ⟨r'', hr'', hsame', houtcome'⟩ := h'.requests p r' hr'
    refine ⟨r'', hr'', hsame.trans hsame', ?_⟩
    rw [houtcome', houtcome]
    by_cases hst : t.revision = s.revision
    · simp [hst]
    · have hsu : u.revision ≠ s.revision := fun heq ↦ hst (hrevision heq).1
      simp [hst, hsu]

/-- The invariant is kept and the session evolves. -/
structure Steps (s s' : Session P) : Prop where
  inv : Inv s'
  evolves : Evolves s s'

theorem Steps.trans {s t u : Session P} (h : Steps s t) (h' : Steps t u) : Steps s u :=
  ⟨h'.inv, h.evolves.trans h'.evolves⟩

theorem Inv.steps_self {s : Session P} (h : Inv s) : Steps s s :=
  ⟨h, .refl s⟩

/-- What keeps the revision, the provider and the requests is a step, where the address changes by a
binding only. -/
theorem Inv.steps_of_same {s s' : Session P} (h : Inv s) (hrevision : s'.revision = s.revision)
    (hprovider : s'.provider = s.provider) (hpending : s'.pending = s.pending)
    (hrequests : s'.requests = s.requests) (hbinds : s.binds ≤ s'.binds)
    (haddress : s'.binds = s.binds → s'.address = s.address) : Steps s s' where
  inv :=
    { settling := ⟨hpending ▸ h.settling.nodup, hpending ▸ hrequests ▸ h.settling.known,
        hpending ▸ hrequests ▸ h.settling.unsettled⟩
      captured := by
        rw [hrequests, hrevision, hprovider]
        exact h.captured
      limited := by
        rw [hrequests]
        exact h.limited }
  evolves :=
    ⟨hrevision.ge, hbinds, fun _ ↦ hprovider, fun _ ↦ haddress,
      fun _ _ ⟨r, hr, hv⟩ ↦ ⟨r, hrequests ▸ hr, hv⟩,
      fun _ r hr ↦ ⟨r, hrequests ▸ hr, .refl r, (if_pos hrevision).symm⟩⟩

/-- What every callback does to a session. -/
def Good (f : Meanwhile P) : Prop :=
  ∀ s, Inv s → Steps s (f s)

theorem steps_dispose {s : Session P} (h : Inv s) : Steps s s.dispose := by
  have hrevision : s.dispose.revision = s.revision + 1 := by rw [Session.dispose_eq]
  have hrequest : ∀ (p : ℕ) (r : Request P), s.dispose.requests[p]? = some r →
      ∃ r', s.requests[p]? = some r' ∧ r'.Same r := by
    intro p r hr
    rw [Session.getElem?_dispose] at hr
    obtain ⟨r', hr', rfl⟩ := Option.map_eq_some_iff.1 hr
    refine ⟨r', hr', ?_⟩
    unfold Request.settle
    split_ifs <;> exact ⟨rfl, rfl, rfl, rfl⟩
  refine ⟨⟨Session.settling_dispose h.settling, fun p r hr ↦ ?_, fun p r hr ↦ ?_⟩,
    ⟨by omega, by rw [Session.dispose_eq], fun heq ↦ absurd heq (by omega),
      fun heq ↦ absurd heq (by omega), fun p v hv ↦ ?_, fun p r hr ↦ ?_⟩⟩
  · obtain ⟨r', hr', hsame⟩ := hrequest p r hr
    have hle := (h.captured p r' hr').1
    rw [hsame.revision]
    exact ⟨by omega, fun heq ↦ absurd heq (by omega)⟩
  · obtain ⟨r', hr', hsame⟩ := hrequest p r hr
    rw [hsame.timeoutMs]
    exact h.limited p r' hr'
  · obtain ⟨r, hr, hv⟩ := hv
    rw [Session.getElem?_dispose] at hr
    obtain ⟨r', hr', rfl⟩ := Option.map_eq_some_iff.1 hr
    refine ⟨r', hr', ?_⟩
    unfold Request.settle at hv
    split_ifs at hv
    · exact hv
    · cases hv
    · exact hv
  · have hget := Session.getElem?_dispose s p
    rw [hr, Option.map_some] at hget
    obtain ⟨r', hr', hsame⟩ := hrequest p _ hget
    obtain rfl := Option.some.inj (hr.symm.trans hr')
    refine ⟨_, hget, hsame, ?_⟩
    have hmoved : s.dispose.revision ≠ s.revision := by omega
    rw [if_neg hmoved]
    by_cases hp : p ∈ s.pending
    · have hnone := (h.settling.unsettled p r hr).2 hp
      simp [hp, Request.settle, hnone]
    · obtain ⟨outcome, hsome⟩ := Option.ne_none_iff_exists'.1
        fun hnone ↦ hp ((h.settling.unsettled p r hr).1 hnone)
      simp [hp, hsome]

section Methods

variable {s : Session P} {notified : Meanwhile P}

theorem Good.invalidate (hn : Good notified) : Good (Wallet.invalidate notified) :=
  fun _ hs ↦ (steps_dispose hs).trans (hn _ (steps_dispose hs).inv)

theorem lt_invalidate (hn : Good notified) (hs : Inv s) :
    s.revision < (invalidate notified s).revision := by
  have hle := (hn _ (steps_dispose hs).inv).evolves.revision
  have hrevision : s.dispose.revision = s.revision + 1 := by rw [Session.dispose_eq]
  show s.revision < (notified s.dispose).revision
  omega

/-- What `assertCurrent` asserts. -/
structure Currently (revision : ℕ) (now : Reading) (s : Session P) : Prop where
  revision : revision = s.revision
  deadline : ∀ d, s.deadline = some d → d.passed now = false

theorem steps_expireIfNeeded (hn : Good notified) (hs : Inv s) (now : Reading) :
    Steps s (left (expireIfNeeded notified now s)) := by
  unfold expireIfNeeded
  split
  · exact hs.steps_self
  · split
    · exact hn.invalidate s hs
    · exact hs.steps_self

theorem steps_left_assertCurrent (hn : Good notified) (hs : Inv s) (revision : ℕ) (now : Reading) :
    Steps s (left (assertCurrent notified revision now s)) := by
  unfold assertCurrent
  split
  · exact hs.steps_self
  · exact steps_expireIfNeeded hn hs now

/-- **What asserts that it is current goes on from where it was**, or ends. -/
theorem steps_assertCurrent (hn : Good notified) (hs : Inv s) {revision : ℕ} {now : Reading}
    {k : Session P → Except (Session P) (Session P)}
    (hk : Currently revision now s → Steps s (left (k s))) :
    Steps s (left (assertCurrent notified revision now s >>= k)) := by
  unfold assertCurrent
  split
  case isTrue => exact hs.steps_self
  case isFalse hrevision =>
    have hsteps := steps_expireIfNeeded hn hs now
    unfold expireIfNeeded at hsteps ⊢
    cases hd : s.deadline with
    | none => exact hk ⟨not_not.1 hrevision, fun d hd' ↦ by rw [hd] at hd'; cases hd'⟩
    | some d =>
      simp only [hd] at hsteps ⊢
      split
      case isTrue hpassed =>
        rw [if_pos hpassed] at hsteps
        exact hsteps
      case isFalse hpassed =>
        refine hk ⟨not_not.1 hrevision, fun d' hd' ↦ ?_⟩
        obtain rfl := Option.some.inj (hd.symm.trans hd')
        exact Bool.eq_false_iff.2 hpassed

theorem steps_bind (hn : Good notified) (hs : Inv s) (revision : ℕ) (accounts : Answered)
    (now : Reading) : Steps s (left (Wallet.bind notified revision accounts now s)) := by
  refine steps_assertCurrent hn hs fun _ ↦ ?_
  split
  · exact hn.invalidate s hs
  · split
    · exact hn.invalidate s hs
    · exact hs.steps_of_same rfl rfl rfl rfl (Nat.le_succ _) fun h ↦ absurd h (Nat.succ_ne_self _)

theorem steps_authorize (hn : Good notified) (hs : Inv s) (revision : ℕ) (timing : Timing)
    (started now again : Reading) :
    Steps s (left (authorize notified revision timing started now again s)) := by
  refine steps_assertCurrent hn hs fun _ ↦ ?_
  split
  · exact hn.invalidate s hs
  · rename_i remaining _
    have hset : Steps s { s with
        deadline := some ⟨started.wall + remaining, Numeric.add started.monotonic remaining,
          started.wall, started.monotonic⟩ } :=
      hs.steps_of_same rfl rfl rfl rfl (le_refl _) fun _ ↦ rfl
    exact hset.trans (steps_left_assertCurrent hn hset.inv revision again)

/-- A disposed session has requests of earlier revisions only. -/
theorem lt_dispose (hs : Inv s) {p : ℕ} {r : Request P} (hr : s.dispose.requests[p]? = some r) :
    r.revision < s.dispose.revision := by
  have hrevision : s.dispose.revision = s.revision + 1 := by rw [Session.dispose_eq]
  rw [Session.getElem?_dispose] at hr
  obtain ⟨r', hr', rfl⟩ := Option.map_eq_some_iff.1 hr
  have hle := (hs.captured p r' hr').1
  unfold Request.settle
  split_ifs
  · omega
  · show r'.revision < _
    omega
  · omega

theorem steps_attach {registering : Meanwhile P} (hr : Good registering) (hs : Inv s) (provider : P)
    (eventful registered : Bool) :
    Steps s (left (attach provider eventful registering registered s)) := by
  have hdispose := steps_dispose hs
  have hrevision : s.dispose.revision = s.revision + 1 := by rw [Session.dispose_eq]
  have hattached : Steps s { s.dispose with
      provider := some provider
      address := none
      observed := none
      listeners := s.dispose.listeners ++ [(s.dispose.revision, provider)] } := by
    refine ⟨⟨⟨hdispose.inv.settling.nodup, hdispose.inv.settling.known,
        hdispose.inv.settling.unsettled⟩, fun p r hr ↦ ?_, hdispose.inv.limited⟩,
      ⟨hdispose.evolves.revision, hdispose.evolves.binds, fun heq ↦ ?_, fun heq ↦ ?_,
        hdispose.evolves.resolved, hdispose.evolves.requests⟩⟩
    · have hlt := lt_dispose hs hr
      exact ⟨hlt.le, fun heq ↦ absurd heq hlt.ne⟩
    · have hsame : s.dispose.revision = s.revision := heq
      omega
    · have hsame : s.dispose.revision = s.revision := heq
      omega
  unfold attach
  split
  · exact hdispose
  · have hregistering := hattached.trans (hr _ hattached.inv)
    split
    · exact hregistering
    · exact hregistering.trans (steps_dispose hregistering.inv)

theorem notice_cases (notified : Meanwhile P) [DecidableEq P] (listener : ℕ) (event : WalletEvent)
    (s : Session P) :
    ∃ observed, notice notified listener event s = { s with observed := observed } ∨
      notice notified listener event s =
        invalidate notified { s with observed := observed } := by
  unfold notice
  split
  · exact ⟨s.observed, .inl rfl⟩
  · split
    · exact ⟨s.observed, .inl rfl⟩
    · cases event with
      | accountsChanged value =>
        refine ⟨some (first value), ?_⟩
        simp only
        split
        · exact .inr rfl
        · exact .inl rfl
      | chainChanged => exact ⟨s.observed, .inr rfl⟩
      | disconnect => exact ⟨s.observed, .inr rfl⟩

theorem steps_observed (hs : Inv s) (observed : Option (Option Pipeline.Text)) :
    Steps s { s with observed := observed } :=
  hs.steps_of_same rfl rfl rfl rfl (le_refl _) fun _ ↦ rfl

/-- A request is made, with the provider of its revision. -/
theorem steps_made (hs : Inv s) {revision : ℕ} {provider : P} {timeoutMs : ℚ} {started : Reading}
    (hrevision : revision ≤ s.revision)
    (hprovider : revision = s.revision → s.provider = some provider)
    (htimeout : isSafeInteger timeoutMs = true ∧ 1 ≤ timeoutMs ∧ timeoutMs ≤ 120000) :
    Steps s { s with
      pending := s.pending ++ [s.requests.length]
      requests := s.requests ++ [⟨revision, provider, timeoutMs, started, .queued, none⟩] } := by
  have hnew : s.requests.length ∉ s.pending := fun hmem ↦
    absurd (hs.settling.known _ hmem) (lt_irrefl _)
  have hget : ∀ (p : ℕ) (r : Request P),
      (s.requests ++ [⟨revision, provider, timeoutMs, started, .queued, none⟩])[p]? = some r →
      s.requests[p]? = some r ∨ p = s.requests.length ∧
        r = ⟨revision, provider, timeoutMs, started, .queued, none⟩ := by
    intro p r hr
    rcases lt_trichotomy p s.requests.length with hp | rfl | hp
    · rw [List.getElem?_append_left hp] at hr
      exact .inl hr
    · rw [List.getElem?_concat_length] at hr
      exact .inr ⟨rfl, (Option.some.inj hr).symm⟩
    · rw [List.getElem?_eq_none (by rw [List.length_append]; exact hp)] at hr
      cases hr
  have hlt : ∀ (p : ℕ) (r : Request P), s.requests[p]? = some r → p < s.requests.length :=
    fun p r hr ↦ (List.getElem?_eq_some_iff.1 hr).1
  refine ⟨⟨⟨?_, fun p hp ↦ ?_, fun p r hr ↦ ?_⟩, fun p r hr ↦ ?_, fun p r hr ↦ ?_⟩,
    ⟨le_refl _, le_refl _, fun _ ↦ rfl, fun _ _ ↦ rfl, fun p v hv ↦ ?_, fun p r hr ↦ ?_⟩⟩
  · exact List.concat_eq_append ▸ hs.settling.nodup.concat hnew
  · simp only [List.length_append, List.length_singleton]
    rcases List.mem_append.1 hp with hp | hp
    · exact (hs.settling.known p hp).trans (Nat.lt_succ_self _)
    · rw [List.mem_singleton.1 hp]
      exact Nat.lt_succ_self _
  · rw [List.mem_append, List.mem_singleton]
    rcases hget p r hr with hold | ⟨rfl, rfl⟩
    · have hne : p ≠ s.requests.length := (hlt p r hold).ne
      simp [hs.settling.unsettled p r hold, hne]
    · simp
  · rcases hget p r hr with hold | ⟨-, rfl⟩
    · exact hs.captured p r hold
    · exact ⟨hrevision, hprovider⟩
  · rcases hget p r hr with hold | ⟨-, rfl⟩
    · exact hs.limited p r hold
    · exact htimeout
  · obtain ⟨r, hr, hv⟩ := hv
    rcases hget p r hr with hold | ⟨-, rfl⟩
    · exact ⟨r, hold, hv⟩
    · cases hv
  · refine ⟨r, ?_, .refl r, (if_pos rfl).symm⟩
    show (s.requests ++ _)[p]? = some r
    rw [List.getElem?_append_left (hlt p r hr), hr]

variable [DecidableEq P]

theorem Good.notice (hn : Good notified) (listener : ℕ) (event : WalletEvent) :
    Good (Wallet.notice notified listener event) := by
  intro s hs
  obtain ⟨observed, h | h⟩ := notice_cases notified listener event s
  · rw [h]
    exact steps_observed hs observed
  · rw [h]
    exact (steps_observed hs observed).trans (hn.invalidate _ (steps_observed hs observed).inv)

theorem steps_request (timeouts : RequestTimeouts) {asking : Meanwhile P} (hn : Good notified)
    (ha : Good asking) (hs : Inv s) (revision : ℕ) (method : Method) (now : Reading)
    (current : Current P) (started : Reading) :
    Steps s (left (request notified timeouts revision method now asking current started s)) := by
  refine steps_assertCurrent hn hs fun hcurrent ↦ ?_
  split
  · exact hn.invalidate s hs
  case h_2 provider hprovider =>
    have hasked := ha s hs
    cases current with
    | none => exact hasked
    | some current =>
      simp only
      split
      · exact hasked.trans (hn.invalidate _ hasked.inv)
      · generalize (if method = .ethAccounts then timeouts.account else timeouts.prompt) = timeoutMs
        split
        · exact hasked
        case isFalse hlimits =>
          simp only [not_or, not_lt, Bool.not_eq_true', Bool.not_eq_false] at hlimits
          refine hasked.trans (steps_made hasked.inv (hcurrent.revision ▸ hasked.evolves.revision)
            (fun heq ↦ ?_) hlimits.2)
          rw [hasked.evolves.provider (heq.symm.trans hcurrent.revision), hprovider]

theorem steps_check {timeouts : RequestTimeouts} {asking askingAgain : Meanwhile P}
    (hn : Good notified) (ha : Good asking) (ha' : Good askingAgain) (hs : Inv s) (revision : ℕ)
    (c : Checking P) :
    Steps s (left (check notified timeouts revision c asking askingAgain s)) := by
  refine steps_assertCurrent hn hs fun _ ↦ ?_
  split
  · exact hn.invalidate s hs
  · have hasked := ha s hs
    cases c.current with
    | none => exact hasked
    | some current =>
      simp only
      split
      · exact hasked.trans (hn.invalidate _ hasked.inv)
      · split
        · exact hasked
        · have hrequest := hasked.trans (steps_request timeouts hn ha' hasked.inv revision
            .ethAccounts c.again c.currentAgain c.started)
          split
          case h_1 s' hmade =>
            rw [hmade] at hrequest
            exact hrequest.trans (hrequest.inv.steps_of_same rfl rfl rfl rfl (le_refl _)
              fun _ ↦ rfl)
          case h_2 s' hmade =>
            rw [hmade] at hrequest
            exact hrequest.trans (steps_assertCurrent hn hrequest.inv
              fun _ ↦ hn.invalidate _ hrequest.inv)

/-! ### Calls and events -/

variable (timeouts : RequestTimeouts)

mutual

/-- **Every call is a step**, whatever happens inside it. -/
theorem good_perform : ∀ call : Call P, Good (perform timeouts call)
  | .attach provider eventful registering registered => fun s hs ↦ by
    rw [perform]
    exact steps_attach (good_fireAll registering) hs provider eventful registered
  | .bind revision accounts now notified => fun s hs ↦ by
    rw [perform]
    exact steps_bind (good_performAll notified) hs revision accounts now
  | .authorize revision timing started now again notified => fun s hs ↦ by
    rw [perform]
    exact steps_authorize (good_performAll notified) hs revision timing started now again
  | .clearAuthorization => fun s hs ↦ by
    rw [perform]
    exact hs.steps_of_same rfl rfl rfl rfl (le_refl _) fun _ ↦ rfl
  | .expireIfNeeded now notified => fun s hs ↦ by
    rw [perform]
    exact steps_expireIfNeeded (good_performAll notified) hs now
  | .request revision method now asking current started notified => fun s hs ↦ by
    rw [perform]
    exact steps_request timeouts (good_performAll notified) (good_fireAll asking) hs revision method now
      current started
  | .check revision c asking askingAgain notified => fun s hs ↦ by
    rw [perform]
    exact steps_check (good_performAll notified) (good_fireAll asking) (good_fireAll askingAgain)
      hs revision c
  | .invalidate notified => fun s hs ↦ by
    rw [perform]
    exact (good_performAll notified).invalidate s hs
  | .dispose => fun s hs ↦ by
    rw [perform]
    exact steps_dispose hs

theorem good_performAll : ∀ calls : List (Call P), Good (performAll timeouts calls)
  | [] => fun s hs ↦ by
    rw [performAll]
    exact hs.steps_self
  | call :: calls => fun s hs ↦ by
    rw [performAll]
    have hcall := good_perform call s hs
    exact hcall.trans (good_performAll calls _ hcall.inv)

theorem good_fire : ∀ event : Fired P, Good (fire timeouts event)
  | .mk listener event notified => fun s hs ↦ by
    rw [fire]
    exact (good_performAll notified).notice listener event s hs

theorem good_fireAll : ∀ events : List (Fired P), Good (fireAll timeouts events)
  | [] => fun s hs ↦ by
    rw [fireAll]
    exact hs.steps_self
  | event :: events => fun s hs ↦ by
    rw [fireAll]
    have hevent := good_fire event s hs
    exact hevent.trans (good_fireAll events _ hevent.inv)

end

/-- What fires while a session goes on changes nothing but what was observed. -/
def Watched (f : Meanwhile P) : Prop :=
  ∀ s, Inv s → (f s).revision = s.revision → ∃ observed, f s = { s with observed := observed }

theorem watched_fire : ∀ event : Fired P, Watched (fire timeouts event)
  | .mk listener event notified => by
    intro s hs hrevision
    rw [fire] at hrevision ⊢
    obtain ⟨observed, h | h⟩ := notice_cases (performAll timeouts notified) listener event s
    · exact ⟨observed, h⟩
    · have hlt := lt_invalidate (good_performAll timeouts notified) (steps_observed hs observed).inv
      rw [h] at hrevision
      exact absurd hrevision hlt.ne'

theorem watched_fireAll (events : List (Fired P)) : Watched (fireAll timeouts events) := by
  induction events with
  | nil =>
    intro s _ _
    exact ⟨s.observed, by rw [fireAll]⟩
  | cons event events ih =>
    intro s hs hrevision
    rw [fireAll] at hrevision ⊢
    have hevent := good_fire timeouts event s hs
    have hevents := good_fireAll timeouts events _ hevent.inv
    have hle := hevent.evolves.revision
    have hle' := hevents.evolves.revision
    obtain ⟨observed, h⟩ := watched_fire timeouts event s hs (by omega)
    obtain ⟨observed', h'⟩ := ih _ hevent.inv (by omega)
    exact ⟨observed', by rw [h', h]⟩

end Methods

end Proofmark.Wallet
