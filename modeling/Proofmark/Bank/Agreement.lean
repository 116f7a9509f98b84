import Proofmark.Bank.Safety

/-!
# The two bank stores compared

Run under one clock, the two stores agree on the data that is not due (`Agree`), and reply alike
while no call falls where they forget differently. That is at the very end of a window, where Redis
still has a key that the adapter purges, and after it, where the adapter has kept what it has not
purged yet.

The counter of a flow also names the flow's challenge, so a challenge that is started late in a
window is forgotten with it. `stores_agree` is about the runs without any of this, and
`stores_disagree` is a challenge that Redis forgets and the adapter verifies.
-/

namespace Proofmark.Bank

open Pipeline (Text)

/-! ### `RedisBankStateStore` -/

/-- The longest response that is sent. -/
def payloadLimit : ℕ := 32768

/-- The script's reply as the class returns it; a response that is missing or empty is refused. -/
def redisReply : Reply → Reply
  | .cached none => .failed "STATE_UNAVAILABLE"
  | .cached (some []) => .failed "cached"
  | reply => reply

/-- A call of the class, with valid identifiers. -/
def redis (now : ℕ) (call : Call) (s : Store) : Reply × Store :=
  match call with
  | .activate input response =>
    if payloadLimit < response.length then (.failed "STATE_PAYLOAD_TOO_LARGE", s)
    else lua now (.activate input response) s
  | call => ((lua now call s).map redisReply id)

/-- What the calls of a run return. -/
def replies (run : ℕ → Call → Store → Reply × Store) : ℕ → Store → List (ℕ × Call) → List Reply
  | _, _, [] => []
  | clock, s, (elapsed, call) :: inputs =>
    let result := run (clock + elapsed) call s
    result.1 :: replies run (clock + elapsed) result.2 inputs

theorem map_reply_history (mode : Mode) {clock : ℕ} {s : Store} (inputs : List (ℕ × Call)) :
    (history mode clock s inputs).map Entry.reply = replies mode.run clock s inputs := by
  induction inputs generalizing clock s with
  | nil => rfl
  | cons input inputs ih => exact congrArg _ ih

/-! ### Where the stores forget alike -/

/-- The counters that a call reads. -/
def Call.budgetKeys : Call → List BudgetKey
  | .reserve input => input.budgetKeys
  | .activate input _ => [.flow input.flowKey]
  | .verify input _ => [.flow input.flowKey]

/-- The challenge that a call names. -/
def Call.named : Call → Option ChallengeRef
  | .reserve _ => none
  | .activate input _ => some input
  | .verify input _ => some input

/-- A record and a counter that a challenge's name is checked against, and passes. -/
structure Matched (s : Store) (ref : ChallengeRef) (x : Challenge) (b : Budget) : Prop where
  record : s.records ref.requestKey = some x
  budget : s.budgets (.flow ref.flowKey) = some b
  id : x.id = ref.challengeId
  current : b.current = some ref.challengeId

def Call.reservation : Call → Option BankReservation
  | .reserve input => some input
  | _ => none

def Call.response : Call → Option Text
  | .activate _ response => some response
  | _ => none

/-- A call of which no expiry is in the way, on Redis' data and the adapter's. -/
structure Undisturbed (now : ℕ) (call : Call) (r d : Store) : Prop where
  /-- no record or counter that the call reads ends at this very moment -/
  record : ∀ x ∈ r.records call.requestKey, x.deleteAt ≠ now
  budgets : ∀ key ∈ call.budgetKeys, ∀ b ∈ r.budgets key, b.expiresAt ≠ now
  /-- the challenge that is named is not one that the adapter has kept past its time -/
  named : ∀ ref ∈ call.named, ∀ x ∈ d.records ref.requestKey, ∀ b ∈ d.budgets (.flow ref.flowKey),
    x.id = ref.challengeId → b.current = some ref.challengeId →
      now < x.deleteAt ∧ now < b.expiresAt
  /-- a challenge that is started ends with the flow's window at the latest -/
  window : ∀ input ∈ call.reservation, ∀ b ∈ r.budgets (.flow input.flowKey),
    now < b.expiresAt → now + lifetimeMs ≤ b.expiresAt
  payload : ∀ response ∈ call.response, response.length ≤ payloadLimit

instance (now : ℕ) (call : Call) (r d : Store) : Decidable (Undisturbed now call r d) :=
  decidable_of_iff
    ((∀ x ∈ r.records call.requestKey, x.deleteAt ≠ now) ∧
      (∀ key ∈ call.budgetKeys, ∀ b ∈ r.budgets key, b.expiresAt ≠ now) ∧
      (∀ ref ∈ call.named, ∀ x ∈ d.records ref.requestKey, ∀ b ∈ d.budgets (.flow ref.flowKey),
        x.id = ref.challengeId → b.current = some ref.challengeId →
          now < x.deleteAt ∧ now < b.expiresAt) ∧
      (∀ input ∈ call.reservation, ∀ b ∈ r.budgets (.flow input.flowKey),
        now < b.expiresAt → now + lifetimeMs ≤ b.expiresAt) ∧
      ∀ response ∈ call.response, response.length ≤ payloadLimit)
    ⟨fun ⟨h₁, h₂, h₃, h₄, h₅⟩ ↦ ⟨h₁, h₂, h₃, h₄, h₅⟩,
      fun ⟨h₁, h₂, h₃, h₄, h₅⟩ ↦ ⟨h₁, h₂, h₃, h₄, h₅⟩⟩

/-- A run of such calls, on both stores. -/
def UndisturbedRun : ℕ → Store → Store → List (ℕ × Call) → Prop
  | _, _, _, [] => True
  | clock, r, d, (elapsed, call) :: inputs =>
    Undisturbed (clock + elapsed) call r d ∧
      UndisturbedRun (clock + elapsed) (redis (clock + elapsed) call r).2
        (demo (clock + elapsed) call d).2 inputs

instance decidableUndisturbedRun : ∀ (clock : ℕ) (r d : Store) (inputs : List (ℕ × Call)),
    Decidable (UndisturbedRun clock r d inputs)
  | _, _, _, [] => .isTrue trivial
  | clock, r, d, (elapsed, call) :: inputs =>
    have := decidableUndisturbedRun (clock + elapsed) (redis (clock + elapsed) call r).2
      (demo (clock + elapsed) call d).2 inputs
    inferInstanceAs (Decidable (_ ∧ _))

/-- What is not due. -/
def Store.lasting (s : Store) (now : ℕ) : Store :=
  s.live fun deadline ↦ now < deadline

/-- The stores agree on what is not due. -/
def Agree (clock : ℕ) (r d : Store) : Prop :=
  r.lasting clock = d.lasting clock

section Lasting

variable {s t r d : Store} {now clock : ℕ} {k : Text} {key : BudgetKey} {x : Challenge} {b : Budget}

theorem lasting_records : (s.lasting now).records k = some x ↔
    s.records k = some x ∧ now < x.deleteAt := by
  simp [Store.lasting, Store.live, Option.filter_eq_some_iff]

theorem lasting_budgets : (s.lasting now).budgets key = some b ↔
    s.budgets key = some b ∧ now < b.expiresAt := by
  simp [Store.lasting, Store.live, Option.filter_eq_some_iff]

theorem store_ext (hrecords : ∀ k x, s.records k = some x ↔ t.records k = some x)
    (hbudgets : ∀ key b, s.budgets key = some b ↔ t.budgets key = some b) : s = t := by
  obtain ⟨records, budgets⟩ := s
  obtain ⟨records', budgets'⟩ := t
  obtain rfl : records = records' := funext fun k ↦ Option.ext (hrecords k)
  obtain rfl : budgets = budgets' := funext fun key ↦ Option.ext (hbudgets key)
  rfl

/-- Agreement, datum by datum. -/
theorem agree_iff : Agree clock r d ↔
    (∀ k x, clock < x.deleteAt → (r.records k = some x ↔ d.records k = some x)) ∧
      ∀ key b, clock < b.expiresAt → (r.budgets key = some b ↔ d.budgets key = some b) := by
  constructor
  · intro h
    refine ⟨fun k x hx ↦ ?_, fun key b hb ↦ ?_⟩
    · have hiff : (r.lasting clock).records k = some x ↔ _ := lasting_records
      rw [h, lasting_records] at hiff
      simpa [hx] using hiff.symm
    · have hiff : (r.lasting clock).budgets key = some b ↔ _ := lasting_budgets
      rw [h, lasting_budgets] at hiff
      simpa [hb] using hiff.symm
  · intro ⟨hrecords, hbudgets⟩
    refine store_ext (fun k x ↦ ?_) fun key b ↦ ?_
    · rw [lasting_records, lasting_records]
      exact ⟨fun ⟨h, hx⟩ ↦ ⟨(hrecords k x hx).1 h, hx⟩, fun ⟨h, hx⟩ ↦ ⟨(hrecords k x hx).2 h, hx⟩⟩
    · rw [lasting_budgets, lasting_budgets]
      exact ⟨fun ⟨h, hb⟩ ↦ ⟨(hbudgets key b hb).1 h, hb⟩,
        fun ⟨h, hb⟩ ↦ ⟨(hbudgets key b hb).2 h, hb⟩⟩

theorem Agree.later (h : Agree clock r d) (hle : clock ≤ now) : Agree now r d := by
  obtain ⟨hrecords, hbudgets⟩ := agree_iff.1 h
  exact agree_iff.2 ⟨fun k x hx ↦ hrecords k x (hle.trans_lt hx),
    fun key b hb ↦ hbudgets key b (hle.trans_lt hb)⟩

/-- Dropping what is due changes nothing that lasts. -/
theorem Agree.drops (h : Agree now r d) (hr : Drops now r s) (hd : Drops now d t) :
    Agree now s t := by
  have hkept : ∀ {s s' : Store}, Drops now s s' → Agree now s s' := by
    intro s s' hdrops
    refine agree_iff.2 ⟨fun k x hx ↦ ?_, fun key b hb ↦ ?_⟩
    · rcases hdrops.records k with heq | ⟨hnone, hdue⟩
      · rw [heq]
      · rw [hnone]
        exact ⟨fun hs ↦ absurd (hdue x hs) hx.not_ge, nofun⟩
    · rcases hdrops.budgets key with heq | ⟨hnone, hdue⟩
      · rw [heq]
      · rw [hnone]
        exact ⟨fun hs ↦ absurd (hdue b hs) hb.not_ge, nofun⟩
  exact (hkept hr).symm.trans (h.trans (hkept hd))

/-- Writing one record to both keeps the agreement. -/
theorem Agree.setRecord (h : Agree now r d) (k : Text) (x : Challenge) :
    Agree now (r.setRecord k x) (d.setRecord k x) := by
  obtain ⟨hrecords, hbudgets⟩ := agree_iff.1 h
  refine agree_iff.2 ⟨fun k' x' hx ↦ ?_, hbudgets⟩
  simp only [Store.setRecord, Function.update_apply]
  split
  case isTrue => rfl
  case isFalse => exact hrecords k' x' hx

/-- So does a reservation that finds the same counters. -/
theorem Agree.reserved (h : Agree now r d) (input : BankReservation)
    (hsame : ∀ key ∈ input.budgetKeys, r.budgets key = d.budgets key) :
    Agree now (r.reserved now input) (d.reserved now input) := by
  obtain ⟨hrecords, hbudgets⟩ := agree_iff.1 h
  refine agree_iff.2 ⟨fun k x hx ↦ ?_, fun key b hb ↦ ?_⟩
  · rw [reserved_records, reserved_records]
    split
    case isTrue => rfl
    case isFalse => exact hrecords k x hx
  · rw [reserved_budgets, reserved_budgets]
    split
    case isTrue hkey => rw [hsame key hkey]
    case isFalse => exact hbudgets key b hb

end Lasting

/-! ### The adapter in the script's terms -/

section Demo

variable {now : ℕ} {s : Store}

theorem demoReserve_eq (input : BankReservation) :
    demoReserve now input s = luaReserve now input (s.lasting now) := by
  unfold demoReserve luaReserve
  simp only [and_comm (a := now < _), Store.lasting, purge]
  rfl

/-- `current(input)` makes the script's first three checks. -/
theorem demoCurrent_elim {α : Type} {input : ChallengeRef} (fail : String → α)
    (ok : Challenge → α) :
    (match demoCurrent now input s with
      | .error code => fail code
      | .ok record => ok record) =
    match s.records input.requestKey with
    | none => fail "CHALLENGE_UNAVAILABLE"
    | some r =>
      if r.id ≠ input.challengeId ∨ s.current input.flowKey ≠ some input.challengeId then
        fail "CHALLENGE_UNAVAILABLE"
      else if r.expires ≤ now then fail "CHALLENGE_EXPIRED"
      else ok r := by
  unfold demoCurrent
  cases s.records input.requestKey with
  | none => rfl
  | some r =>
    by_cases hnames : r.id ≠ input.challengeId ∨ s.current input.flowKey ≠ some input.challengeId
    · simp only [if_pos hnames]
    · by_cases hexpires : r.expires ≤ now
      · simp only [if_neg hnames, if_pos hexpires]
      · simp only [if_neg hnames, if_neg hexpires]

theorem demoActivate_eq (input : ChallengeRef) (response : Text) :
    demoActivate now input response s = luaActivate now input response s :=
  demoCurrent_elim _ _

theorem demoVerify_eq (input : ChallengeRef) (matches_ : Bool) :
    demoVerify now input matches_ s = luaVerify now input matches_ s :=
  demoCurrent_elim _ _

end Demo

/-! ### One call -/

section Calls

variable {s t r d : Store} {now clock : ℕ} {ref : ChallengeRef} {x : Challenge} {b : Budget}

theorem current_eq_some {flowKey id : Text} :
    s.current flowKey = some id ↔ ∃ b, s.budgets (.flow flowKey) = some b ∧ b.current = some id := by
  simp [Store.current, Option.bind_eq_some_iff]

/-- A named call on a challenge that is not matched. -/
theorem lua_unmatched (h : ∀ x b, ¬Matched s ref x b) (response : Text) (matches_ : Bool) :
    luaActivate now ref response s = (.failed "CHALLENGE_UNAVAILABLE", s) ∧
      luaVerify now ref matches_ s = (.failed "CHALLENGE_UNAVAILABLE", s) := by
  unfold luaActivate luaVerify
  cases hr : s.records ref.requestKey with
  | none => exact ⟨rfl, rfl⟩
  | some x =>
    have hnot : x.id ≠ ref.challengeId ∨ s.current ref.flowKey ≠ some ref.challengeId := by
      by_contra hboth
      simp only [not_or, not_not] at hboth
      obtain ⟨b, hb, hcurrent⟩ := current_eq_some.1 hboth.2
      exact h x b ⟨hr, hb, hboth.1, hcurrent⟩
    exact ⟨if_pos hnot, if_pos hnot⟩

theorem Matched.named (hs : Matched s ref x b) :
    ¬(x.id ≠ ref.challengeId ∨ s.current ref.flowKey ≠ some ref.challengeId) := by
  simp only [not_or, not_not]
  exact ⟨hs.id, current_eq_some.2 ⟨b, hs.budget, hs.current⟩⟩

/-- A named call on a challenge that is matched depends on the record alone. -/
theorem luaActivate_matched (now : ℕ) (hs : Matched s ref x b) (ht : Matched t ref x b)
    (response : Text) :
    (luaActivate now ref response s).1 = (luaActivate now ref response t).1 ∧
      (Agree now s t →
        Agree now (luaActivate now ref response s).2 (luaActivate now ref response t).2) := by
  unfold luaActivate
  rw [hs.record, ht.record]
  dsimp only
  rw [if_neg hs.named, if_neg ht.named]
  split_ifs
  · exact ⟨rfl, id⟩
  · exact ⟨rfl, id⟩
  · exact ⟨rfl, fun h ↦ h.setRecord _ _⟩

theorem luaVerify_matched (now : ℕ) (hs : Matched s ref x b) (ht : Matched t ref x b)
    (matches_ : Bool) :
    (luaVerify now ref matches_ s).1 = (luaVerify now ref matches_ t).1 ∧
      (Agree now s t →
        Agree now (luaVerify now ref matches_ s).2 (luaVerify now ref matches_ t).2) := by
  unfold luaVerify
  rw [hs.record, ht.record]
  dsimp only
  rw [if_neg hs.named, if_neg ht.named]
  split_ifs
  · exact ⟨rfl, id⟩
  · exact ⟨rfl, id⟩
  · exact ⟨rfl, id⟩
  · exact ⟨rfl, fun h ↦ h.setRecord _ _⟩
  · exact ⟨rfl, fun h ↦ h.setRecord _ _⟩
  · exact ⟨rfl, fun h ↦ h.setRecord _ _⟩

/-- A reservation depends on the record of its request and its four counters. -/
theorem luaReserve_same (s t : Store) (now : ℕ) (input : BankReservation)
    (hrecord : s.records input.requestKey = t.records input.requestKey)
    (hbudgets : ∀ key ∈ input.budgetKeys, s.budgets key = t.budgets key) :
    (luaReserve now input s).1 = (luaReserve now input t).1 ∧
      (Agree now s t → Agree now (luaReserve now input s).2 (luaReserve now input t).2) := by
  have hcurrent : s.current input.flowKey = t.current input.flowKey := by
    rw [Store.current, Store.current, hbudgets _ (by simp [BankReservation.budgetKeys])]
  have hcount : (input.budgetKeys.any fun key ↦ decide (key.limit ≤ s.count key)) =
      input.budgetKeys.any fun key ↦ decide (key.limit ≤ t.count key) := by
    rw [Bool.eq_iff_iff, List.any_eq_true, List.any_eq_true]
    refine exists_congr fun key ↦ and_congr_right fun hkey ↦ ?_
    rw [Store.count, Store.count, hbudgets key hkey]
  unfold luaReserve
  rw [hrecord, hcurrent, hcount]
  cases t.records input.requestKey with
  | some x =>
    dsimp only
    split_ifs <;> exact ⟨rfl, id⟩
  | none =>
    dsimp only
    split_ifs
    · exact ⟨rfl, id⟩
    · exact ⟨rfl, fun h ↦ h.reserved input hbudgets⟩

/-- A response that is ready is there, and not empty. -/
def Answered (s : Store) : Prop :=
  ∀ k x, s.records k = some x → x.state = .ready → ∃ u response, x.response = some (u :: response)

theorem answered_empty : Answered .empty :=
  fun _ _ hx ↦ nomatch hx

theorem Answered.drops (h : Answered s) (hd : Drops now s t) : Answered t := by
  intro k x hx
  rcases hd.records k with heq | ⟨hnone, -⟩
  · exact h k x (heq ▸ hx)
  · exact absurd (hnone.symm.trans hx) nofun

theorem Answered.moves {call : Call} {reply : Reply} (h : Answered s)
    (hmove : Moves now s call reply t)
    (hresponse : ∀ response ∈ call.response, response ≠ []) : Answered t := by
  have hset : ∀ k (x' : Challenge), (x'.state = .ready → ∃ u rest, x'.response = some (u :: rest)) →
      Answered (s.setRecord k x') := by
    intro k x' hx' k' x hx
    simp only [Store.setRecord, Function.update_apply] at hx
    split at hx
    case isTrue =>
      obtain rfl := Option.some.inj hx
      exact hx'
    case isFalse => exact h k' x hx
  cases hmove with
  | refused | cached => exact h
  | @reserved input =>
    intro k x hx
    rw [reserved_records] at hx
    split at hx
    case isTrue =>
      obtain rfl := Option.some.inj hx
      rintro ⟨⟩
    case isFalse => exact h k x hx
  | @activated input response x =>
    refine hset _ _ fun _ ↦ ?_
    obtain ⟨u, rest, rfl⟩ := List.exists_cons_of_ne_nil (hresponse response rfl)
    exact ⟨u, rest, rfl⟩
  | verified | locked => exact hset _ _ (by rintro ⟨⟩)
  | mismatched hnames hstate =>
    obtain ⟨u, rest, hresponse⟩ := h _ _ hnames.record hstate
    exact hset _ _ fun _ ↦ ⟨u, rest, hresponse⟩

/-- The class returns what the script replies. -/
theorem redis_eq_lua (now : ℕ) {call : Call} (h : Answered s)
    (hpayload : ∀ response ∈ call.response, response.length ≤ payloadLimit) :
    redis now call s = lua now call s := by
  cases call with
  | reserve input =>
    show ((luaReserve now input (expire s now)).map redisReply id) = _
    have hanswered : Answered (expire s now) :=
      h.drops (drops_live fun n hn ↦ (not_le.1 (of_decide_eq_false hn)).le)
    have hreply : redisReply (luaReserve now input (expire s now)).1 =
        (luaReserve now input (expire s now)).1 := by
      unfold luaReserve
      split
      case h_1 x hx =>
        split_ifs with hfingerprint hready
        · rfl
        · obtain ⟨u, response, hresponse⟩ := hanswered _ x hx hready.1
          rw [hresponse]
          rfl
        · rfl
        · rfl
      case h_2 => split <;> rfl
    exact Prod.ext hreply rfl
  | activate input response => exact if_neg (hpayload response rfl).not_gt
  | verify input matches_ =>
    show ((luaVerify now input matches_ (expire s now)).map redisReply id) = _
    have hreply : redisReply (luaVerify now input matches_ (expire s now)).1 =
        (luaVerify now input matches_ (expire s now)).1 := by
      unfold luaVerify
      split
      · rfl
      · split_ifs <;> rfl
    exact Prod.ext hreply rfl

/-- What the script sees of a datum that does not end at this moment is what lasts. -/
theorem expire_records {k : Text} (h : ∀ x, s.records k = some x → x.deleteAt ≠ now) :
    (expire s now).records k = (s.lasting now).records k := by
  refine Option.ext fun x ↦ ?_
  rw [lasting_records]
  simp only [expire, Store.live, Option.filter_eq_some_iff, decide_eq_true_eq]
  exact and_congr_right fun hx ↦ ⟨fun hle ↦ lt_of_le_of_ne hle (h x hx).symm, le_of_lt⟩

theorem expire_budgets {key : BudgetKey} (h : ∀ b, s.budgets key = some b → b.expiresAt ≠ now) :
    (expire s now).budgets key = (s.lasting now).budgets key := by
  refine Option.ext fun b ↦ ?_
  rw [lasting_budgets]
  simp only [expire, Store.live, Option.filter_eq_some_iff, decide_eq_true_eq]
  exact and_congr_right fun hb ↦ ⟨fun hle ↦ lt_of_le_of_ne hle (h b hb).symm, le_of_lt⟩

/-- **One call**: on data that agree, an undisturbed call has one reply, and they still agree. -/
theorem Agree.step {call : Call} (h : Agree clock r d) (hle : clock ≤ now)
    (hcall : Undisturbed now call r d) :
    (lua now call r).1 = (demo now call d).1 ∧ Agree now (lua now call r).2 (demo now call d).2 := by
  have hlasting : r.lasting now = d.lasting now := h.later hle
  have hexpire : Drops now r (expire r now) :=
    drops_live fun n hn ↦ (not_le.1 (of_decide_eq_false hn)).le
  have hpurge : Drops now d (d.lasting now) := drops_live fun n hn ↦ not_lt.1 (of_decide_eq_false hn)
  -- a challenge that one store matches, the other does
  have hmatched : ∀ ref, call.named = some ref → ref.requestKey = call.requestKey →
      .flow ref.flowKey ∈ call.budgetKeys → ∀ x b,
      Matched (expire r now) ref x b ↔ Matched d ref x b := by
    intro ref hnamed hkey hflow x b
    have hrecords := expire_records (hkey ▸ hcall.record)
    have hbudgets := expire_budgets (hcall.budgets _ hflow)
    rw [hlasting] at hrecords hbudgets
    constructor
    · intro ⟨hx, hb, hid, hcurrent⟩
      rw [hrecords] at hx
      rw [hbudgets] at hb
      exact ⟨(lasting_records.1 hx).1, (lasting_budgets.1 hb).1, hid, hcurrent⟩
    · intro hm
      obtain ⟨hx, hb⟩ := hcall.named ref hnamed x hm.record b hm.budget hm.id hm.current
      refine ⟨?_, ?_, hm.id, hm.current⟩
      · rw [hrecords]
        exact lasting_records.2 ⟨hm.record, hx⟩
      · rw [hbudgets]
        exact lasting_budgets.2 ⟨hm.budget, hb⟩
  cases call with
  | reserve input =>
    have hsame := luaReserve_same (expire r now) (d.lasting now) now input
      (hlasting ▸ expire_records hcall.record)
      fun key hkey ↦ hlasting ▸ expire_budgets (hcall.budgets key hkey)
    simp only [lua, demo, demoReserve_eq]
    exact ⟨hsame.1, hsame.2 ((h.later hle).drops hexpire hpurge)⟩
  | activate ref response =>
    simp only [lua, demo, demoActivate_eq]
    have hiff := hmatched ref rfl rfl List.mem_cons_self
    have hagree : Agree now (expire r now) d := (h.later hle).drops hexpire (drops_refl now d)
    by_cases hd : ∃ x b, Matched d ref x b
    · obtain ⟨x, b, hd⟩ := hd
      have hsame := luaActivate_matched now ((hiff x b).2 hd) hd response
      exact ⟨hsame.1, hsame.2 hagree⟩
    · push Not at hd
      have hr : ∀ x b, ¬Matched (expire r now) ref x b := fun x b ↦ mt (hiff x b).1 (hd x b)
      rw [(lua_unmatched hr response true).1, (lua_unmatched hd response true).1]
      exact ⟨rfl, hagree⟩
  | verify ref matches_ =>
    simp only [lua, demo, demoVerify_eq]
    have hiff := hmatched ref rfl rfl List.mem_cons_self
    have hagree : Agree now (expire r now) d := (h.later hle).drops hexpire (drops_refl now d)
    by_cases hd : ∃ x b, Matched d ref x b
    · obtain ⟨x, b, hd⟩ := hd
      have hsame := luaVerify_matched now ((hiff x b).2 hd) hd matches_
      exact ⟨hsame.1, hsame.2 hagree⟩
    · push Not at hd
      have hr : ∀ x b, ¬Matched (expire r now) ref x b := fun x b ↦ mt (hiff x b).1 (hd x b)
      rw [(lua_unmatched hr [] matches_).2, (lua_unmatched hd [] matches_).2]
      exact ⟨rfl, hagree⟩

end Calls

/-! ### A challenge that can be verified -/

/-- A challenge that was activated, and is not superseded, consumed or locked. -/
structure Usable (input : BankReservation) (after : List Entry) : Prop where
  activated : ∃ e ∈ after, e.activates input.requestKey = true
  newest : ∀ e ∈ after, ∀ other, e.reservation = some other → other.flowKey ≠ input.flowKey
  unconsumed : ∀ e ∈ after, e.verifies input.requestKey = false
  unlocked : after.countP (Entry.mismatches input.requestKey) < attemptLimit

/-- No challenge outlasts the window of its flow that it was started in. -/
def Outlasted (log : List Entry) : Prop :=
  ∀ e ∈ log, ∀ input, e.reservation = some input →
    ∃ b, e.next.budgets (.flow input.flowKey) = some b ∧ e.now + lifetimeMs ≤ b.expiresAt

/-- What a run holds of its usable challenges. -/
structure Held (log : List Entry) (clock : ℕ) (s : Store) : Prop where
  ready : ∀ before res input after r, log = before ++ res :: after → Stretch res input after →
    (∃ e ∈ after, e.activates input.requestKey = true) →
    (∀ e ∈ after, e.verifies input.requestKey = false) →
    after.countP (Entry.mismatches input.requestKey) < attemptLimit →
    s.records input.requestKey = some r → r.state = .ready
  pointer : ∀ before res input after, log = before ++ res :: after → res.reservation = some input →
    (∀ e ∈ after, ∀ other, e.reservation = some other → other.flowKey ≠ input.flowKey) →
    clock < res.now + lifetimeMs → ∃ b, s.budgets (.flow input.flowKey) = some b ∧
      b.current = some input.challengeId ∧ res.now + lifetimeMs ≤ b.expiresAt

section Held

variable {log before after : List Entry} {e res : Entry} {clock now : ℕ} {s : Store}
  {input : BankReservation} {k : Text}

theorem held_nil : Held [] 0 .empty where
  ready _ _ _ _ _ h := absurd h (by simp)
  pointer _ _ _ _ h := absurd h (by simp)

/-- An activation leaves the record ready. -/
theorem Entry.Real.ready (h : e.Real) (hactivates : e.activates k = true) {r : Challenge}
    (hr : e.next.records k = some r) : r.state = .ready := by
  obtain ⟨s, -, hmove⟩ := h
  obtain ⟨now, call, reply, store, next⟩ := e
  obtain ⟨hkey, hreply⟩ := Bool.and_eq_true_iff.1 hactivates
  obtain rfl : call.requestKey = k := of_decide_eq_true hkey
  obtain rfl : reply = .activated := of_decide_eq_true hreply
  dsimp only at hmove hr
  cases hmove with
  | activated =>
    simp only [Store.setRecord, Call.requestKey, Function.update_self, Option.some.injEq] at hr
    rw [← hr]

theorem Held.ready_step (h : Held log clock e.store) (hkept : Kept log clock e.store)
    (hreal : e.Real) (hlog : log = before ++ res :: after) (hstretch : Stretch res input after)
    (hreserves : e.reserves input.requestKey = false)
    (hactivated : ∃ e' ∈ after ++ [e], e'.activates input.requestKey = true)
    (hunconsumed : ∀ e' ∈ after ++ [e], e'.verifies input.requestKey = false)
    (hunlocked : (after ++ [e]).countP (Entry.mismatches input.requestKey) < attemptLimit)
    {r : Challenge} (hr : e.next.records input.requestKey = some r) : r.state = .ready := by
  by_cases hlast : e.activates input.requestKey = true
  · exact hreal.ready hlast hr
  · -- it was ready before, and the call leaves it so
    have hbefore : ∃ e' ∈ after, e'.activates input.requestKey = true := by
      obtain ⟨e', he', hactivates⟩ := hactivated
      rcases List.mem_append.1 he' with he' | he'
      · exact ⟨e', he', hactivates⟩
      · exact absurd (List.mem_singleton.1 he' ▸ hactivates) hlast
    rw [countP_concat] at hunlocked
    have hcount : after.countP (Entry.mismatches input.requestKey) < attemptLimit := by
      split at hunlocked <;> omega
    cases hreal.onRequest input.requestKey with
    | reserved hreservation hkey =>
      exact absurd (hkey ▸ reserves_of_reservation hreservation) (by simp [hreserves])
    | absent _ hnext => exact absurd (hnext.symm.trans hr) nofun
    | @advanced r₀ r₁ _ hstore hnext hadvance =>
      obtain rfl := Option.some.inj (hnext.symm.trans hr)
      have hready := h.ready before res input after r₀ hlog hstretch hbefore
        (fun e' he' ↦ hunconsumed e' (List.mem_append_left _ he')) hcount hstore
      have htied := hkept.tied before res input after hlog hstretch r₀ hstore
      cases hadvance with
      | quiet => exact hready
      | activated => rfl
      | verified _ _ _ _ _ hv =>
        exact absurd (hv.symm.trans (hunconsumed e (by simp))) nofun
      | mismatched => exact hready
      | locked _ hattempts _ hm =>
        rw [if_pos hm, htied.attempts] at hunlocked
        omega

theorem Held.pointer_step (h : Held log clock e.store) (hreal : e.Real) (hclock : clock ≤ e.now)
    (hlog : log = before ++ res :: after) (hres : res.reservation = some input)
    (hnewest : ∀ e' ∈ after ++ [e], ∀ other, e'.reservation = some other →
      other.flowKey ≠ input.flowKey) (hlive : e.now < res.now + lifetimeMs) :
    ∃ b, e.next.budgets (.flow input.flowKey) = some b ∧ b.current = some input.challengeId ∧
      res.now + lifetimeMs ≤ b.expiresAt := by
  obtain ⟨b, hb, hcurrent, hlasts⟩ := h.pointer before res input after hlog hres
    (fun e' he' ↦ hnewest e' (List.mem_append_left _ he')) (hclock.trans_lt hlive)
  have hcharges : e.charges (.flow input.flowKey) = false := by
    unfold Entry.charges
    rcases hr : e.reservation with - | other
    · rfl
    · have hne := hnewest e (by simp) other hr
      simp [BankReservation.budgetKeys, hne.symm]
  cases hreal.onBudget (.flow input.flowKey) with
  | kept _ hnext => exact ⟨b, hnext.trans hb, hcurrent, hlasts⟩
  | dropped _ _ hdue => exact absurd (hdue b hb) (hlive.trans_le hlasts).not_ge
  | charged hcharged | opened hcharged => exact absurd (hcharged.symm.trans hcharges) (by rintro ⟨⟩)

/-- A reservation points its flow at the challenge. -/
theorem Entry.Real.points (h : e.Real) (hres : e.reservation = some input) {b : Budget}
    (hb : e.next.budgets (.flow input.flowKey) = some b) : b.current = some input.challengeId := by
  obtain ⟨s, -, ⟨input', hreservation, -, hnext⟩ | ⟨hnone, -⟩⟩ := h.budgets
  · obtain rfl := Option.some.inj (hres.symm.trans hreservation)
    rw [hnext, reserved_budgets, if_pos (by simp [BankReservation.budgetKeys])] at hb
    rw [← Option.some.inj hb]
    exact if_pos rfl
  · exact absurd (hnone.symm.trans hres) (by rintro ⟨⟩)

theorem Held.step (h : Held log clock e.store) (hkept : Kept log clock e.store) (hreal : e.Real)
    (hclock : clock ≤ e.now) (houtlasted : Outlasted (log ++ [e])) :
    Held (log ++ [e]) e.now e.next where
  ready before res input after r hlog hstretch hactivated hunconsumed hunlocked hr := by
    rcases Log.split_concat hlog with ⟨rfl, -, -⟩ | ⟨after, rfl, hlog'⟩
    · exact absurd hactivated (by simp)
    · obtain ⟨hstretch, hreserves⟩ := hstretch.of_concat
      exact h.ready_step hkept hreal hlog' hstretch hreserves hactivated hunconsumed hunlocked hr
  pointer before res input after hlog hres hnewest hlive := by
    rcases Log.split_concat hlog with ⟨rfl, -, rfl⟩ | ⟨after, rfl, hlog'⟩
    · obtain ⟨b, hb, hlasts⟩ := houtlasted e (by simp) input hres
      exact ⟨b, hb, hreal.points hres hb, hlasts⟩
    · exact h.pointer_step hreal hclock hlog' hres hnewest hlive

theorem held_history (mode : Mode) (inputs : List (ℕ × Call))
    (houtlasted : Outlasted (history mode 0 .empty inputs)) :
    Held (history mode 0 .empty inputs) (clockAfter 0 inputs)
      (storeAfter mode 0 .empty inputs) := by
  induction inputs using List.reverseRecOn with
  | nil => exact held_nil
  | append_singleton inputs input ih =>
    obtain ⟨elapsed, call⟩ := input
    rw [history_concat] at houtlasted
    rw [history_concat, storeAfter_concat, clockAfter_concat]
    exact (ih fun e he ↦ houtlasted e (List.mem_append_left _ he)).step (kept_history mode inputs)
      mode.moves (Nat.le_add_right _ _) houtlasted

/-- The calls after a reservation are a stretch as long as its challenge lives. -/
theorem Kept.stretch (h : Kept log clock s) (hlog : log = before ++ res :: after)
    (hres : res.reservation = some input) (hlive : clock < res.now + lifetimeMs) :
    Stretch res input after := by
  refine ⟨hres, fun e he ↦ ?_⟩
  by_contra hreserves
  rw [Bool.not_eq_false] at hreserves
  -- the first of them to reserve the request
  obtain ⟨first, again, rest, rfl, hfirst, hagain⟩ : ∃ first again rest,
      after = first ++ again :: rest ∧ (∀ e ∈ first, e.reserves input.requestKey = false) ∧
        again.reserves input.requestKey = true := by
    clear hlog
    induction after with
    | nil => exact absurd he List.not_mem_nil
    | cons a after ih =>
      cases ha : a.reserves input.requestKey with
      | true => exact ⟨[], a, after, rfl, by simp, ha⟩
      | false =>
        have he' : e ∈ after := (List.mem_cons.1 he).resolve_left fun heq ↦ by
          rw [heq, ha] at hreserves
          exact nomatch hreserves
        obtain ⟨first, again, rest, rfl, hfirst, hagain⟩ := ih he'
        refine ⟨a :: first, again, rest, rfl, fun x hx ↦ ?_, hagain⟩
        rcases List.mem_cons.1 hx with rfl | hx
        · exact ha
        · exact hfirst x hx
  have hapart := h.apart before res input first again rest hlog ⟨hres, hfirst⟩ hagain
  have htime := h.times again (by rw [hlog]; simp)
  simp only [budgetMs, lifetimeMs] at hapart hlive
  omega

/-- A matched challenge that is ready and not expired is verified, by either store. -/
theorem verified_of_matched {mode : Mode} {ref : ChallengeRef} {x : Challenge} {b : Budget}
    (hmatched : Matched s ref x b) (hready : x.state = .ready) (hx : now < x.expires)
    (hdelete : now ≤ x.deleteAt) (hb : now ≤ b.expiresAt) :
    (mode.run now (.verify ref true) s).1 = .verified := by
  have hverify : ∀ s, Matched s ref x b → (luaVerify now ref true s).1 = .verified := by
    intro s hs
    have hnames : ¬(x.id ≠ ref.challengeId ∨ s.current ref.flowKey ≠ some ref.challengeId) := by
      simp only [not_or, not_not]
      exact ⟨hs.id, current_eq_some.2 ⟨b, hs.budget, hs.current⟩⟩
    unfold luaVerify
    rw [hs.record]
    dsimp only
    rw [if_neg hnames, if_neg hx.not_ge, if_neg (by simp [hready]), if_neg (by simp [hready]),
      if_pos rfl]
  cases mode with
  | redis =>
    refine hverify _ ⟨?_, ?_, hmatched.id, hmatched.current⟩
    · simp [expire, Store.live, hmatched.record, hdelete]
    · simp [expire, Store.live, hmatched.budget, hb]
  | demoMemory =>
    show (demoVerify now ref true s).1 = _
    rw [demoVerify_eq]
    exact hverify s hmatched

/-- **A usable challenge can be verified until it expires**, if no challenge outlasts its window. -/
theorem verified_of_usable (mode : Mode) {inputs : List (ℕ × Call)}
    (houtlasted : Outlasted (history mode 0 .empty inputs))
    (hlog : history mode 0 .empty inputs = before ++ res :: after)
    (hres : res.reservation = some input) (husable : Usable input after)
    (hclock : clockAfter 0 inputs ≤ now) (hlive : now < res.now + lifetimeMs) :
    (mode.run now (.verify ⟨input.requestKey, input.flowKey, input.challengeId⟩ true)
      (storeAfter mode 0 .empty inputs)).1 = .verified := by
  have hkept := kept_history mode inputs
  have hheld := held_history mode inputs houtlasted
  have hclock' := hclock.trans_lt hlive
  have hstretch := hkept.stretch hlog hres hclock'
  obtain ⟨b, hb, hcurrent, hlasts⟩ := hheld.pointer before res input after hlog hres
    husable.newest hclock'
  rcases hr : (storeAfter mode 0 .empty inputs).records input.requestKey with - | r
  · have hgone := hkept.gone before res input after hlog hstretch hr
    simp only [budgetMs, lifetimeMs] at hgone hclock'
    omega
  · have htied := hkept.tied before res input after hlog hstretch r hr
    have hready := hheld.ready before res input after r hlog hstretch husable.activated
      husable.unconsumed husable.unlocked hr
    have hdelete : now ≤ r.deleteAt := by
      rw [htied.deleteAt]
      simp only [budgetMs, lifetimeMs] at hlive ⊢
      omega
    exact verified_of_matched ⟨hr, hb, htied.id, hcurrent⟩ hready (htied.expires ▸ hlive) hdelete
      (hlive.le.trans hlasts)

end Held

/-! ### Undisturbed runs -/

section UndisturbedRuns

variable {s r d : Store} {now clock : ℕ} {input : BankReservation}

/-- A reservation in a window that outlasts the challenge. -/
theorem reserved_outlasted (hwindow : ∀ b, s.budgets (.flow input.flowKey) = some b →
    now + lifetimeMs ≤ b.expiresAt) : ∃ b,
    (s.reserved now input).budgets (.flow input.flowKey) = some b ∧
      now + lifetimeMs ≤ b.expiresAt := by
  rw [reserved_budgets, if_pos (by simp [BankReservation.budgetKeys])]
  refine ⟨_, rfl, ?_⟩
  rcases hb : s.budgets (.flow input.flowKey) with - | b
  · exact Nat.add_le_add_left (by decide) now
  · exact hwindow b hb

theorem luaReserve_eq_reserved {n : ℕ} (h : (luaReserve now input s).1 = .reserved n) :
    (luaReserve now input s).2 = s.reserved now input := by
  unfold luaReserve at h ⊢
  split at h
  case h_1 => split_ifs at h
  case h_2 hnone =>
    split_ifs at h with hcount
    exact congrArg Prod.snd (if_neg hcount)

/-- The reservation of an undisturbed call, in either store. -/
theorem Undisturbed.outlasted {call : Call} (h : Undisturbed now call r d) (hagree : Agree now r d)
    (mode : Mode) {s : Store} (hs : s = match mode with | .redis => r | .demoMemory => d)
    (hres : (⟨now, call, (mode.run now call s).1, s, (mode.run now call s).2⟩ :
      Entry).reservation = some input) :
    ∃ b, (mode.run now call s).2.budgets (.flow input.flowKey) = some b ∧
      now + lifetimeMs ≤ b.expiresAt := by
  obtain ⟨again, rfl⟩ : ∃ again, call = .reserve again := by
    cases call with
    | reserve again => exact ⟨again, rfl⟩
    | activate | verify => exact nomatch hres
  have hreply : ∃ n, (mode.run now (.reserve again) s).1 = .reserved n ∧ again = input := by
    unfold Entry.reservation at hres
    split at hres
    · rename_i heq₁ heq₂
      cases heq₁
      exact ⟨_, heq₂, Option.some.inj hres⟩
    · exact nomatch hres
  obtain ⟨n, hreply, rfl⟩ := hreply
  have hwindow := h.window again rfl
  cases mode with
  | redis =>
    subst hs
    simp only [Mode.run, lua] at hreply ⊢
    rw [luaReserve_eq_reserved hreply]
    refine reserved_outlasted fun b hb ↦ ?_
    rw [expire_budgets (h.budgets _ (by simp [Call.budgetKeys, BankReservation.budgetKeys])),
      lasting_budgets] at hb
    exact hwindow b hb.1 hb.2
  | demoMemory =>
    subst hs
    simp only [Mode.run, demo, demoReserve_eq] at hreply ⊢
    rw [luaReserve_eq_reserved hreply]
    refine reserved_outlasted fun b hb ↦ ?_
    rw [← show r.lasting now = _ from hagree, lasting_budgets] at hb
    exact hwindow b hb.1 hb.2

/-- **What an undisturbed run keeps**: one reply after another is the same, and no challenge
outlasts its window. -/
theorem undisturbed_run {inputs : List (ℕ × Call)} (hagree : Agree clock r d)
    (hanswered : Answered r) (h : UndisturbedRun clock r d inputs)
    (hresponses : ∀ input ∈ inputs, ∀ response ∈ input.2.response, response ≠ []) :
    replies redis clock r inputs = replies demo clock d inputs ∧
      replies redis clock r inputs = replies lua clock r inputs ∧
      Outlasted (history .redis clock r inputs) ∧
      Outlasted (history .demoMemory clock d inputs) := by
  induction inputs generalizing clock r d with
  | nil => exact ⟨rfl, rfl, fun e he ↦ absurd he List.not_mem_nil,
      fun e he ↦ absurd he List.not_mem_nil⟩
  | cons input inputs ih =>
    obtain ⟨elapsed, call⟩ := input
    obtain ⟨hcall, hrest⟩ := h
    have hlua := redis_eq_lua (clock + elapsed) hanswered hcall.payload
    have hstep := hagree.step (Nat.le_add_right clock elapsed) hcall
    have hanswered' : Answered (lua (clock + elapsed) call r).2 := by
      obtain ⟨s₀, hdrops, hmove⟩ := lua_moves (clock + elapsed) call r
      exact (hanswered.drops hdrops).moves hmove (hresponses _ List.mem_cons_self)
    rw [hlua] at hrest
    obtain ⟨hreplies, hscript, hredis, hdemo⟩ := ih hstep.2 hanswered' hrest
      fun input hmem ↦ hresponses input (List.mem_cons_of_mem _ hmem)
    have hlater := hagree.later (Nat.le_add_right clock elapsed)
    refine ⟨?_, ?_, fun e he ↦ ?_, fun e he ↦ ?_⟩
    · simp only [replies, hlua, hstep.1, hreplies]
    · simp only [replies, hlua, hscript]
    · rcases List.mem_cons.1 he with rfl | he
      · exact fun input hres ↦ hcall.outlasted hlater .redis rfl hres
      · exact hredis e he
    · rcases List.mem_cons.1 he with rfl | he
      · exact fun input hres ↦ hcall.outlasted hlater .demoMemory rfl hres
      · exact hdemo e he

end UndisturbedRuns

/-- **When the two stores agree**: in a run of undisturbed calls they return the same results and
codes, and a challenge that is usable can be verified on both until it expires. -/
theorem stores_agree {inputs : List (ℕ × Call)}
    (hresponses : ∀ input ∈ inputs, ∀ response ∈ input.2.response, response ≠ [])
    (h : UndisturbedRun 0 .empty .empty inputs) :
    replies redis 0 .empty inputs = replies demo 0 .empty inputs ∧
      replies redis 0 .empty inputs = (history .redis 0 .empty inputs).map Entry.reply ∧
      ∀ mode before res input after now,
        history mode 0 .empty inputs = before ++ res :: after →
        res.reservation = some input → Usable input after → clockAfter 0 inputs ≤ now →
        now < res.now + lifetimeMs →
        (mode.run now (.verify ⟨input.requestKey, input.flowKey, input.challengeId⟩ true)
          (storeAfter mode 0 .empty inputs)).1 = .verified := by
  obtain ⟨hreplies, hscript, hredis, hdemo⟩ :=
    undisturbed_run rfl answered_empty h hresponses
  refine ⟨hreplies, hscript.trans (map_reply_history .redis inputs).symm, ?_⟩
  intro mode before res input after now hlog hres husable hclock hlive
  have houtlasted : Outlasted (history mode 0 .empty inputs) := by
    cases mode with
    | redis => exact hredis
    | demoMemory => exact hdemo
  exact verified_of_usable mode houtlasted hlog hres husable hclock hlive

/-- Keys of one letter. -/
def keyOf (c : Char) : Text :=
  List.replicate 16 c

/-- A reservation of a flow that is shared. -/
def reservationOf (request challenge : Char) : BankReservation :=
  ⟨keyOf request, keyOf 'f', keyOf 'a', keyOf 'w', keyOf 'p', keyOf challenge⟩

/-- Reserve, activate and verify. -/
def oneChallenge : List (ℕ × Call) :=
  [(0, .reserve (reservationOf 'r' 'c')),
    (1000, .activate ⟨keyOf 'r', keyOf 'f', keyOf 'c'⟩ ['t']),
    (1000, .verify ⟨keyOf 'r', keyOf 'f', keyOf 'c'⟩ true)]

/-- The challenge is verified on both stores, while it lives. -/
theorem stores_agree_oneChallenge :
    replies redis 0 .empty oneChallenge = replies demo 0 .empty oneChallenge ∧
      replies redis 0 .empty oneChallenge = [.reserved lifetimeMs, .activated, .verified] :=
  ⟨(@stores_agree oneChallenge (by decide) (by decide +kernel)).1, by decide +kernel⟩

/-- A second challenge of the flow is started a second before its window ends, and verified two
seconds later. -/
def lateChallenge : List (ℕ × Call) :=
  [(0, .reserve (reservationOf 'r' 'c')),
    (budgetMs - 1000, .reserve (reservationOf 's' 'd')),
    (0, .activate ⟨keyOf 's', keyOf 'f', keyOf 'd'⟩ ['t']),
    (2000, .verify ⟨keyOf 's', keyOf 'f', keyOf 'd'⟩ true)]

/-- **Redis forgets a challenge that the adapter verifies**, with the window of its flow. -/
theorem stores_disagree : replies redis 0 .empty lateChallenge =
      [.reserved lifetimeMs, .reserved (budgetMs - 1000 + lifetimeMs), .activated,
        .failed "CHALLENGE_UNAVAILABLE"] ∧
    replies demo 0 .empty lateChallenge =
      [.reserved lifetimeMs, .reserved (budgetMs - 1000 + lifetimeMs), .activated, .verified] := by
  decide +kernel

end Proofmark.Bank
