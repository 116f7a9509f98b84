import Proofmark.Async.Traced
import Proofmark.Vault.Deletion
import Proofmark.Vault.Revocation
import Proofmark.Vault.Signed

/-!
# The order of revocations

One runner delivers revocations at a time, over any number of passes, beside every other use of
the vault. Its requests are kept as a history, each with the vault it was made in.

What is broadcast is durable, and a durable transaction is given up only after it was observed as
reverted. A pass goes through the jobs in the order in which they were queued, and leaves a job
behind only when it is confirmed or has no transaction (`Focus`): so when it signs for a job, the
jobs before it are settled. The jobs after it need not be. A revert that was mined takes the
transaction from an early job, a later job of the same pass may be left with one whose outcome is
unknown, and the next pass comes to the early job first.
-/

open Evm Async

namespace Proofmark.Vault

open Pipeline (Text)

section Order

variable {ι : Type} [DecidableEq ι]

/-! ### One runner -/

/-- The vault, and the history of the runner's requests. -/
abbrev Tracked (ι : Type) :=
  Traced (World ι) TransportCall.Answer

abbrev History (ι : Type) :=
  List (Exchange (World ι) TransportCall.Answer)

/-- A call of an operation that belongs to a delivery. -/
def Event.signs : Event ι → Bool
  | .call _ operation _ => operation.signs
  | _ => false

/-- One delivery at a time; meanwhile anyone may use the vault otherwise, and the process may
die at any await. -/
def runnerSystem (P : Platform) : Async.System (Tracked ι) String TransportCall.Answer Unit where
  starts _ t := ∃ D : Deliverer ι, D.platform = P ∧
    t = (do
      let _ ← D.deliverRevocations
      return ()).traced
  answers _ _ _ := True
  env s s' := ∃ e, e.signs = false ∧ s' = (s.1.step P e, s.2)
  crash s s' := ∃ instances, s' = ({ s.1 with instances := instances }, s.2)

/-- What the runner was told about the outcome of a transaction. -/
def observation : Exchange (World ι) TransportCall.Answer →
    Option (RevocationTransaction × Receipt)
  | .answered (.receipt transaction) (some (some receipt)) => some (transaction, receipt)
  | .answered (.wait transaction) (some (some receipt)) => some (transaction, receipt)
  | _ => none

/-- The outcomes that the runner was told. -/
def observations (log : History ι) : List (RevocationTransaction × Receipt) :=
  log.filterMap observation

/-- A job holds a signed transaction, and the runner was not told its outcome. -/
def Unknown (log : History ι) (h : Held) : Prop :=
  h.state ≠ .confirmed ∧ ∃ transaction ∈ h.transaction, ∀ o ∈ observations log, o.1 ≠ transaction

instance (log : History ι) (h : Held) : Decidable (Unknown log h) :=
  inferInstanceAs (Decidable (_ ∧ _))

/-- A job is confirmed, or holds no signed transaction. -/
def Settled (h : Held) : Prop :=
  h.state = .confirmed ∨ h.transaction = none

/-- The outbox of a vault holds a transaction for a job; a confirmed one without its bytes. -/
def Carries (l : List Held) (id : Text) (transaction : RevocationTransaction) : Prop :=
  ∃ h ∈ l, h.id = id ∧ (h.transaction = some transaction ∨
    h.state = .confirmed ∧ h.transaction = some { transaction with raw := [] })

/-- The outbox of the file. -/
def World.outbox (w : World ι) : List Held :=
  w.data.held

/-! ### What a request needs -/

/-- A signature is asked for when the jobs before are settled, and a broadcast is of a durable
transaction. -/
def RequestOk : Exchange (World ι) TransportCall.Answer → Prop
  | .asked (.prepare job) w => ∃ before h after, w.outbox = before ++ h :: after ∧
      h.id = job.id ∧ ∀ x ∈ before, Settled x
  | .asked (.broadcast transaction) w => ∃ h ∈ w.outbox, h.state ≠ .confirmed ∧
      h.transaction = some transaction
  | _ => True

def orderRules : Rules (Tracked ι) TransportCall.Answer Unit where
  inv s := ∀ e ∈ s.2, RequestOk e
  answers _ _ _ := True
  step _ s s' := (∀ e ∈ s'.2, RequestOk e) ∧ s.2 ⊆ s'.2 ∧
    ∀ id transaction, Carries s.1.outbox id transaction →
      Carries s'.1.outbox id transaction ∨ (transaction, .reverted) ∈ observations s'.2
  rely _ s s' := s'.2 = s.2 ∧ s.1.data.Queues s'.1.data

omit [DecidableEq ι] in
theorem Unknown.not_settled {log : History ι} {h : Held} (hunknown : Unknown log h) :
    ¬Settled h := by
  obtain ⟨hstate, transaction, htransaction, -⟩ := hunknown
  rw [Option.mem_def] at htransaction
  rintro (hconfirmed | hnone)
  · exact hstate hconfirmed
  · rw [hnone] at htransaction
    cases htransaction

theorem Carries.append {l new : List Held} {id : Text} {transaction : RevocationTransaction}
    (h : Carries l id transaction) : Carries (l ++ new) id transaction := by
  obtain ⟨x, hx, hcarries⟩ := h
  exact ⟨x, List.mem_append_left _ hx, hcarries⟩

theorem Carries.queues {d d' : Data} {id : Text} {transaction : RevocationTransaction}
    (h : Carries d.held id transaction) (hqueues : d.Queues d') :
    Carries d'.held id transaction := by
  obtain ⟨new, hheld, -⟩ := hqueues
  rw [hheld]
  exact h.append

/-- Replacing an entry keeps a transaction, if the new entry carries what the old one did. -/
theorem Carries.replace {l : List Held} {h' : Held} {id : Text}
    {transaction : RevocationTransaction} (h : Carries l id transaction)
    (hnew : ∀ old ∈ l, old.id = h'.id → (old.transaction = some transaction ∨
      old.state = .confirmed ∧ old.transaction = some { transaction with raw := [] }) →
        h'.transaction = some transaction ∨
          h'.state = .confirmed ∧ h'.transaction = some { transaction with raw := [] }) :
    Carries (Data.replaceHeld h' l) id transaction := by
  obtain ⟨old, hold, hid, hcarries⟩ := h
  refine ⟨if old.id = h'.id then h' else old, List.mem_map_of_mem hold, ?_⟩
  split
  case isTrue heq => exact ⟨heq.symm.trans hid, hnew old hold heq hcarries⟩
  case isFalse => exact ⟨hid, hcarries⟩

/-! ### Calls of the vault -/

variable {P : Platform} {w : World ι}

/-- A call leaves the file alone and throws, or performs its operation on it. -/
theorem World.call_spec (i : ι) (operation : Operation) (fault : Fault) :
    ((∃ e, (w.call P i operation fault).1 = .error e) ∧
      (w.call P i operation fault).2.data = w.data) ∨
    ∃ key d', w.data.perform P key operation = .ok d' ∧
      (w.call P i operation fault).2.outbox = d'.held := by
  rcases hi : w.instances i with - | me
  · exact .inl ⟨⟨_, by rw [World.call, hi]⟩, by rw [World.call, hi]⟩
  · simp only [World.call, hi, World.mutate]
    rcases hload : w.load me.key >>= fun d ↦ d.apply P ⟨me.key, operation⟩ with e | d
    · dsimp only
      split_ifs <;> exact .inl ⟨⟨_, rfl⟩, rfl⟩
    · obtain ⟨d₀, hd₀, happly⟩ := bind_eq_ok.1 hload
      obtain rfl := World.data_of_load hd₀
      obtain ⟨d', hperform, rfl⟩ := map_eq_ok.1 happly
      dsimp only
      split_ifs
      · exact .inl ⟨⟨_, rfl⟩, rfl⟩
      · exact .inl ⟨⟨_, rfl⟩, rfl⟩
      · exact .inl ⟨⟨_, rfl⟩, rfl⟩
      · exact .inl ⟨⟨_, rfl⟩, rfl⟩
      · cases fault with
        | beforeRename => exact .inl ⟨⟨_, rfl⟩, rfl⟩
        | none | lock | afterRename | unlock => exact .inr ⟨me.key, d', hperform, rfl⟩

/-! ### The step lemmas -/

/-- What is not a delivery's leaves the signed transactions as they are. -/
theorem World.queues_step {e : Event ι} (he : e.signs = false) :
    w.data.Queues (w.step P e).data := by
  rcases World.step_data (P := P) (w := w) e with ⟨-, hdata⟩ | ⟨call, hcommit, happly⟩
  · rw [hdata]
    exact .refl _
  · cases e with
    | construct | removeLock => cases hcommit
    | call i operation fault =>
      have hoperation : call.operation = operation := by
        simp only [World.commit] at hcommit
        split at hcommit
        · cases hcommit
        · split at hcommit
          · cases hcommit
          · split at hcommit
            · cases hcommit
            · rw [← Option.some.inj hcommit]
      obtain ⟨d', hperform, hd'⟩ := map_eq_ok.1 happly
      rw [← hd']
      exact (Data.quiet_perform (by rw [hoperation]; exact he) hperform).queues.trans (.of_eq rfl)

/-! ### Where a pass is -/

/-- A pass is at a job with an entry `h`, and the jobs of a list come after it. The jobs before are
settled, and those that were queued since are not signed. -/
def Focus (l : List Held) (h : Held) (jobs : List RevocationJob) : Prop :=
  ∃ before later new, l = before ++ h :: (later ++ new) ∧ (∀ x ∈ before, Settled x) ∧
    jobs.map RevocationJob.held = later.filter (fun x ↦ x.state ≠ .confirmed) ∧
      ∀ x ∈ new, x.transaction = none

/-- The jobs of a list are those that a pass has not come to. -/
def Todo (l : List Held) (jobs : List RevocationJob) : Prop :=
  ∃ before later new, l = before ++ (later ++ new) ∧ (∀ x ∈ before, Settled x) ∧
    jobs.map RevocationJob.held = later.filter (fun x ↦ x.state ≠ .confirmed) ∧
      ∀ x ∈ new, x.transaction = none

theorem Focus.queues {d d' : Data} {h : Held} {jobs : List RevocationJob}
    (hfocus : Focus d.held h jobs) (hqueues : d.Queues d') : Focus d'.held h jobs := by
  obtain ⟨before, later, new, hl, hbefore, hjobs, hnew⟩ := hfocus
  obtain ⟨new', hheld, hnew'⟩ := hqueues
  refine ⟨before, later, new ++ new', ?_, hbefore, hjobs, fun x hx ↦ ?_⟩
  · rw [hheld, hl]
    simp
  · exact (List.mem_append.1 hx).elim (hnew x) (hnew' x)

theorem Focus.mem {l : List Held} {h : Held} {jobs : List RevocationJob} (hfocus : Focus l h jobs) :
    h ∈ l := by
  obtain ⟨before, later, new, rfl, -⟩ := hfocus
  simp

theorem Focus.eq_of_id {d : Data} {h x : Held} {jobs : List RevocationJob}
    (hfocus : Focus d.held h jobs) (hx : x ∈ d.held) (hid : x.id = h.id) : x = h :=
  List.inj_on_of_nodup_map d.held_nodup hx hfocus.mem hid

/-- The pass changes the entry it is at. -/
theorem Focus.replace {d : Data} {h : Held} {jobs : List RevocationJob}
    (hfocus : Focus d.held h jobs) (h' : Held) (hid : h'.id = h.id) :
    Focus (Data.replaceHeld h' d.held) h' jobs := by
  have hnodup := d.held_nodup
  obtain ⟨before, later, new, hl, hrest⟩ := hfocus
  rw [hl] at hnodup
  exact ⟨before, later, new, by rw [hl, Data.replaceHeld_append hid hnodup], hrest⟩

/-- The pass goes on. -/
theorem Focus.settle {l : List Held} {h : Held} {jobs : List RevocationJob}
    (hfocus : Focus l h jobs) (hsettled : Settled h) : Todo l jobs := by
  obtain ⟨before, later, new, hl, hbefore, hrest⟩ := hfocus
  refine ⟨before ++ [h], later, new, by rw [hl]; simp, fun x hx ↦ ?_, hrest⟩
  rcases List.mem_append.1 hx with hx | hx
  · exact hbefore x hx
  · rw [List.mem_singleton.1 hx]
    exact hsettled

/-- The pass comes to its next job; the jobs that it passes over are confirmed. -/
theorem Todo.next {l : List Held} {job : RevocationJob} {jobs : List RevocationJob}
    (htodo : Todo l (job :: jobs)) : Focus l job.held jobs ∧ job.state ≠ .confirmed := by
  obtain ⟨before, later, new, hl, hbefore, hjobs, hnew⟩ := htodo
  obtain ⟨passed, later', rfl, hpassed, hstate, hjobs'⟩ := List.filter_eq_cons_iff.1 hjobs.symm
  have hopen : job.held.state ≠ .confirmed := by simpa using hstate
  refine ⟨⟨before ++ passed, later', new, by rw [hl]; simp, fun x hx ↦ ?_, hjobs'.symm, hnew⟩,
    hopen⟩
  rcases List.mem_append.1 hx with hx | hx
  · exact hbefore x hx
  · exact .inl (by simpa using hpassed x hx)

/-- A pass starts with the jobs that are not confirmed. -/
theorem todo_start (d : Data) :
    Todo d.held (d.revocations.rows.filter fun job ↦ job.state ≠ .confirmed) := by
  refine ⟨[], d.held, [], by simp, nofun, ?_, nofun⟩
  rw [Data.held, List.filter_map]
  rfl

/-! ### The pass -/

namespace Deliverer

open Program

variable {D : Deliverer ι} {me : Unit} {s : Tracked ι}

/-- The invariant of the rules. -/
abbrev HistoryOk (s : Tracked ι) : Prop :=
  (orderRules (ι := ι)).inv s

omit [DecidableEq ι] in
/-- One more entry of the history is a step, if the entry is right. -/
theorem step_push {e : Exchange (World ι) TransportCall.Answer} (hs : HistoryOk s)
    (he : RequestOk e) : (orderRules (ι := ι)).step me s (s.push e) := by
  refine ⟨fun x hx ↦ ?_, List.subset_append_left _ _, fun id transaction h ↦ .inl h⟩
  rcases List.mem_append.1 hx with hx | hx
  · exact hs x hx
  · rw [List.mem_singleton.1 hx]
    exact he

omit [DecidableEq ι] in
/-- A request: the answer comes to a vault in which the signed transactions are the same. -/
theorem wp_ask {q : TransportCall} {post : Except String q.Answer → Tracked ι → Prop}
    (hs : HistoryOk s) (hq : RequestOk (.asked q s.1))
    (hpost : ∀ a w, s.1.data.Queues w.data →
      HistoryOk (w, s.2 ++ [.asked q s.1] ++ [.answered q a]) →
        post (.ok a) (w, s.2 ++ [.asked q s.1] ++ [.answered q a])) :
    wp orderRules me post (request q : Delivery ι q.Answer).traced s := by
  refine wp_traced_request.2 ⟨step_push hs hq, fun _ s₁ a s₂ _ hs₂ hrely _ hrely' ↦ ?_⟩
  obtain ⟨w₂, log⟩ := s₂
  obtain ⟨hlog₁, hqueues₁⟩ := hrely
  obtain ⟨hlog₂, hqueues₂⟩ := hrely'
  obtain rfl : log = s.2 ++ [.asked q s.1] := hlog₂.trans hlog₁
  exact ⟨step_push hs₂ trivial, hpost a w₂ (hqueues₁.trans hqueues₂)⟩

/-- A call of the vault: it throws and changes nothing, or performs its operation. -/
theorem wp_mutate {operation : Operation} {post : Except String Unit → Tracked ι → Prop}
    (hD : D.platform = P) (hs : HistoryOk s)
    (hfails : ∀ e w, post (.error e) (w, s.2))
    (hdone : ∀ key d' w r, s.1.data.perform P key operation = .ok d' → w.outbox = d'.held →
      (∀ id transaction, Carries s.1.outbox id transaction →
        Carries d'.held id transaction ∨ (transaction, .reverted) ∈ observations s.2) ∧ post r (w, s.2)) :
    wp orderRules me post (D.mutate operation).traced s := by
  refine wp_traced_call.2 ?_
  rw [hD]
  rcases World.call_spec (P := P) (w := s.1) D.vault operation (D.fault operation) with
    ⟨⟨e, he⟩, hdata⟩ | ⟨key, d', hperform, houtbox⟩
  · rw [he]
    refine ⟨⟨hs, List.Subset.refl _, fun id transaction h ↦ .inl ?_⟩, fun _ ↦ hfails e _⟩
    rwa [World.outbox, hdata]
  · obtain ⟨hcarries, hpost⟩ := hdone key d' _ _ hperform houtbox
    refine ⟨⟨hs, List.Subset.refl _, fun id transaction h ↦ ?_⟩, fun _ ↦ hpost⟩
    rw [houtbox]
    exact hcarries id transaction h

omit [DecidableEq ι] in
/-- The reads of the vault throw or go on. -/
theorem wp_assertWritable {post : Except String Unit → Tracked ι → Prop}
    (hfails : ∀ e, post (.error e) s) (hok : post (.ok ()) s) :
    wp orderRules me post D.assertWritable.traced s := by
  refine wp_traced_get_bind.2 ?_
  split
  · exact hfails _
  · exact hok

/-- The list of a pass is that of the file. -/
theorem wp_listPendingRevocations {post : Except String (List RevocationJob) → Tracked ι → Prop}
    (hfails : ∀ e, post (.error e) s)
    (hok : post (.ok (s.1.data.revocations.rows.filter fun job ↦ job.state ≠ .confirmed)) s) :
    wp orderRules me post D.listPendingRevocations.traced s := by
  unfold listPendingRevocations load
  rw [traced_bind]
  refine wp_bind.2 (wp_traced_get_bind.2 ?_)
  split
  · exact hfails _
  · split
    case h_1 d hload =>
      obtain rfl := World.data_of_load hload
      exact hok
    case h_2 => exact hfails _

omit [DecidableEq ι] in
theorem wp_demand {β : Type} {x : Option β} {post : Except String β → Tracked ι → Prop}
    (hfails : ∀ e, post (.error e) s) (hok : ∀ b, x = some b → post (.ok b) s) :
    wp orderRules me post (demand x : Delivery ι β).traced s := by
  cases x with
  | none => exact hfails _
  | some b => exact hok b rfl

/-- Signing ends with a transaction that the job's entry holds. -/
theorem wp_signed {job : RevocationJob} {jobs : List RevocationJob} (hD : D.platform = P)
    (hs : HistoryOk s) (hopen : job.state ≠ .confirmed)
    (hfocus : Focus s.1.outbox job.held jobs) :
    wp orderRules me (fun result s ↦ ∀ transaction, result = .ok transaction →
      ∃ state, state ≠ .confirmed ∧ Focus s.1.outbox ⟨job.id, state, some transaction⟩ jobs)
      (D.signed job).traced s := by
  unfold signed
  split
  case h_1 transaction htransaction =>
    rintro t ⟨⟩
    refine ⟨job.state, hopen, ?_⟩
    rwa [← htransaction]
  case h_2 hnone =>
    have hrequest : RequestOk (.asked (.prepare job) s.1) := by
      obtain ⟨before, later, new, hl, hbefore, -⟩ := hfocus
      exact ⟨before, job.held, later ++ new, hl, rfl, hbefore⟩
    rw [traced_bind]
    refine wp_bind.2 (wp_ask hs hrequest fun answer w hqueues hs' ↦ ?_)
    have hfocus' : Focus w.outbox job.held jobs := hfocus.queues hqueues
    show wp orderRules me _ (demand answer >>= _).traced _
    rw [traced_bind]
    refine wp_bind.2 (wp_demand (fun e ↦ nofun) fun transaction _ ↦ ?_)
    show wp orderRules me _ (D.mutate _ >>= _).traced _
    rw [traced_bind]
    refine wp_bind.2 (wp_mutate hD hs' (fun e w ↦ nofun) fun key d' w' r hperform houtbox ↦ ?_)
    have hheld := Data.held_prepareRevocation hperform
    refine ⟨fun id t hcarries ↦ .inl ?_, ?_⟩
    · -- the entry that is replaced holds no transaction
      rw [hheld]
      refine hcarries.replace fun old hold hid hof ↦ ?_
      obtain rfl : old = job.held := hfocus'.eq_of_id hold hid
      rcases hof with hsome | ⟨-, hsome⟩ <;> cases hnone.symm.trans hsome
    · cases r with
      | error e => exact nofun
      | ok u =>
        rintro t ⟨⟩
        refine ⟨.prepared, by decide, ?_⟩
        rw [houtbox, hheld]
        exact hfocus'.replace _ rfl

omit [DecidableEq ι] in
/-- Reconciling ends with what the runner was told about the transaction. -/
theorem wp_reconcile {h : Held} {jobs : List RevocationJob} {transaction : RevocationTransaction}
    (hs : HistoryOk s) (hopen : h.state ≠ .confirmed)
    (htransaction : h.transaction = some transaction) (hfocus : Focus s.1.outbox h jobs) :
    wp orderRules me (fun result s ↦ ∀ receipt, result = .ok receipt →
      HistoryOk s ∧ Focus s.1.outbox h jobs ∧
        ∀ r, receipt = some r → (transaction, r) ∈ observations s.2)
      (D.reconcile transaction).traced s := by
  unfold reconcile
  rw [traced_bind]
  refine wp_bind.2 (wp_ask hs trivial fun answer w hqueues hs' ↦ ?_)
  have hfocus' : Focus w.outbox h jobs := hfocus.queues hqueues
  show wp orderRules me _ (demand answer >>= _).traced _
  rw [traced_bind]
  refine wp_bind.2 (wp_demand (fun e ↦ nofun) fun receipt hanswer ↦ ?_)
  show wp orderRules me _ (Program.traced _) _
  subst hanswer
  cases receipt with
  | some r =>
    rintro receipt ⟨⟩
    refine ⟨hs', hfocus', ?_⟩
    rintro r ⟨⟩
    simp [observations, observation]
  | none =>
    dsimp only
    rw [traced_bind]
    refine wp_bind.2 (wp_assertWritable (fun e ↦ nofun) ?_)
    show wp orderRules me _ (request (TransportCall.broadcast transaction) >>= _).traced _
    rw [traced_bind]
    have hdurable : RequestOk (.asked (.broadcast transaction) w) :=
      ⟨h, hfocus'.mem, hopen, htransaction⟩
    refine wp_bind.2 (wp_ask hs' hdurable fun _ w₂ hqueues₂ hs₂ ↦ ?_)
    have hfocus₂ : Focus w₂.outbox h jobs := hfocus'.queues hqueues₂
    show wp orderRules me _ (request (TransportCall.wait transaction) >>= _).traced _
    rw [traced_bind]
    refine wp_bind.2 (wp_ask hs₂ trivial fun answer w₃ hqueues₃ hs₃ ↦ ?_)
    refine wp_demand (fun e ↦ nofun) fun receipt hanswer ↦ ?_
    subst hanswer
    rintro receipt ⟨⟩
    refine ⟨hs₃, hfocus₂.queues hqueues₃, ?_⟩
    rintro r rfl
    simp [observations, observation]

/-- What holds after one job: unless the loop ends, the job is settled. -/
def Visited (jobs : List RevocationJob) (result : Except String (Bool × Bool)) (s : Tracked ι) :
    Prop :=
  ∀ outcome, result = .ok outcome → outcome ≠ (false, false) → Todo s.1.outbox jobs

/-- Keeping an entry's state and transaction keeps every transaction. -/
theorem carries_of_fail {d d' : Data} {key id error : Text}
    (hperform : d.perform P key (.failRevocation id error false) = .ok d') {x : Text}
    {t : RevocationTransaction} (hcarries : Carries d.held x t) : Carries d'.held x t := by
  obtain ⟨old, hmem, rfl, -, hheld⟩ := Data.held_failRevocation hperform
  rw [hheld]
  refine hcarries.replace fun old' hold' hid hof ↦ ?_
  obtain rfl : old' = old := List.inj_on_of_nodup_map d.held_nodup hold' hmem hid
  exact hof

/-- Confirming the job that a pass is at keeps every transaction. -/
theorem finished {d d' : Data} {key id : Text} {state : RevocationJobState}
    {transaction : RevocationTransaction} {at_ : ℤ} {jobs : List RevocationJob}
    (hfocus : Focus d.held ⟨id, state, some transaction⟩ jobs) (hopen : state ≠ .confirmed)
    (hperform : d.perform P key (.finishRevocation id at_) = .ok d') :
    (∀ x t, Carries d.held x t → Carries d'.held x t) ∧ Todo d'.held jobs := by
  obtain ⟨old, hmem, hid, t, ht, hheld⟩ := Data.held_finishRevocation hperform
  obtain rfl := hfocus.eq_of_id hmem hid
  obtain rfl := Option.some.inj ht
  constructor
  · intro x t hcarries
    rw [hheld]
    refine hcarries.replace fun old' hold' hid' hof ↦ .inr ⟨rfl, ?_⟩
    obtain rfl := hfocus.eq_of_id hold' hid'
    rcases hof with hsame | ⟨hconfirmed, -⟩
    · rw [Option.some.inj hsame]
    · exact absurd hconfirmed hopen
  · have hconfirmed := hfocus.replace ⟨id, .confirmed, some { transaction with raw := [] }⟩ rfl
    rw [hheld]
    exact hconfirmed.settle (.inl rfl)

/-- A mined revert takes the transaction of the job that a pass is at, and no other. -/
theorem reverted {d d' : Data} {key id error : Text} {state : RevocationJobState}
    {transaction : RevocationTransaction} {jobs : List RevocationJob}
    (hfocus : Focus d.held ⟨id, state, some transaction⟩ jobs) (hopen : state ≠ .confirmed)
    (hperform : d.perform P key (.failRevocation id error true) = .ok d') :
    (∀ x t, Carries d.held x t → Carries d'.held x t ∨ t = transaction) ∧ Todo d'.held jobs := by
  obtain ⟨old, hmem, hid, -, hheld⟩ := Data.held_failRevocation hperform
  constructor
  · intro x t hcarries
    refine or_iff_not_imp_right.2 fun hne ↦ ?_
    rw [hheld]
    refine hcarries.replace fun old' hold' hid' hof ↦ ?_
    obtain rfl := hfocus.eq_of_id hold' hid'
    rcases hof with hsame | ⟨hconfirmed, -⟩
    · exact absurd (Option.some.inj hsame).symm hne
    · exact absurd hconfirmed hopen
  · have hunsigned := hfocus.replace ⟨id, .pending, none⟩ rfl
    rw [hheld]
    exact hunsigned.settle (.inr rfl)

theorem wp_deliver {job : RevocationJob} {jobs : List RevocationJob} (hD : D.platform = P)
    (hs : HistoryOk s) (hopen : job.state ≠ .confirmed)
    (hfocus : Focus s.1.outbox job.held jobs) :
    wp orderRules me (Visited jobs) (D.deliver job).traced s := by
  unfold deliver
  rw [traced_bind]
  refine wp_bind.2 (wp_mono hs ?_ (wp_signed hD hs hopen hfocus))
  intro result s₁ hs₁ hsigned
  cases result with
  | error e => exact nofun
  | ok transaction =>
    obtain ⟨state, hstate, hfocus₁⟩ := hsigned transaction rfl
    show wp orderRules me _ (Program.traced _) s₁
    split
    case isTrue => exact nofun
    case isFalse =>
      rw [traced_bind]
      refine wp_bind.2 (wp_mono hs₁ ?_ (wp_reconcile hs₁ hstate rfl hfocus₁))
      intro result s₂ hs₂ hreconciled
      cases result with
      | error e => exact nofun
      | ok receipt =>
        obtain ⟨-, hfocus₂, hobserved⟩ := hreconciled receipt rfl
        show wp orderRules me _ (Program.traced _) s₂
        cases receipt with
        | none =>
          rw [traced_bind]
          refine wp_bind.2 (wp_mutate hD hs₂ (fun e w ↦ nofun) fun key d' w r hperform _ ↦ ?_)
          refine ⟨fun x t hcarries ↦ .inl (carries_of_fail hperform hcarries), ?_⟩
          cases r with
          | error e => exact nofun
          | ok u =>
            rintro outcome ⟨⟩ hne
            exact absurd rfl hne
        | some r =>
          cases r with
          | success =>
            rw [traced_bind]
            refine wp_bind.2 (wp_mutate hD hs₂ (fun e w ↦ nofun)
              fun key d' w r hperform houtbox ↦ ?_)
            obtain ⟨hcarries, htodo⟩ := finished hfocus₂ hstate hperform
            refine ⟨fun x t h ↦ .inl (hcarries x t h), ?_⟩
            cases r with
            | error e => exact nofun
            | ok u =>
              rintro outcome ⟨⟩ -
              exact houtbox ▸ htodo
          | reverted =>
            rw [traced_bind]
            refine wp_bind.2 (wp_mutate hD hs₂ (fun e w ↦ nofun)
              fun key d' w r hperform houtbox ↦ ?_)
            obtain ⟨hcarries, htodo⟩ := reverted hfocus₂ hstate hperform
            refine ⟨fun x t h ↦ ?_, ?_⟩
            · rcases hcarries x t h with hkept | rfl
              · exact .inl hkept
              · exact .inr (hobserved .reverted rfl)
            · cases r with
              | error e => exact nofun
              | ok u =>
                rintro outcome ⟨⟩ -
                exact houtbox ▸ htodo

/-- A job whose delivery throws is marked as failed, and the loop ends. -/
theorem wp_deliverOrFail {job : RevocationJob} {jobs : List RevocationJob} (hD : D.platform = P)
    (hs : HistoryOk s) (hopen : job.state ≠ .confirmed)
    (hfocus : Focus s.1.outbox job.held jobs) :
    wp orderRules me (Visited jobs) (D.deliverOrFail job).traced s := by
  unfold deliverOrFail
  rw [traced_tryCatch]
  refine wp_tryCatch.2 (wp_mono hs ?_ (wp_deliver hD hs hopen hfocus))
  intro result s₁ hs₁ hvisited
  cases result with
  | ok outcome => exact hvisited
  | error e =>
    show wp orderRules me _ (Program.traced _) s₁
    rw [traced_bind]
    refine wp_bind.2 (wp_mutate hD hs₁ (fun e w ↦ nofun) fun key d' w r hperform _ ↦ ?_)
    refine ⟨fun x t hcarries ↦ .inl (carries_of_fail hperform hcarries), ?_⟩
    cases r with
    | error e => exact nofun
    | ok u =>
      rintro outcome ⟨⟩ hne
      exact absurd rfl hne

theorem wp_deliverAll {jobs : List RevocationJob} (hD : D.platform = P) (hs : HistoryOk s)
    (htodo : Todo s.1.outbox jobs) (confirmed failed : ℕ) :
    wp orderRules me (fun _ _ ↦ True) (D.deliverAll jobs confirmed failed).traced s := by
  induction jobs generalizing s confirmed failed with
  | nil => exact trivial
  | cons job jobs ih =>
    obtain ⟨hfocus, hopen⟩ := htodo.next
    unfold deliverAll
    rw [traced_bind]
    refine wp_bind.2 (wp_mono hs ?_ (wp_deliverOrFail hD hs hopen hfocus))
    intro result s₁ hs₁ hvisited
    cases result with
    | error e => exact trivial
    | ok outcome =>
      show wp orderRules me _ (Program.traced _) s₁
      obtain ⟨done, goes⟩ := outcome
      cases done with
      | true =>
        exact ih hs₁ (hvisited _ rfl (by simp)) _ _
      | false =>
        cases goes with
        | true => exact ih hs₁ (hvisited _ rfl (by simp)) _ _
        | false => exact trivial

theorem wp_deliverRevocations (hD : D.platform = P) (hs : HistoryOk s) :
    wp orderRules me (fun _ _ ↦ True) D.deliverRevocations.traced s := by
  unfold deliverRevocations
  rw [traced_bind]
  refine wp_bind.2 (wp_assertWritable (fun e ↦ trivial) ?_)
  show wp orderRules me _ (D.listPendingRevocations >>= _).traced s
  rw [traced_bind]
  refine wp_bind.2 (wp_listPendingRevocations (fun e ↦ trivial) ?_)
  show wp orderRules me _ (D.deliverAll _ 0 0 >>= _).traced s
  rw [traced_bind]
  refine wp_bind.2 (wp_mono hs ?_ (wp_deliverAll hD hs (todo_start _) 0 0))
  intro result s₁ hs₁ _
  cases result with
  | error e => exact trivial
  | ok counts =>
    show wp orderRules me _ (D.listPendingRevocations >>= _).traced s₁
    rw [traced_bind]
    exact wp_bind.2 (wp_listPendingRevocations (fun e ↦ trivial) trivial)

end Deliverer

theorem orderRules_sound : (orderRules (ι := ι)).Sound (runnerSystem P) where
  rely_refl _ s := ⟨rfl, .refl _⟩
  rely_trans h h' := ⟨h'.1.trans h.1, h.2.trans h'.2⟩
  step_inv _ h := h.1
  step_rely _ _ hne := absurd rfl hne
  env_inv hs := by
    rintro ⟨e, -, rfl⟩
    exact hs
  env_rely _ := by
    rintro ⟨e, he, rfl⟩
    exact ⟨rfl, World.queues_step he⟩
  crash_inv hs := by
    rintro ⟨instances, rfl⟩
    exact hs
  answered _ := trivial
  started := by
    rintro i t s ⟨D, hD, rfl⟩ hs
    rw [Program.traced_bind]
    refine Program.wp_bind.2 (Program.wp_mono hs ?_ (Deliverer.wp_deliverRevocations hD hs))
    intro result s₁ _ _
    cases result <;> exact trivial

/-! ### The order of signatures -/

/-- A run with one runner, from an empty directory. -/
abbrev Reached (P : Platform)
    (c : Async.System.Config (Tracked ι) String TransportCall.Answer Unit) : Prop :=
  (runnerSystem P).Reaches ⟨(World.fresh, []), fun _ ↦ none⟩ c

/-- Over a run, a transaction that a job holds stays, unless it was observed as reverted. -/
theorem carries_run {s s' : Tracked ι}
    (hmoves : Relation.ReflTransGen ((runnerSystem P).Move orderRules) s s') {id : Text}
    {transaction : RevocationTransaction} (h : Carries s.1.outbox id transaction) :
    Carries s'.1.outbox id transaction ∨ (transaction, .reverted) ∈ observations s'.2 := by
  induction hmoves with
  | refl => exact .inl h
  | @tail s₁ s₂ _ hmove ih =>
    rcases hmove.2 with ⟨_, hstep⟩ | ⟨e, he, rfl⟩ | ⟨instances, rfl⟩
    · rcases ih with hcarries | hobserved
      · exact hstep.2.2 id transaction hcarries
      · obtain ⟨e, he, ho⟩ := List.mem_filterMap.1 hobserved
        exact .inr (List.mem_filterMap.2 ⟨e, hstep.2.1 he, ho⟩)
    · exact ih.imp_left fun hcarries ↦ hcarries.queues (World.queues_step he)
    · exact ih

/-- The entries of the jobs that were queued after a job. -/
def behind (id : Text) (l : List Held) : List Held :=
  (l.dropWhile fun x ↦ x.id ≠ id).tail

/-- **Delivery over any number of passes.** What is broadcast is the durable transaction of a job;
a job's transaction stays until it was observed as mined and reverted; and a signature is asked for
behind no unknown transaction if and only if no job that was queued later holds one. -/
theorem revocations_ordered {c : Async.System.Config (Tracked ι) String TransportCall.Answer Unit}
    (h : Reached P c) :
    (∀ transaction w, .asked (.broadcast transaction) w ∈ c.state.2 →
      ∃ x ∈ w.outbox, x.state ≠ .confirmed ∧ x.transaction = some transaction) ∧
    (∀ c', (runnerSystem P).Reaches c c' → ∀ id transaction,
      Carries c.state.1.outbox id transaction →
        Carries c'.state.1.outbox id transaction ∨
          (transaction, .reverted) ∈ observations c'.state.2) ∧
    ∀ earlier job w later, c.state.2 = earlier ++ .asked (.prepare job) w :: later →
      ((∀ x ∈ w.outbox, x.id ≠ job.id → ¬Unknown earlier x) ↔
        ∀ x ∈ behind job.id w.outbox, ¬Unknown earlier x) := by
  have hstart : Async.System.Good orderRules
      (⟨(World.fresh, []), fun _ ↦ none⟩ :
        Async.System.Config (Tracked ι) String TransportCall.Answer Unit) :=
    Async.System.Good.initial (R := orderRules) fun _ h ↦ absurd h List.not_mem_nil
  obtain ⟨hgood, -⟩ := hstart.run orderRules_sound h
  refine ⟨fun transaction w hasked ↦ hgood.inv _ hasked, fun c' hc' id transaction hcarries ↦ ?_,
    fun earlier job w later hlog ↦ ?_⟩
  · exact carries_run (hgood.run orderRules_sound hc').2 hcarries
  · obtain ⟨before, x, after, houtbox, hid, hbefore⟩ : RequestOk (.asked (.prepare job) w) :=
      hgood.inv _ (by rw [hlog]; simp)
    have hnodup : (w.outbox.map Held.id).Nodup := w.data.held_nodup
    rw [houtbox, List.map_append, List.map_cons, List.nodup_middle, List.nodup_cons,
      ← List.map_append] at hnodup
    have hother : ∀ y ∈ before ++ after, y.id ≠ job.id := fun y hy heq ↦
      hnodup.1 (List.mem_map.2 ⟨y, hy, heq.trans hid.symm⟩)
    have hbehind : behind job.id w.outbox = after := by
      rw [behind, houtbox, List.dropWhile_append_of_pos fun y hy ↦ by
        simpa using hother y (List.mem_append_left _ hy)]
      simp [hid]
    rw [hbehind, houtbox]
    constructor
    · intro hall y hy
      exact hall y (by simp [hy]) (hother y (List.mem_append_right _ hy))
    · intro hafter y hy hne
      rcases List.mem_append.1 hy with hy | hy
      · exact fun hunknown ↦ hunknown.not_settled (hbefore y hy)
      · rcases List.mem_cons.1 hy with rfl | hy
        · exact absurd hid hne
        · exact hafter y hy

end Order

/-! ### A revert that was mined -/

/-- A delivery that goes wrong nowhere. -/
def sampleDeliverer : Deliverer Unit :=
  ⟨samplePlatform, (), fun _ _ ↦ true, fun _ ↦ 9, fun _ ↦ .none⟩

/-- The transaction that is signed for a job. -/
def sampleTransaction (job : RevocationJob) : RevocationTransaction :=
  ⟨job.id, ['b'], 11155111, ['s']⟩

/-- Sign what is asked for, know of no receipt before a broadcast, and one answer after it. -/
def transportAnswer (receipt : Option Receipt) :
    (q : TransportCall) → Tracked Unit → TransportCall.Answer q
  | .prepare job, _ => some (sampleTransaction job)
  | .receipt _, _ => some none
  | .broadcast _, _ => some ()
  | .wait _, _ => some receipt

section Overtaking

open Async.System

abbrev SampleEvent :=
  Async.System.Event (runnerSystem (ι := Unit) samplePlatform)

def vaultEvent (e : Event Unit) (he : e.signs = false) : SampleEvent :=
  .env (fun s ↦ (s.1.step samplePlatform e, s.2)) fun _ ↦ ⟨e, he, rfl⟩

def startPass : SampleEvent :=
  .start () _ ⟨sampleDeliverer, rfl, rfl⟩

/-- An answer comes, and the runner goes on. -/
def answered (receipt : Option Receipt) : List SampleEvent :=
  [.answer () (transportAnswer receipt) fun _ _ ↦ trivial, .resume ()]

/-- Two records that are blocked get their jobs. The first pass sees the first revocation reverted
and the second one pending, and the next pass signs for the first. -/
def overtakingRun : List SampleEvent :=
  [vaultEvent (.construct () sampleSecret) rfl,
    vaultEvent (.call () (.put (sampleRecord .blocked)) .none) rfl,
    vaultEvent (.call () (.put { sampleRecord .blocked with id := ['q'] }) .none) rfl,
    vaultEvent (.call () (.recoverBlockedRevocations 5) .none) rfl, startPass, .resume ()]
    ++ (List.replicate 4 (answered (some .reverted))).flatten
    ++ (List.replicate 4 (answered none)).flatten ++ [startPass, .resume ()]

/-- Where that run ends. -/
def overtaken : Async.System.Config (Tracked Unit) String TransportCall.Answer Unit :=
  Async.System.play overtakingRun ⟨(World.fresh, []), fun _ ↦ none⟩

/-- The last request of a history asks for a signature although another job holds an unknown
transaction. -/
def Overtakes (log : History Unit) : Prop :=
  ∃ (earlier : History Unit) (job : RevocationJob) (w : World Unit),
    log = earlier ++ [Async.Exchange.asked (TransportCall.prepare job) w] ∧
      ∃ x ∈ w.outbox, x.id ≠ job.id ∧ Unknown earlier x

/-- The same, as a check. -/
def overtakes (log : History Unit) : Bool :=
  match log.getLast? with
  | some (.asked (.prepare job) w) =>
    w.outbox.any fun x ↦ x.id ≠ job.id && decide (Unknown log.dropLast x)
  | _ => false

theorem overtakes_of_check {log : History Unit} (h : overtakes log = true) : Overtakes log := by
  unfold overtakes at h
  split at h
  case h_1 job w hlast =>
    obtain ⟨x, hx, hcheck⟩ := List.any_eq_true.1 h
    simp only [Bool.and_eq_true, decide_eq_true_eq] at hcheck
    exact ⟨_, job, w, (List.dropLast_append_getLast? _ hlast).symm, x, hx, hcheck⟩
  case h_2 => cases h

theorem overtaken_overtakes : Reached samplePlatform overtaken ∧ Overtakes overtaken.state.2 :=
  ⟨Async.System.reaches_play _ _, overtakes_of_check (by decide +kernel)⟩

/-- Every broadcast of a history is of a durable transaction of an open job. -/
def BroadcastsDurable (log : History Unit) : Prop :=
  ∀ transaction w, .asked (.broadcast transaction) w ∈ log →
    ∃ x ∈ w.outbox, x.state ≠ .confirmed ∧ x.transaction = some transaction

/-- In that run too, every broadcast is of a durable transaction. -/
theorem revocations_ordered_overtakingRun : BroadcastsDurable overtaken.state.2 :=
  (revocations_ordered (P := samplePlatform) (c := overtaken) (Async.System.reaches_play _ _)).1

end Overtaking

end Proofmark.Vault
