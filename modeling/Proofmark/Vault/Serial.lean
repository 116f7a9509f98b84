import Proofmark.Collection.Log
import Proofmark.Vault.Syscalls

/-!
# The vault's writes are serial and atomic

The file of a vault is at every moment what the calls that renamed a file, each once and one after
another, make of an empty vault. A call that returns has renamed; a call that throws anything but an
unconfirmed write has not, and leaves its instance reading what it read before. After an
unconfirmed write nothing is renamed until an operator removes the lock.

The invariant follows the phases of a call (`AttemptOk`). Only the owner of the lock is past
`acquire`, so what it has read stays current until it renames; a lock whose owner is not in the
middle of a call is stuck, and nobody passes `acquire` while it is there.
-/

open Evm

namespace Proofmark.Vault.Syscall

open Pipeline (Text)

section Serial

variable {ι : Type} [DecidableEq ι]

/-! ### What the log says -/

/-- The deed is a rename, of the call with a ticket. -/
def Deed.ticket? : Deed ι → Option ℕ
  | .committed ticket _ => some ticket
  | _ => none

def Deed.call? : Deed ι → Option Call
  | .committed _ call => some call
  | _ => none

/-- No file was renamed. -/
def Quiescent (deeds : List (Deed ι)) : Prop :=
  ∀ d ∈ deeds, d.ticket? = none

namespace World

variable (w : World ι)

/-- The calls that renamed a file, in order. -/
def calls : List Call :=
  w.log.filterMap Deed.call?

/-- Their tickets. -/
def tickets : List ℕ :=
  w.log.filterMap Deed.ticket?

/-- An instance is in a call. -/
def Runs (i : ι) (me : Instance) (a : Attempt) : Prop :=
  w.instances i = some me ∧ me.attempt = some a

/-- There is a lock file, and its owner is not in the middle of a call. -/
def Stuck : Prop :=
  ∃ owner, w.lock = some owner ∧ w.holding owner = false

end World

/-! ### The invariant -/

/-- What a call that returned has done. -/
def ResultOk (tickets : List ℕ) (ticket : ℕ) (result : Except Failure Unit) : Prop :=
  (result = .ok () → ticket ∈ tickets) ∧
    ∀ e, result = .error e → e ≠ .unconfirmed → ticket ∉ tickets

/-- Where a call is, what it has done and what it holds in memory. -/
def AttemptOk (P : Platform) (file : Option Envelope) (tickets : List ℕ) (me : Instance)
    (ticket : ℕ) (operation : Operation) : Phase → Prop
  | .enter | .acquire | .note | .load => ticket ∉ tickets
  | .operate => ticket ∉ tickets ∧ load file me.key = .ok me.data
  | .encrypt | .rename => ticket ∉ tickets ∧ ∃ d, load file me.key = .ok d ∧
      d.apply P ⟨me.key, operation⟩ = .ok me.data
  | .sync => ticket ∈ tickets
  | .recover error => error ≠ .unconfirmed → ticket ∉ tickets
  | .close result => ResultOk tickets ticket result
  | .unlink result => ResultOk tickets ticket result ∧ result ≠ .error .unconfirmed

/-- A call started, its instance has kept its key, and without a rename the file is the same. -/
def StartedOk (file : Option Envelope) (log : List (Deed ι)) (i : ι) (key : Text) (ticket : ℕ) :
    Prop :=
  ∃ before since file₀, log = before ++ .started ticket i file₀ (load file₀ key) :: since ∧
    (Quiescent since → file = file₀)

/-- **The invariant.** -/
structure Inv (P : Platform) (w : World ι) : Prop where
  serial : w.calls.foldlM (Data.apply P) .empty = .ok w.data
  once : w.tickets.Nodup
  bound : ∀ t ∈ w.tickets, t < w.next
  running : ∀ i me a, w.Runs i me a → a.ticket < w.next ∧
    AttemptOk P w.file w.tickets me a.ticket a.operation a.phase ∧
      StartedOk w.file w.log i me.key a.ticket
  owner : ∀ i, w.holding i = true → w.lock = some i
  distinct : ∀ i j me me' a a', w.Runs i me a → w.Runs j me' a' → a.ticket = a'.ticket → i = j
  returned : ∀ t i result file reads, .returned t i result file reads ∈ w.log →
    t < w.next ∧ ResultOk w.tickets t result ∧ ∀ j me a, w.Runs j me a → a.ticket ≠ t
  /-- A failed call leaves its instance reading with the key it had. -/
  failed : ∀ before t i e file reads later,
    w.log = before ++ .returned t i (.error e) file reads :: later → e ≠ .unconfirmed →
      ∃ key, reads = load file key ∧ StartedOk file before i key t
  /-- A retained lock stays until it is removed. -/
  stuck : ∀ before t i file reads later,
    w.log = before ++ .returned t i (.error .unconfirmed) file reads :: later →
      .lockRemoved ∈ later ∨ w.Stuck
  /-- And until then nothing is renamed. -/
  fenced : ∀ before t i file reads since ticket call later,
    w.log = before ++ .returned t i (.error .unconfirmed) file reads ::
        (since ++ .committed ticket call :: later) → .lockRemoved ∈ since

variable {P : Platform} {w : World ι} {i : ι} {me : Instance} {a : Attempt}

/-! ### Instances -/

theorem runs_setInstance {j : ι} {x : Option Instance} {me' : Instance} {a' : Attempt} :
    (w.setInstance i x).Runs j me' a' ↔
      (j = i ∧ x = some me' ∧ me'.attempt = some a') ∨ (j ≠ i ∧ w.Runs j me' a') := by
  rcases eq_or_ne j i with rfl | hne
  · simp [World.Runs, World.setInstance]
  · simp [World.Runs, World.setInstance, hne]

omit [DecidableEq ι] in
theorem holding_iff : w.holding i = true ↔ ∃ me a, w.Runs i me a ∧ a.phase.holds = true := by
  simp only [World.holding, Option.any_eq_true, World.Runs]
  constructor
  · rintro ⟨me, hme, a, ha, hholds⟩
    exact ⟨me, a, ⟨hme, ha⟩, hholds⟩
  · rintro ⟨me, a, ⟨hme, ha⟩, hholds⟩
    exact ⟨me, hme, a, ha, hholds⟩

omit [DecidableEq ι] in
theorem World.Runs.unique {me' : Instance} {a' : Attempt} (h : w.Runs i me a)
    (h' : w.Runs i me' a') : me = me' ∧ a = a' := by
  obtain rfl := Option.some.inj (h.1.symm.trans h'.1)
  exact ⟨rfl, Option.some.inj (h.2.symm.trans h'.2)⟩

omit [DecidableEq ι] in
theorem load_eq_data {key : Text} {d : Data} (h : load w.file key = .ok d) : d = w.data := by
  unfold load at h
  unfold World.data
  split at h
  case h_1 hfile =>
    rw [hfile]
    exact (Except.ok.inj h).symm
  case h_2 envelope hfile =>
    rw [hfile]
    split at h
    · exact (Except.ok.inj h).symm
    · cases h

omit [DecidableEq ι] in
/-- More deeds, and the same file unless one of them is a rename. -/
theorem StartedOk.append {file file' : Option Envelope} {log : List (Deed ι)} {key : Text} {t : ℕ}
    {d : Deed ι} (h : StartedOk file log i key t) (hfile : d.ticket? = none → file' = file) :
    StartedOk file' (log ++ [d]) i key t := by
  obtain ⟨before, since, file₀, rfl, hsame⟩ := h
  refine ⟨before, since ++ [d], file₀, by simp, fun hquiet ↦ ?_⟩
  rw [hfile (hquiet d (by simp))]
  exact hsame fun d' hd' ↦ hquiet d' (List.mem_append_left _ hd')

/-! ### What one event does -/

omit [DecidableEq ι] in
/-- The file and the log are the same, and the calls that run now ran before. -/
theorem Inv.rebase (h : Inv P w) {lock : Option ι} {instances : ι → Option Instance}
    (hbefore : ∀ j me a, instances j = some me → me.attempt = some a →
      ∃ me₀ a₀, w.Runs j me₀ a₀ ∧ a.ticket = a₀.ticket ∧ me.key = me₀.key ∧
        AttemptOk P w.file w.tickets me a.ticket a.operation a.phase)
    (howner : ∀ j me a, instances j = some me → me.attempt = some a → a.phase.holds = true →
      lock = some j)
    (hstuck : w.Stuck → ({ w with lock := lock, instances := instances } : World ι).Stuck) :
    Inv P { w with lock := lock, instances := instances } where
  serial := h.serial
  once := h.once
  bound := h.bound
  running := by
    rintro j me a ⟨hme, ha⟩
    obtain ⟨me₀, a₀, hruns₀, hticket, hkey, hok⟩ := hbefore j me a hme ha
    obtain ⟨hbound, -, hstarted⟩ := h.running j me₀ a₀ hruns₀
    rw [hticket] at hok ⊢
    exact ⟨hbound, hok, hkey ▸ hstarted⟩
  owner := by
    intro j hj
    obtain ⟨me, a, ⟨hme, ha⟩, hholds⟩ := holding_iff.1 hj
    exact howner j me a hme ha hholds
  distinct := by
    rintro j k me me' a a' ⟨hme, ha⟩ ⟨hme', ha'⟩ heq
    obtain ⟨me₀, a₀, hruns₀, hticket, -⟩ := hbefore j me a hme ha
    obtain ⟨me₁, a₁, hruns₁, hticket₁, -⟩ := hbefore k me' a' hme' ha'
    exact h.distinct j k _ _ _ _ hruns₀ hruns₁ (hticket.symm.trans (heq.trans hticket₁))
  returned := by
    intro t j result file reads hmem
    obtain ⟨hbound, hresult, hnone⟩ := h.returned t j result file reads hmem
    refine ⟨hbound, hresult, ?_⟩
    rintro k me a ⟨hme, ha⟩
    obtain ⟨me₀, a₀, hruns₀, hticket, -⟩ := hbefore k me a hme ha
    exact hticket ▸ hnone k me₀ a₀ hruns₀
  failed := h.failed
  stuck before t j file reads later hlog :=
    (h.stuck before t j file reads later hlog).imp_right hstuck
  fenced := h.fenced

/-- An instance changes, and its call, if it has one, was there and keeps to the invariant. -/
theorem Inv.set (h : Inv P w) {x : Option Instance}
    (hx : ∀ me a, x = some me → me.attempt = some a → ∃ me₀ a₀, w.Runs i me₀ a₀ ∧
      a.ticket = a₀.ticket ∧ me.key = me₀.key ∧
      AttemptOk P w.file w.tickets me a.ticket a.operation a.phase ∧
        (a.phase.holds = true → a₀.phase.holds = true)) : Inv P (w.setInstance i x) := by
  have hbefore : ∀ j me a, (w.setInstance i x).Runs j me a →
      ∃ me₀ a₀, w.Runs j me₀ a₀ ∧ a.ticket = a₀.ticket ∧ me.key = me₀.key ∧
        AttemptOk P w.file w.tickets me a.ticket a.operation a.phase ∧
          (a.phase.holds = true → a₀.phase.holds = true) := by
    intro j me a hruns
    rcases runs_setInstance.1 hruns with ⟨rfl, hme, ha⟩ | ⟨-, hruns⟩
    · exact hx me a hme ha
    · exact ⟨me, a, hruns, rfl, rfl, (h.running j me a hruns).2.1, fun hholds ↦ hholds⟩
  have hholding : ∀ j, (w.setInstance i x).holding j = true → w.holding j = true := by
    intro j hj
    obtain ⟨me, a, hruns, hholds⟩ := holding_iff.1 hj
    obtain ⟨me₀, a₀, hruns₀, -, -, -, hholds₀⟩ := hbefore j me a hruns
    exact holding_iff.2 ⟨me₀, a₀, hruns₀, hholds₀ hholds⟩
  refine h.rebase (fun j me a hme ha ↦ ?_) (fun j me a hme ha hholds ↦ ?_) ?_
  · obtain ⟨me₀, a₀, hruns₀, hticket, hkey, hok, -⟩ := hbefore j me a ⟨hme, ha⟩
    exact ⟨me₀, a₀, hruns₀, hticket, hkey, hok⟩
  · exact h.owner j (hholding j (holding_iff.2 ⟨me, a, ⟨hme, ha⟩, hholds⟩))
  · rintro ⟨owner, hlock, hfree⟩
    refine ⟨owner, hlock, Bool.eq_false_iff.2 fun hholds ↦ ?_⟩
    have hholds' := hholding owner hholds
    rw [hfree] at hholds'
    cases hholds'

/-- A call goes on with a phase. -/
theorem Inv.move (h : Inv P w) (hruns : w.Runs i me a) {me' : Instance} {phase : Phase}
    (hkey : me'.key = me.key) (hholds : phase.holds = true → a.phase.holds = true)
    (hok : AttemptOk P w.file w.tickets me' a.ticket a.operation phase) :
    Inv P (w.move i me' a phase) := by
  refine h.set fun me₁ a₁ hme ha ↦ ?_
  obtain rfl := Option.some.inj hme
  obtain rfl := Option.some.inj ha
  refine ⟨me, a, hruns, rfl, hkey, ?_, hholds⟩
  -- the invariant of a phase does not look at the phase in memory
  cases phase <;> exact hok

/-- An instance is left without a call. -/
theorem Inv.drop (h : Inv P w) {x : Option Instance} (hx : ∀ me, x = some me → me.attempt = none) :
    Inv P (w.setInstance i x) := by
  refine h.set fun me a hme ha ↦ ?_
  rw [hx me hme] at ha
  cases ha

/-- The lock is made by an instance that waits for it. -/
theorem Inv.acquire (h : Inv P w) (hruns : w.Runs i me a) (hlock : w.lock = none)
    (hticket : a.ticket ∉ w.tickets) : Inv P { w.move i me a .note with lock := some i } := by
  have hfree : ∀ j, w.holding j = false := fun j ↦ Bool.eq_false_iff.2 fun hholds ↦ by
    rw [h.owner j hholds] at hlock
    cases hlock
  refine h.rebase (fun j me' a' hme ha ↦ ?_) (fun j me' a' hme ha hholds ↦ ?_) ?_
  · rcases runs_setInstance.1 (show (w.move i me a .note).Runs j me' a' from ⟨hme, ha⟩) with
      ⟨rfl, hme', ha'⟩ | ⟨-, hruns'⟩
    · obtain rfl := Option.some.inj hme'
      obtain rfl := Option.some.inj ha'
      exact ⟨me, a, hruns, rfl, rfl, hticket⟩
    · exact ⟨me', a', hruns', rfl, rfl, (h.running j me' a' hruns').2.1⟩
  · rcases runs_setInstance.1 (show (w.move i me a .note).Runs j me' a' from ⟨hme, ha⟩) with
      ⟨rfl, -⟩ | ⟨-, hruns'⟩
    · rfl
    · have hj := holding_iff.2 ⟨me', a', hruns', hholds⟩
      rw [hfree j] at hj
      cases hj
  · rintro ⟨owner, howner, -⟩
    rw [hlock] at howner
    cases howner

/-- The lock is removed by its owner, whose call ends. -/
theorem Inv.release (h : Inv P w) (hholds : w.holding i = true) {x : Instance}
    (hx : x.attempt = none) : Inv P { w.setInstance i (some x) with lock := none } := by
  have hother : ∀ j me' a', (w.setInstance i (some x)).Runs j me' a' → j ≠ i ∧ w.Runs j me' a' := by
    intro j me' a' hruns
    rcases runs_setInstance.1 hruns with ⟨-, hme, ha⟩ | hruns
    · obtain rfl := Option.some.inj hme
      cases hx.symm.trans ha
    · exact hruns
  have hlock := h.owner i hholds
  refine h.rebase (fun j me' a' hme ha ↦ ?_) (fun j me' a' hme ha hj ↦ ?_) ?_
  · obtain ⟨-, hruns⟩ := hother j me' a' ⟨hme, ha⟩
    exact ⟨me', a', hruns, rfl, rfl, (h.running j me' a' hruns).2.1⟩
  · obtain ⟨hne, hruns⟩ := hother j me' a' ⟨hme, ha⟩
    have hj' := h.owner j (holding_iff.2 ⟨me', a', hruns, hj⟩)
    exact absurd (Option.some.inj (hj'.symm.trans hlock)) hne
  · rintro ⟨owner, howner, hfree⟩
    obtain rfl := Option.some.inj (howner.symm.trans hlock)
    rw [hholds] at hfree
    cases hfree

omit [DecidableEq ι] in
/-- A call that no longer runs is noted as returned. -/
theorem Inv.returns (h : Inv P w) {t : ℕ} {result : Except Failure Unit}
    {reads : Except String Data} (hbound : t < w.next) (hresult : ResultOk w.tickets t result)
    (hnone : ∀ j me a, w.Runs j me a → a.ticket ≠ t)
    (hfailed : ∀ e, result = .error e → e ≠ .unconfirmed →
      ∃ key, reads = load w.file key ∧ StartedOk w.file w.log i key t)
    (hstuck : result = .error .unconfirmed → w.Stuck) :
    Inv P { w with log := w.log ++ [.returned t i result w.file reads] } := by
  have hcalls : World.calls { w with log := w.log ++ [.returned t i result w.file reads] } =
      w.calls := by
    simp [World.calls, Deed.call?]
  have htickets : World.tickets { w with log := w.log ++ [.returned t i result w.file reads] } =
      w.tickets := by
    simp [World.tickets, Deed.ticket?]
  refine ⟨hcalls ▸ h.serial, htickets ▸ h.once, htickets ▸ h.bound, fun j me a hruns ↦ ?_, h.owner,
    h.distinct, fun t' j result' file' reads' hmem ↦ ?_, ?_, ?_, ?_⟩
  · obtain ⟨hbound', hok, hstarted⟩ := h.running j me a hruns
    exact ⟨hbound', htickets ▸ hok, hstarted.append fun _ ↦ rfl⟩
  · rw [htickets]
    rcases List.mem_append.1 hmem with hmem | hmem
    · exact h.returned t' j result' file' reads' hmem
    · cases List.mem_singleton.1 hmem
      exact ⟨hbound, hresult, hnone⟩
  · intro before t' j e file' reads' later hlog hne
    rcases Log.split_concat hlog with ⟨-, hbefore, hnew⟩ | ⟨later', -, hlog'⟩
    · cases hnew
      exact hbefore ▸ hfailed e rfl hne
    · exact h.failed before t' j e file' reads' later' hlog' hne
  · intro before t' j file' reads' later hlog
    rcases Log.split_concat hlog with ⟨-, -, hnew⟩ | ⟨later', rfl, hlog'⟩
    · cases hnew
      exact .inr (hstuck rfl)
    · refine (h.stuck before t' j file' reads' later' hlog').imp_left fun hremoved ↦ ?_
      exact List.mem_append_left _ hremoved
  · intro before t' j file' reads' since ticket call later hlog
    rcases Log.split_concat_two hlog with ⟨-, -, hnew⟩ | ⟨later', -, hlog'⟩
    · cases hnew
    · exact h.fenced before t' j file' reads' since ticket call later' hlog'

/-- A file is renamed by the owner of the lock. -/
theorem Inv.commit (h : Inv P w) (hruns : w.Runs i me a) (hphase : a.phase = .rename) :
    Inv P { w.move i me a .sync with
      file := some ⟨Vault.World.writeKey P me.key a.operation, me.data⟩
      log := w.log ++ [.committed a.ticket ⟨me.key, a.operation⟩] } := by
  obtain ⟨hbound, hok, hstarted⟩ := h.running i me a hruns
  rw [hphase] at hok
  obtain ⟨hticket, d, hload, happly⟩ := hok
  obtain rfl := load_eq_data hload
  have hholds : w.holding i = true := holding_iff.2 ⟨me, a, hruns, by rw [hphase]; rfl⟩
  have hlock := h.owner i hholds
  have hnotStuck : ¬w.Stuck := by
    rintro ⟨owner, howner, hfree⟩
    obtain rfl := Option.some.inj (howner.symm.trans hlock)
    rw [hholds] at hfree
    cases hfree
  let w' : World ι := { w.move i me a .sync with
    file := some ⟨Vault.World.writeKey P me.key a.operation, me.data⟩
    log := w.log ++ [.committed a.ticket ⟨me.key, a.operation⟩] }
  have hcalls : w'.calls = w.calls ++ [⟨me.key, a.operation⟩] := by
    simp [w', World.calls, Deed.call?]
  have htickets : w'.tickets = w.tickets ++ [a.ticket] := by
    simp [w', World.tickets, Deed.ticket?]
  -- the calls of the others have not got the lock
  have hother : ∀ j me' a', w'.Runs j me' a' →
      (j = i ∧ me' = { me with attempt := some { a with phase := .sync } } ∧
        a' = { a with phase := .sync }) ∨
      (j ≠ i ∧ w.Runs j me' a' ∧ a'.phase.holds = false ∧ a'.ticket ≠ a.ticket) := by
    intro j me' a' hruns'
    rcases runs_setInstance.1 (show (w.move i me a .sync).Runs j me' a' from hruns') with
      ⟨rfl, hme, ha⟩ | ⟨hne, hruns'⟩
    · obtain rfl := Option.some.inj hme
      exact .inl ⟨rfl, rfl, (Option.some.inj ha).symm⟩
    · refine .inr ⟨hne, hruns', Bool.eq_false_iff.2 fun hj ↦ ?_, fun heq ↦ ?_⟩
      · have hj' := h.owner j (holding_iff.2 ⟨me', a', hruns', hj⟩)
        exact hne (Option.some.inj (hj'.symm.trans hlock))
      · exact hne (h.distinct j i _ _ _ _ hruns' hruns heq)
  show Inv P w'
  constructor
  case serial =>
    rw [hcalls, List.foldlM_append, h.serial]
    show List.foldlM (Data.apply P) w.data [⟨me.key, a.operation⟩] = _
    rw [List.foldlM_cons, happly]
    rfl
  case once =>
    rw [htickets]
    exact List.concat_eq_append ▸ h.once.concat hticket
  case bound =>
    intro t ht
    rw [htickets] at ht
    rcases List.mem_append.1 ht with ht | ht
    · exact h.bound t ht
    · rw [List.mem_singleton.1 ht]
      exact hbound
  case running =>
    intro j me' a' hruns'
    rcases hother j me' a' hruns' with ⟨rfl, rfl, rfl⟩ | ⟨hne, hruns', hphase', hticket'⟩
    · refine ⟨hbound, ?_, hstarted.append nofun⟩
      show a.ticket ∈ w'.tickets
      rw [htickets]
      simp
    · obtain ⟨hbound', hok', hstarted'⟩ := h.running j me' a' hruns'
      refine ⟨hbound', ?_, hstarted'.append nofun⟩
      have hnot : a'.ticket ∉ w.tickets → a'.ticket ∉ w'.tickets := by
        rw [htickets]
        intro hnot hmem
        rcases List.mem_append.1 hmem with hmem | hmem
        · exact hnot hmem
        · exact hticket' (List.mem_singleton.1 hmem)
      cases hphase'' : a'.phase with
      | enter | acquire =>
        rw [hphase''] at hok'
        exact hnot hok'
      | _ =>
        rw [hphase''] at hphase'
        cases hphase'
  case owner =>
    intro j hj
    obtain ⟨me', a', hruns', hj'⟩ := holding_iff.1 hj
    rcases hother j me' a' hruns' with ⟨rfl, -⟩ | ⟨-, -, hphase', -⟩
    · exact hlock
    · rw [hphase'] at hj'
      cases hj'
  case distinct =>
    intro j k me₁ me₂ a₁ a₂ hruns₁ hruns₂ heq
    rcases hother j me₁ a₁ hruns₁ with ⟨rfl, rfl, rfl⟩ | ⟨-, hruns₁, -, hne₁⟩
    · rcases hother k me₂ a₂ hruns₂ with ⟨rfl, -, -⟩ | ⟨-, -, -, hne₂⟩
      · rfl
      · exact absurd heq.symm hne₂
    · rcases hother k me₂ a₂ hruns₂ with ⟨rfl, rfl, rfl⟩ | ⟨-, hruns₂, -, -⟩
      · exact absurd heq hne₁
      · exact h.distinct j k _ _ _ _ hruns₁ hruns₂ heq
  case returned =>
    intro t j result file reads hmem
    have hmem' : .returned t j result file reads ∈ w.log := by simpa [w'] using hmem
    obtain ⟨hbound', ⟨hok', herror⟩, hnone⟩ := h.returned t j result file reads hmem'
    have hne : a.ticket ≠ t := hnone i me a hruns
    refine ⟨hbound', ⟨fun hresult ↦ ?_, fun e hresult he ↦ ?_⟩, fun k me' a' hruns' ↦ ?_⟩
    · rw [htickets]
      exact List.mem_append_left _ (hok' hresult)
    · rw [htickets, List.mem_append, List.mem_singleton, not_or]
      exact ⟨herror e hresult he, hne.symm⟩
    · rcases hother k me' a' hruns' with ⟨rfl, rfl, rfl⟩ | ⟨-, hruns', -⟩
      · exact hne
      · exact hnone k me' a' hruns'
  case failed =>
    intro before t j e file reads later hlog hne
    rcases Log.split_concat hlog with ⟨-, -, hnew⟩ | ⟨later', -, hlog'⟩
    · cases hnew
    · exact h.failed before t j e file reads later' hlog' hne
  case stuck =>
    intro before t j file reads later hlog
    rcases Log.split_concat hlog with ⟨-, -, hnew⟩ | ⟨later', rfl, hlog'⟩
    · cases hnew
    · rcases h.stuck before t j file reads later' hlog' with hremoved | hstuck
      · exact .inl (List.mem_append_left _ hremoved)
      · exact absurd hstuck hnotStuck
  case fenced =>
    intro before t j file reads since ticket call later hlog
    rcases Log.split_concat_two hlog with ⟨-, hlog', -⟩ | ⟨later', -, hlog'⟩
    · exact (h.stuck before t j file reads since hlog').resolve_right hnotStuck
    · exact h.fenced before t j file reads since ticket call later' hlog'

/-- A call starts, with a new ticket. -/
theorem Inv.begin (h : Inv P w) (operation : Operation) : Inv P (w.start i me operation) := by
  let w' := w.start i me operation
  have hcalls : w'.calls = w.calls := by simp [w', World.start, World.calls, Deed.call?]
  have htickets : w'.tickets = w.tickets := by simp [w', World.start, World.tickets, Deed.ticket?]
  have hnew : w.next ∉ w.tickets := fun hmem ↦ lt_irrefl _ (h.bound _ hmem)
  have hother : ∀ j me' a', w'.Runs j me' a' →
      (j = i ∧ me' = { me with attempt := some ⟨w.next, operation, .enter⟩ } ∧
        a' = ⟨w.next, operation, .enter⟩) ∨ (j ≠ i ∧ w.Runs j me' a') := by
    intro j me' a' hruns
    rcases runs_setInstance.1 (show (w.setInstance i _).Runs j me' a' from hruns) with
      ⟨rfl, hme', ha'⟩ | hruns
    · obtain rfl := Option.some.inj hme'
      exact .inl ⟨rfl, rfl, (Option.some.inj ha').symm⟩
    · exact .inr hruns
  have hholding : ∀ j, w'.holding j = true → w.holding j = true := by
    intro j hj
    obtain ⟨me', a', hruns, hholds⟩ := holding_iff.1 hj
    rcases hother j me' a' hruns with ⟨-, -, rfl⟩ | ⟨-, hruns⟩
    · cases hholds
    · exact holding_iff.2 ⟨me', a', hruns, hholds⟩
  show Inv P w'
  constructor
  case serial =>
    rw [hcalls]
    exact h.serial
  case once =>
    rw [htickets]
    exact h.once
  case bound =>
    intro t ht
    rw [htickets] at ht
    exact Nat.lt_succ_of_lt (h.bound t ht)
  case running =>
    intro j me' a' hruns
    rcases hother j me' a' hruns with ⟨rfl, rfl, rfl⟩ | ⟨-, hruns⟩
    · refine ⟨Nat.lt_succ_self _, htickets ▸ hnew, w.log, [], w.file, rfl, fun _ ↦ rfl⟩
    · obtain ⟨hbound, hok, hstarted⟩ := h.running j me' a' hruns
      exact ⟨Nat.lt_succ_of_lt hbound, htickets ▸ hok, hstarted.append fun _ ↦ rfl⟩
  case owner => exact fun j hj ↦ h.owner j (hholding j hj)
  case distinct =>
    intro j k me₁ me₂ a₁ a₂ hruns₁ hruns₂ heq
    rcases hother j me₁ a₁ hruns₁ with ⟨rfl, -, rfl⟩ | ⟨-, hran₁⟩
    · rcases hother k me₂ a₂ hruns₂ with ⟨rfl, -⟩ | ⟨-, hran₂⟩
      · rfl
      · exact absurd heq.symm (h.running k me₂ a₂ hran₂).1.ne
    · rcases hother k me₂ a₂ hruns₂ with ⟨rfl, -, rfl⟩ | ⟨-, hran₂⟩
      · exact absurd heq (h.running j me₁ a₁ hran₁).1.ne
      · exact h.distinct j k _ _ _ _ hran₁ hran₂ heq
  case returned =>
    intro t j result file reads hmem
    have hmem' : .returned t j result file reads ∈ w.log := by
      simpa [w', World.start] using hmem
    obtain ⟨hbound, hresult, hnone⟩ := h.returned t j result file reads hmem'
    refine ⟨Nat.lt_succ_of_lt hbound, htickets ▸ hresult, fun k me' a' hruns ↦ ?_⟩
    rcases hother k me' a' hruns with ⟨rfl, -, rfl⟩ | ⟨-, hruns⟩
    · exact hbound.ne'
    · exact hnone k me' a' hruns
  case failed =>
    intro before t j e file reads later hlog hne
    rcases Log.split_concat hlog with ⟨-, -, hdeed⟩ | ⟨later', -, hlog'⟩
    · cases hdeed
    · exact h.failed before t j e file reads later' hlog' hne
  case stuck =>
    intro before t j file reads later hlog
    rcases Log.split_concat hlog with ⟨-, -, hdeed⟩ | ⟨later', rfl, hlog'⟩
    · cases hdeed
    · rcases h.stuck before t j file reads later' hlog' with hremoved | ⟨owner, hlock, hfree⟩
      · exact .inl (List.mem_append_left _ hremoved)
      · refine .inr ⟨owner, hlock, Bool.eq_false_iff.2 fun hholds ↦ ?_⟩
        have hholds' := hholding owner hholds
        rw [hfree] at hholds'
        cases hholds'
  case fenced =>
    intro before t j file reads since ticket call later hlog
    rcases Log.split_concat_two hlog with ⟨-, -, hdeed⟩ | ⟨later', -, hlog'⟩
    · cases hdeed
    · exact h.fenced before t j file reads since ticket call later' hlog'

omit [DecidableEq ι] in
/-- An operator removes a lock whose owner is not in the middle of a call. -/
theorem Inv.removed (h : Inv P w) {owner : ι} (hlock : w.lock = some owner)
    (hfree : w.holding owner = false) :
    Inv P { w with lock := none, log := w.log ++ [.lockRemoved] } := by
  let w' : World ι := { w with lock := none, log := w.log ++ [.lockRemoved] }
  have hcalls : w'.calls = w.calls := by simp [w', World.calls, Deed.call?]
  have htickets : w'.tickets = w.tickets := by simp [w', World.tickets, Deed.ticket?]
  show Inv P w'
  constructor
  case serial =>
    rw [hcalls]
    exact h.serial
  case once =>
    rw [htickets]
    exact h.once
  case bound =>
    rw [htickets]
    exact h.bound
  case running =>
    intro j me' a' hruns
    obtain ⟨hbound, hok, hstarted⟩ := h.running j me' a' hruns
    exact ⟨hbound, htickets ▸ hok, hstarted.append fun _ ↦ rfl⟩
  case owner =>
    intro j hj
    obtain rfl := Option.some.inj ((h.owner j hj).symm.trans hlock)
    rw [show w.holding j = true from hj] at hfree
    cases hfree
  case distinct => exact h.distinct
  case returned =>
    intro t j result file reads hmem
    have hmem' : .returned t j result file reads ∈ w.log := by simpa [w'] using hmem
    exact htickets ▸ h.returned t j result file reads hmem'
  case failed =>
    intro before t j e file reads later hlog hne
    rcases Log.split_concat hlog with ⟨-, -, hdeed⟩ | ⟨later', -, hlog'⟩
    · cases hdeed
    · exact h.failed before t j e file reads later' hlog' hne
  case stuck =>
    intro before t j file reads later hlog
    rcases Log.split_concat hlog with ⟨-, -, hdeed⟩ | ⟨later', rfl, -⟩
    · cases hdeed
    · exact .inl (by simp)
  case fenced =>
    intro before t j file reads since ticket call later hlog
    rcases Log.split_concat_two hlog with ⟨-, -, hdeed⟩ | ⟨later', -, hlog'⟩
    · cases hdeed
    · exact h.fenced before t j file reads since ticket call later' hlog'

/-! ### Every event -/

/-- A call returns, and the lock stays as it is. -/
theorem Inv.finish (h : Inv P w) (hruns : w.Runs i me a) {me' : Instance}
    {result : Except Failure Unit} (hkey : me'.key = me.key)
    (hresult : ResultOk w.tickets a.ticket result)
    (hholds : result = .error .unconfirmed → w.holding i = true) :
    Inv P (w.finish i me' a result) := by
  obtain ⟨hbound, -, hstarted⟩ := h.running i me a hruns
  have hdrop : Inv P (w.setInstance i (some { me' with attempt := none })) :=
    h.drop fun x hx ↦ by rw [← Option.some.inj hx]
  refine hdrop.returns hbound hresult (fun j me₁ a₁ hruns₁ heq ↦ ?_)
    (fun e he hne ↦ ⟨me.key, by rw [hkey]; rfl, hstarted⟩) fun hunconfirmed ↦ ?_
  · rcases runs_setInstance.1 hruns₁ with ⟨-, hme, ha⟩ | ⟨hne, hruns₁⟩
    · obtain rfl := Option.some.inj hme
      cases ha
    · exact hne (h.distinct j i _ _ _ _ hruns₁ hruns heq)
  · refine ⟨i, h.owner i (hholds hunconfirmed), Bool.eq_false_iff.2 fun hholds' ↦ ?_⟩
    obtain ⟨me₁, a₁, hruns₁, -⟩ := holding_iff.1 hholds'
    rcases runs_setInstance.1 hruns₁ with ⟨-, hme, ha⟩ | ⟨hne, -⟩
    · obtain rfl := Option.some.inj hme
      cases ha
    · exact hne rfl

/-- A call that throws before it has renamed anything. -/
theorem resultOk_error {tickets : List ℕ} {ticket : ℕ} (hticket : ticket ∉ tickets) (e : Failure) :
    ResultOk tickets ticket (.error e) :=
  ⟨nofun, fun _ _ _ ↦ hticket⟩

/-- A call whose outcome is unknown. -/
theorem resultOk_unconfirmed {tickets : List ℕ} {ticket : ℕ} :
    ResultOk tickets ticket (.error .unconfirmed) :=
  ⟨nofun, fun _ he hne ↦ absurd (Except.error.inj he).symm hne⟩

omit [DecidableEq ι] in
theorem recovered_key (me : Instance) (error : Failure) (fate : Fate) :
    (w.recovered me error fate).key = me.key := by
  simp only [World.recovered]
  split <;> split <;> rfl

theorem Inv.advance (h : Inv P w) (hruns : w.Runs i me a) (fate : Fate) :
    Inv P (w.advance P i me a fate) := by
  obtain ⟨-, hok, -⟩ := h.running i me a hruns
  have hholding (hheld : a.phase.holds = true) : w.holding i = true :=
    holding_iff.2 ⟨me, a, hruns, hheld⟩
  have hmove (hheld : a.phase.holds = true) {me' : Instance} {phase : Phase}
      (hkey : me'.key = me.key)
      (hok' : AttemptOk P w.file w.tickets me' a.ticket a.operation phase) :
      Inv P (w.move i me' a phase) :=
    h.move hruns hkey (fun _ ↦ hheld) hok'
  cases hphase : a.phase with
  | enter =>
    rw [hphase] at hok
    have hthrows (e : Failure) (he : e ≠ .unconfirmed) : Inv P (w.finish i me a (.error e)) :=
      h.finish hruns rfl (resultOk_error hok e) fun heq ↦ absurd (Except.error.inj heq) he
    simp only [World.advance, hphase]
    split
    · exact hthrows _ nofun
    · split
      · exact hthrows _ nofun
      · split
        · exact hthrows _ nofun
        · exact h.move hruns rfl nofun hok
  | acquire =>
    rw [hphase] at hok
    have hthrows (e : Failure) (he : e ≠ .unconfirmed) : Inv P (w.finish i me a (.error e)) :=
      h.finish hruns rfl (resultOk_error hok e) fun heq ↦ absurd (Except.error.inj heq) he
    simp only [World.advance, hphase]
    split
    case h_1 hlock _ => exact h.acquire hruns hlock hok
    case h_2 => exact hthrows _ nofun
    case h_3 => exact hthrows _ nofun
    case h_4 => exact h
  | note =>
    rw [hphase] at hok
    have hheld : a.phase.holds = true := by rw [hphase]; rfl
    simp only [World.advance, hphase]
    split
    · exact hmove hheld rfl fun _ ↦ hok
    · exact hmove hheld rfl hok
  | load =>
    rw [hphase] at hok
    have hheld : a.phase.holds = true := by rw [hphase]; rfl
    simp only [World.advance, hphase]
    split
    · exact hmove hheld rfl fun _ ↦ hok
    · split
      case h_1 d hload => exact hmove hheld rfl ⟨hok, hload⟩
      case h_2 => exact hmove hheld rfl fun _ ↦ hok
  | operate =>
    rw [hphase] at hok
    obtain ⟨hticket, hload⟩ := hok
    have hheld : a.phase.holds = true := by rw [hphase]; rfl
    simp only [World.advance, hphase]
    split
    · exact hmove hheld rfl fun _ ↦ hticket
    · split
      case h_1 d happly => exact hmove hheld rfl ⟨hticket, me.data, hload, happly⟩
      case h_2 => exact hmove hheld rfl fun _ ↦ hticket
  | encrypt =>
    rw [hphase] at hok
    have hheld : a.phase.holds = true := by rw [hphase]; rfl
    simp only [World.advance, hphase]
    split
    · exact hmove hheld rfl fun _ ↦ hok.1
    · exact hmove hheld rfl hok
  | rename =>
    simp only [World.advance, hphase]
    split
    · exact hmove (by rw [hphase]; rfl) rfl fun hne ↦ absurd rfl hne
    · exact h.commit hruns hphase
  | sync =>
    rw [hphase] at hok
    have hheld : a.phase.holds = true := by rw [hphase]; rfl
    simp only [World.advance, hphase]
    split
    · exact hmove hheld rfl fun hne ↦ absurd rfl hne
    · exact hmove hheld rfl ⟨fun _ ↦ hok, nofun⟩
  | recover error =>
    rw [hphase] at hok
    simp only [World.advance, hphase]
    refine hmove (by rw [hphase]; rfl) (recovered_key me error fate) ⟨nofun, ?_⟩
    intro e he hne
    exact hok (Except.error.inj he ▸ hne)
  | close result =>
    rw [hphase] at hok
    have hhold : w.holding i = true := hholding (by rw [hphase]; rfl)
    simp only [World.advance, hphase]
    split
    · exact h.finish hruns rfl resultOk_unconfirmed fun _ ↦ hhold
    · split
      case h_1 => exact h.finish hruns rfl resultOk_unconfirmed fun _ ↦ hhold
      case h_2 hne =>
        exact hmove (by rw [hphase]; rfl) rfl ⟨hok, hne⟩
  | unlink result =>
    rw [hphase] at hok
    obtain ⟨hresult, hne⟩ := hok
    have hhold : w.holding i = true := hholding (by rw [hphase]; rfl)
    simp only [World.advance, hphase]
    split
    · exact h.finish hruns rfl resultOk_unconfirmed fun _ ↦ hhold
    · obtain ⟨hbound, -, hstarted⟩ := h.running i me a hruns
      have hreleased := h.release hhold
        (x := { World.rekeyed P me a.operation result with attempt := none }) rfl
      refine hreleased.returns hbound hresult (fun j me₁ a₁ hruns₁ heq ↦ ?_)
        (fun e he _ ↦ ⟨me.key, ?_, hstarted⟩) fun heq ↦ absurd heq hne
      · rcases runs_setInstance.1 (show (w.setInstance i _).Runs j me₁ a₁ from hruns₁) with
          ⟨-, hme, ha⟩ | ⟨hother, hran₁⟩
        · obtain rfl := Option.some.inj hme
          cases ha
        · exact hother (h.distinct j i _ _ _ _ hran₁ hruns heq)
      · rw [he]
        rfl

/-- **One event.** -/
theorem Inv.step (h : Inv P w) (e : Event ι) : Inv P (w.step P e) := by
  cases e with
  | construct i secret =>
    simp only [World.step]
    split
    · split
      · exact h
      · exact h.drop fun me hme ↦ by rw [← Option.some.inj hme]
    · exact h
  | start i operation =>
    simp only [World.step]
    split
    · exact h
    · split
      · exact h
      · exact h.begin operation
  | advance i fate =>
    cases hme : w.instances i with
    | none =>
      have hstep : w.step P (.advance i fate) = w := by simp only [World.step, hme]
      rw [hstep]
      exact h
    | some me =>
      cases ha : me.attempt with
      | none =>
        have hstep : w.step P (.advance i fate) = w := by simp only [World.step, hme, ha]
        rw [hstep]
        exact h
      | some a =>
        have hstep : w.step P (.advance i fate) = w.advance P i me a fate := by
          simp only [World.step, hme, ha]
        rw [hstep]
        exact h.advance ⟨hme, ha⟩ fate
  | crash i =>
    show Inv P (w.setInstance i none)
    exact h.drop fun me hme ↦ by cases hme
  | removeLock =>
    cases hlock : w.lock with
    | none =>
      have hstep : w.step P .removeLock = w := by simp only [World.step, hlock]
      rw [hstep]
      exact h
    | some owner =>
      cases hfree : w.holding owner with
      | true =>
        have hstep : w.step P .removeLock = w := by simp [World.step, hlock, hfree]
        rw [hstep]
        exact h
      | false =>
        have hstep : w.step P .removeLock =
            { w with lock := none, log := w.log ++ [.lockRemoved] } := by
          simp [World.step, hlock, hfree]
        rw [hstep]
        exact h.removed hlock hfree

omit [DecidableEq ι] in
theorem inv_fresh : Inv P (World.fresh : World ι) where
  serial := rfl
  once := List.nodup_nil
  bound := nofun
  running := by rintro i me a ⟨hme, -⟩; cases hme
  owner := nofun
  distinct := by rintro i j me me' a a' ⟨hme, -⟩; cases hme
  returned := nofun
  failed before t i e file reads later hlog := by
    exact absurd hlog (by simp [World.fresh])
  stuck before t i file reads later hlog := by
    exact absurd hlog (by simp [World.fresh])
  fenced before t i file reads since ticket call later hlog := by
    exact absurd hlog (by simp [World.fresh])

/-- **Every run.** -/
theorem inv_after (events : List (Event ι)) : Inv P ((World.fresh : World ι).after P events) := by
  have hrun : ∀ (events : List (Event ι)) (w : World ι), Inv P w → Inv P (w.after P events) := by
    intro events
    induction events with
    | nil => exact fun w h ↦ h
    | cons e events ih => exact fun w h ↦ ih _ (h.step e)
  exact hrun events _ inv_fresh

/-! ### The law of the writes -/

/-- **Writes are serial and atomic.** -/
structure Atomic (P : Platform) (w : World ι) : Prop where
  /-- The file is what the calls that renamed make of an empty vault, one after another. -/
  serial : w.calls.foldlM (Data.apply P) .empty = .ok w.data
  /-- Each of them added one to the revision. -/
  revision : w.data.revision = w.calls.length
  /-- Each renamed once. -/
  once : w.tickets.Nodup
  /-- A call that returned has renamed. -/
  succeeded : ∀ t i file reads, .returned t i (.ok ()) file reads ∈ w.log → t ∈ w.tickets
  /-- A call that threw, and not for an unconfirmed write, has not renamed; its instance reads with
  the key it had, and if no other call has renamed, it reads the same file. -/
  failed : ∀ before t i e file reads later,
    w.log = before ++ .returned t i (.error e) file reads :: later → e ≠ .unconfirmed →
      t ∉ w.tickets ∧ ∃ key file₀ earlier since,
        before = earlier ++ .started t i file₀ (load file₀ key) :: since ∧
          reads = load file key ∧ (Quiescent since → file = file₀)
  /-- After an unconfirmed write nothing is renamed until a lock is removed. -/
  fenced : ∀ before t i file reads since ticket call later,
    w.log = before ++ .returned t i (.error .unconfirmed) file reads ::
        (since ++ .committed ticket call :: later) → .lockRemoved ∈ since

omit [DecidableEq ι] in
/-- Calls that succeed one after another add their number to the revision. -/
theorem revision_foldlM {calls : List Call} {d d' : Data}
    (h : calls.foldlM (Data.apply P) d = .ok d') :
    d'.revision = d.revision + calls.length := by
  induction calls generalizing d with
  | nil =>
    cases h
    rfl
  | cons call calls ih =>
    rw [List.foldlM_cons] at h
    obtain ⟨d₁, happly, h⟩ := bind_eq_ok.1 h
    rw [ih h, Data.revision_apply happly, List.length_cons]
    omega

/-- **Vault writes are serial and atomic**, whatever the instances do, whatever fails and whoever
dies. -/
theorem writes_atomic (P : Platform) (events : List (Event ι)) :
    Atomic P ((World.fresh : World ι).after P events) := by
  have h := inv_after (P := P) events
  refine ⟨h.serial, ?_, h.once, fun t i file reads hmem ↦ ?_,
    fun before t i e file reads later hlog hne ↦ ?_, h.fenced⟩
  · rw [revision_foldlM h.serial]
    exact Nat.zero_add _
  · exact (h.returned t i _ file reads hmem).2.1.1 rfl
  · obtain ⟨key, hreads, earlier, since, file₀, hbefore, hsame⟩ :=
      h.failed before t i e file reads later hlog hne
    have hresult := (h.returned t i (.error e) file reads (by rw [hlog]; simp)).2.1
    exact ⟨hresult.2 e rfl hne, key, file₀, earlier, since, hbefore, hreads, hsame⟩

end Serial

end Proofmark.Vault.Syscall
