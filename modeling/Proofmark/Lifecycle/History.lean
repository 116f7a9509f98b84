import Mathlib.Data.Prod.Lex
import Proofmark.Contracts.Types
import Proofmark.Order.LastWriter

/-!
# The lifecycle of a subject, in source order

What the hub is for, stated without the hub. The source emits lifecycle events, each at a
coordinate (height, transaction index, log index); the coordinates are linearly ordered and the
*standing* of a subject is the fold of its events in that order (`standing`).

The fold remembers little. `standing_eq` reads it off two entries of the history: the greatest
event and the greatest decision (a denial or a correction). This is the form in which a consumer
that sees the events in any order can hope to keep it.
-/

open Evm LastWriter

namespace Proofmark

/-! ### Coordinates -/

/-- The position of a log in the source's history. -/
structure Coord where
  height : Uint 64
  txIndex : Uint 64
  logIndex : ℕ
  deriving DecidableEq

namespace Coord

/-- The coordinate as a lexicographic triple of numbers. -/
def key (c : Coord) : ℕ ×ₗ ℕ ×ₗ ℕ :=
  toLex (c.height.toNat, toLex (c.txIndex.toNat, c.logIndex))

theorem key_injective : Function.Injective key := by
  rintro ⟨h, t, l⟩ ⟨h', t', l'⟩ hkey
  simp only [key, EmbeddingLike.apply_eq_iff_eq, Prod.mk.injEq, BitVec.toNat_inj] at hkey
  obtain ⟨rfl, rfl, rfl⟩ := hkey
  rfl

instance : LinearOrder Coord :=
  LinearOrder.lift' key key_injective

theorem lt_iff {c d : Coord} : c < d ↔ c.height < d.height ∨ c.height = d.height ∧
    (c.txIndex < d.txIndex ∨ c.txIndex = d.txIndex ∧ c.logIndex < d.logIndex) := by
  show c.key < d.key ↔ _
  simp only [key, Prod.Lex.toLex_lt_toLex, BitVec.lt_def, BitVec.toNat_inj]

/-- The value of a cursor never written. -/
def zero : Coord :=
  ⟨0, 0, 0⟩

theorem zero_lt_iff {c : Coord} : zero < c ↔ c ≠ zero := by
  obtain ⟨h, t, l⟩ := c
  simp only [lt_iff, zero, BitVec.lt_def, ne_eq, mk.injEq, ← BitVec.toNat_inj]
  simp only [BitVec.ofNat_eq_ofNat, BitVec.toNat_ofNat, Nat.zero_mod]
  omega

theorem zero_lt_of_height {c : Coord} (h : 0 < c.height) : zero < c :=
  lt_iff.2 (.inl h)

end Coord

/-! ### Events -/

/-- The content of an issuance. An issuance outside the key generations has key epoch zero. -/
structure Issuance where
  attrs : Bytes32
  issuer : Address
  issuerKeyEpoch : Uint 64
  claimsRoot : Bytes32
  evidenceHash : Bytes32
  deriving DecidableEq

/-- An issuance the hub can read as a mark. -/
def Issuance.valid (i : Issuance) : Bool :=
  MarkAttrs.validSchema i.attrs

/-- The content of a correction. -/
structure Correction where
  denialRevision : Uint 64
  correctionId : Uint 256
  reasonHash : Bytes32
  proposer : Address
  approver : Address
  deriving DecidableEq

/-- A lifecycle event about one subject. -/
inductive LifecycleEvent
  | issued (i : Issuance)
  | revoked
  | denied
  | corrected (k : Correction)
  deriving DecidableEq

namespace LifecycleEvent

/-- Denials and corrections decide about sanctions; the other events are ordinary. -/
def isDecision : LifecycleEvent → Bool
  | issued _ | revoked => false
  | denied | corrected _ => true

/-- The status an event leaves while no denial is in force. -/
def status : LifecycleEvent → MarkStatus
  | issued i => if i.valid then .Active else .Suspended
  | revoked => .Revoked
  | denied => .Denied
  | corrected _ => .Suspended

/-- The issuance an event puts in force while no denial is in force. -/
def credential : LifecycleEvent → Option Issuance
  | issued i => if i.valid then some i else none
  | revoked | denied | corrected _ => none

@[simp]
theorem credential_eq_some {e : LifecycleEvent} {i : Issuance} :
    e.credential = some i ↔ e = issued i ∧ i.valid = true := by
  cases e <;> simp [credential]
  constructor
  · rintro ⟨h, rfl⟩
    exact ⟨rfl, h⟩
  · rintro ⟨rfl, h⟩
    exact ⟨h, rfl⟩

theorem status_eq_active {e : LifecycleEvent} :
    e.status = .Active ↔ ∃ i, e = issued i ∧ i.valid = true := by
  cases e <;> simp [status]

theorem status_ne_none (e : LifecycleEvent) : e.status ≠ .None := by
  cases e with
  | issued i => cases h : i.valid <;> simp [status, h]
  | revoked | denied | corrected k => simp [status]

end LifecycleEvent

/-- Lifecycle events of one subject with their coordinates. -/
abbrev History := List (Coord × LifecycleEvent)

/-! ### Standing -/

/-- Where a subject stands after some events. -/
structure Standing where
  denied : Bool
  status : MarkStatus
  /-- The issuance in force, if the status is `Active`. -/
  credential : Option Issuance
  /-- The coordinate of the last event. -/
  cursor : Coord
  /-- The coordinate of the last denial or correction. -/
  decisionCursor : Coord
  deriving DecidableEq

namespace Standing

/-- No event yet. -/
def initial : Standing :=
  ⟨false, .None, none, Coord.zero, Coord.zero⟩

/-- One event in source order. Ordinary events do not lift a denial; a correction does, and leaves
the subject suspended until the next issuance. -/
def step (s : Standing) (x : Coord × LifecycleEvent) : Standing :=
  match x.2 with
  | .issued i =>
    { s with
      status := if s.denied then .Denied else if i.valid then .Active else .Suspended
      credential := if s.denied then none else if i.valid then some i else none
      cursor := x.1 }
  | .revoked =>
    { s with
      status := if s.denied then .Denied else .Revoked
      credential := none
      cursor := x.1 }
  | .denied => ⟨true, .Denied, none, x.1, x.1⟩
  | .corrected _ => ⟨false, .Suspended, none, x.1, x.1⟩

end Standing

/-- **The standing of a subject**: the fold of its events in source order. -/
def standing (E : History) : Standing :=
  (inOrder E).foldl Standing.step Standing.initial

/-! ### Reading the standing off the greatest entries -/

/-- The greatest event of a history. -/
def lastEvent (E : History) : Option (Coord × LifecycleEvent) :=
  latest E

/-- The greatest denial or correction of a history. -/
def lastDecision (E : History) : Option (Coord × LifecycleEvent) :=
  latest (E.filter fun x ↦ x.2.isDecision)

/-- Whether the last decision is a denial. -/
def deniedBy (decision : Option (Coord × LifecycleEvent)) : Bool :=
  decision.any fun x ↦ x.2 = .denied

/-- The coordinate a cursor holds. -/
def cursorOf (entry : Option (Coord × LifecycleEvent)) : Coord :=
  (entry.map Prod.fst).getD Coord.zero

/-- The status, given whether a denial is in force and the greatest event. -/
def statusOf (denied : Bool) (event : Option (Coord × LifecycleEvent)) : MarkStatus :=
  if denied then .Denied else (event.map fun x ↦ x.2.status).getD .None

/-- The issuance in force, given whether a denial is in force and the greatest event. -/
def credentialOf (denied : Bool) (event : Option (Coord × LifecycleEvent)) : Option Issuance :=
  if denied then none else event.bind fun x ↦ x.2.credential

/-- The standing that two registers describe: the last event and the last decision. -/
def Standing.ofRegisters (R : Registers Coord LifecycleEvent) : Standing where
  denied := deniedBy R.marked
  status := statusOf (deniedBy R.marked) R.last
  credential := credentialOf (deniedBy R.marked) R.last
  cursor := cursorOf R.last
  decisionCursor := cursorOf R.marked

/-- Stepping a standing is overwriting the registers it is read from. -/
theorem Standing.step_ofRegisters (R : Registers Coord LifecycleEvent)
    (x : Coord × LifecycleEvent) :
    (ofRegisters R).step x = ofRegisters (R.write LifecycleEvent.isDecision x) := by
  obtain ⟨c, e⟩ := x
  cases e with
  | issued i =>
    cases hd : deniedBy R.marked <;>
      simp [step, ofRegisters, Registers.write, LifecycleEvent.isDecision, hd, statusOf,
        credentialOf, cursorOf, LifecycleEvent.status, LifecycleEvent.credential]
  | revoked =>
    cases hd : deniedBy R.marked <;>
      simp [step, ofRegisters, Registers.write, LifecycleEvent.isDecision, hd, statusOf,
        credentialOf, cursorOf, LifecycleEvent.status, LifecycleEvent.credential]
  | denied =>
    simp [step, ofRegisters, Registers.write, LifecycleEvent.isDecision, deniedBy, statusOf,
      credentialOf, cursorOf]
  | corrected k =>
    simp [step, ofRegisters, Registers.write, LifecycleEvent.isDecision, deniedBy, statusOf,
      credentialOf, cursorOf, LifecycleEvent.status, LifecycleEvent.credential]

/-- A fold in list order is read off the registers of a replay in list order. -/
theorem foldl_step_eq_ofRegisters (E : History) :
    E.foldl Standing.step Standing.initial =
      Standing.ofRegisters (replay LifecycleEvent.isDecision E) := by
  induction E using List.reverseRecOn with
  | nil => rfl
  | append_singleton E x ih =>
    rw [List.foldl_append, ih, replay_concat]
    exact Standing.step_ofRegisters _ x

/-- **The standing is read off the greatest event and the greatest decision.** -/
theorem standing_eq {E : History} (hnd : (E.map Prod.fst).Nodup) :
    standing E = Standing.ofRegisters ⟨lastEvent E, lastDecision E⟩ := by
  rw [standing, foldl_step_eq_ofRegisters, replay_inOrder _ hnd]
  rfl

/-- The standing depends on the events and not on the order in which they are listed. -/
theorem standing_perm {E E' : History} (hnd : (E.map Prod.fst).Nodup) (h : E.Perm E') :
    standing E = standing E' := by
  have hnd' : (E'.map Prod.fst).Nodup := (h.map Prod.fst).nodup_iff.1 hnd
  have hfilter : ((E.filter fun x ↦ x.2.isDecision).map Prod.fst).Nodup :=
    hnd.sublist (List.filter_sublist.map Prod.fst)
  rw [standing_eq hnd, standing_eq hnd', lastEvent, lastEvent, lastDecision, lastDecision,
    latest_perm hnd h, latest_perm hfilter (h.filter _)]

/-- A subject is in good standing exactly on a valid issuance that no later event followed and no
denial covers. -/
theorem credential_standing_eq_some {E : History} (hnd : (E.map Prod.fst).Nodup) {i : Issuance} :
    (standing E).credential = some i ↔ deniedBy (lastDecision E) = false ∧
      ∃ c, lastEvent E = some (c, .issued i) ∧ i.valid = true := by
  rw [standing_eq hnd]
  cases hd : deniedBy (lastDecision E)
  · simp [Standing.ofRegisters, credentialOf, hd, Option.bind_eq_some_iff]
  · simp [Standing.ofRegisters, credentialOf, hd]

/-! ### Greatest entries -/

/-- The denials and corrections of a history. -/
def History.decisions (E : History) : History :=
  E.filter fun x ↦ x.2.isDecision

/-- The entry of a history that no entry exceeds. -/
def History.Greatest (E : History) (x : Coord × LifecycleEvent) : Prop :=
  x ∈ E ∧ ∀ y ∈ E, y.1 ≤ x.1

theorem lastEvent_eq_some_iff {E : History} (hnd : (E.map Prod.fst).Nodup)
    {x : Coord × LifecycleEvent} : lastEvent E = some x ↔ E.Greatest x :=
  latest_eq_some_iff hnd

theorem History.Greatest.unique {E : History} (hnd : (E.map Prod.fst).Nodup)
    {x y : Coord × LifecycleEvent} (hx : E.Greatest x) (hy : E.Greatest y) : x = y := by
  have hlast := (lastEvent_eq_some_iff hnd).2 hx
  rw [(lastEvent_eq_some_iff hnd).2 hy] at hlast
  exact (Option.some_inj.1 hlast).symm

theorem decisions_nodup {E : History} (hnd : (E.map Prod.fst).Nodup) :
    (E.decisions.map Prod.fst).Nodup :=
  hnd.sublist (List.filter_sublist.map Prod.fst)

theorem lastDecision_eq_some_iff {E : History} (hnd : (E.map Prod.fst).Nodup)
    {x : Coord × LifecycleEvent} : lastDecision E = some x ↔ E.decisions.Greatest x :=
  latest_eq_some_iff (decisions_nodup hnd)

/-- A denial is in force exactly if the greatest decision is one. -/
theorem deniedBy_lastDecision_iff {E : History} (hnd : (E.map Prod.fst).Nodup) :
    deniedBy (lastDecision E) = true ↔ ∃ c, E.decisions.Greatest (c, .denied) := by
  simp only [← lastDecision_eq_some_iff hnd, deniedBy, Option.any_eq_true, decide_eq_true_eq]
  constructor
  · rintro ⟨⟨c, e⟩, hlast, rfl⟩
    exact ⟨c, hlast⟩
  · rintro ⟨c, hlast⟩
    exact ⟨_, hlast, rfl⟩

/-- The events that can move a cursor: all but one at the coordinate a cursor starts from. -/
def History.effective (E : History) : History :=
  E.filter fun x ↦ Coord.zero < x.1

theorem effective_nodup {E : History} (hnd : (E.map Prod.fst).Nodup) :
    (E.effective.map Prod.fst).Nodup :=
  hnd.sublist (List.filter_sublist.map Prod.fst)

theorem effective_eq_self {E : History} (h : ∀ x ∈ E, Coord.zero < x.1) : E.effective = E :=
  List.filter_eq_self.2 fun x hx ↦ by simpa using h x hx

end Proofmark
