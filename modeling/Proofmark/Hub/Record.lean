import Proofmark.Contracts.ProofmarkASC
import Proofmark.Lifecycle.History

/-!
# The hub's record of a subject tracks its history

A record receives the events of its subject in any order and keeps two cursors, a denial flag and
the status of the greatest ordinary event. `Tracks E r` says what a record that has received
exactly the events `E` holds, in terms of the greatest event and the greatest decision of `E`; it
mentions no arrival order. `Tracks.apply` is the step: any event at a coordinate not seen before
extends it.

The fields `Tracks` leaves open are the ones the contract does leave to the arrival order: what a
masked or superseded mark contains, and the details of an earlier correction.
-/

open Evm LastWriter

namespace Proofmark

/-- The mark an issuance materialises. -/
def Issuance.mark (i : Issuance) : Mark where
  status := .Active
  origin := .Direct
  kind := MarkAttrs.kind i.attrs
  assurance := MarkAttrs.assurance i.attrs
  regime := MarkAttrs.regime i.attrs
  jurisdiction := MarkAttrs.jurisdiction i.attrs
  methods := MarkAttrs.methods i.attrs
  issuedAt := MarkAttrs.issuedAt i.attrs
  expiry := MarkAttrs.expiry i.attrs
  epoch := MarkAttrs.epoch i.attrs
  claimsRoot := i.claimsRoot
  evidenceHash := i.evidenceHash
  issuer := i.issuer

namespace SubjectRecord

/-! ### Cursors -/

/-- The ordinary cursor. -/
def cursor (r : SubjectRecord) : Coord :=
  ⟨r.lastAppliedHeight, r.lastAppliedTxIndex, r.lastAppliedLogIndex⟩

/-- The cursor of denials and corrections. -/
def decisionCursor (r : SubjectRecord) : Coord :=
  ⟨r.lastDenialDecisionHeight, r.lastDenialDecisionTxIndex, r.lastDenialDecisionLogIndex⟩

def setCursor (r : SubjectRecord) (c : Coord) : SubjectRecord :=
  { r with
    lastAppliedHeight := c.height
    lastAppliedTxIndex := c.txIndex
    lastAppliedLogIndex := c.logIndex }

def setDecisionCursor (r : SubjectRecord) (c : Coord) : SubjectRecord :=
  { r with
    lastDenialDecisionHeight := c.height
    lastDenialDecisionTxIndex := c.txIndex
    lastDenialDecisionLogIndex := c.logIndex }

theorem isNewer_eq (r : SubjectRecord) (c : Coord) :
    r.isNewer c.height c.txIndex c.logIndex = decide (r.cursor < c) := by
  rw [Bool.eq_iff_iff, decide_eq_true_eq, Coord.lt_iff]
  simp [isNewer, cursor, @eq_comm _ c.height, @eq_comm _ c.txIndex]

theorem advance_eq (r : SubjectRecord) (c : Coord) :
    r.advance c.height c.txIndex c.logIndex =
      if r.cursor < c then some (r.setCursor c) else none := by
  simp only [advance, isNewer_eq, decide_eq_true_eq, setCursor]

theorem advanceDenialDecision_eq (r : SubjectRecord) (c : Coord) :
    r.advanceDenialDecision c.height c.txIndex c.logIndex =
      if r.decisionCursor < c then some (r.setDecisionCursor c) else none := by
  have hnewer := Coord.lt_iff (c := r.decisionCursor) (d := c)
  by_cases h : r.decisionCursor < c
  · rw [if_pos h, advanceDenialDecision, if_pos]
    · rfl
    · simpa [decisionCursor, @eq_comm _ c.height, @eq_comm _ c.txIndex] using hnewer.1 h
  · rw [if_neg h, advanceDenialDecision, if_neg]
    simpa [decisionCursor, @eq_comm _ c.height, @eq_comm _ c.txIndex] using mt hnewer.2 h

/-! ### Applying an event -/

/-- What a handler does to the record of the subject its log names. -/
def apply (r : SubjectRecord) (x : Coord × LifecycleEvent) : SubjectRecord :=
  match x.2 with
  | .issued i =>
    r.issued x.1.height x.1.txIndex x.1.logIndex i.issuerKeyEpoch i.attrs i.issuer i.claimsRoot
      i.evidenceHash
  | .revoked => r.tombstoned x.1.height x.1.txIndex x.1.logIndex .Revoked
  | .denied => r.tombstoned x.1.height x.1.txIndex x.1.logIndex .Denied
  | .corrected k =>
    r.corrected x.1.height x.1.txIndex x.1.logIndex k.denialRevision k.correctionId k.reasonHash
      k.proposer k.approver

/-- The mark is the one of the issuance `i`, under whatever status. -/
def Holds (r : SubjectRecord) (i : Issuance) : Prop :=
  r.mark = { i.mark with status := r.mark.status } ∧ r.markIssuerKeyEpoch = i.issuerKeyEpoch

/-- A mark under another status is still the mark of the issuance. -/
theorem Holds.of_status {r r' : SubjectRecord} {i : Issuance} (h : r.Holds i)
    (hmark : r'.mark = { r.mark with status := r'.mark.status })
    (hkey : r'.markIssuerKeyEpoch = r.markIssuerKeyEpoch) : r'.Holds i := by
  obtain ⟨hi, hk⟩ := h
  refine ⟨?_, hkey.trans hk⟩
  rw [hmark, hi]

/-- The coordinate no cursor can pass is the zero one: an event there changes nothing. -/
theorem apply_zero (r : SubjectRecord) (e : LifecycleEvent) : r.apply (Coord.zero, e) = r := by
  have hmin : ∀ c : Coord, ¬c < Coord.zero := fun c h ↦ by
    simp [Coord.lt_iff, Coord.zero] at h
  have hadvance : r.advance Coord.zero.height Coord.zero.txIndex Coord.zero.logIndex = none := by
    rw [advance_eq, if_neg (hmin _)]
  have hdecision : r.advanceDenialDecision Coord.zero.height Coord.zero.txIndex
      Coord.zero.logIndex = none := by
    rw [advanceDenialDecision_eq, if_neg (hmin _)]
  cases e <;> simp [apply, issued, tombstoned, corrected, hadvance, hdecision]

end SubjectRecord

/-! ### Arrivals -/

theorem later_eq {best : Option (Coord × LifecycleEvent)} {x : Coord × LifecycleEvent}
    (h : Coord.zero < x.1) : later best x = if cursorOf best < x.1 then some x else best := by
  cases best with
  | none => simp [later, cursorOf, h]
  | some y => rfl

theorem lastEvent_concat {E : History} {x : Coord × LifecycleEvent} (h : Coord.zero < x.1) :
    lastEvent (E ++ [x]) = if cursorOf (lastEvent E) < x.1 then some x else lastEvent E := by
  rw [lastEvent, latest_concat, later_eq h]
  rfl

theorem lastDecision_concat {E : History} {x : Coord × LifecycleEvent} (h : Coord.zero < x.1) :
    lastDecision (E ++ [x]) =
      if x.2.isDecision ∧ cursorOf (lastDecision E) < x.1 then some x else lastDecision E := by
  rw [lastDecision, List.filter_append]
  by_cases hx : x.2.isDecision
  · simp only [hx, List.filter_cons_of_pos, List.filter_nil, latest_concat, later_eq h, true_and]
    rfl
  · simp [hx, lastDecision]

/-- Every decision of a history is at or before its last decision. -/
theorem le_cursorOf_lastDecision {E : History} {d : Coord} {e : LifecycleEvent}
    (h : lastEvent E = some (d, e)) (he : e.isDecision = true) :
    d ≤ cursorOf (lastDecision E) := by
  have hmem : (d, e) ∈ E.filter fun x ↦ x.2.isDecision :=
    List.mem_filter.2 ⟨mem_of_latest h, he⟩
  rcases hl : lastDecision E with - | y
  · rw [lastDecision, latest_eq_none] at hl
    rw [hl] at hmem
    simp at hmem
  · exact le_of_latest hl hmem

theorem cursorOf_lastDecision_le (E : History) :
    cursorOf (lastDecision E) ≤ cursorOf (lastEvent E) := by
  rcases hd : lastDecision E with - | y
  · by_contra hlt
    exact absurd (not_le.1 hlt) fun h ↦ by simp [cursorOf, Coord.lt_iff, Coord.zero] at h
  · have hy : y ∈ E := List.mem_of_mem_filter (mem_of_latest hd)
    rcases he : lastEvent E with - | z
    · rw [lastEvent, latest_eq_none] at he
      rw [he] at hy
      simp at hy
    · exact le_of_latest he hy

/-- An arrival that does not pass the greatest event comes strictly before it. -/
theorem exists_lastEvent_of_not_lt {E : History} {c : Coord} (hzero : Coord.zero < c)
    (hfresh : c ∉ E.map Prod.fst) (h : ¬cursorOf (lastEvent E) < c) :
    ∃ d e, lastEvent E = some (d, e) ∧ c < d := by
  rcases he : lastEvent E with - | ⟨d, e⟩
  · rw [he] at h
    exact absurd hzero h
  · refine ⟨d, e, rfl, lt_of_le_of_ne ?_ ?_⟩
    · rw [he] at h
      exact not_lt.1 h
    · rintro rfl
      exact hfresh (List.mem_map_of_mem (f := Prod.fst) (mem_of_latest he))

/-! ### The invariant -/

/-- What a record holds after the events `E` have arrived. -/
structure Tracks (E : History) (r : SubjectRecord) : Prop where
  cursor : r.cursor = cursorOf (lastEvent E)
  decisionCursor : r.decisionCursor = cursorOf (lastDecision E)
  denial : r.permanentDenial = deniedBy (lastDecision E)
  status : r.mark.status = statusOf r.permanentDenial (lastEvent E)
  tombstone : r.tombstone = decide (r.mark.status ≠ .None ∧ r.mark.status ≠ .Active)
  /-- Whatever masks it, the status of the greatest event is kept if that event is ordinary. -/
  ordinary : ∀ c e, lastEvent E = some (c, e) → e.isDecision = false →
    r.latestOrdinaryStatus = e.status
  /-- Whatever masks it, the mark is the one of the greatest event if that is a valid issuance. -/
  content : ∀ c i, lastEvent E = some (c, .issued i) → i.valid = true → r.Holds i

theorem tracks_zero : Tracks [] SubjectRecord.zero where
  cursor := rfl
  decisionCursor := rfl
  denial := rfl
  status := rfl
  tombstone := rfl
  ordinary := by simp [lastEvent]
  content := by simp [lastEvent]

namespace Tracks

variable {E : History} {r : SubjectRecord} {c : Coord}

/-- A record that took over an ordinary event greater than all before it. -/
theorem of_ordinary (h : Tracks E r) {r' : SubjectRecord} {e : LifecycleEvent}
    (hzero : Coord.zero < c) (hlt : cursorOf (lastEvent E) < c) (he : e.isDecision = false)
    (hcursor : r'.cursor = c) (hdecision : r'.decisionCursor = r.decisionCursor)
    (hdenial : r'.permanentDenial = r.permanentDenial)
    (hstatus : r'.mark.status = if r.permanentDenial then .Denied else e.status)
    (htombstone : r'.tombstone = decide (r'.mark.status ≠ .None ∧ r'.mark.status ≠ .Active))
    (hordinary : r'.latestOrdinaryStatus = e.status)
    (hcontent : ∀ i, e = .issued i → i.valid = true → r'.Holds i) : Tracks (E ++ [(c, e)]) r' := by
  have hevent' : lastEvent (E ++ [(c, e)]) = some (c, e) := by
    rw [lastEvent_concat (E := E) (x := (c, e)) hzero, if_pos hlt]
  have hdecision' : lastDecision (E ++ [(c, e)]) = lastDecision E := by
    simp [lastDecision_concat (E := E) (x := (c, e)) hzero, he]
  constructor
  case cursor => rw [hcursor, hevent', cursorOf, Option.map_some, Option.getD_some]
  case decisionCursor => rw [hdecision, hdecision', h.decisionCursor]
  case denial => rw [hdenial, hdecision', h.denial]
  case status => rw [hstatus, hevent', hdenial, statusOf, Option.map_some, Option.getD_some]
  case tombstone => exact htombstone
  case ordinary =>
    intro d e' hlast _
    rw [hevent', Option.some_inj, Prod.mk.injEq] at hlast
    rw [hordinary, hlast.2]
  case content =>
    intro d i hlast hvalid
    rw [hevent', Option.some_inj, Prod.mk.injEq] at hlast
    exact hcontent i hlast.2 hvalid

/-- A record that took over a decision greater than all decisions before it: what the mark shows
is up to the greatest event, which is the decision itself unless an ordinary event arrived
early. -/
theorem of_decision (h : Tracks E r) {r' : SubjectRecord} {e : LifecycleEvent}
    (hzero : Coord.zero < c) (hlt : cursorOf (lastDecision E) < c) (he : e.isDecision = true)
    (hcursor : r'.cursor = if cursorOf (lastEvent E) < c then c else r.cursor)
    (hdecision : r'.decisionCursor = c) (hdenial : r'.permanentDenial = decide (e = .denied))
    (hstatus : r'.mark.status = statusOf (decide (e = .denied))
      (if cursorOf (lastEvent E) < c then some (c, e) else lastEvent E))
    (htombstone : r'.tombstone = decide (r'.mark.status ≠ .None ∧ r'.mark.status ≠ .Active))
    (hordinary : r'.latestOrdinaryStatus = r.latestOrdinaryStatus)
    (hmark : r'.mark = { r.mark with status := r'.mark.status })
    (hkey : r'.markIssuerKeyEpoch = r.markIssuerKeyEpoch) : Tracks (E ++ [(c, e)]) r' := by
  have hevent' : lastEvent (E ++ [(c, e)]) =
      if cursorOf (lastEvent E) < c then some (c, e) else lastEvent E :=
    lastEvent_concat (E := E) (x := (c, e)) hzero
  have hdecision' : lastDecision (E ++ [(c, e)]) = some (c, e) := by
    simp [lastDecision_concat (E := E) (x := (c, e)) hzero, he, hlt]
  -- an ordinary greatest event is the one from before
  have hlate : ∀ d e', lastEvent (E ++ [(c, e)]) = some (d, e') → e'.isDecision = false →
      lastEvent E = some (d, e') := by
    intro d e' hlast hord
    rw [hevent'] at hlast
    split at hlast
    · obtain ⟨rfl, rfl⟩ := Prod.mk.inj (Option.some_inj.1 hlast)
      rw [he] at hord
      exact absurd hord (by simp)
    · exact hlast
  constructor
  case cursor =>
    rw [hcursor, hevent', h.cursor]
    split <;> rfl
  case decisionCursor => rw [hdecision, hdecision', cursorOf, Option.map_some, Option.getD_some]
  case denial => rw [hdenial, hdecision', deniedBy, Option.any_some]
  case status => rw [hstatus, hevent', hdenial]
  case tombstone => exact htombstone
  case ordinary =>
    intro d e' hlast hord
    rw [hordinary, h.ordinary d e' (hlate d e' hlast hord) hord]
  case content =>
    intro d i hlast hvalid
    exact (h.content d i (hlate d _ hlast rfl) hvalid).of_status hmark hkey

/-- An event that passes neither the cursor of its kind nor, therefore, the ordinary cursor. -/
theorem of_stale (h : Tracks E r) {e : LifecycleEvent} (hzero : Coord.zero < c)
    (hevent : ¬cursorOf (lastEvent E) < c) (hdecision : ¬cursorOf (lastDecision E) < c ∨
      e.isDecision = false) : Tracks (E ++ [(c, e)]) r := by
  have hevent' : lastEvent (E ++ [(c, e)]) = lastEvent E := by
    rw [lastEvent_concat (E := E) (x := (c, e)) hzero, if_neg hevent]
  have hdecision' : lastDecision (E ++ [(c, e)]) = lastDecision E := by
    rw [lastDecision_concat (E := E) (x := (c, e)) hzero, if_neg]
    rcases hdecision with hlt | hord
    · exact fun hpair ↦ hlt hpair.2
    · simp [hord]
  constructor
  case cursor => rw [hevent', h.cursor]
  case decisionCursor => rw [hdecision', h.decisionCursor]
  case denial => rw [hdecision', h.denial]
  case status => rw [hevent', h.status]
  case tombstone => exact h.tombstone
  case ordinary => rw [hevent']; exact h.ordinary
  case content => rw [hevent']; exact h.content

/-! ### One arrival of each kind -/

theorem issued (h : Tracks E r) (hzero : Coord.zero < c) (i : Issuance) :
    Tracks (E ++ [(c, .issued i)]) (r.apply (c, .issued i)) := by
  by_cases hlt : cursorOf (lastEvent E) < c
  · simp only [SubjectRecord.apply, SubjectRecord.issued, SubjectRecord.advance_eq, h.cursor,
      if_pos hlt]
    refine h.of_ordinary hzero hlt rfl ?_ ?_ ?_ ?_ ?_ ?_ ?_ <;>
      cases hd : r.permanentDenial <;> cases hv : MarkAttrs.validSchema i.attrs
    all_goals
      simp [SubjectRecord.setCursor, SubjectRecord.storeMark, SubjectRecord.cursor,
        SubjectRecord.decisionCursor, SubjectRecord.Holds, Issuance.valid, Issuance.mark,
        LifecycleEvent.status, h.status, statusOf, hd, hv]
  · simp only [SubjectRecord.apply, SubjectRecord.issued, SubjectRecord.advance_eq, h.cursor,
      if_neg hlt]
    exact h.of_stale hzero hlt (.inr rfl)

theorem revoked (h : Tracks E r) (hzero : Coord.zero < c) :
    Tracks (E ++ [(c, .revoked)]) (r.apply (c, .revoked)) := by
  by_cases hlt : cursorOf (lastEvent E) < c
  · simp only [SubjectRecord.apply, SubjectRecord.tombstoned, SubjectRecord.advance_eq, h.cursor,
      if_pos hlt, reduceCtorEq, if_false]
    refine h.of_ordinary hzero hlt rfl rfl rfl rfl ?_ ?_ rfl ?_ <;> cases hd : r.permanentDenial
    all_goals
      simp [SubjectRecord.setCursor, SubjectRecord.entomb, LifecycleEvent.status, hd]
  · simp only [SubjectRecord.apply, SubjectRecord.tombstoned, SubjectRecord.advance_eq, h.cursor,
      if_neg hlt, reduceCtorEq, if_false]
    exact h.of_stale hzero hlt (.inr rfl)

theorem denied (h : Tracks E r) (hzero : Coord.zero < c) :
    Tracks (E ++ [(c, .denied)]) (r.apply (c, .denied)) := by
  by_cases hlt : cursorOf (lastDecision E) < c
  · have hcursor : (⟨r.lastAppliedHeight, r.lastAppliedTxIndex, r.lastAppliedLogIndex⟩ : Coord) =
        cursorOf (lastEvent E) := h.cursor
    simp only [SubjectRecord.apply, SubjectRecord.tombstoned, SubjectRecord.advance_eq,
      SubjectRecord.advanceDenialDecision_eq, h.decisionCursor, if_pos hlt, if_true]
    refine h.of_decision hzero hlt rfl ?_ ?_ ?_ ?_ ?_ ?_ ?_ ?_ <;>
      by_cases hnewest : cursorOf (lastEvent E) < c
    all_goals
      simp [SubjectRecord.setDecisionCursor, SubjectRecord.setCursor, SubjectRecord.entomb,
        SubjectRecord.cursor, SubjectRecord.decisionCursor, hcursor, hnewest, statusOf]
  · have hevent : ¬cursorOf (lastEvent E) < c := fun hevent ↦
      hlt ((cursorOf_lastDecision_le E).trans_lt hevent)
    simp only [SubjectRecord.apply, SubjectRecord.tombstoned,
      SubjectRecord.advanceDenialDecision_eq, h.decisionCursor, if_neg hlt, if_true]
    exact h.of_stale hzero hevent (.inl hlt)

theorem corrected (h : Tracks E r) (hzero : Coord.zero < c) (hfresh : c ∉ E.map Prod.fst)
    (k : Correction) : Tracks (E ++ [(c, .corrected k)]) (r.apply (c, .corrected k)) := by
  by_cases hlt : cursorOf (lastDecision E) < c
  · have hcursor : (⟨r.lastAppliedHeight, r.lastAppliedTxIndex, r.lastAppliedLogIndex⟩ : Coord) =
        cursorOf (lastEvent E) := h.cursor
    simp only [SubjectRecord.apply, SubjectRecord.corrected, SubjectRecord.advance_eq,
      SubjectRecord.advanceDenialDecision_eq, h.decisionCursor, if_pos hlt,
      SubjectRecord.setDecisionCursor, SubjectRecord.cursor, hcursor]
    by_cases hnewest : cursorOf (lastEvent E) < c
    · simp only [if_pos hnewest]
      refine h.of_decision hzero hlt rfl ?_ rfl rfl ?_ ?_ rfl rfl rfl
      · rw [if_pos hnewest]
        rfl
      · rw [if_pos hnewest]
        rfl
      · rfl
    · -- the greatest event arrived early; it is ordinary, or this correction would be stale
      obtain ⟨d, e, hlast, hcd⟩ := exists_lastEvent_of_not_lt hzero hfresh hnewest
      have hord : e.isDecision = false := by
        by_contra hdec
        rw [Bool.not_eq_false] at hdec
        exact absurd ((le_cursorOf_lastDecision hlast hdec).trans_lt hlt) (not_lt.2 hcd.le)
      have hkept := h.ordinary d e hlast hord
      have huncover : e.status = .Active ∨ e.status = .Revoked ∨ e.status = .Suspended := by
        cases e with
        | issued i => cases hv : i.valid <;> simp [LifecycleEvent.status, hv]
        | revoked => simp [LifecycleEvent.status]
        | denied | corrected k => simp [LifecycleEvent.isDecision] at hord
      rw [← hkept] at huncover
      simp only [if_neg hnewest]
      rw [hlast] at hnewest
      refine h.of_decision hzero hlt rfl ?_ ?_ ?_ ?_ ?_ ?_ ?_ ?_ <;>
        rcases huncover with hu | hu | hu
      all_goals
        simp [SubjectRecord.cursor, SubjectRecord.decisionCursor, statusOf, hnewest, hlast,
          ← hkept, hu]
  · have hevent : ¬cursorOf (lastEvent E) < c := fun hevent ↦
      hlt ((cursorOf_lastDecision_le E).trans_lt hevent)
    simp only [SubjectRecord.apply, SubjectRecord.corrected,
      SubjectRecord.advanceDenialDecision_eq, h.decisionCursor, if_neg hlt]
    exact h.of_stale hzero hevent (.inl hlt)

/-- **The step of the invariant**: an event at a coordinate not seen before. -/
theorem apply (h : Tracks E r) {x : Coord × LifecycleEvent} (hzero : Coord.zero < x.1)
    (hfresh : x.1 ∉ E.map Prod.fst) : Tracks (E ++ [x]) (r.apply x) := by
  obtain ⟨c, e⟩ := x
  cases e with
  | issued i => exact h.issued hzero i
  | revoked => exact h.revoked hzero
  | denied => exact h.denied hzero
  | corrected k => exact h.corrected hzero hfresh k

end Tracks

/-- **The invariant holds after any arrivals**: a fresh record that has received the events `E`,
in whatever order they are listed, tracks them. -/
theorem tracks_foldl_apply {E : History} (hnd : (E.map Prod.fst).Nodup)
    (hzero : ∀ x ∈ E, Coord.zero < x.1) :
    Tracks E (E.foldl SubjectRecord.apply SubjectRecord.zero) := by
  induction E using List.reverseRecOn with
  | nil => exact tracks_zero
  | append_singleton E x ih =>
    rw [List.map_append, List.nodup_append] at hnd
    obtain ⟨hE, -, hdisjoint⟩ := hnd
    have htracks := ih hE fun y hy ↦ hzero y (List.mem_append_left _ hy)
    rw [List.foldl_append]
    refine htracks.apply (hzero x (by simp)) fun hmem ↦ ?_
    exact hdisjoint x.1 hmem x.1 (by simp) rfl

/-- Events at the zero coordinate do not count. -/
theorem foldl_apply_effective (E : History) (r : SubjectRecord) :
    E.foldl SubjectRecord.apply r = E.effective.foldl SubjectRecord.apply r := by
  induction E generalizing r with
  | nil => rfl
  | cons x E ih =>
    obtain ⟨c, e⟩ := x
    by_cases hzero : Coord.zero < c
    · simpa [History.effective, hzero] using ih (r.apply (c, e))
    · obtain rfl : c = Coord.zero := not_not.1 (mt Coord.zero_lt_iff.2 hzero)
      simpa [History.effective, SubjectRecord.apply_zero] using ih r

/-! ### The standing a record shows -/

/-- The standing a record shows; the issuance in force is read back from the mark. -/
structure Shows (r : SubjectRecord) (S : Standing) : Prop where
  denied : r.permanentDenial = S.denied
  status : r.mark.status = S.status
  tombstone : r.tombstone = decide (S.status ≠ .None ∧ S.status ≠ .Active)
  cursor : r.cursor = S.cursor
  decisionCursor : r.decisionCursor = S.decisionCursor
  credential : ∀ i, S.credential = some i →
    r.mark = i.mark ∧ r.markIssuerKeyEpoch = i.issuerKeyEpoch

/-- A record that tracks a history shows the standing of that history. -/
theorem Tracks.shows {E : History} {r : SubjectRecord} (h : Tracks E r)
    (hnd : (E.map Prod.fst).Nodup) : Shows r (standing E) := by
  have hstatus : r.mark.status = (standing E).status := by
    rw [h.status, h.denial, standing_eq hnd]
    rfl
  constructor
  case denied => rw [h.denial, standing_eq hnd]; rfl
  case status => exact hstatus
  case tombstone => rw [h.tombstone, hstatus]
  case cursor => rw [h.cursor, standing_eq hnd]; rfl
  case decisionCursor => rw [h.decisionCursor, standing_eq hnd]; rfl
  case credential =>
    intro i hi
    obtain ⟨hdenied, c, hlast, hvalid⟩ := (credential_standing_eq_some hnd).1 hi
    obtain ⟨hmark, hkey⟩ := h.content c i hlast hvalid
    have hactive : r.mark.status = .Active := by
      rw [h.status, h.denial, hdenied, hlast]
      simp [statusOf, LifecycleEvent.status, hvalid]
    refine ⟨?_, hkey⟩
    rw [hmark, hactive]
    rfl

end Proofmark
