import Proofmark.Hub.Progress
import Proofmark.Source.Chain

/-!
# Invariants of the source

`Sound` holds of every state of the source: a denial in force has a positive revision, and a stored
proposal has the fields the hub will ask for. `SoundEvent` is what follows for an emitted event,
and `AnnouncesEpochs` what follows for the epochs of one transaction: an epoch is published together
with its authorisations, and no later call adds one, since epoch numbers increase.
-/

open Evm

namespace Proofmark

/-! ### States -/

/-- What holds of a stored proposal. -/
structure DenialCorrection.Sound (id : Uint 256) (c : DenialCorrection) : Prop where
  id_ne_zero : id ≠ 0
  proposer_ne_zero : c.proposer ≠ 0
  reason_ne_zero : c.reasonHash ≠ 0
  /-- Nobody approves their own proposal. -/
  approver_ne_proposer : c.approver ≠ 0 → c.approver ≠ c.proposer

namespace ComplianceSource

/-- What holds of the denial registers and the stored proposals. -/
structure Sound (s : ComplianceSource) : Prop where
  revision_ne_zero : ∀ u, s.sourceDenialActive u = true → s.sourceDenialRevision u ≠ 0
  nextId_ne_zero : s.nextDenialCorrectionId ≠ 0
  /-- A slot that holds a proposal was handed out. -/
  id_lt : ∀ id, (s.denialCorrections id).subject ≠ 0 → id < s.nextDenialCorrectionId
  stored : ∀ id, (s.denialCorrections id).subject ≠ 0 → (s.denialCorrections id).Sound id

theorem sound_deployed (owner : Address) : (deployed owner).Sound := by
  constructor <;> simp [deployed, DenialCorrection.zero]

variable {s s' : ComplianceSource} {env : SourceEnv} {call : Call} {events : List SourceEvent}

/-- Storing a sound proposal in a slot that is handed out. -/
theorem Sound.setCorrection (h : s.Sound) {id : Uint 256} {c : DenialCorrection}
    (hid : id < s.nextDenialCorrectionId) (hc : c.Sound id) : (s.setCorrection id c).Sound := by
  refine ⟨h.revision_ne_zero, h.nextId_ne_zero, fun id' hid' ↦ ?_, fun id' hid' ↦ ?_⟩ <;>
    rcases eq_or_ne id' id with rfl | hne
  · exact hid
  · rw [setCorrection_of_ne hne] at hid'
    exact h.id_lt id' hid'
  · rw [setCorrection_self]
    exact hc
  · rw [setCorrection_of_ne hne] at hid' ⊢
    exact h.stored id' hid'

/-- Handing out the next id. -/
theorem Sound.nextId (h : s.Sound) (hmax : s.nextDenialCorrectionId ≠ BitVec.allOnes 256) :
    Sound { s with nextDenialCorrectionId := s.nextDenialCorrectionId + 1 } :=
  ⟨h.revision_ne_zero, counter_next_ne_zero hmax,
    fun id hid ↦ BitVec.lt_trans (h.id_lt id hid) (counter_lt_next hmax), h.stored⟩

/-- **The invariant survives every call.** -/
theorem Effect.sound (heffect : Effect s env call s' events) (h : s.Sound) : s'.Sound := by
  cases heffect with
  | plain keeps plain =>
    constructor
    case revision_ne_zero => rw [keeps.active, keeps.revision]; exact h.revision_ne_zero
    case nextId_ne_zero => rw [keeps.nextId]; exact h.nextId_ne_zero
    case id_lt => rw [keeps.corrections, keeps.nextId]; exact h.id_lt
    case stored => rw [keeps.corrections]; exact h.stored
  | @denied _ _ subjects listVersion epoch denies =>
    constructor
    case revision_ne_zero =>
      intro u hu
      by_cases hmem : u ∈ subjects
      · exact denies.revision_of_mem hmem
      · rw [denies.revision_of_notMem u hmem]
        exact h.revision_ne_zero u (((denies.active u).1 hu).resolve_left hmem)
    case nextId_ne_zero => rw [denies.nextId]; exact h.nextId_ne_zero
    case id_lt => rw [denies.corrections, denies.nextId]; exact h.id_lt
    case stored => rw [denies.corrections]; exact h.stored
  | proposed subject attrs claimsRoot evidenceHash reasonHash terms hsubject hactive hreason hmax =>
    subst terms
    exact (h.nextId hmax).setCorrection (counter_lt_next hmax)
      ⟨h.nextId_ne_zero, env.sender_ne_zero, hreason, fun hne ↦ absurd rfl hne⟩
  | approved id stored isOpen unapproved other =>
    subst stored
    have hold := h.stored id isOpen.subject
    exact h.setCorrection (h.id_lt id isOpen.subject)
      ⟨hold.id_ne_zero, hold.proposer_ne_zero, hold.reason_ne_zero, fun _ ↦ other.symm⟩
  | executed id stored isOpen approved valid =>
    subst stored
    have hold := h.stored id isOpen.subject
    have hset : (s.setCorrection id { s.denialCorrections id with executed := true }).Sound :=
      h.setCorrection (h.id_lt id isOpen.subject)
        ⟨hold.id_ne_zero, hold.proposer_ne_zero, hold.reason_ne_zero, hold.approver_ne_proposer⟩
    exact ⟨fun u hu ↦ h.revision_ne_zero u (clearDenial_active.1 hu).2, hset.nextId_ne_zero,
      hset.id_lt, hset.stored⟩
  | published => exact ⟨h.revision_ne_zero, h.nextId_ne_zero, h.id_lt, h.stored⟩

end ComplianceSource

/-! ### Events -/

/-- What the source guarantees of an event emitted in a block. -/
def SourceEvent.Sound (number : Uint 64) : SourceEvent → Prop
  | .KeyedMarkIssued _ _ _ issuerKeyEpoch _ _ => issuerKeyEpoch ≠ 0
  | .SanctionDenialCorrected subject denialRevision correctionId reasonHash proposer approver =>
    subject ≠ 0 ∧ denialRevision ≠ 0 ∧ correctionId ≠ 0 ∧ reasonHash ≠ 0 ∧ proposer ≠ 0 ∧
      approver ≠ 0 ∧ proposer ≠ approver
  | .IssuerKeyCompromised issuer issuerKeyEpoch lastTrustedBlock reasonHash =>
    issuer ≠ 0 ∧ issuerKeyEpoch ≠ 0 ∧ lastTrustedBlock < number ∧ reasonHash ≠ 0
  | .RosterEpochPublished _ root _ validUntil sourceCutoff publishedAt snapshotId =>
    EpochBounds.valid root sourceCutoff publishedAt validUntil snapshotId = true
  | _ => True

theorem SourceEvent.Plain.sound {number : Uint 64} {e : SourceEvent} (h : e.Plain number) :
    e.Sound number := by
  cases e <;> first | exact h | trivial

/-- The authorisations of an epoch. -/
theorem SourceEvent.mem_authorization {epoch : Uint 32} {root : Bytes32}
    {issuers : List (Address × Uint 64)} {e : SourceEvent}
    (h : e ∈ issuers.flatMap (SourceEvent.authorization epoch root)) :
    (∃ i, e = .RosterIssuerAuthorized epoch root i) ∨
      ∃ i k, e = .RosterIssuerKeyAuthorized epoch root i k := by
  obtain ⟨⟨i, k⟩, -, hmem⟩ := List.mem_flatMap.1 h
  rw [SourceEvent.authorization, List.mem_cons] at hmem
  rcases hmem with rfl | hmem
  · exact .inl ⟨i, rfl⟩
  · split at hmem
    · exact .inr ⟨i, k, List.mem_singleton.1 hmem⟩
    · exact absurd hmem List.not_mem_nil

namespace ComplianceSource

variable {s s' : ComplianceSource} {env : SourceEnv} {call : Call} {events : List SourceEvent}

/-- **Every emitted event is sound.** -/
theorem Effect.sound_event (heffect : Effect s env call s' events) (h : s.Sound) :
    ∀ e ∈ events, e.Sound env.number := by
  intro e he
  cases heffect with
  | plain keeps plain => exact (plain e he).sound
  | denied listVersion epoch denies =>
    obtain ⟨u, -, rfl⟩ := List.mem_map.1 he
    trivial
  | proposed | approved =>
    rw [List.mem_singleton.1 he]
    trivial
  | executed id stored isOpen approved valid =>
    subst stored
    have hold := h.stored id isOpen.subject
    rcases List.mem_cons.1 he with rfl | he
    · refine ⟨isOpen.subject, ?_, hold.id_ne_zero, hold.reason_ne_zero, hold.proposer_ne_zero,
        approved, (hold.approver_ne_proposer approved).symm⟩
      rw [← isOpen.revision]
      exact h.revision_ne_zero _ isOpen.active
    · rw [List.mem_singleton.1 he]
      trivial
  | published epoch root listVersion validUntil sourceCutoff snapshotId newer valid =>
    rcases List.mem_append.1 he with he | he
    · rcases SourceEvent.mem_authorization he with ⟨i, rfl⟩ | ⟨i, k, rfl⟩
      · trivial
      · trivial
    · rw [List.mem_singleton.1 he]
      exact valid

end ComplianceSource

/-! ### The epochs of one transaction -/

namespace SourceEvent

/-- The epoch of a publication or an authorisation. -/
def rosterEpoch? : SourceEvent → Option (Uint 32)
  | .RosterEpochPublished epoch _ _ _ _ _ _ | .RosterIssuerAuthorized epoch _ _
  | .RosterIssuerKeyAuthorized epoch _ _ _ => some epoch
  | _ => none

variable {e : SourceEvent} {epoch : Uint 32} {root : Bytes32} {issuer : Address}

theorem authorizes_of_epoch_ne (h : e.rosterEpoch? ≠ some epoch) :
    e.authorizes epoch root = none := by
  cases e with
  | RosterIssuerAuthorized epoch' r i =>
    refine if_neg fun hsame ↦ h ?_
    rw [rosterEpoch?, hsame.1]
  | _ => rfl

theorem keyAuthorizes_of_epoch_ne (h : e.rosterEpoch? ≠ some epoch) :
    e.keyAuthorizes epoch root issuer = none := by
  cases e with
  | RosterIssuerKeyAuthorized epoch' r i k =>
    refine if_neg fun hsame ↦ h ?_
    rw [rosterEpoch?, hsame.1]
  | _ => rfl

theorem Plain.rosterEpoch? {number : Uint 64} (h : e.Plain number) : e.rosterEpoch? = none := by
  cases e <;> first | rfl | exact absurd h id

/-- The authorisations of an epoch name its issuers. -/
theorem filterMap_authorizes (issuers : List (Address × Uint 64)) :
    (issuers.flatMap (authorization epoch root)).filterMap (authorizes epoch root) =
      issuers.map Prod.fst := by
  induction issuers with
  | nil => rfl
  | cons x issuers ih =>
    rw [List.flatMap_cons, List.filterMap_append, ih, List.map_cons, authorization]
    split <;> simp [authorizes]

/-- They bind the key epochs that are not zero. -/
theorem filterMap_keyAuthorizes (issuers : List (Address × Uint 64)) :
    (issuers.flatMap (authorization epoch root)).filterMap (keyAuthorizes epoch root issuer) =
      (issuers.filter fun x ↦ x.1 = issuer ∧ x.2 ≠ 0).map Prod.snd := by
  induction issuers with
  | nil => rfl
  | cons x issuers ih =>
    obtain ⟨i, k⟩ := x
    rw [List.flatMap_cons, List.filterMap_append, ih, authorization]
    by_cases hk : k = 0#64 <;> by_cases hi : i = issuer <;> simp [keyAuthorizes, List.filterMap_cons, hk, hi]

end SourceEvent

/-- Some events authorise issuers for an epoch and its root as the hub demands. -/
structure AuthorizesEpoch (es : List SourceEvent) (epoch : Uint 32) (root : Bytes32) : Prop where
  distinct : (es.filterMap (SourceEvent.authorizes epoch root)).Nodup
  count_pos : 1 ≤ (es.filterMap (SourceEvent.authorizes epoch root)).length
  count_le : (es.filterMap (SourceEvent.authorizes epoch root)).length ≤ 16
  issuer_ne_zero : ∀ issuer ∈ es.filterMap (SourceEvent.authorizes epoch root), issuer ≠ 0
  key_unique : ∀ issuer, (es.filterMap (SourceEvent.keyAuthorizes epoch root issuer)).length ≤ 1
  key_ne_zero : ∀ issuer, ∀ k ∈ es.filterMap (SourceEvent.keyAuthorizes epoch root issuer), k ≠ 0

/-- Only the events of the epoch count. -/
theorem AuthorizesEpoch.congr {es es' : List SourceEvent} {epoch : Uint 32} {root : Bytes32}
    (h : AuthorizesEpoch es epoch root)
    (hauthorizes : es'.filterMap (SourceEvent.authorizes epoch root) =
      es.filterMap (SourceEvent.authorizes epoch root))
    (hkeys : ∀ issuer, es'.filterMap (SourceEvent.keyAuthorizes epoch root issuer) =
      es.filterMap (SourceEvent.keyAuthorizes epoch root issuer)) :
    AuthorizesEpoch es' epoch root := by
  constructor
  case distinct => rw [hauthorizes]; exact h.distinct
  case count_pos => rw [hauthorizes]; exact h.count_pos
  case count_le => rw [hauthorizes]; exact h.count_le
  case issuer_ne_zero => rw [hauthorizes]; exact h.issuer_ne_zero
  case key_unique => intro issuer; rw [hkeys]; exact h.key_unique issuer
  case key_ne_zero => intro issuer; rw [hkeys]; exact h.key_ne_zero issuer

theorem AuthorizesEpoch.append_left {es es' : List SourceEvent} {epoch : Uint 32} {root : Bytes32}
    (h : AuthorizesEpoch es epoch root) (hother : ∀ e ∈ es', e.rosterEpoch? ≠ some epoch) :
    AuthorizesEpoch (es ++ es') epoch root := by
  have hnil : es'.filterMap (SourceEvent.authorizes epoch root) = [] :=
    List.filterMap_eq_nil_iff.2 fun e he ↦ SourceEvent.authorizes_of_epoch_ne (hother e he)
  have hkeys : ∀ issuer, es'.filterMap (SourceEvent.keyAuthorizes epoch root issuer) = [] :=
    fun issuer ↦ List.filterMap_eq_nil_iff.2 fun e he ↦
      SourceEvent.keyAuthorizes_of_epoch_ne (hother e he)
  exact h.congr (by rw [List.filterMap_append, hnil, List.append_nil])
    fun issuer ↦ by rw [List.filterMap_append, hkeys, List.append_nil]

theorem AuthorizesEpoch.append_right {es es' : List SourceEvent} {epoch : Uint 32} {root : Bytes32}
    (h : AuthorizesEpoch es' epoch root) (hother : ∀ e ∈ es, e.rosterEpoch? ≠ some epoch) :
    AuthorizesEpoch (es ++ es') epoch root := by
  have hnil : es.filterMap (SourceEvent.authorizes epoch root) = [] :=
    List.filterMap_eq_nil_iff.2 fun e he ↦ SourceEvent.authorizes_of_epoch_ne (hother e he)
  have hkeys : ∀ issuer, es.filterMap (SourceEvent.keyAuthorizes epoch root issuer) = [] :=
    fun issuer ↦ List.filterMap_eq_nil_iff.2 fun e he ↦
      SourceEvent.keyAuthorizes_of_epoch_ne (hother e he)
  exact h.congr (by rw [List.filterMap_append, hnil, List.nil_append])
    fun issuer ↦ by rw [List.filterMap_append, hkeys, List.nil_append]

/-- The epoch number and the root of a publication. -/
def SourceEvent.publication? : SourceEvent → Option (Uint 32 × Bytes32)
  | .RosterEpochPublished epoch root _ _ _ _ _ => some (epoch, root)
  | _ => none

/-- The events of a transaction so far, with the state they leave: no roster event is of a later
epoch than the last, and every published epoch is authorised. -/
structure AnnouncesEpochs (es : List SourceEvent) (s : ComplianceSource) : Prop where
  bounded : ∀ e ∈ es, ∀ epoch, e.rosterEpoch? = some epoch → epoch ≤ s.lastEpoch
  authorized : ∀ e ∈ es, ∀ epoch root, e.publication? = some (epoch, root) →
    AuthorizesEpoch es epoch root

theorem SourceEvent.rosterEpoch?_of_publication {e : SourceEvent} {epoch : Uint 32} {root : Bytes32}
    (h : e.publication? = some (epoch, root)) : e.rosterEpoch? = some epoch := by
  cases e with
  | RosterEpochPublished =>
    obtain ⟨rfl, rfl⟩ := Prod.mk.inj (Option.some.inj h)
    rfl
  | _ => simp [publication?] at h

/-- Events of no epoch change nothing. -/
theorem AnnouncesEpochs.append_other {es es' : List SourceEvent} {s s' : ComplianceSource}
    (h : AnnouncesEpochs es s) (hlast : s'.lastEpoch = s.lastEpoch)
    (hother : ∀ e ∈ es', e.rosterEpoch? = none) : AnnouncesEpochs (es ++ es') s' := by
  constructor
  case bounded =>
    intro e he epoch hepoch
    rw [hlast]
    rcases List.mem_append.1 he with he | he
    · exact h.bounded e he epoch hepoch
    · rw [hother e he] at hepoch
      exact absurd hepoch (by simp)
  case authorized =>
    intro e he epoch root hpublished
    rcases List.mem_append.1 he with he | he
    · refine (h.authorized e he epoch root hpublished).append_left fun e' he' ↦ ?_
      rw [hother e' he']
      simp
    · have hepoch := SourceEvent.rosterEpoch?_of_publication hpublished
      rw [hother e he] at hepoch
      exact absurd hepoch (by simp)

/-- The issuers of a publication authorise its epoch. -/
theorem authorizesEpoch_flatMap (epoch : Uint 32) (root : Bytes32)
    {issuers : List (Address × Uint 64)} (hpos : 1 ≤ issuers.length) (hle : issuers.length ≤ 16)
    (hnd : (issuers.map Prod.fst).Nodup) (hne : ∀ x ∈ issuers, x.1 ≠ 0) :
    AuthorizesEpoch (issuers.flatMap (SourceEvent.authorization epoch root)) epoch root := by
  constructor
  case distinct => rwa [SourceEvent.filterMap_authorizes]
  case count_pos => rwa [SourceEvent.filterMap_authorizes, List.length_map]
  case count_le => rwa [SourceEvent.filterMap_authorizes, List.length_map]
  case issuer_ne_zero =>
    rw [SourceEvent.filterMap_authorizes]
    rintro _ hmem
    obtain ⟨x, hx, rfl⟩ := List.mem_map.1 hmem
    exact hne x hx
  case key_unique =>
    intro issuer
    rw [SourceEvent.filterMap_keyAuthorizes, List.length_map]
    -- at most one entry names the issuer
    have hone : (issuers.map Prod.fst).count issuer ≤ 1 := List.nodup_iff_count_le_one.1 hnd issuer
    rw [List.count_eq_countP, List.countP_map, List.countP_eq_length_filter] at hone
    refine le_trans (List.Sublist.length_le ?_) hone
    refine List.monotone_filter_right _ fun x hx ↦ ?_
    simp only [Bool.decide_and, Bool.and_eq_true, decide_eq_true_eq] at hx
    simpa using hx.1
  case key_ne_zero =>
    intro issuer k hk
    rw [SourceEvent.filterMap_keyAuthorizes] at hk
    obtain ⟨x, hx, rfl⟩ := List.mem_map.1 hk
    have hboth := (List.mem_filter.1 hx).2
    simp only [decide_eq_true_eq] at hboth
    exact hboth.2

namespace ComplianceSource

variable {s s' : ComplianceSource} {env : SourceEnv} {call : Call} {events : List SourceEvent}

/-- **The epochs of a transaction stay announced.** -/
theorem Effect.announcesEpochs (heffect : Effect s env call s' events) {es : List SourceEvent}
    (h : AnnouncesEpochs es s) : AnnouncesEpochs (es ++ events) s' := by
  cases heffect with
  | plain keeps plain => exact h.append_other keeps.lastEpoch fun e he ↦ (plain e he).rosterEpoch?
  | denied listVersion epoch denies =>
    refine h.append_other denies.lastEpoch fun e he ↦ ?_
    obtain ⟨u, -, rfl⟩ := List.mem_map.1 he
    rfl
  | proposed => exact h.append_other rfl (by simp [SourceEvent.rosterEpoch?])
  | approved => exact h.append_other rfl (by simp [SourceEvent.rosterEpoch?])
  | executed => exact h.append_other rfl (by simp [SourceEvent.rosterEpoch?])
  | @published _ epoch root listVersion validUntil sourceCutoff snapshotId issuers newer valid
      count_pos count_le distinct ne_zero =>
    -- the events so far are of earlier epochs, the new ones of this epoch
    have hnew : ∀ e ∈ issuers.flatMap (SourceEvent.authorization epoch root) ++
        [.RosterEpochPublished epoch root listVersion validUntil sourceCutoff
          (BitVec.ofNat 40 env.timestamp) snapshotId], e.rosterEpoch? = some epoch := by
      intro e he
      rcases List.mem_append.1 he with he | he
      · rcases SourceEvent.mem_authorization he with ⟨i, rfl⟩ | ⟨i, k, rfl⟩ <;> rfl
      · rw [List.mem_singleton.1 he]
        rfl
    have hold : ∀ e ∈ es, e.rosterEpoch? ≠ some epoch := fun e he hepoch ↦
      BitVec.not_lt.2 (h.bounded e he epoch hepoch) newer
    constructor
    case bounded =>
      intro e he epoch' hepoch'
      rcases List.mem_append.1 he with he | he
      · exact BitVec.le_trans (h.bounded e he epoch' hepoch') (BitVec.le_of_lt newer)
      · rw [hnew e he] at hepoch'
        obtain rfl := Option.some.inj hepoch'
        exact BitVec.le_refl _
    case authorized =>
      intro e he epoch' root' hpublished
      rcases List.mem_append.1 he with he | he
      · refine (h.authorized e he epoch' root' hpublished).append_left fun e' he' ↦ ?_
        rw [hnew e' he']
        rintro heq
        obtain rfl := Option.some.inj heq
        exact hold e he (SourceEvent.rosterEpoch?_of_publication hpublished)
      · have hthis : epoch' = epoch ∧ root' = root := by
          rcases List.mem_append.1 he with he | he
          · rcases SourceEvent.mem_authorization he with ⟨i, rfl⟩ | ⟨i, k, rfl⟩
            · simp [SourceEvent.publication?] at hpublished
            · simp [SourceEvent.publication?] at hpublished
          · rw [List.mem_singleton.1 he] at hpublished
            obtain ⟨rfl, rfl⟩ := Prod.mk.inj (Option.some.inj hpublished)
            exact ⟨rfl, rfl⟩
        obtain ⟨rfl, rfl⟩ := hthis
        have hissuers := authorizesEpoch_flatMap epoch' root' count_pos count_le distinct ne_zero
        refine AuthorizesEpoch.append_right (hissuers.congr ?_ fun issuer ↦ ?_) hold
        · simp [SourceEvent.authorizes]
        · simp [SourceEvent.keyAuthorizes]

end ComplianceSource

/-! ### Along the chain -/

namespace SourceChain

variable {d : Deployment}

/-- **Every state of the source is sound.** -/
theorem sound_final (C : SourceChain d) : C.final.Sound :=
  C.executed_rule (P := fun _ s ↦ s.Sound) (ComplianceSource.sound_deployed d.owner)
    fun _ _ _ _ hs hexec ↦ (ComplianceSource.exec_effect hexec).sound hs

/-- What the events of one transaction satisfy. -/
structure SoundTransaction (m : Mined d) : Prop where
  sound : ∀ e ∈ m.events, e.Sound m.tx.height
  authorized : ∀ e ∈ m.events, ∀ epoch root, e.publication? = some (epoch, root) →
    AuthorizesEpoch m.events epoch root

/-- A transaction started in a sound state. -/
theorem soundTransaction_run (t : Transaction d) {s : ComplianceSource} (hs : s.Sound) :
    SoundTransaction ⟨t, (t.run s).2⟩ ∧ (t.run s).1.Sound := by
  have hinit : AnnouncesEpochs (([] : List Executed).flatMap Executed.events) s :=
    ⟨by simp, by simp⟩
  have hrun := t.executed_rule (P := fun done s ↦
    s.Sound ∧ (∀ e ∈ done.flatMap Executed.events, e.Sound t.height) ∧
      AnnouncesEpochs (done.flatMap Executed.events) s)
    ⟨hs, by simp, hinit⟩
    fun done s x s' hP hnumber _ hexec ↦ by
      obtain ⟨hs, hevents, hannounces⟩ := hP
      have heffect := ComplianceSource.exec_effect hexec
      have hnew := heffect.sound_event hs
      rw [hnumber] at hnew
      rw [List.flatMap_append, List.flatMap_singleton]
      refine ⟨heffect.sound hs, fun e he ↦ ?_, heffect.announcesEpochs hannounces⟩
      exact (List.mem_append.1 he).elim (hevents e) (hnew e)
  obtain ⟨hfinal, hevents, hannounces⟩ := hrun
  have heq : (⟨t, (t.run s).2⟩ : Mined d).events =
      ((t.run s).2.filterMap Outcome.executed?).flatMap Executed.events := Mined.events_eq _
  rw [List.nil_append, ← heq] at hevents hannounces
  exact ⟨⟨hevents, hannounces.authorized⟩, hfinal⟩

/-- **Every transaction of a chain is sound.** -/
theorem soundTransaction (C : SourceChain d) {m : Mined d} (hm : m ∈ C.mined) :
    SoundTransaction m := by
  have hall := C.mined_rule (I := fun ms s ↦ s.Sound ∧ ∀ m ∈ ms, SoundTransaction m)
    ⟨ComplianceSource.sound_deployed d.owner, by simp⟩ fun done s t hdone ↦ by
      obtain ⟨hs, hdone⟩ := hdone
      obtain ⟨ht, hs'⟩ := soundTransaction_run t hs
      refine ⟨hs', fun m hm ↦ ?_⟩
      rcases List.mem_append.1 hm with hm | hm
      · exact hdone m hm
      · rw [List.mem_singleton.1 hm]
        exact ht
  exact hall.2 m hm

end SourceChain

end Proofmark
