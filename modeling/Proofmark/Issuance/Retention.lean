import Proofmark.Issuance.Journal

/-!
# What the issuance journal keeps

Over every sequence of calls at nondecreasing times: an entry that is not complete never expires and
is pending; a completed one is not pending, and within one completion its deadline only moves
earlier; and a request holds the gate of its signer exactly if its last acquisition or save left it
needing the signer.

The log of a run is what its calls did, newest first. `Inv` reads the pending set, the gates and the
payloads off the log, and `Move.inv` is its step; a key that expires on its own was complete, so
that the passing of time keeps it too (`Inv.live`).
-/

open Evm

namespace Proofmark.Issuance

/-- What was done, newest first. -/
abbrev Log := List (Bytes32 × Effect)

/-- The payload that was last created or saved for a request. -/
def lastPayload (start : Keyspace) (id : Bytes32) : Log → Option IssuanceEntry
  | [] => (start.requests id).map RequestHash.payload
  | (id', .created entry) :: log => if id' = id then some entry else lastPayload start id log
  | (id', .saved _ entry) :: log => if id' = id then some entry else lastPayload start id log
  | _ :: log => lastPayload start id log

local instance lawfulRequest : LawfulBEq Bytes32 :=
  inferInstance

/-- The last acquisition or save of a request, since it was created, left it needing the signer. -/
def lastNeeds (start : Keyspace) (id : Bytes32) : Log → Bool
  | [] => decide (id ∈ start.activeSigners)
  | (id', .created _) :: log => if id' = id then false else lastNeeds start id log
  | (id', .acquired _ needs) :: log => if id' = id then needs else lastNeeds start id log
  | (id', .saved _ entry) :: log => if id' = id then entry.needsSigner else lastNeeds start id log
  | _ :: log => lastNeeds start id log

/-- A run of the journal from some keys at a time: its log, its keys and the time of its end. -/
inductive Runs (start : Keyspace) (from_ : ℕ) : Log → Keyspace → ℕ → Prop
  | start : Runs start from_ [] start from_
  | call {log K t} (h : Runs start from_ log K t) (mayExpire : Bool) {now : ℕ} (ht : t ≤ now)
      (id : Bytes32) (op : JournalOp) :
      Runs start from_
        ((id, effect op ((K.live now).requests id) (lua mayExpire now id op K).1) :: log)
        (lua mayExpire now id op K).2 now

/-- The keys of an earlier release, which gave a completed entry an expiry and did not record it. -/
structure Legacy (K : Keyspace) : Prop where
  request : ∀ id h, K.requests id = some h → h.signer = h.payload.signerKey ∧
    h.needsSigner = h.payload.needsSigner ∧ h.terminalExpiresAt = none ∧
    (h.payload.terminal = false → h.expiresAt = none)
  pending : ∀ id, K.isPending id ↔ ∃ h, K.requests id = some h ∧ h.payload.terminal = false
  active : ∀ id ∈ K.activeSigners, ∃ h, K.requests id = some h ∧ h.payload.needsSigner = true
  gate : ∀ signer id, K.signers signer = some id ↔
    id ∈ K.activeSigners ∧ ∃ h, K.requests id = some h ∧ h.signer = signer

theorem legacy_empty : Legacy .empty where
  request _ _ h := nomatch h
  pending _ := ⟨fun h ↦ absurd h List.not_mem_nil, fun ⟨_, h, _⟩ ↦ nomatch h⟩
  active _ h := absurd h List.not_mem_nil
  gate _ _ := ⟨(nomatch ·), fun h ↦ absurd h.1 List.not_mem_nil⟩

/-- **The invariant of a run.** -/
structure Inv (start : Keyspace) (log : Log) (K : Keyspace) : Prop where
  payload : ∀ id h, K.requests id = some h → lastPayload start id log = some h.payload
  signer : ∀ id h, K.requests id = some h → h.signer = h.payload.signerKey
  needs : ∀ id h, K.requests id = some h → h.needsSigner = h.payload.needsSigner
  lasting : ∀ id h, K.requests id = some h → h.payload.terminal = false →
    h.expiresAt = none ∧ h.terminalExpiresAt = none
  deadline : ∀ id h, K.requests id = some h →
    h.terminalExpiresAt = none ∨ h.terminalExpiresAt = h.expiresAt
  durable : ∀ id entry, lastPayload start id log = some entry → entry.terminal = false →
    ∃ h, K.requests id = some h
  pending : ∀ id, K.isPending id ↔
    ∃ entry, lastPayload start id log = some entry ∧ entry.terminal = false
  active : ∀ id, id ∈ K.activeSigners ↔ lastNeeds start id log = true
  gate : ∀ signer id, K.signers signer = some id ↔
    lastNeeds start id log = true ∧ ∃ h, K.requests id = some h ∧ h.signer = signer
  held : ∀ id, lastNeeds start id log = true →
    ∃ entry, lastPayload start id log = some entry ∧ entry.needsSigner = true

/-! ### The keys after a write -/

section Keys

variable {K : Keyspace} {now u : ℕ} {id id' : Bytes32} {h : RequestHash} {signer : SignerKey}

namespace Keyspace

theorem setRequest_requests :
    (K.setRequest id h).requests = Function.update K.requests id (some h) :=
  rfl

theorem isPending_addPending :
    (K.addPending now id).isPending id' ↔ id' = id ∨ K.isPending id' := by
  by_cases hmem : K.isPending id
  · rw [addPending, if_pos hmem]
    exact ⟨.inr, fun h ↦ h.elim (fun h ↦ h ▸ hmem) fun h ↦ h⟩
  · rw [addPending, if_neg hmem, isPending, isPending, List.map_append, List.mem_append, or_comm]
    simp

theorem isPending_removePending :
    (K.removePending id).isPending id' ↔ id' ≠ id ∧ K.isPending id' := by
  simp only [removePending, isPending, List.mem_map, List.mem_filter, decide_eq_true_eq]
  constructor
  · rintro ⟨member, ⟨hmem, hne⟩, rfl⟩
    exact ⟨hne, member, hmem, rfl⟩
  · rintro ⟨hne, member, hmem, rfl⟩
    exact ⟨member, ⟨hmem, hne⟩, rfl⟩

theorem addPending_requests : (K.addPending now id).requests = K.requests := by
  rw [addPending]
  split <;> rfl

theorem addPending_signers : (K.addPending now id).signers = K.signers := by
  rw [addPending]
  split <;> rfl

theorem addPending_activeSigners : (K.addPending now id).activeSigners = K.activeSigners := by
  rw [addPending]
  split <;> rfl

end Keyspace

/-- What is left of a hash that has just been written. -/
def RequestHash.retained (now u : ℕ) (h : RequestHash) : Option RequestHash :=
  if h.payload.terminal then
    if u ≤ now then none else some { h with terminalExpiresAt := some u, expiresAt := some u }
  else some { h with terminalExpiresAt := none, expiresAt := none }

namespace Keyspace

theorem retain_requests :
    (K.retain now id h u).requests = Function.update K.requests id (h.retained now u) := by
  rw [retain, RequestHash.retained]
  split_ifs
  · rfl
  · rfl
  · exact addPending_requests

theorem retain_signers : (K.retain now id h u).signers = K.signers := by
  rw [retain]
  split_ifs
  · rfl
  · rfl
  · exact addPending_signers

theorem retain_activeSigners : (K.retain now id h u).activeSigners = K.activeSigners := by
  rw [retain]
  split_ifs
  · rfl
  · rfl
  · exact addPending_activeSigners

theorem isPending_retain : (K.retain now id h u).isPending id' ↔
    if id' = id then h.payload.terminal = false else K.isPending id' := by
  rw [retain]
  split_ifs with hterminal _ heq heq heq
  · exact isPending_removePending.trans (by simp [heq, hterminal])
  · exact isPending_removePending.trans (and_iff_right heq)
  · exact isPending_removePending.trans (by simp [heq, hterminal])
  · exact isPending_removePending.trans (and_iff_right heq)
  · exact isPending_addPending.trans (by simp [heq, hterminal])
  · exact isPending_addPending.trans (or_iff_right heq)

end Keyspace

/-- What is kept of a hash is the hash, with the deadline in both places or in none. -/
theorem RequestHash.retained_eq_some {h' : RequestHash} (heq : h.retained now u = some h') :
    h'.payload = h.payload ∧ h'.signer = h.signer ∧ h'.needsSigner = h.needsSigner ∧
      h'.owner = h.owner ∧ h'.leaseUntil = h.leaseUntil ∧ h'.revision = h.revision ∧
      h'.terminalExpiresAt = h'.expiresAt ∧
      (h.payload.terminal = false → h'.expiresAt = none) ∧
      (h.payload.terminal = true → h'.expiresAt = some u) := by
  rw [retained] at heq
  split_ifs at heq with hterminal
  · obtain rfl := Option.some.inj heq
    exact ⟨rfl, rfl, rfl, rfl, rfl, rfl, rfl, fun h ↦ absurd hterminal (by simp [h]), fun _ ↦ rfl⟩
  · obtain rfl := Option.some.inj heq
    exact ⟨rfl, rfl, rfl, rfl, rfl, rfl, rfl, fun _ ↦ rfl, fun h ↦ absurd h hterminal⟩

/-- The same entry with the same deadlines; the lease may differ. -/
structure RequestHash.SameRecord (h h' : RequestHash) : Prop where
  payload : h.payload = h'.payload
  signer : h.signer = h'.signer
  needs : h.needsSigner = h'.needsSigner
  recorded : h.terminalExpiresAt = h'.terminalExpiresAt
  expires : h.expiresAt = h'.expiresAt

theorem RequestHash.SameRecord.refl : h.SameRecord h :=
  ⟨rfl, rfl, rfl, rfl, rfl⟩

theorem RequestHash.SameRecord.lease (owner : Option Owner) (until_ : ℕ) :
    RequestHash.SameRecord { h with owner := owner, leaseUntil := until_ } h :=
  ⟨rfl, rfl, rfl, rfl, rfl⟩

theorem RequestHash.retained_ne_none (hterminal : h.payload.terminal = false) :
    h.retained now u ≠ none := by
  rw [retained, if_neg (by simp [hterminal])]
  exact Option.some_ne_none _

end Keys

/-! ### One move -/

section Move

variable {start K K' : Keyspace} {log : Log} {now : ℕ} {id : Bytes32}

namespace Inv

variable (hinv : Inv start log K)
include hinv

/-- Who needs the signer has a hash that does not expire. -/
theorem exists_of_needs (h : lastNeeds start id log = true) : ∃ r, K.requests id = some r ∧
    r.payload.needsSigner = true ∧ r.payload.terminal = false := by
  obtain ⟨entry, hentry, hneeds⟩ := hinv.held id h
  have hterminal : entry.terminal = false := by
    by_contra hne
    rw [IssuanceEntry.not_needsSigner_of_terminal (Bool.eq_true_of_not_eq_false hne)] at hneeds
    cases hneeds
  obtain ⟨r, hr⟩ := hinv.durable id entry hentry hterminal
  obtain rfl : entry = r.payload := Option.some.inj (hentry.symm.trans (hinv.payload id r hr))
  exact ⟨r, hr, hneeds, hterminal⟩

/-- The passing of time removes only what is complete. -/
theorem live (now : ℕ) : Inv start log (K.live now) := by
  have hof : ∀ {id h}, (K.live now).requests id = some h → K.requests id = some h :=
    fun h ↦ Option.eq_some_of_filter_eq_some h
  have hkeep : ∀ {id h}, K.requests id = some h → h.payload.terminal = false →
      (K.live now).requests id = some h := by
    intro id h hr hterminal
    have hlive : h.live now = true := by
      rw [RequestHash.live, (hinv.lasting id h hr hterminal).1]
      rfl
    simp only [Keyspace.live, hr, Option.filter_some, hlive, if_true]
  refine ⟨fun id h hr ↦ hinv.payload id h (hof hr), fun id h hr ↦ hinv.signer id h (hof hr),
    fun id h hr ↦ hinv.needs id h (hof hr), fun id h hr ↦ hinv.lasting id h (hof hr),
    fun id h hr ↦ hinv.deadline id h (hof hr), fun id entry hentry hterminal ↦ ?_,
    hinv.pending, hinv.active, fun signer id ↦ ?_, hinv.held⟩
  · obtain ⟨h, hr⟩ := hinv.durable id entry hentry hterminal
    refine ⟨h, hkeep hr ?_⟩
    rwa [Option.some.inj ((hinv.payload id h hr).symm.trans hentry)]
  · rw [show (K.live now).signers = K.signers from rfl, hinv.gate]
    refine and_congr_right fun hneeds ↦ ⟨?_, fun ⟨h, hr, hs⟩ ↦ ⟨h, hof hr, hs⟩⟩
    obtain ⟨r, hr, -, hterminal⟩ := hinv.exists_of_needs hneeds
    rintro ⟨h, hh, hs⟩
    obtain rfl : r = h := Option.some.inj (hr.symm.trans hh)
    exact ⟨r, hkeep hr hterminal, hs⟩

/-- A log that says the same of every request. -/
theorem congr {log' : Log} (hpayload : ∀ id, lastPayload start id log' = lastPayload start id log)
    (hneeds : ∀ id, lastNeeds start id log' = lastNeeds start id log) : Inv start log' K := by
  refine ⟨?_, hinv.signer, hinv.needs, hinv.lasting, hinv.deadline, ?_, ?_, ?_, ?_, ?_⟩ <;>
    simp only [hpayload, hneeds]
  · exact hinv.payload
  · exact hinv.durable
  · exact hinv.pending
  · exact hinv.active
  · exact hinv.gate
  · exact hinv.held

/-- A change of the lease alone. -/
theorem leased {h h' : RequestHash} (hr : K.requests id = some h) (hsame : h'.SameRecord h) :
    Inv start log (K.setRequest id h') := by
  have hof : ∀ {id' r}, (K.setRequest id h').requests id' = some r →
      ∃ r', K.requests id' = some r' ∧ r.SameRecord r' := by
    intro id' r hid
    rcases eq_or_ne id' id with rfl | hne
    · rw [Keyspace.setRequest_requests, Function.update_self] at hid
      obtain rfl := Option.some.inj hid
      exact ⟨h, hr, hsame⟩
    · rw [Keyspace.setRequest_requests, Function.update_of_ne hne] at hid
      exact ⟨r, hid, .refl⟩
  have hto : ∀ {id' r}, K.requests id' = some r →
      ∃ r', (K.setRequest id h').requests id' = some r' ∧ r'.signer = r.signer := by
    intro id' r hid
    rcases eq_or_ne id' id with rfl | hne
    · obtain rfl := Option.some.inj (hr.symm.trans hid)
      exact ⟨h', Function.update_self .., hsame.signer⟩
    · exact ⟨r, (Function.update_of_ne hne ..).trans hid, rfl⟩
  refine ⟨fun id' r hid ↦ ?_, fun id' r hid ↦ ?_, fun id' r hid ↦ ?_, fun id' r hid ↦ ?_,
    fun id' r hid ↦ ?_, fun id' entry hentry hterminal ↦ ?_, hinv.pending, hinv.active,
    fun signer id' ↦ ?_, hinv.held⟩
  · obtain ⟨r', h', hsame'⟩ := hof hid
    rw [hinv.payload id' r' h', hsame'.payload]
  · obtain ⟨r', h', hsame'⟩ := hof hid
    rw [hsame'.signer, hsame'.payload, hinv.signer id' r' h']
  · obtain ⟨r', h', hsame'⟩ := hof hid
    rw [hsame'.needs, hsame'.payload, hinv.needs id' r' h']
  · obtain ⟨r', h', hsame'⟩ := hof hid
    rw [hsame'.payload, hsame'.expires, hsame'.recorded]
    exact hinv.lasting id' r' h'
  · obtain ⟨r', h', hsame'⟩ := hof hid
    rw [hsame'.expires, hsame'.recorded]
    exact hinv.deadline id' r' h'
  · obtain ⟨r, h⟩ := hinv.durable id' entry hentry hterminal
    obtain ⟨r', h', -⟩ := hto h
    exact ⟨r', h'⟩
  · refine (hinv.gate signer id').trans (and_congr_right fun _ ↦ ⟨?_, ?_⟩)
    · rintro ⟨r, h, hs⟩
      obtain ⟨r', h', hs'⟩ := hto h
      exact ⟨r', h', hs'.trans hs⟩
    · rintro ⟨r, h, hs⟩
      obtain ⟨r', h', hsame'⟩ := hof h
      exact ⟨r', h', hsame'.signer.symm.trans hs⟩

/-! The gates after a write -/

theorem not_needs_of_missing (hfree : K.requests id = none) : lastNeeds start id log = false := by
  by_contra hneeds
  obtain ⟨r, hr, -⟩ := hinv.exists_of_needs (Bool.eq_true_of_not_eq_false hneeds)
  cases hfree.symm.trans hr

/-- A gate that names a request is that of the request's signer. -/
theorem signer_of_gate {h : RequestHash} {signer : SignerKey} (hr : K.requests id = some h)
    (hgate : K.signers signer = some id) : h.signer = signer := by
  obtain ⟨-, r, hr', hs⟩ := (hinv.gate signer id).1 hgate
  rwa [Option.some.inj (hr.symm.trans hr')]

theorem takeGate_signers {h : RequestHash} (hr : K.requests id = some h)
    (hopen : K.gateOpen h.signer id = true) (signer : SignerKey) (id' : Bytes32) :
    (K.takeGate h.signer id).signers signer = some id' ↔
      if id' = id then h.signer = signer else K.signers signer = some id' := by
  rcases eq_or_ne signer h.signer with rfl | hne
  · simp only [Keyspace.takeGate, Function.update_self, Option.some.injEq]
    split_ifs with heq
    · exact ⟨fun _ ↦ trivial, fun _ ↦ heq.symm⟩
    · refine ⟨fun h ↦ absurd h.symm heq, fun hother ↦ absurd ?_ heq⟩
      rw [Keyspace.gateOpen, hother] at hopen
      simpa using hopen
  · simp only [Keyspace.takeGate, Function.update_of_ne hne]
    split_ifs with heq
    · subst heq
      exact ⟨hinv.signer_of_gate hr, fun h ↦ absurd h.symm hne⟩
    · rfl

theorem leaveGate_signers {h : RequestHash} (hr : K.requests id = some h) (signer : SignerKey)
    (id' : Bytes32) :
    (K.leaveGate h.signer id).signers signer = some id' ↔
      id' ≠ id ∧ K.signers signer = some id' := by
  rcases eq_or_ne signer h.signer with rfl | hne
  · simp only [Keyspace.leaveGate, Function.update_self]
    split_ifs with hmine
    · rw [hmine]
      exact ⟨(nomatch ·), fun ⟨hne, heq⟩ ↦ absurd (Option.some.inj heq).symm hne⟩
    · exact ⟨fun h ↦ ⟨fun heq ↦ hmine (heq ▸ h), h⟩, And.right⟩
  · simp only [Keyspace.leaveGate, Function.update_of_ne hne]
    refine ⟨fun hgate ↦ ⟨?_, hgate⟩, And.right⟩
    rintro rfl
    exact hne (hinv.signer_of_gate hr hgate).symm

/-- A hash is written, where the gate has been left as the payload asks. -/
theorem wrote {effect : Effect} {h : RequestHash} {K₀ : Keyspace} {u : ℕ}
    (hpayload : ∀ id', lastPayload start id' ((id, effect) :: log) =
      if id' = id then some h.payload else lastPayload start id' log)
    (hsigner : h.signer = h.payload.signerKey) (hneeds : h.needsSigner = h.payload.needsSigner)
    (hrequests : K₀.requests = K.requests) (hpending : K₀.pending = K.pending)
    (hactive : ∀ id', id' ∈ K₀.activeSigners ↔
      lastNeeds start id' ((id, effect) :: log) = true)
    (hgate : ∀ signer id', K₀.signers signer = some id' ↔
      lastNeeds start id' ((id, effect) :: log) = true ∧
        if id' = id then h.signer = signer else ∃ r, K.requests id' = some r ∧ r.signer = signer)
    (hheld : lastNeeds start id ((id, effect) :: log) = true → h.payload.needsSigner = true)
    (hothers : ∀ id', id' ≠ id → lastNeeds start id' ((id, effect) :: log) =
      lastNeeds start id' log) :
    Inv start ((id, effect) :: log) (K₀.retain now id h u) := by
  have hself : lastPayload start id ((id, effect) :: log) = some h.payload :=
    (hpayload id).trans (if_pos rfl)
  have hother : ∀ {id'}, id' ≠ id → lastPayload start id' ((id, effect) :: log) =
      lastPayload start id' log := fun hne ↦ (hpayload _).trans (if_neg hne)
  have hcases : ∀ {id' r}, (K₀.retain now id h u).requests id' = some r →
      id' = id ∧ h.retained now u = some r ∨ id' ≠ id ∧ K.requests id' = some r := by
    intro id' r hr
    rw [Keyspace.retain_requests, hrequests] at hr
    rcases eq_or_ne id' id with rfl | hne
    · rw [Function.update_self] at hr
      exact .inl ⟨rfl, hr⟩
    · rw [Function.update_of_ne hne] at hr
      exact .inr ⟨hne, hr⟩
  refine ⟨fun id' r hr ↦ ?_, fun id' r hr ↦ ?_, fun id' r hr ↦ ?_, fun id' r hr ↦ ?_,
    fun id' r hr ↦ ?_, fun id' entry hentry hterminal ↦ ?_, fun id' ↦ ?_, fun id' ↦ ?_,
    fun signer id' ↦ ?_, fun id' hid ↦ ?_⟩
  · rcases hcases hr with ⟨rfl, hkept⟩ | ⟨hne, hr⟩
    · rw [hself, (RequestHash.retained_eq_some hkept).1]
    · exact (hother hne).trans (hinv.payload id' r hr)
  · rcases hcases hr with ⟨rfl, hkept⟩ | ⟨hne, hr⟩
    · obtain ⟨hp, hs, -⟩ := RequestHash.retained_eq_some hkept
      rw [hp, hs, hsigner]
    · exact hinv.signer id' r hr
  · rcases hcases hr with ⟨rfl, hkept⟩ | ⟨hne, hr⟩
    · obtain ⟨hp, -, hn, -⟩ := RequestHash.retained_eq_some hkept
      rw [hp, hn, hneeds]
    · exact hinv.needs id' r hr
  · rcases hcases hr with ⟨rfl, hkept⟩ | ⟨hne, hr⟩
    · obtain ⟨hp, -, -, -, -, -, hsame, hlasting, -⟩ := RequestHash.retained_eq_some hkept
      intro hterminal
      have hnone := hlasting (hp ▸ hterminal)
      exact ⟨hnone, hsame.trans hnone⟩
    · exact hinv.lasting id' r hr
  · rcases hcases hr with ⟨rfl, hkept⟩ | ⟨hne, hr⟩
    · exact .inr (RequestHash.retained_eq_some hkept).2.2.2.2.2.2.1
    · exact hinv.deadline id' r hr
  · rw [Keyspace.retain_requests, hrequests]
    rcases eq_or_ne id' id with rfl | hne
    · obtain rfl := Option.some.inj (hself.symm.trans hentry)
      rw [Function.update_self]
      exact Option.ne_none_iff_exists'.1 (RequestHash.retained_ne_none hterminal)
    · rw [Function.update_of_ne hne]
      exact hinv.durable id' entry ((hother hne).symm.trans hentry) hterminal
  · rw [Keyspace.isPending_retain, hpayload]
    split_ifs with heq
    · exact ⟨fun h ↦ ⟨_, rfl, h⟩, fun ⟨_, h, h'⟩ ↦ Option.some.inj h ▸ h'⟩
    · rw [Keyspace.isPending, hpending]
      exact hinv.pending id'
  · rw [Keyspace.retain_activeSigners]
    exact hactive id'
  · rw [Keyspace.retain_signers, hgate]
    refine and_congr_right fun hid ↦ ?_
    rw [Keyspace.retain_requests, hrequests]
    split_ifs with heq
    · subst heq
      have hterminal : h.payload.terminal = false := by
        by_contra hne
        have := IssuanceEntry.not_needsSigner_of_terminal (Bool.eq_true_of_not_eq_false hne)
        rw [hheld hid] at this
        cases this
      obtain ⟨r, hr⟩ := Option.ne_none_iff_exists'.1
        (@RequestHash.retained_ne_none now u h hterminal)
      rw [Function.update_self, hr]
      simp [(RequestHash.retained_eq_some hr).2.1]
    · rw [Function.update_of_ne heq]
  · rcases eq_or_ne id' id with rfl | hne
    · exact ⟨h.payload, hself, hheld hid⟩
    · rw [hother hne]
      exact hinv.held id' ((hothers id' hne).symm.trans hid)

theorem created {entry : IssuanceEntry} (hfree : K.requests id = none) :
    Inv start ((id, .created entry) :: log) (K.create now id entry) := by
  have hnone := hinv.not_needs_of_missing hfree
  have hnew : ∀ id', lastNeeds start id' ((id, .created entry) :: log) =
      lastNeeds start id' log := by
    intro id'
    rw [lastNeeds]
    split_ifs with heq
    · rw [← heq, hnone]
    · rfl
  refine hinv.wrote (fun id' ↦ ?_) rfl rfl rfl rfl (fun id' ↦ ?_) (fun signer id' ↦ ?_)
    (fun h ↦ ?_) fun id' _ ↦ hnew id'
  · simp only [lastPayload, eq_comm (a := id)]
  · rw [hnew]
    exact hinv.active id'
  · rw [hnew]
    split_ifs with heq
    · rw [heq, hnone]
      refine ⟨fun hgate ↦ absurd ((hinv.gate signer id).1 hgate).1 (by simp [hnone]),
        fun h ↦ nomatch h.1⟩
    · exact hinv.gate signer id'
  · rw [hnew, hnone] at h
    cases h

theorem acquired {h : RequestHash} (owner : Owner) (hr : K.requests id = some h)
    (hopen : h.needsSigner = true → K.gateOpen h.signer id = true) :
    Inv start ((id, .acquired owner h.needsSigner) :: log) (K.acquire now id owner h) := by
  have hpayload : ∀ id', lastPayload start id' ((id, .acquired owner h.needsSigner) :: log) =
      lastPayload start id' log := fun _ ↦ rfl
  rw [Keyspace.acquire]
  split_ifs with hneeds
  · have htook : Inv start ((id, .acquired owner h.needsSigner) :: log)
        (K.takeGate h.signer id) := by
      have hself : ∀ id', lastNeeds start id' ((id, .acquired owner h.needsSigner) :: log) =
          (decide (id' = id) || lastNeeds start id' log) := by
        intro id'
        rw [lastNeeds, hneeds]
        by_cases heq : id' = id
        · simp [heq]
        · simp [heq, Ne.symm heq]
      refine ⟨hinv.payload, hinv.signer, hinv.needs, hinv.lasting, hinv.deadline, hinv.durable,
        hinv.pending, fun id' ↦ ?_, fun signer id' ↦ ?_, fun id' hid ↦ ?_⟩
      · simp [hself, Keyspace.takeGate, List.mem_insert_iff, hinv.active]
      · rw [hinv.takeGate_signers hr (hopen hneeds), hself]
        split_ifs with heq
        · subst heq
          simp only [decide_true, Bool.true_or, true_and]
          exact ⟨fun hs ↦ ⟨h, hr, hs⟩, fun ⟨r, hr', hs⟩ ↦
            Option.some.inj (hr.symm.trans hr') ▸ hs⟩
        · rw [decide_eq_false heq, Bool.false_or]
          exact hinv.gate signer id'
      · rcases eq_or_ne id' id with rfl | hne
        · exact ⟨h.payload, hinv.payload _ h hr, (hinv.needs _ h hr).symm.trans hneeds⟩
        · rw [hself, decide_eq_false hne, Bool.false_or] at hid
          exact hinv.held id' hid
    exact htook.leased hr (.lease (some owner) (now + leaseMs))
  · have hnone : lastNeeds start id log = false := by
      by_contra hlast
      obtain ⟨r, hr', hneeds', -⟩ := hinv.exists_of_needs (Bool.eq_true_of_not_eq_false hlast)
      obtain rfl := Option.some.inj (hr.symm.trans hr')
      exact hneeds ((hinv.needs id h hr).trans hneeds')
    refine (hinv.leased hr (.lease (some owner) (now + leaseMs))).congr hpayload fun id' ↦ ?_
    rw [lastNeeds]
    split_ifs with heq
    · rw [← heq, hnone, Bool.eq_false_of_not_eq_true hneeds]
    · rfl

theorem saved {h : RequestHash} {entry : IssuanceEntry} (owner : Owner)
    (hr : K.requests id = some h) (hsigner : h.signer = entry.signerKey)
    (hopen : entry.needsSigner = true → K.gateOpen h.signer id = true) :
    Inv start ((id, .saved owner entry) :: log) (K.save now id entry h) := by
  have hpayload : ∀ id', lastPayload start id' ((id, .saved owner entry) :: log) =
      if id' = id then some entry else lastPayload start id' log := by
    intro id'
    simp only [lastPayload, eq_comm (a := id)]
  have hneeds : ∀ id', lastNeeds start id' ((id, .saved owner entry) :: log) =
      if id' = id then entry.needsSigner else lastNeeds start id' log := by
    intro id'
    simp only [lastNeeds, eq_comm (a := id)]
  have hothers : ∀ id', id' ≠ id → lastNeeds start id' ((id, .saved owner entry) :: log) =
      lastNeeds start id' log := fun id' hne ↦ (hneeds id').trans (if_neg hne)
  have hself : lastNeeds start id ((id, .saved owner entry) :: log) = entry.needsSigner :=
    (hneeds id).trans (if_pos rfl)
  rw [Keyspace.save]
  split_ifs with hentry
  · refine hinv.wrote hpayload hsigner rfl rfl rfl (fun id' ↦ ?_) (fun signer id' ↦ ?_)
      (fun _ ↦ hentry) hothers
    · rw [hneeds, hentry, Keyspace.takeGate, List.mem_insert_iff, hinv.active]
      split_ifs with heq
      · simp [heq]
      · simp [heq]
    · rw [hinv.takeGate_signers hr (hopen hentry), hneeds, hentry]
      split_ifs with heq
      · exact (and_iff_right rfl).symm
      · exact hinv.gate signer id'
  · refine hinv.wrote hpayload hsigner rfl rfl rfl (fun id' ↦ ?_) (fun signer id' ↦ ?_)
      (fun hlast ↦ absurd (hself.symm.trans hlast) hentry) hothers
    · rw [hneeds, Keyspace.leaveGate, List.mem_filter, decide_eq_true_eq, hinv.active]
      split_ifs with heq
      · simp [heq, hentry]
      · simp [heq]
    · rw [hinv.leaveGate_signers hr, hneeds]
      split_ifs with heq
      · simp [heq, hentry]
      · exact (and_iff_right heq).trans (hinv.gate signer id')

end Inv

/-- **What one call keeps.** -/
theorem Move.inv {effect : Effect} (hinv : Inv start log K) (hmove : Move now id K effect K') :
    Inv start ((id, effect) :: log) K' := by
  cases hmove with
  | created hfree => exact hinv.created hfree
  | acquired hr _ hopen => exact hinv.acquired _ hr hopen
  | saved hr _ _ hsigner _ hopen => exact hinv.saved _ hr hsigner hopen
  | released hr _ =>
    exact (hinv.leased hr (.lease none 0)).congr (fun _ ↦ rfl) fun _ ↦ rfl
  | nothing => exact hinv.congr (fun _ ↦ rfl) fun _ ↦ rfl

end Move

/-! ### Runs -/

theorem Legacy.inv {K : Keyspace} (h : Legacy K) : Inv K [] K := by
  have hpayload : ∀ {id entry}, lastPayload K id [] = some entry →
      ∃ r, K.requests id = some r ∧ r.payload = entry := Option.map_eq_some_iff.1
  have hlast : ∀ {id r}, K.requests id = some r → lastPayload K id [] = some r.payload :=
    fun hr ↦ Option.map_eq_some_iff.2 ⟨_, hr, rfl⟩
  refine ⟨fun id r hr ↦ hlast hr, fun id r hr ↦ (h.request id r hr).1,
    fun id r hr ↦ (h.request id r hr).2.1, fun id r hr hterminal ↦ ?_,
    fun id r hr ↦ .inl (h.request id r hr).2.2.1, fun id entry hentry _ ↦ ?_, fun id ↦ ?_,
    fun id ↦ decide_eq_true_iff.symm, fun signer id ↦ ?_, fun id hid ↦ ?_⟩
  · obtain ⟨-, -, hrecorded, hexpires⟩ := h.request id r hr
    exact ⟨hexpires hterminal, hrecorded⟩
  · obtain ⟨r, hr, -⟩ := hpayload hentry
    exact ⟨r, hr⟩
  · rw [h.pending]
    constructor
    · rintro ⟨r, hr, hterminal⟩
      exact ⟨r.payload, hlast hr, hterminal⟩
    · rintro ⟨entry, hentry, hterminal⟩
      obtain ⟨r, hr, rfl⟩ := hpayload hentry
      exact ⟨r, hr, hterminal⟩
  · exact (h.gate signer id).trans (and_congr_left' decide_eq_true_iff.symm)
  · obtain ⟨r, hr, hneeds⟩ := h.active id (decide_eq_true_iff.1 hid)
    exact ⟨r.payload, hlast hr, hneeds⟩

theorem Runs.inv {start K : Keyspace} {from_ t : ℕ} {log : Log} (hlegacy : Legacy start)
    (h : Runs start from_ log K t) : Inv start log K := by
  induction h with
  | start => exact hlegacy.inv
  | call _ mayExpire _ id op ih => exact (lua_spec mayExpire _ id op _).inv (ih.live _)

/-! ### One completion -/

/-- The effect ends a completion: the request is created again, or saved as not complete. -/
def Effect.reopens : Effect → Bool
  | .created _ => true
  | .saved _ entry => !entry.terminal
  | _ => false

/-- A deadline that was there is there, and no later. -/
def NotLater (d' d : Option ℕ) : Prop :=
  ∀ x, d = some x → ∃ x', d' = some x' ∧ x' ≤ x

theorem NotLater.refl (d : Option ℕ) : NotLater d d :=
  fun x h ↦ ⟨x, h, le_rfl⟩

theorem NotLater.trans {d₁ d₂ d₃ : Option ℕ} (h₁ : NotLater d₁ d₂) (h₂ : NotLater d₂ d₃) :
    NotLater d₁ d₃ := by
  intro x hx
  obtain ⟨y, hy, hyx⟩ := h₂ x hx
  obtain ⟨z, hz, hzy⟩ := h₁ y hy
  exact ⟨z, hz, hzy.trans hyx⟩

theorem notLater_terminalDeadline (now : ℕ) (h : RequestHash) :
    NotLater (some (h.terminalDeadline now)) h.terminalExpiresAt ∧
      NotLater (some (h.terminalDeadline now)) h.expiresAt := by
  rw [RequestHash.terminalDeadline]
  constructor
  · intro x hx
    refine ⟨_, rfl, ?_⟩
    rw [hx]
    rcases h.expiresAt with - | e
    · exact le_rfl
    · exact min_le_left x e
  · intro x hx
    refine ⟨_, rfl, ?_⟩
    rw [hx]
    rcases h.terminalExpiresAt with - | e
    · exact le_rfl
    · exact min_le_right e x

/-- A hash after a move that does not reopen its request was there before it, with deadlines no
earlier. -/
theorem Move.notLater {K K' : Keyspace} {now : ℕ} {id id' : Bytes32} {effect : Effect}
    {r' : RequestHash} (hmove : Move now id' K effect K')
    (hreopens : id' = id → effect.reopens = false) (hr' : K'.requests id = some r') :
    ∃ r, K.requests id = some r ∧ NotLater r'.terminalExpiresAt r.terminalExpiresAt ∧
      NotLater r'.expiresAt r.expiresAt := by
  have hsame : ∀ {r}, K.requests id = some r → r'.terminalExpiresAt = r.terminalExpiresAt →
      r'.expiresAt = r.expiresAt → ∃ r, K.requests id = some r ∧
        NotLater r'.terminalExpiresAt r.terminalExpiresAt ∧ NotLater r'.expiresAt r.expiresAt :=
    fun hr hrecorded hexpires ↦ ⟨_, hr, hrecorded ▸ .refl _, hexpires ▸ .refl _⟩
  cases hmove with
  | created hfree =>
    rcases eq_or_ne id id' with rfl | hne
    · cases hreopens rfl
    · rw [Keyspace.create, Keyspace.retain_requests, Function.update_of_ne hne] at hr'
      exact hsame hr' rfl rfl
  | @acquired owner h hr _ _ =>
    have hrequests : (K.acquire now id' owner h).requests = Function.update K.requests id'
        (some { h with owner := some owner, leaseUntil := now + leaseMs }) := by
      rw [Keyspace.acquire, Keyspace.setRequest_requests]
      split_ifs <;> rfl
    rw [hrequests] at hr'
    rcases eq_or_ne id id' with rfl | hne
    · rw [Function.update_self] at hr'
      obtain rfl := Option.some.inj hr'
      exact hsame hr rfl rfl
    · rw [Function.update_of_ne hne] at hr'
      exact hsame hr' rfl rfl
  | @saved owner entry h hr _ _ _ _ _ =>
    have hrequests : (if entry.needsSigner then K.takeGate h.signer id' else
        K.leaveGate h.signer id').requests = K.requests := by
      split_ifs <;> rfl
    rw [Keyspace.save, Keyspace.retain_requests, hrequests] at hr'
    rcases eq_or_ne id id' with rfl | hne
    · rw [Function.update_self] at hr'
      obtain ⟨-, -, -, -, -, -, hboth, -, hdeadline⟩ := RequestHash.retained_eq_some hr'
      have hterminal : entry.terminal = true := by simpa [Effect.reopens] using hreopens rfl
      rw [hboth, hdeadline hterminal]
      exact ⟨h, hr, notLater_terminalDeadline now h⟩
    · rw [Function.update_of_ne hne] at hr'
      exact hsame hr' rfl rfl
  | @released owner h hr _ =>
    rw [Keyspace.release, Keyspace.setRequest_requests] at hr'
    rcases eq_or_ne id id' with rfl | hne
    · rw [Function.update_self] at hr'
      obtain rfl := Option.some.inj hr'
      exact hsame hr rfl rfl
    · rw [Function.update_of_ne hne] at hr'
      exact hsame hr' rfl rfl
  | nothing => exact hsame hr' rfl rfl

theorem Runs.notLater {start K : Keyspace} {from_ t : ℕ} {log : Log} {id : Bytes32}
    (h : Runs start from_ log K t)
    (hreopens : ∀ effect, (id, effect) ∈ log → effect.reopens = false) {r' : RequestHash}
    (hr' : K.requests id = some r') :
    ∃ r, start.requests id = some r ∧ NotLater r'.terminalExpiresAt r.terminalExpiresAt ∧
      NotLater r'.expiresAt r.expiresAt := by
  induction h generalizing r' with
  | start => exact ⟨r', hr', .refl _, .refl _⟩
  | call h mayExpire ht id' op ih =>
    obtain ⟨r, hr, hrecorded, hexpires⟩ := (lua_spec mayExpire _ id' op _).notLater
      (fun heq ↦ hreopens _ (heq ▸ List.mem_cons_self)) hr'
    obtain ⟨r₀, hr₀, hrecorded₀, hexpires₀⟩ := ih
      (fun effect hmem ↦ hreopens effect (List.mem_cons_of_mem _ hmem))
      (Option.eq_some_of_filter_eq_some hr)
    exact ⟨r₀, hr₀, hrecorded.trans hrecorded₀, hexpires.trans hexpires₀⟩

/-- **What the journal keeps**, from the keys of an earlier release and over every sequence of
calls. -/
theorem journal_retention {start K : Keyspace} {from_ t : ℕ} {log : Log} (hlegacy : Legacy start)
    (h : Runs start from_ log K t) :
    (∀ id entry, lastPayload start id log = some entry → entry.terminal = false →
      K.isPending id ∧ ∀ now, ∃ r, (K.live now).requests id = some r ∧ r.payload = entry ∧
        r.expiresAt = none ∧ r.terminalExpiresAt = none) ∧
    (∀ id entry, lastPayload start id log = some entry → entry.terminal = true →
      ¬ K.isPending id) ∧
    (∀ {new K' t'}, Runs K t new K' t' → ∀ id,
      (∀ effect, (id, effect) ∈ new → effect.reopens = false) →
      ∀ r', K'.requests id = some r' → ∃ r, K.requests id = some r ∧
        NotLater r'.terminalExpiresAt r.terminalExpiresAt ∧ NotLater r'.expiresAt r.expiresAt) ∧
    (∀ id r, K.requests id = some r →
      (id ∈ K.activeSigners ↔ lastNeeds start id log = true) ∧
      (K.signers r.signer = some id ↔ lastNeeds start id log = true)) ∧
    (∀ signer id, K.signers signer = some id → id ∈ K.activeSigners ∧
      ∃ r, K.requests id = some r ∧ r.signer = signer) ∧
    ∀ id id' r r', id ∈ K.activeSigners → id' ∈ K.activeSigners → K.requests id = some r →
      K.requests id' = some r' → r.signer = r'.signer → id = id' := by
  have hinv := h.inv hlegacy
  have hgate : ∀ id r, K.requests id = some r →
      (K.signers r.signer = some id ↔ lastNeeds start id log = true) :=
    fun id r hr ↦ (hinv.gate r.signer id).trans (and_iff_left ⟨r, hr, rfl⟩)
  refine ⟨fun id entry hentry hterminal ↦ ?_, fun id entry hentry hterminal hpending ↦ ?_,
    fun hnext id hreopens r' hr' ↦ hnext.notLater hreopens hr',
    fun id r hr ↦ ⟨hinv.active id, hgate id r hr⟩, fun signer id hsigner ↦ ?_,
    fun id id' r r' hid hid' hr hr' heq ↦ ?_⟩
  · refine ⟨(hinv.pending id).2 ⟨entry, hentry, hterminal⟩, fun now ↦ ?_⟩
    have hlive := hinv.live now
    obtain ⟨r, hr⟩ := hlive.durable id entry hentry hterminal
    obtain rfl := Option.some.inj ((hlive.payload id r hr).symm.trans hentry)
    exact ⟨r, hr, rfl, hlive.lasting id r hr hterminal⟩
  · obtain ⟨entry', hentry', hopen⟩ := (hinv.pending id).1 hpending
    obtain rfl := Option.some.inj (hentry.symm.trans hentry')
    rw [hterminal] at hopen
    cases hopen
  · obtain ⟨hneeds, hrequest⟩ := (hinv.gate signer id).1 hsigner
    exact ⟨(hinv.active id).2 hneeds, hrequest⟩
  · have hmine := (hgate id r hr).2 ((hinv.active id).1 hid)
    have htheirs := (hgate id' r' hr').2 ((hinv.active id').1 hid')
    rw [heq] at hmine
    exact Option.some.inj (hmine.symm.trans htheirs)

/-- An entry that has just been prepared. -/
def samplePreparation : IssuanceEntry where
  requestId := 7
  wallet := 1
  prepareUntil := 1000
  phase := .prepared
  target := ⟨10, 2, 3, 20, 4, none, none, none⟩
  outcome := ⟨5, some ⟨6, 7, 2000⟩⟩
  evidenceRecord := none
  evidenceStored := false
  transaction := none
  revertedTransactions := []
  sourceConfirmation := none
  broadcastAcceptedAt := none
  materializedAt := none
  lastError := none
  rest := []

/-- Created and then acquired. -/
theorem journal_retention_samplePreparation :
    let K := (lua true 6 7 (.acquire 1 (10, 3)) (lua true 5 7 (.create samplePreparation) .empty).2).2
    K.isPending 7 ∧ ∀ now, ∃ r, (K.live now).requests 7 = some r ∧ r.payload = samplePreparation ∧
      r.expiresAt = none ∧ r.terminalExpiresAt = none :=
  have hruns : Runs .empty 0 _ _ 6 :=
    (Runs.start.call true (Nat.zero_le 5) 7 (.create samplePreparation)).call true (Nat.le_succ 5)
      7 (.acquire 1 (10, 3))
  (journal_retention legacy_empty hruns).1 7 samplePreparation (by decide) (by decide)

end Proofmark.Issuance
