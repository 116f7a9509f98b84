import Proofmark.Worker.Lawful
import Proofmark.Worker.SourceScan

/-!
# The scan keeps the file lawful

The four ways in which the main loop moves the scan: the scope is bound, the first checkpoint is
installed, a range is committed, a fork is rewound. Each keeps `Lawful`, and the file can still be
loaded. A range only adds jobs (`addFound_get`); a rewind drops jobs, but none that left a trace at
the hub.
-/

open Evm

namespace Proofmark.Worker

variable {K : Packages} {now : ℕ} {d : Data} {s : WorkerScope}

/-- A job as the scan finds it: what the endpoint says of it has the right shape. -/
structure Found (job : StoredJob) : Prop where
  hash : isHash job.txHash = true
  block : job.blockHash.all isHash = true
  index : job.transactionIndex.all Monitor.integer = true
  attempts : job.attempts = 0
  action : job.action ≤ 5
  logCount : 0 < job.logCount ∧ IsSafe job.logCount
  skip : job.skipObservation = none

/-! ### The first writes -/

theorem Data.Loads.relay_eq_none (h : d.Loads) (hjobs : d.jobs.rows = []) : d.relay = none := by
  rcases hrelay : d.relay with - | relay
  · rfl
  · obtain ⟨job, hget, -⟩ := loads_iff.1 h relay hrelay
    have hmem := (Table.get_eq_some.1 hget).1
    simp [hjobs] at hmem

theorem Lawful.bound (h : Lawful K now d) (hloads : d.Loads) (hscope : d.scope = none)
    (hjobs : d.jobs.rows = []) (hs : s.Valid K) : Lawful K now { d with scope := some s } where
  cursor := h.cursor
  baseline := h.baseline
  unbound := nofun
  scope s' hs' := Option.some.inj hs' ▸ hs
  source _ _ hne := absurd (h.unbound hscope) hne
  jobs _ _ job hjob := by
    rw [hjobs] at hjob
    cases hjob
  relay _ _ relay hrelay := by
    rw [hloads.relay_eq_none hjobs] at hrelay
    cases hrelay

theorem Lawful.anchored (h : Lawful K now d) (hloads : d.Loads) (hs : d.scope = some s)
    (hjobs : d.jobs.rows = []) {checkpoint : SourceCheckpoint}
    (hheight : checkpoint.height + 1 = s.startBlock) (hhash : isHash checkpoint.hash = true) :
    Lawful K now { d with
      cursor := checkpoint.height, sourceCheckpoints := some [checkpoint] } where
  cursor := (h.scope s hs).startBlock.2.of_le (show checkpoint.height ≤ s.startBlock by omega)
  baseline := h.baseline
  unbound hnone := by
    rw [show d.scope = none from hnone] at hs
    cases hs
  scope := h.scope
  source s' hs' _ := by
    obtain rfl := Option.some.inj (hs.symm.trans hs')
    refine ⟨⟨checkpoint, rfl, hheight⟩, List.pairwise_singleton _ _, fun c hc ↦ ?_, rfl, ?_⟩
    · rw [List.mem_singleton.1 hc]
      exact hhash
    · exact Nat.le_add_left 1 128
  jobs _ _ job hjob := by
    rw [show d.jobs.rows = [] from hjobs] at hjob
    cases hjob
  relay _ _ relay hrelay := by
    rw [show d.relay = none from hloads.relay_eq_none hjobs] at hrelay
    cases hrelay

/-! ### A range -/

section Range

variable {from_ end_ : ℕ} {jobs jobs' : Table StoredJob.key} {job : StoredJob}

/-- One job of a range: it is there already, or it is added within the range. -/
theorem addFound_ok (h : addFound from_ end_ now jobs job = .ok jobs') :
    jobs' = jobs ∨ jobs.get job.txHash = none ∧ job.blockHash.isSome ∧
      job.transactionIndex.isSome ∧ from_ ≤ job.blockNumber ∧ job.blockNumber ≤ end_ ∧
        jobs' = jobs.set { job with discoveredAt := now, updatedAt := now } := by
  unfold addFound at h
  split at h
  · cases h
  case isFalse hcoordinates =>
    simp only [Bool.or_eq_true, not_or, Bool.not_eq_true, Bool.not_eq_false', decide_eq_false_iff_not,
      not_lt] at hcoordinates
    obtain ⟨⟨⟨hblock, hindex⟩, hfrom⟩, hend⟩ := hcoordinates
    split at h
    · split at h
      · cases h
      · exact .inl (Except.ok.inj h).symm
    case h_2 hnone =>
      refine .inr ⟨hnone, ?_, ?_, hfrom, hend, (Except.ok.inj h).symm⟩
      · cases hhash : job.blockHash with
        | none => simp [hhash, truthy] at hblock
        | some t => rfl
      · cases htx : job.transactionIndex with
        | none => simp [htx] at hindex
        | some n => rfl

/-- A range keeps the jobs that are there. -/
theorem addFound_get {found : List StoredJob}
    (h : found.foldlM (addFound from_ end_ now) jobs = .ok jobs') {id : String} {old : StoredJob}
    (hold : jobs.get id = some old) : jobs'.get id = some old := by
  refine foldlM_invariant (P := fun t : Table StoredJob.key ↦ t.get id = some old)
    (fun t job t' _ ht hadd ↦ ?_) hold h
  rcases addFound_ok hadd with rfl | ⟨hnone, -, -, -, -, rfl⟩
  · exact ht
  · rw [Table.get_set_of_ne]
    · exact ht
    · rintro rfl
      rw [show t.get job.txHash = some old from ht] at hnone
      cases hnone

theorem Found.lawful {startBlock : ℕ} (h : Found job) (hstart : startBlock ≤ from_)
    (hblock : job.blockHash.isSome) (hindex : job.transactionIndex.isSome)
    (hfrom : from_ ≤ job.blockNumber) (hend : job.blockNumber ≤ end_) :
    LawfulJob startBlock end_ now { job with discoveredAt := now, updatedAt := now } where
  hash := h.hash
  number := ⟨hstart.trans hfrom, hend⟩
  block := by
    obtain ⟨t, ht⟩ := Option.isSome_iff_exists.1 hblock
    simpa [ht] using h.block
  index := by
    obtain ⟨n, hn⟩ := Option.isSome_iff_exists.1 hindex
    simpa [hn] using h.index
  times := ⟨le_rfl, le_rfl⟩
  attempts := by
    rw [show job.attempts = 0 from h.attempts]
    exact ⟨Nat.zero_le _, fun _ ↦ by decide⟩
  action := h.action
  logCount := h.logCount
  skip o ho := by
    rw [show job.skipObservation = none from h.skip] at ho
    cases ho

/-- The jobs after a range are old ones and found ones. -/
theorem addFound_lawful {startBlock cursor : ℕ} {found : List StoredJob}
    (h : found.foldlM (addFound from_ end_ now) jobs = .ok jobs')
    (hjobs : ∀ job ∈ jobs.rows, LawfulJob startBlock cursor now job)
    (hfound : ∀ job ∈ found, Found job) (hstart : startBlock ≤ from_) (hcursor : cursor ≤ end_) :
    ∀ job ∈ jobs'.rows, LawfulJob startBlock end_ now job := by
  refine foldlM_invariant (P := fun t : Table StoredJob.key ↦
    ∀ job ∈ t.rows, LawfulJob startBlock end_ now job)
    (fun t job t' hjob ht hadd ↦ ?_) (fun job hjob ↦ (hjobs job hjob).mono hcursor le_rfl) h
  rcases addFound_ok hadd with rfl | ⟨-, hblock, hindex, hfrom, hend, rfl⟩
  · exact ht
  · intro job' hjob'
    rcases Table.mem_set.1 hjob' with rfl | ⟨hold, -⟩
    · exact (hfound job hjob).lawful hstart hblock hindex hfrom hend
    · exact ht job' hold

end Range

section Checkpoints

variable {startBlock cursor : ℕ} {checkpoints : List SourceCheckpoint}

/-- Some of the oldest checkpoints after the anchor may be dropped. -/
theorem Chained.kept (h : Chained startBlock cursor checkpoints) {end_ : SourceCheckpoint}
    (hend : cursor < end_.height) (hhash : isHash end_.hash = true) :
    Chained startBlock end_.height (keptCheckpoints (checkpoints ++ [end_])) := by
  obtain ⟨anchor, hanchor, hstart⟩ := h.anchor
  obtain ⟨rest, rfl⟩ : ∃ rest, checkpoints = anchor :: rest := by
    cases checkpoints with
    | nil => cases hanchor
    | cons a rest => exact ⟨rest, by rw [Option.some.inj hanchor]⟩
  have hsorted : (anchor :: rest ++ [end_]).Pairwise fun a b ↦ a.height < b.height := by
    refine List.pairwise_append.2 ⟨h.sorted, List.pairwise_singleton _ _, fun a ha b hb ↦ ?_⟩
    rw [List.mem_singleton.1 hb]
    exact (h.le_cursor ha).trans_lt hend
  have hhashes : ∀ c ∈ anchor :: rest ++ [end_], isHash c.hash = true := by
    intro c hc
    rcases List.mem_append.1 hc with hc | hc
    · exact h.hash c hc
    · rw [List.mem_singleton.1 hc]
      exact hhash
  -- what is kept is a sublist with the same ends
  have hends : ∃ last, keptCheckpoints (anchor :: rest ++ [end_]) = anchor :: (last ++ [end_]) ∧
      (anchor :: (last ++ [end_])).Sublist (anchor :: rest ++ [end_]) ∧
        (anchor :: (last ++ [end_])).length ≤ 129 := by
    rw [List.cons_append, keptCheckpoints]
    split
    case isTrue hlong =>
      simp only [List.length_cons, List.length_append, List.length_nil] at hlong
      refine ⟨rest.drop (rest.length - 127), ?_, ?_, ?_⟩
      · rw [List.length_append, List.length_singleton, List.drop_append_of_le_length (by omega),
          show rest.length + 1 - 128 = rest.length - 127 by omega]
      · exact ((List.drop_sublist _ _).append_right _).cons_cons _
      · simp only [List.length_cons, List.length_append, List.length_drop, List.length_nil]
        omega
    case isFalse hshort => exact ⟨rest, rfl, List.Sublist.refl _, not_lt.1 hshort⟩
  obtain ⟨last, heq, hsublist, hlength⟩ := hends
  rw [heq]
  refine ⟨⟨anchor, rfl, hstart⟩, hsorted.sublist hsublist, fun c hc ↦ hhashes c (hsublist.subset hc),
    ?_, hlength⟩
  rw [← List.cons_append, List.getLast?_concat]
  rfl

/-- The checkpoints up to one of them. -/
theorem Chained.upTo (h : Chained startBlock cursor checkpoints) {ancestor : SourceCheckpoint}
    (hancestor : ancestor ∈ checkpoints) :
    Chained startBlock ancestor.height
      (checkpoints.filter fun c ↦ c.height ≤ ancestor.height) := by
  obtain ⟨anchor, hanchor, hstart⟩ := h.anchor
  obtain ⟨before, after, rfl⟩ := List.append_of_mem hancestor
  have hsplit := List.pairwise_append.1 h.sorted
  have hafter := List.pairwise_cons.1 hsplit.2.1
  have hbefore : before.filter (fun c ↦ decide (c.height ≤ ancestor.height)) = before :=
    List.filter_eq_self.2 fun c hc ↦
      decide_eq_true (hsplit.2.2 c hc ancestor List.mem_cons_self).le
  have hlater : after.filter (fun c ↦ decide (c.height ≤ ancestor.height)) = [] :=
    List.filter_eq_nil_iff.2 fun c hc ↦ by simpa using hafter.1 c hc
  have heq : (before ++ ancestor :: after).filter (fun c ↦ decide (c.height ≤ ancestor.height)) =
      before ++ [ancestor] := by
    rw [List.filter_append, hbefore, List.filter_cons_of_pos (by simp), hlater]
  have hsublist : (before ++ [ancestor]).Sublist (before ++ ancestor :: after) :=
    (List.Sublist.cons_cons _ (List.nil_sublist after)).append_left before
  rw [heq]
  refine ⟨⟨anchor, ?_, hstart⟩, h.sorted.sublist hsublist, fun c hc ↦ h.hash c (hsublist.subset hc),
    ?_, hsublist.length_le.trans h.length⟩
  · rw [← hanchor]
    cases before <;> rfl
  · rw [List.getLast?_concat]
    rfl

end Checkpoints

theorem Lawful.ranged (h : Lawful K now d) (hs : d.scope = some s) (hne : d.checkpoints ≠ [])
    {end_ : SourceCheckpoint} {found : List StoredJob} {jobs : Table StoredJob.key}
    (hend : d.cursor + 1 ≤ end_.height) (hsafe : IsSafe end_.height)
    (hhash : isHash end_.hash = true) (hfound : ∀ job ∈ found, Found job)
    (hjobs : found.foldlM (addFound (d.cursor + 1) end_.height now) d.jobs = .ok jobs) :
    Lawful K now { d with
      jobs := jobs
      sourceCheckpoints := some (keptCheckpoints (d.checkpoints ++ [end_]))
      cursor := end_.height } where
  cursor := hsafe
  baseline := h.baseline
  unbound hnone := by
    rw [show d.scope = none from hnone] at hs
    cases hs
  scope := h.scope
  source s' hs' _ := (h.source s' hs' hne).kept hend hhash
  jobs s' hs' := by
    have hchain := h.source s' hs' hne
    obtain ⟨anchor, hanchor, hstart⟩ := hchain.anchor
    have hle := hchain.le_cursor (List.mem_of_mem_head? hanchor)
    exact addFound_lawful hjobs (h.jobs s' hs') hfound (by omega) (Nat.le_of_succ_le hend)
  relay := h.relay

/-! ### A rewind -/

theorem Lawful.rewound (h : Lawful K now d) {ancestor : SourceCheckpoint}
    (hancestor : ancestor ∈ d.checkpoints) : Lawful K now (d.rewound ancestor now) where
  cursor := by
    rcases hscope : d.scope with - | s
    · rw [h.unbound hscope] at hancestor
      cases hancestor
    · exact h.cursor.of_le ((h.source s hscope (List.ne_nil_of_mem hancestor)).le_cursor hancestor)
  baseline := h.baseline
  unbound hnone := by
    rw [h.unbound hnone] at hancestor
    cases hancestor
  scope := h.scope
  source s hs _ := (h.source s hs (List.ne_nil_of_mem hancestor)).upTo hancestor
  jobs s hs job hjob := by
    obtain ⟨hold, hnumber⟩ := Table.mem_filter.1 hjob
    have hlawful := h.jobs s hs job hold
    exact { hlawful with number := ⟨hlawful.number.1, of_decide_eq_true hnumber⟩ }
  relay := h.relay

/-- The job of an envelope is relayed, so that it is not dropped. -/
theorem Data.Loads.rewound (h : d.Loads) {ancestor : SourceCheckpoint}
    (hkept : (d.jobs.rows.filter fun job ↦ decide (ancestor.height < job.blockNumber)).any
      StoredJob.relayed = false) : (d.rewound ancestor now).Loads := by
  refine loads_iff.2 fun relay hrelay ↦ ?_
  obtain ⟨job, hget, hsubmitted⟩ := loads_iff.1 h relay hrelay
  refine ⟨job, Table.get_filter.trans ?_, hsubmitted⟩
  rw [hget, Option.filter_some, if_pos]
  by_contra hlate
  have hmem : job ∈ d.jobs.rows.filter fun job ↦ decide (ancestor.height < job.blockNumber) :=
    List.mem_filter.2 ⟨(Table.get_eq_some.1 hget).1, by simpa using hlate⟩
  have hrelayed := List.any_eq_false.1 hkept job hmem
  simp [StoredJob.relayed, hsubmitted.1] at hrelayed

end Proofmark.Worker
