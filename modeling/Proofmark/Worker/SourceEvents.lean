import Mathlib.Data.List.Sort
import Proofmark.Evm.Execution

/-!
# The jobs of the worker

`groupSourceEvents` of `source-events.ts`: one job per source transaction, whose action is that of
the first watched event of the transaction. The logs are as an RPC endpoint returns them, and
decoding one against the ABI is a parameter (`parseLog`; `none` when it throws or finds no event,
which the code treats alike). The two maps of the code are one list of groups in insertion order.

A job's action always belongs to an event of its own transaction (`groupSourceEvents_action`), and
no transaction with a watched event goes without a job (`groupSourceEvents_complete`).
-/

open Evm

namespace Proofmark.Worker

/-- A log as the endpoint returns it. -/
structure SourceLog where
  address : String
  topics : List String
  data : String
  transactionHash : String
  blockNumber : ℕ
  index : ℕ

structure Job where
  txHash : String
  blockNumber : ℕ
  action : ℕ
  eventName : String
  logCount : ℕ
  deriving DecidableEq

def EVENT_TO_ACTION : List (String × ℕ) :=
  [("MarkIssued", 0), ("KeyedMarkIssued", 0), ("MarkRevoked", 1), ("SanctionDenied", 2),
    ("RosterEpochPublished", 3), ("IssuerKeyCompromised", 4), ("SanctionDenialCorrected", 5)]

/-- Decode a log against the ABI and return the name of the event. -/
abbrev ParseLog := List String → String → Option String

/-- The action of a log, if it is the source's and names a watched event. -/
def watched? (parseLog : ParseLog) (source : String) (l : SourceLog) : Option (String × ℕ) :=
  if l.address.toLower ≠ source.toLower then none
  else do
    let name ← parseLog l.topics l.data
    let action ← EVENT_TO_ACTION.lookup name
    return (name, action)

/-- A job with the names of its events, each once, in the order they were met. -/
structure Group where
  job : Job
  names : List String

/-- The group of a transaction, or a new one that takes the action of the log. -/
def groupFor (groups : List Group) (l : SourceLog) (action : ℕ) : Group :=
  match groups.find? fun g ↦ g.job.txHash == l.transactionHash with
  | some g => g
  | none => ⟨⟨l.transactionHash, l.blockNumber, action, "", 0⟩, []⟩

/-- Add a log to its group. -/
def Group.add (g : Group) (name : String) : Group :=
  let names := if name ∈ g.names then g.names else g.names ++ [name]
  ⟨{ g.job with eventName := "+".intercalate names, logCount := g.job.logCount + 1 }, names⟩

/-- Write a group back. -/
def setGroup (groups : List Group) (g : Group) : List Group :=
  if groups.any fun h ↦ h.job.txHash == g.job.txHash then
    groups.map fun h ↦ if h.job.txHash = g.job.txHash then g else h
  else groups ++ [g]

/-- One iteration of the loop over the sorted logs. -/
def addLog (parseLog : ParseLog) (source : String) (groups : List Group) (l : SourceLog) :
    Except String (List Group) :=
  match watched? parseLog source l with
  | none => .ok groups
  | some (name, action) => do
    let g := groupFor groups l action
    revertIf (g.job.blockNumber != l.blockNumber) "inconsistent source transaction block"
    return setGroup groups (g.add name)

/-- The order of the chain. -/
def Earlier (a b : SourceLog) : Prop :=
  a.blockNumber < b.blockNumber ∨ a.blockNumber = b.blockNumber ∧ a.index ≤ b.index

instance : DecidableRel Earlier := fun _ _ ↦ inferInstanceAs (Decidable (_ ∨ _))

/-- `groupSourceEvents`. The sort is stable. -/
def groupSourceEvents (parseLog : ParseLog) (source : String) (raw : List SourceLog) :
    Except String (List Job) := do
  let groups ← (raw.insertionSort Earlier).foldlM (addLog parseLog source) []
  return groups.map Group.job

/-! ### What the jobs say -/

section Jobs

variable {parseLog : ParseLog} {source : String} {groups groups' : List Group} {l : SourceLog}

/-- What one iteration does. -/
theorem addLog_spec (h : addLog parseLog source groups l = .ok groups') :
    (watched? parseLog source l = none ∧ groups' = groups) ∨
      ∃ name action, watched? parseLog source l = some (name, action) ∧
        groups' = setGroup groups ((groupFor groups l action).add name) := by
  rw [addLog] at h
  split at h
  case h_1 hnone => exact .inl ⟨hnone, (Except.ok.inj h).symm⟩
  case h_2 name action hsome =>
    obtain ⟨-, h⟩ := revertIf_bind_eq_ok.1 h
    exact .inr ⟨name, action, hsome, (Except.ok.inj h).symm⟩

theorem mem_setGroup {g h : Group} (hmem : h ∈ setGroup groups g) : h ∈ groups ∨ h = g := by
  rw [setGroup] at hmem
  split at hmem
  · obtain ⟨h', hh', rfl⟩ := List.mem_map.1 hmem
    split
    · exact .inr rfl
    · exact .inl hh'
  · rcases List.mem_append.1 hmem with hmem | hmem
    · exact .inl hmem
    · exact .inr (List.mem_singleton.1 hmem)

theorem txHash_groupFor (groups : List Group) (l : SourceLog) (action : ℕ) :
    (groupFor groups l action).job.txHash = l.transactionHash := by
  rw [groupFor]
  split
  case h_1 g hfind => simpa using List.find?_some hfind
  case h_2 => rfl

/-- The hashes after a group is written back. -/
theorem mem_map_setGroup {g : Group} {hash : String} :
    hash ∈ (setGroup groups g).map (·.job.txHash) ↔
      hash ∈ groups.map (·.job.txHash) ∨ hash = g.job.txHash := by
  rw [setGroup]
  split
  case isTrue hany =>
    obtain ⟨h, hh, hsame⟩ := List.any_eq_true.1 hany
    rw [beq_iff_eq] at hsame
    have hkeep : (groups.map fun h ↦ if h.job.txHash = g.job.txHash then g else h).map
        (·.job.txHash) = groups.map (·.job.txHash) := by
      rw [List.map_map]
      refine List.map_congr_left fun h' _ ↦ ?_
      rw [Function.comp_apply]
      split
      · exact (‹_ = _›).symm
      · rfl
    rw [hkeep]
    refine ⟨.inl, fun hmem ↦ hmem.elim id fun heq ↦ ?_⟩
    rw [heq, ← hsame]
    exact List.mem_map_of_mem hh
  case isFalse => simp

/-- **The action of a job is that of an event of its own transaction.** -/
theorem groupSourceEvents_action {raw : List SourceLog} {jobs : List Job}
    (h : groupSourceEvents parseLog source raw = .ok jobs) {job : Job} (hjob : job ∈ jobs) :
    ∃ l ∈ raw, l.transactionHash = job.txHash ∧
      ∃ name, watched? parseLog source l = some (name, job.action) := by
  obtain ⟨groups, hloop, h⟩ := bind_eq_ok.1 h
  obtain rfl := Except.ok.inj h
  obtain ⟨g, hg, rfl⟩ := List.mem_map.1 hjob
  refine foldlM_invariant (P := fun groups : List Group ↦ ∀ g ∈ groups, ∃ l ∈ raw,
    l.transactionHash = g.job.txHash ∧
      ∃ name, watched? parseLog source l = some (name, g.job.action))
    (fun groups l groups' hl hgroups hadd ↦ ?_) (by simp) hloop g hg
  have hraw : l ∈ raw := (List.mem_insertionSort _).1 hl
  rcases addLog_spec hadd with ⟨-, rfl⟩ | ⟨name, action, hwatched, rfl⟩
  · exact hgroups
  · intro g hg
    rcases mem_setGroup hg with hg | rfl
    · exact hgroups g hg
    · -- a group already there keeps its action, a new one takes the action of the log
      rw [groupFor]
      split
      case h_1 g hfind => exact hgroups g (List.mem_of_find?_eq_some hfind)
      case h_2 => exact ⟨l, hraw, rfl, name, hwatched⟩

/-- What is looked up is in the list. -/
theorem mem_of_lookup {α β : Type} [DecidableEq α] {entries : List (α × β)} {k : α} {b : β}
    (h : entries.lookup k = some b) : (k, b) ∈ entries := by
  obtain ⟨before, after, rfl, -⟩ := List.lookup_eq_some_iff.1 h
  simp

/-- The action of a job is one of the six. -/
theorem watched?_le {name : String} {action : ℕ}
    (h : watched? parseLog source l = some (name, action)) : action ≤ 5 := by
  unfold watched? at h
  split at h
  · cases h
  · simp only [Option.bind_eq_bind, Option.bind_eq_some_iff] at h
    obtain ⟨name, -, action, hlookup, h⟩ := h
    obtain ⟨rfl, rfl⟩ := Prod.mk.inj (Option.some.inj h)
    exact (by decide : ∀ entry ∈ EVENT_TO_ACTION, entry.2 ≤ 5) _ (mem_of_lookup hlookup)

/-- A job counts some of the logs. -/
theorem groupSourceEvents_logCount {raw : List SourceLog} {jobs : List Job}
    (h : groupSourceEvents parseLog source raw = .ok jobs) {job : Job} (hjob : job ∈ jobs) :
    0 < job.logCount ∧ job.logCount ≤ raw.length := by
  obtain ⟨groups, hloop, h⟩ := bind_eq_ok.1 h
  obtain rfl := Except.ok.inj h
  obtain ⟨g, hg, rfl⟩ := List.mem_map.1 hjob
  rw [← List.length_insertionSort Earlier raw]
  refine foldlM_induction (P := fun done (groups : List Group) ↦ ∀ g ∈ groups,
    0 < g.job.logCount ∧ g.job.logCount ≤ done.length)
    (fun done groups x groups' _ hdone hadd g hg ↦ ?_) (by simp) hloop g hg
  rw [List.length_append, List.length_singleton]
  rcases addLog_spec hadd with ⟨-, rfl⟩ | ⟨name, action, -, rfl⟩
  · exact ⟨(hdone g hg).1, Nat.le_succ_of_le (hdone g hg).2⟩
  · rcases mem_setGroup hg with hg | rfl
    · exact ⟨(hdone g hg).1, Nat.le_succ_of_le (hdone g hg).2⟩
    · refine ⟨Nat.succ_pos _, Nat.succ_le_succ ?_⟩
      rw [groupFor]
      split
      case h_1 g' hfind => exact (hdone g' (List.mem_of_find?_eq_some hfind)).2
      case h_2 => exact Nat.zero_le _

/-- **Every transaction with a watched event gets a job.** -/
theorem groupSourceEvents_complete {raw : List SourceLog} {jobs : List Job}
    (h : groupSourceEvents parseLog source raw = .ok jobs) (hl : l ∈ raw)
    (hwatched : watched? parseLog source l ≠ none) : ∃ job ∈ jobs, job.txHash = l.transactionHash := by
  obtain ⟨groups, hloop, h⟩ := bind_eq_ok.1 h
  obtain rfl := Except.ok.inj h
  have hall : ∀ l ∈ raw.insertionSort Earlier, watched? parseLog source l ≠ none →
      l.transactionHash ∈ groups.map (·.job.txHash) := by
    refine foldlM_induction (P := fun done (groups : List Group) ↦ ∀ l ∈ done,
      watched? parseLog source l ≠ none → l.transactionHash ∈ groups.map (·.job.txHash))
      (fun done groups x groups' _ hdone hadd l hl hwatched ↦ ?_) (by simp) hloop
    rcases addLog_spec hadd with ⟨hnone, rfl⟩ | ⟨name, action, -, rfl⟩
    · rcases List.mem_append.1 hl with hl | hl
      · exact hdone l hl hwatched
      · rw [List.mem_singleton.1 hl] at hwatched
        exact absurd hnone hwatched
    · have hhash : ((groupFor groups x action).add name).job.txHash = x.transactionHash :=
        txHash_groupFor groups x action
      rw [mem_map_setGroup, hhash]
      rcases List.mem_append.1 hl with hl | hl
      · exact .inl (hdone l hl hwatched)
      · exact .inr (by rw [List.mem_singleton.1 hl])
  have hhash := hall l ((List.mem_insertionSort _).2 hl) hwatched
  obtain ⟨g, hg, heq⟩ := List.mem_map.1 hhash
  exact ⟨g.job, List.mem_map_of_mem hg, heq⟩

/-- The loop goes through if the endpoint places every transaction in one block. -/
theorem groupSourceEvents_ok (parseLog : ParseLog) (source : String) {raw : List SourceLog}
    (hblock : ∀ l ∈ raw, ∀ l' ∈ raw, l.transactionHash = l'.transactionHash →
      l.blockNumber = l'.blockNumber) :
    ∃ jobs, groupSourceEvents parseLog source raw = .ok jobs := by
  have hloop : ∃ groups, (raw.insertionSort Earlier).foldlM (addLog parseLog source) [] =
      .ok groups ∧ ∀ g ∈ groups, ∃ l ∈ raw, l.transactionHash = g.job.txHash ∧
        l.blockNumber = g.job.blockNumber := by
    refine foldlM_progress (P := fun _ (groups : List Group) ↦ ∀ g ∈ groups, ∃ l ∈ raw,
      l.transactionHash = g.job.txHash ∧ l.blockNumber = g.job.blockNumber) (by simp)
      fun done l rest groups hsort hgroups ↦ ?_
    have hraw : l ∈ raw := (List.mem_insertionSort Earlier).1 (by simp [hsort])
    rw [addLog]
    rcases watched? parseLog source l with - | ⟨name, action⟩
    · exact ⟨groups, rfl, hgroups⟩
    · -- the group of the log, old or new, lies in the block of the log
      have hfor : (groupFor groups l action).job.blockNumber = l.blockNumber := by
        rw [groupFor]
        split
        case h_1 g hfind =>
          obtain ⟨l', hl', hhash, hnumber⟩ := hgroups g (List.mem_of_find?_eq_some hfind)
          have hsame : g.job.txHash = l.transactionHash := by simpa using List.find?_some hfind
          rw [← hnumber]
          exact hblock l' hl' l hraw (hhash.trans hsame)
        case h_2 => rfl
      refine ⟨setGroup groups ((groupFor groups l action).add name),
        revertIf_bind_eq_ok.2 ⟨by simp [hfor], rfl⟩, fun g hg ↦ ?_⟩
      rcases mem_setGroup hg with hg | rfl
      · exact hgroups g hg
      · exact ⟨l, hraw, (txHash_groupFor groups l action).symm, hfor.symm⟩
  obtain ⟨groups, hgroups, -⟩ := hloop
  exact ⟨_, bind_eq_ok.2 ⟨groups, hgroups, rfl⟩⟩

end Jobs

end Proofmark.Worker
