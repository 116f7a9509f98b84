import Proofmark.Vault.Operations

/-!
# The vault's file and its instances

`mutate` of `vault.ts`: any number of instances over one file, each under the lock file beside it.
The file is replaced whole or not at all; a write whose outcome is unknown keeps the lock, and the
instance that made it does not write again. A lock is only ever removed by an operator.

Reads (`get`, `listForRescreen`, `reviewSnapshot`, backups and reports) write nothing and are left
out: a call may carry any revision, snapshot or expectation, read at any time or never. What
reaches the file is `written`, and `after_eq` says that the file is what these calls make of an
empty vault.
-/

open Evm

namespace Proofmark.Vault

open Pipeline (Text)

/-- An encrypted envelope: it opens with the key it was sealed with. -/
structure Envelope where
  key : Text
  data : Data

/-- An `EvidenceVault`. Its copy of the plaintext is read anew before every operation. -/
structure Instance where
  key : Text
  writeUnconfirmed : Bool

/-- The vault's directory and the instances that use it. -/
structure World (ι : Type) where
  file : Option Envelope
  locked : Bool
  instances : ι → Option Instance

/-- Where a write goes wrong, or the process that makes it dies. -/
inductive Fault
  | none | lock | beforeRename | afterRename | unlock
  deriving DecidableEq

inductive Event (ι : Type)
  /-- `new EvidenceVault(path, secret)` -/
  | construct (i : ι) (secret : Text)
  | call (i : ι) (operation : Operation) (fault : Fault)
  /-- An operator removes the lock of a writer that is dead. -/
  | removeLock

namespace World

variable {ι : Type} [DecidableEq ι] (P : Platform) (w : World ι)

/-- Nothing but an empty directory. -/
def fresh : World ι :=
  ⟨none, false, fun _ ↦ none⟩

/-- The plaintext of the file, for a reader with its key. -/
def data : Data :=
  (w.file.map Envelope.data).getD .empty

/-- `load`: a missing file is an empty vault, and a wrong key does not open it. -/
def load (key : Text) : Except String Data :=
  match w.file with
  | none => .ok .empty
  | some envelope =>
    if envelope.key = key then .ok envelope.data
    else .error "evidence vault authentication failed (wrong key or corrupt file)"

def setInstance (i : ι) (instance_ : Instance) : World ι :=
  { w with instances := Function.update w.instances i (some instance_) }

/-- An instance whose write is unconfirmed, and the lock that it leaves. -/
def unconfirmed (i : ι) (me : Instance) : World ι :=
  { w.setInstance i { me with writeUnconfirmed := true } with locked := true }

/-- What `deriveVaultKey` and `rotateKey` check before the lock is taken. -/
def rotationAllowed (key : Text) : Operation → Bool
  | .rotateKey newSecret operator at_ =>
    (timestamp at_).isOk && isReference operator && 32 ≤ newSecret.length &&
      P.keyIdentifier key ≠ P.keyIdentifier (P.deriveVaultKey newSecret)
  | _ => true

/-- The key that an operation writes with. -/
def writeKey (key : Text) : Operation → Text
  | .rotateKey newSecret _ _ => P.deriveVaultKey newSecret
  | _ => key

def unconfirmedError : String :=
  "VAULT_WRITE_UNCONFIRMED"

/-- `mutate`, through an instance: what it returns, and what it leaves. -/
def mutate (i : ι) (me : Instance) (operation : Operation) (fault : Fault) :
    Except String Unit × World ι :=
  if !rotationAllowed P me.key operation then
    (.error "vault rotation requires a different key", w)
  else if me.writeUnconfirmed then (.error unconfirmedError, w)
  else if w.locked then (.error "VAULT_WRITER_BUSY", w)
  else if fault = .lock then (.error unconfirmedError, w.unconfirmed i me)
  else
    match w.load me.key >>= fun d ↦ d.apply P ⟨me.key, operation⟩ with
    | .error error =>
      if fault = .unlock then (.error unconfirmedError, w.unconfirmed i me) else (.error error, w)
    | .ok d =>
      let next := writeKey P me.key operation
      match fault with
      | .beforeRename => (.error unconfirmedError, w.unconfirmed i me)
      | .afterRename | .unlock =>
        (.error unconfirmedError, { w with file := some ⟨next, d⟩ }.unconfirmed i me)
      | _ => (.ok (), { w with file := some ⟨next, d⟩ }.setInstance i { me with key := next })

/-- A call of an operation. -/
def call (i : ι) (operation : Operation) (fault : Fault) : Except String Unit × World ι :=
  match w.instances i with
  | none => (.error "no such instance", w)
  | some me => w.mutate P i me operation fault

def step : Event ι → World ι
  | .construct i secret =>
    let key := P.deriveVaultKey secret
    if secret.length < 32 || !(w.load key).isOk then w
    else w.setInstance i ⟨key, false⟩
  | .call i operation fault => (w.call P i operation fault).2
  | .removeLock => { w with locked := false }

/-- The call of an event whose result reaches the file. -/
def commit : Event ι → Option Call
  | .call i operation fault =>
    match w.instances i with
    | none => none
    | some me =>
      if !rotationAllowed P me.key operation || me.writeUnconfirmed || w.locked ||
          fault = .lock || fault = .beforeRename then none
      else
        match w.load me.key >>= fun d ↦ d.apply P ⟨me.key, operation⟩ with
        | .error _ => none
        | .ok _ => some ⟨me.key, operation⟩
  | _ => none

/-- The world after some events. -/
def after : World ι → List (Event ι) → World ι :=
  List.foldl fun w e ↦ w.step P e

/-- The calls that reached the file, in order, each with the plaintext it found. -/
def written (w : World ι) : List (Event ι) → List (Entry Data Call)
  | [] => []
  | e :: events =>
    ((w.commit P e).map fun call ↦ ⟨w.data, call⟩).toList ++ (w.step P e).written events

variable {P} {w}

theorem data_of_load {key : Text} {d : Data} (h : w.load key = .ok d) : d = w.data := by
  unfold load at h
  unfold data
  split at h
  case h_1 hfile =>
    rw [hfile]
    exact (Except.ok.inj h).symm
  case h_2 envelope hfile =>
    rw [hfile]
    split at h
    · exact (Except.ok.inj h).symm
    · cases h

@[simp]
theorem data_unconfirmed {i : ι} {me : Instance} : (w.unconfirmed i me).data = w.data :=
  rfl

@[simp]
theorem data_setInstance {i : ι} {me : Instance} : (w.setInstance i me).data = w.data :=
  rfl

@[simp]
theorem data_sealed {key : Text} {d : Data} {locked : Bool} {instances : ι → Option Instance} :
    data ⟨some ⟨key, d⟩, locked, instances⟩ = d :=
  rfl

/-- **One event.** Either nothing reaches the file, or one call does, on the plaintext that the file
held. -/
theorem step_data (e : Event ι) :
    (w.commit P e = none ∧ (w.step P e).data = w.data) ∨
      ∃ call, w.commit P e = some call ∧ w.data.apply P call = .ok (w.step P e).data := by
  cases e with
  | construct i secret =>
    refine .inl ⟨rfl, ?_⟩
    simp only [step]
    split <;> rfl
  | removeLock => exact .inl ⟨rfl, rfl⟩
  | call i operation fault =>
    rcases hi : w.instances i with - | me
    · exact .inl ⟨by simp [commit, hi], by simp [step, call, hi]⟩
    · simp only [commit, step, call, hi, mutate]
      by_cases hready :
          (!rotationAllowed P me.key operation || me.writeUnconfirmed || w.locked) = true
      · refine .inl ⟨by simp [hready], ?_⟩
        simp only [Bool.or_eq_true, or_assoc] at hready
        split_ifs <;> simp_all
      · rcases hload : w.load me.key >>= fun d ↦ d.apply P ⟨me.key, operation⟩ with error | d
        · refine .inl ⟨by split <;> rfl, ?_⟩
          split_ifs <;> rfl
        · obtain ⟨d₀, hd₀, happly⟩ := bind_eq_ok.1 hload
          obtain rfl := data_of_load hd₀
          simp only [Bool.or_eq_true, not_or] at hready
          cases fault <;> simp [hready, happly]

/-- **The file of a run** is what the calls that reached it make of an empty vault. -/
theorem after_eq (events : List (Event ι)) : ∃ calls,
    (w.after P events).data = run (Data.apply P) w.data calls ∧
      w.written P events = history (Data.apply P) w.data calls := by
  induction events generalizing w with
  | nil => exact ⟨[], rfl, rfl⟩
  | cons e events ih =>
    obtain ⟨calls, hafter, hwritten⟩ := ih (w := w.step P e)
    rcases step_data (P := P) (w := w) e with ⟨hcommit, hdata⟩ | ⟨call, hcommit, happly⟩
    · rw [hdata] at hafter hwritten
      refine ⟨calls, hafter, ?_⟩
      rw [written, hcommit, hwritten]
      rfl
    · refine ⟨call :: calls, ?_, ?_⟩
      · rw [run, List.foldl_cons, transact_of_ok happly]
        exact hafter
      · rw [written, hcommit, hwritten, history, happly]
        rfl

/-- A call that reached the file did so in an event, with which a shorter run ends. -/
theorem written_split {events : List (Event ι)} {before later : List (Entry Data Call)}
    {entry : Entry Data Call} (h : w.written P events = before ++ entry :: later) :
    ∃ first last, events = first ++ last ∧ w.written P first = before ++ [entry] ∧
      entry.state.apply P entry.input = .ok (w.after P first).data := by
  induction events generalizing w before with
  | nil => simp [written] at h
  | cons e events ih =>
    rcases step_data (P := P) (w := w) e with ⟨hcommit, -⟩ | ⟨call, hcommit, happly⟩
    · simp only [written, hcommit, Option.map_none, Option.toList_none, List.nil_append] at h
      obtain ⟨first, last, rfl, hfirst, happly⟩ := ih h
      exact ⟨e :: first, last, rfl, by simpa [written, hcommit] using hfirst, happly⟩
    · simp only [written, hcommit, Option.map_some, Option.toList_some, List.singleton_append] at h
      cases before with
      | nil =>
        obtain ⟨rfl, -⟩ := List.cons.inj h
        exact ⟨[e], events, rfl, by simp [written, hcommit], happly⟩
      | cons b before =>
        obtain ⟨rfl, htail⟩ := List.cons.inj h
        obtain ⟨first, last, rfl, hfirst, hlast⟩ := ih htail
        exact ⟨e :: first, last, rfl, by simp [written, hcommit, hfirst], hlast⟩

/-- What a part of a run wrote comes first in what the run wrote. -/
theorem written_append (as bs : List (Event ι)) :
    w.written P (as ++ bs) = w.written P as ++ (w.after P as).written P bs := by
  induction as generalizing w with
  | nil => rfl
  | cons e as ih =>
    simp only [List.cons_append, written, ih, List.append_assoc]
    rfl

end World

end Proofmark.Vault
