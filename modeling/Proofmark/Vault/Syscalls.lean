import Proofmark.Vault.Signed

/-!
# A call of `mutate`, one system call at a time

`mutate`, `acquireLock` and `flush` of `vault.ts` and `writeVaultEnvelope` of `vault-atomic.ts`, for
any number of instances in any number of processes over one file. An instance waits for the lock
file, creates it, writes its own name into it, reads the vault, edits its copy in place, seals it,
renames it over the vault's file, synchronises the directory, and closes and removes the lock. Each
of these may fail, the body of the operation may throw anywhere and leave the copy half edited, and
a process may die between any two of them.

The lock file names the process that made it, and an operator removes it only where that process is
not in the middle of a call. The log is a ghost: nothing reads it. It records when a call starts
and returns, with the file at that moment and what the instance reads of it (`get` and every other
reader of an instance first reads the file again), and each rename of a new file.
-/

open Evm

namespace Proofmark.Vault.Syscall

open Pipeline (Text)

/-! ### Instances and their calls -/

/-- Why a call throws. -/
inductive Failure
  /-- `VaultWriteError`, from a write, or from the lock of a write, whose outcome is unknown. -/
  | unconfirmed
  /-- `VaultWriteError`, since an earlier write of the instance is unconfirmed. -/
  | refused
  /-- `VaultBusyError` -/
  | busy
  | other (message : String)
  deriving DecidableEq

/-- What a call does next. -/
inductive Phase
  /-- The checks before the lock, and `mkdirSync`. -/
  | enter
  /-- `openSync(lockPath, 'wx')` -/
  | acquire
  /-- `writeFileSync(lock, …)` -/
  | note
  | load
  | operate
  /-- Serialise and encrypt. -/
  | encrypt
  /-- The temporary file, up to `renameSync`. -/
  | rename
  /-- `fsyncSync` of the directory. -/
  | sync
  /-- The `catch` block. -/
  | recover (error : Failure)
  /-- `closeSync(lock)`, and what is returned or thrown. -/
  | close (result : Except Failure Unit)
  /-- `unlinkSync(lockPath)` -/
  | unlink (result : Except Failure Unit)

/-- The lock file is there, and it is the call's own. -/
def Phase.holds : Phase → Bool
  | enter | acquire => false
  | _ => true

/-- A call of `mutate` that has not returned. -/
structure Attempt where
  ticket : ℕ
  operation : Operation
  phase : Phase

/-- An `EvidenceVault`. -/
structure Instance where
  key : Text
  data : Data
  writeUnconfirmed : Bool
  attempt : Option Attempt

/-- `load`, of a file. -/
def load (file : Option Envelope) (key : Text) : Except String Data :=
  match file with
  | none => .ok .empty
  | some envelope =>
    if envelope.key = key then .ok envelope.data
    else .error "evidence vault authentication failed (wrong key or corrupt file)"

/-- What the log records. -/
inductive Deed (ι : Type)
  | started (ticket : ℕ) (i : ι) (file : Option Envelope) (reads : Except String Data)
  | committed (ticket : ℕ) (call : Call)
  | returned (ticket : ℕ) (i : ι) (result : Except Failure Unit) (file : Option Envelope)
      (reads : Except String Data)
  | lockRemoved

/-- The vault's directory and the instances that use it. -/
structure World (ι : Type) where
  file : Option Envelope
  /-- The instance that made the lock file. -/
  lock : Option ι
  instances : ι → Option Instance
  next : ℕ
  log : List (Deed ι)

/-- How a system call goes, and what a body that throws leaves in memory. -/
structure Fate where
  fails : Option String
  leaves : Data

inductive Event (ι : Type)
  /-- `new EvidenceVault(path, secret)` -/
  | construct (i : ι) (secret : Text)
  | start (i : ι) (operation : Operation)
  | advance (i : ι) (fate : Fate)
  /-- The process of an instance dies. -/
  | crash (i : ι)
  /-- An operator removes a lock whose owner is dead. -/
  | removeLock

namespace World

variable {ι : Type} [DecidableEq ι] (P : Platform) (w : World ι)

/-- Nothing but an empty directory. -/
def fresh : World ι :=
  ⟨none, none, fun _ ↦ none, 0, []⟩

/-- The plaintext of the file, for a reader with its key. -/
def data : Data :=
  (w.file.map Envelope.data).getD .empty

def setInstance (i : ι) (x : Option Instance) : World ι :=
  { w with instances := Function.update w.instances i x }

/-- The call of an instance goes on with a phase. -/
def move (i : ι) (me : Instance) (a : Attempt) (phase : Phase) : World ι :=
  w.setInstance i (some { me with attempt := some { a with phase := phase } })

/-- The call of an instance returns or throws. -/
def finish (i : ι) (me : Instance) (a : Attempt) (result : Except Failure Unit) : World ι :=
  { w.setInstance i (some { me with attempt := none }) with
    log := w.log ++ [.returned a.ticket i result w.file (load w.file me.key)] }

/-- An instance is in the middle of a call that made the lock file. -/
def holding (i : ι) : Bool :=
  (w.instances i).any fun me ↦ me.attempt.any fun a ↦ a.phase.holds

def unconfirmed (me : Instance) : Instance :=
  { me with writeUnconfirmed := true }

/-- The instance in the `catch` block: it notes an unconfirmed write, and reads the file again. -/
def recovered (me : Instance) (error : Failure) (fate : Fate) : Instance :=
  let me := if error = .unconfirmed then unconfirmed me else me
  match fate.fails, load w.file me.key with
  | none, .ok d => { me with data := d }
  | _, _ => me

/-- `this.key = nextKey`, where a rotation succeeds. -/
def rekeyed (me : Instance) (operation : Operation) : Except Failure Unit → Instance
  | .ok () => { me with key := Vault.World.writeKey P me.key operation }
  | .error _ => me

/-- One system call, or one stretch of code between two. -/
def advance (i : ι) (me : Instance) (a : Attempt) (fate : Fate) : World ι :=
  match a.phase with
  | .enter =>
    match fate.fails with
    | some message => w.finish i me a (.error (.other message))
    | none =>
      if !Vault.World.rotationAllowed P me.key a.operation then
        w.finish i me a (.error (.other "vault rotation requires a different key"))
      else if me.writeUnconfirmed then w.finish i me a (.error .refused)
      else w.move i me a .acquire
  | .acquire =>
    match w.lock, fate.fails with
    | none, none => { w.move i me a .note with lock := some i }
    | none, some message => w.finish i me a (.error (.other message))
    -- the deadline has passed, or another attempt is made
    | some _, some _ => w.finish i me a (.error .busy)
    | some _, none => w
  | .note =>
    match fate.fails with
    | some _ => w.move i me a (.recover .unconfirmed)
    | none => w.move i me a .load
  | .load =>
    match fate.fails with
    | some message => w.move i me a (.recover (.other message))
    | none =>
      match load w.file me.key with
      | .ok d => w.move i { me with data := d } a .operate
      | .error message => w.move i me a (.recover (.other message))
  | .operate =>
    match fate.fails with
    | some message => w.move i { me with data := fate.leaves } a (.recover (.other message))
    | none =>
      match me.data.apply P ⟨me.key, a.operation⟩ with
      | .ok d => w.move i { me with data := d } a .encrypt
      | .error message => w.move i { me with data := fate.leaves } a (.recover (.other message))
  | .encrypt =>
    match fate.fails with
    | some message => w.move i me a (.recover (.other message))
    | none => w.move i me a .rename
  | .rename =>
    match fate.fails with
    | some _ => w.move i me a (.recover .unconfirmed)
    | none =>
      { w.move i me a .sync with
        file := some ⟨Vault.World.writeKey P me.key a.operation, me.data⟩
        log := w.log ++ [.committed a.ticket ⟨me.key, a.operation⟩] }
  | .sync =>
    match fate.fails with
    | some _ => w.move i me a (.recover .unconfirmed)
    | none => w.move i me a (.close (.ok ()))
  | .recover error => w.move i (w.recovered me error fate) a (.close (.error error))
  | .close result =>
    match fate.fails with
    | some _ => w.finish i (unconfirmed me) a (.error .unconfirmed)
    | none =>
      match result with
      -- the lock is retained
      | .error .unconfirmed => w.finish i me a result
      | _ => w.move i me a (.unlink result)
  | .unlink result =>
    match fate.fails with
    | some _ => w.finish i (unconfirmed me) a (.error .unconfirmed)
    | none => { w.finish i (rekeyed P me a.operation result) a result with lock := none }

/-- A call starts. -/
def start (i : ι) (me : Instance) (operation : Operation) : World ι :=
  { w.setInstance i (some { me with attempt := some ⟨w.next, operation, .enter⟩ }) with
    next := w.next + 1
    log := w.log ++ [.started w.next i w.file (load w.file me.key)] }

def step : Event ι → World ι
  | .construct i secret =>
    match w.instances i, load w.file (P.deriveVaultKey secret) with
    | none, .ok d =>
      if secret.length < 32 then w
      else w.setInstance i (some ⟨P.deriveVaultKey secret, d, false, none⟩)
    | _, _ => w
  | .start i operation =>
    match w.instances i with
    | none => w
    | some me => if me.attempt.isSome then w else w.start i me operation
  | .advance i fate =>
    match w.instances i with
    | none => w
    | some me =>
      match me.attempt with
      | none => w
      | some a => w.advance P i me a fate
  | .crash i => w.setInstance i none
  | .removeLock =>
    match w.lock with
    | none => w
    | some owner =>
      if w.holding owner then w else { w with lock := none, log := w.log ++ [.lockRemoved] }

/-- The world after some events. -/
def after : World ι → List (Event ι) → World ι :=
  List.foldl fun w e ↦ w.step P e

end World

end Proofmark.Vault.Syscall
