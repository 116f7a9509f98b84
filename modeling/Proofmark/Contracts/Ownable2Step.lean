import Proofmark.Evm.Bytes
import Proofmark.Evm.Execution

/-!
# Two-step ownership

`Ownable2Step` of the contract library the contracts inherit from: a transfer only nominates, the
nominee accepts, and every change of owner clears the nomination.
-/

open Evm

namespace Proofmark

structure Ownable2Step where
  owner : Address
  pendingOwner : Address
  deriving DecidableEq

inductive OwnableError
  | OwnableUnauthorizedAccount (account : Address)
  | OwnableInvalidOwner (owner : Address)
  deriving DecidableEq

namespace Ownable2Step

/-- `constructor(address initialOwner) Ownable(initialOwner)`. -/
def construct (initialOwner : Address) : Except OwnableError Ownable2Step :=
  if initialOwner = 0 then .error (.OwnableInvalidOwner 0) else .ok ⟨initialOwner, 0⟩

/-- The modifier `onlyOwner`. -/
def onlyOwner (o : Ownable2Step) (sender : Address) : Except OwnableError Unit :=
  revertIf (sender != o.owner) (.OwnableUnauthorizedAccount sender)

/-- `_transferOwnership`: the new owner takes over and any nomination lapses. -/
def transfer (_ : Ownable2Step) (newOwner : Address) : Ownable2Step :=
  ⟨newOwner, 0⟩

def transferOwnership (o : Ownable2Step) (sender newOwner : Address) :
    Except OwnableError Ownable2Step := do
  o.onlyOwner sender
  return { o with pendingOwner := newOwner }

def acceptOwnership (o : Ownable2Step) (sender : Address) : Except OwnableError Ownable2Step := do
  revertIf (o.pendingOwner != sender) (.OwnableUnauthorizedAccount sender)
  return o.transfer sender

def renounceOwnership (o : Ownable2Step) (sender : Address) :
    Except OwnableError Ownable2Step := do
  o.onlyOwner sender
  return o.transfer 0

@[simp]
theorem onlyOwner_eq_ok {o : Ownable2Step} {sender : Address} {u : Unit} :
    o.onlyOwner sender = .ok u ↔ sender = o.owner := by
  simp [onlyOwner]

end Ownable2Step

end Proofmark
