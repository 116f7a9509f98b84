import Mathlib.Data.List.Basic
import Mathlib.Data.List.Induction

/-!
# Runs of a store under a clock

A store answers calls and changes, depending on the time. A run is a list of calls, each with the
time that passed before it, so that the clock never goes back; its log holds for every call the
time, the answer and the state before and after. `run_rule` is the induction over runs: what holds
at the start, survives the passing of time and every call, holds after every run.
-/

namespace Clocked

variable {ι ρ σ : Type*}

/-- A call that was made. -/
structure Entry (ι ρ σ : Type*) where
  now : ℕ
  input : ι
  reply : ρ
  state : σ
  next : σ

/-- A run so far. -/
structure Run (ι ρ σ : Type*) where
  log : List (Entry ι ρ σ)
  now : ℕ
  state : σ

/-- One more call, after some time. -/
def Run.step (answer : ℕ → ι → σ → ρ × σ) (r : Run ι ρ σ) (input : ℕ × ι) : Run ι ρ σ :=
  let now := r.now + input.1
  let result := answer now input.2 r.state
  ⟨r.log ++ [⟨now, input.2, result.1, r.state, result.2⟩], now, result.2⟩

/-- The run of a list of calls. -/
def run (answer : ℕ → ι → σ → ρ × σ) (clock : ℕ) (s : σ) (inputs : List (ℕ × ι)) : Run ι ρ σ :=
  inputs.foldl (Run.step answer) ⟨[], clock, s⟩

theorem log_singleton (answer : ℕ → ι → σ → ρ × σ) (clock : ℕ) (s : σ) (elapsed : ℕ) (x : ι) :
    (run answer clock s [(elapsed, x)]).log = [⟨clock + elapsed, x,
      (answer (clock + elapsed) x s).1, s, (answer (clock + elapsed) x s).2⟩] :=
  rfl

/-- **Induction over runs.** -/
theorem run_rule (answer : ℕ → ι → σ → ρ × σ) {P : List (Entry ι ρ σ) → ℕ → σ → Prop} (clock : ℕ)
    {s₀ : σ} (hinit : P [] clock s₀)
    (htime : ∀ log now later s, P log now s → now ≤ later → P log later s)
    (hstep : ∀ log now s x, P log now s →
      P (log ++ [⟨now, x, (answer now x s).1, s, (answer now x s).2⟩]) now (answer now x s).2)
    (inputs : List (ℕ × ι)) : P (run answer clock s₀ inputs).log (run answer clock s₀ inputs).now
      (run answer clock s₀ inputs).state := by
  induction inputs using List.reverseRecOn with
  | nil => exact hinit
  | append_singleton inputs x ih =>
    rw [run, List.foldl_append]
    exact hstep _ _ _ _ (htime _ _ _ _ ih (Nat.le_add_right _ _))

end Clocked
