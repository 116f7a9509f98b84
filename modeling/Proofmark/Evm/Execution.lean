import Mathlib.Data.List.Basic
import Mathlib.Data.List.Forall2
import Mathlib.Data.List.Induction
import Mathlib.Logic.Function.Basic

/-!
# Reverting calls and runs of them

A contract call is a function into `Except`: `error` is a revert, and a reverted call leaves no
trace in the state. This module holds what every contract proof needs of that reading.

* Inversion of a successful computation: `bind_eq_ok` peels one statement off a `do` block and
  `revertIf_eq_ok` turns a guard into its negated condition, so a handler is never unfolded by
  case splitting on its error branches.
* Loops: `foldlM_invariant`, `foldlM_induction` and `foldlM_progress` are the induction on a loop
  that may revert, for an invariant, for one of the elements done so far, and for progress.
* Nested mappings: `set2` is the assignment `m[a][b] = v`.
* Runs: `run` executes a list of calls where a revert changes nothing, `accepted` is the sublist
  of the calls that did not revert, and `run_induction` is the only induction over runs: what the
  empty run has and every accepted call keeps, every run has.
-/

namespace Evm

variable {α β σ : Type} {ε ι : Type*}

/-! ### Guards and sequencing -/

/-- `if (c) revert e;` -/
def revertIf (c : Bool) (e : ε) : Except ε Unit :=
  if c then .error e else .ok ()

@[simp]
theorem revertIf_eq_ok {c : Bool} {e : ε} {u : Unit} : revertIf c e = .ok u ↔ c = false := by
  cases c <;> simp [revertIf]

theorem bind_eq_ok {x : Except ε α} {f : α → Except ε β} {b : β} :
    x >>= f = .ok b ↔ ∃ a, x = .ok a ∧ f a = .ok b := by
  cases x with
  | error e => simp [bind, Except.bind]
  | ok a => simp [bind, Except.bind]

/-- A guard in front of a continuation succeeds when the condition fails and the rest does. -/
@[simp]
theorem revertIf_bind_eq_ok {c : Bool} {e : ε} {f : Unit → Except ε β} {b : β} :
    (revertIf c e >>= f) = .ok b ↔ c = false ∧ f () = .ok b := by
  cases c <;> simp [revertIf, bind, Except.bind]

/-- `if (c) check;` -/
def checkIf (c : Bool) (check : Except ε Unit) : Except ε Unit :=
  if c then check else .ok ()

@[simp]
theorem checkIf_bind_eq_ok {c : Bool} {check : Except ε Unit} {f : Unit → Except ε β} {b : β} :
    (checkIf c check >>= f) = .ok b ↔ (c = true → check = .ok ()) ∧ f () = .ok b := by
  cases c <;> cases check <;> simp [checkIf, bind, Except.bind]

/-- Read an optional value, or revert. -/
def getOrRevert (x : Option α) (e : ε) : Except ε α :=
  match x with
  | some a => .ok a
  | none => .error e

@[simp]
theorem getOrRevert_eq_ok {x : Option α} {e : ε} {a : α} :
    getOrRevert x e = .ok a ↔ x = some a := by
  cases x <;> simp [getOrRevert]

/-- Renaming the error does not change the result. -/
@[simp]
theorem mapError_eq_ok {ε' : Type*} {x : Except ε α} {g : ε → ε'} {a : α} :
    x.mapError g = .ok a ↔ x = .ok a := by
  cases x <;> simp [Except.mapError]

theorem map_eq_ok {x : Except ε α} {g : α → β} {b : β} :
    x.map g = .ok b ↔ ∃ a, x = .ok a ∧ g a = b := by
  cases x <;> simp [Except.map]

theorem toOption_eq_some {x : Except ε α} {a : α} : x.toOption = some a ↔ x = .ok a := by
  cases x <;> simp [Except.toOption]

/-! ### Loops that may revert -/

section Loops

variable {f : σ → α → Except ε σ}

theorem foldlM_cons_eq_ok {a : α} {l : List α} {s s' : σ} :
    (a :: l).foldlM f s = .ok s' ↔ ∃ t, f s a = .ok t ∧ l.foldlM f t = .ok s' := by
  rw [List.foldlM_cons, bind_eq_ok]

theorem foldlM_nil_eq_ok {s s' : σ} : ([] : List α).foldlM f s = .ok s' ↔ s = s' := by
  simp [pure, Except.pure]

/-- A loop that collects the results of its iterations. -/
theorem mapM_eq_ok {g : α → Except ε β} {l : List α} {ys : List β} :
    l.mapM g = .ok ys ↔ List.Forall₂ (fun x y ↦ g x = .ok y) l ys := by
  induction l generalizing ys with
  | nil =>
    rw [List.mapM_nil, List.forall₂_nil_left_iff]
    exact ⟨fun h ↦ (Except.ok.inj h).symm, fun h ↦ by rw [h]; rfl⟩
  | cons x l ih =>
    rw [List.mapM_cons, bind_eq_ok, List.forall₂_cons_left_iff]
    constructor
    · rintro ⟨y, hy, h⟩
      obtain ⟨zs, hzs, h⟩ := bind_eq_ok.1 h
      exact ⟨y, zs, hy, ih.1 hzs, (Except.ok.inj h).symm⟩
    · rintro ⟨y, zs, hy, hzs, rfl⟩
      exact ⟨y, hy, bind_eq_ok.2 ⟨zs, ih.2 hzs, rfl⟩⟩

/-- What every iteration keeps, a completed loop keeps. -/
theorem foldlM_invariant {P : σ → Prop} {l : List α} {s s' : σ}
    (hstep : ∀ s a s', a ∈ l → P s → f s a = .ok s' → P s') (hs : P s)
    (h : l.foldlM f s = .ok s') : P s' := by
  induction l generalizing s with
  | nil =>
    obtain rfl := foldlM_nil_eq_ok.1 h
    exact hs
  | cons a l ih =>
    obtain ⟨t, ht, hl⟩ := foldlM_cons_eq_ok.1 h
    exact ih (fun s b s' hb ↦ hstep s b s' (List.mem_cons_of_mem _ hb))
      (hstep s a t List.mem_cons_self hs ht) hl

/-- What each iteration adds to a property of the state, a completed loop adds for every element. -/
theorem foldlM_iff {P : σ → β → Prop} {Q : α → β → Prop} {l : List α} {s s' : σ}
    (hstep : ∀ s a s', f s a = .ok s' → ∀ b, P s' b ↔ P s b ∨ Q a b) (h : l.foldlM f s = .ok s')
    (b : β) : P s' b ↔ P s b ∨ ∃ a ∈ l, Q a b := by
  induction l generalizing s with
  | nil =>
    obtain rfl := foldlM_nil_eq_ok.1 h
    simp
  | cons a l ih =>
    obtain ⟨t, ht, hl⟩ := foldlM_cons_eq_ok.1 h
    rw [ih hl, hstep s a t ht b, or_assoc, List.exists_mem_cons_iff]

/-- The form of `foldlM_invariant` in which the invariant speaks of the elements done so far. -/
theorem foldlM_induction {P : List α → σ → Prop} {l : List α} {s s' : σ}
    (hstep : ∀ done s a s', a ∈ l → P done s → f s a = .ok s' → P (done ++ [a]) s')
    (hs : P [] s) (h : l.foldlM f s = .ok s') : P l s' := by
  suffices hgen : ∀ rest done s, rest ⊆ l → P done s → rest.foldlM f s = .ok s' →
      P (done ++ rest) s' from hgen l [] s (List.Subset.refl l) hs h
  intro rest
  induction rest with
  | nil =>
    intro done s _ hs h
    obtain rfl := foldlM_nil_eq_ok.1 h
    rwa [List.append_nil]
  | cons a rest ih =>
    intro done s hsub hs h
    obtain ⟨t, ht, hrest⟩ := foldlM_cons_eq_ok.1 h
    obtain ⟨ha, hsub⟩ := List.cons_subset.1 hsub
    have hdone := ih (done ++ [a]) t hsub (hstep done s a t ha hs ht) hrest
    rwa [List.append_assoc] at hdone

/-- **Progress of a loop**: if every iteration goes through under an invariant of the elements done
so far, the loop goes through. -/
theorem foldlM_progress {P : List α → σ → Prop} {l : List α} {s : σ} (hs : P [] s)
    (hstep : ∀ done a rest s, l = done ++ a :: rest → P done s →
      ∃ s', f s a = .ok s' ∧ P (done ++ [a]) s') : ∃ s', l.foldlM f s = .ok s' ∧ P l s' := by
  suffices hgen : ∀ rest done s, l = done ++ rest → P done s →
      ∃ s', rest.foldlM f s = .ok s' ∧ P l s' from hgen l [] s rfl hs
  intro rest
  induction rest with
  | nil =>
    intro done s hl hs
    rw [List.append_nil] at hl
    exact ⟨s, foldlM_nil_eq_ok.2 rfl, hl ▸ hs⟩
  | cons a rest ih =>
    intro done s hl hs
    obtain ⟨t, ht, hPt⟩ := hstep done a rest s hl hs
    obtain ⟨s', hs', hP⟩ := ih (done ++ [a]) t (by simpa using hl) hPt
    exact ⟨s', foldlM_cons_eq_ok.2 ⟨t, ht, hs'⟩, hP⟩

end Loops

/-! ### Nested mappings -/

section Mappings

variable {κ₁ κ₂ ν : Type*} [DecidableEq κ₁] [DecidableEq κ₂]

/-- The assignment `m[a][b] = v`. -/
def set2 (m : κ₁ → κ₂ → ν) (a : κ₁) (b : κ₂) (v : ν) : κ₁ → κ₂ → ν :=
  Function.update m a (Function.update (m a) b v)

theorem set2_apply (m : κ₁ → κ₂ → ν) (a a' : κ₁) (b b' : κ₂) (v : ν) :
    set2 m a b v a' b' = if a' = a ∧ b' = b then v else m a' b' := by
  rw [set2, Function.update_apply]
  by_cases ha : a' = a
  · subst ha
    simp [Function.update_apply]
  · simp [ha]

@[simp]
theorem set2_self (m : κ₁ → κ₂ → ν) (a : κ₁) (b : κ₂) (v : ν) : set2 m a b v a b = v := by
  simp [set2_apply]

theorem set2_of_ne {m : κ₁ → κ₂ → ν} {a a' : κ₁} {b b' : κ₂} {v : ν} (h : ¬(a' = a ∧ b' = b)) :
    set2 m a b v a' b' = m a' b' := by
  rw [set2_apply, if_neg h]

end Mappings

/-! ### Runs -/

section Runs

variable (exec : σ → ι → Except ε σ)

/-- One transaction: a revert leaves the state as it was. -/
def transact (s : σ) (call : ι) : σ :=
  match exec s call with
  | .ok s' => s'
  | .error _ => s

/-- The state after a list of calls. -/
def run (s : σ) (calls : List ι) : σ :=
  calls.foldl (transact exec) s

/-- The calls of a run that did not revert, in the order they were made. -/
def accepted (s : σ) : List ι → List ι
  | [] => []
  | call :: calls =>
    match exec s call with
    | .ok s' => call :: accepted s' calls
    | .error _ => accepted s calls

variable {exec}

theorem transact_of_ok {s s' : σ} {call : ι} (h : exec s call = .ok s') :
    transact exec s call = s' := by
  rw [transact, h]

theorem transact_of_error {s : σ} {call : ι} {e : ε} (h : exec s call = .error e) :
    transact exec s call = s := by
  rw [transact, h]

theorem run_append (s : σ) (as bs : List ι) :
    run exec s (as ++ bs) = run exec (run exec s as) bs :=
  List.foldl_append

theorem run_concat (s : σ) (calls : List ι) (call : ι) :
    run exec s (calls ++ [call]) = transact exec (run exec s calls) call := by
  rw [run_append]
  rfl

theorem accepted_append (s : σ) (as bs : List ι) :
    accepted exec s (as ++ bs) = accepted exec s as ++ accepted exec (run exec s as) bs := by
  induction as generalizing s with
  | nil => rfl
  | cons a as ih =>
    rcases h : exec s a with e | s'
    · simp only [List.cons_append, accepted, h, ih, run, List.foldl_cons, transact_of_error h]
    · simp only [List.cons_append, accepted, h, ih, run, List.foldl_cons, transact_of_ok h]

/-- What did not revert was called. -/
theorem accepted_subset {s : σ} {calls : List ι} : accepted exec s calls ⊆ calls := by
  induction calls generalizing s with
  | nil => exact List.Subset.refl _
  | cons call calls ih =>
    rw [accepted]
    split
    · exact List.cons_subset_cons call ih
    · exact List.subset_cons_of_subset call ih

/-- **Induction over runs.** A relation between the accepted calls and the state that holds before
any call and survives every accepted call holds after every run. -/
theorem run_induction {P : List ι → σ → Prop} {s₀ : σ} (hinit : P [] s₀)
    (hstep : ∀ done s call s', P done s → exec s call = .ok s' → P (done ++ [call]) s')
    (calls : List ι) : P (accepted exec s₀ calls) (run exec s₀ calls) := by
  induction calls using List.reverseRecOn with
  | nil => exact hinit
  | append_singleton calls call ih =>
    rw [run_concat, accepted_append]
    rcases h : exec (run exec s₀ calls) call with e | s'
    · rw [transact_of_error h]
      simpa only [accepted, h, List.append_nil] using ih
    · rw [transact_of_ok h]
      simpa only [accepted, h] using hstep _ _ call s' ih h

/-- The state-only form of `run_induction`. -/
theorem run_invariant {P : σ → Prop} {s₀ : σ} (hinit : P s₀)
    (hstep : ∀ s call s', P s → exec s call = .ok s' → P s') (calls : List ι) :
    P (run exec s₀ calls) :=
  run_induction (P := fun _ s ↦ P s) hinit (fun _ ↦ hstep) calls

/-! ### Histories -/

/-- An input that went through, with the state it was given to. -/
structure Entry (σ : Type*) (ι : Type*) where
  state : σ
  input : ι

variable (exec) in
/-- The inputs of a run that went through, in order, each with the state it was given to. -/
def history (s : σ) : List ι → List (Entry σ ι)
  | [] => []
  | x :: inputs =>
    match exec s x with
    | .ok s' => ⟨s, x⟩ :: history s' inputs
    | .error _ => history s inputs

/-- The history lists the accepted inputs. -/
theorem map_input_history (s : σ) (inputs : List ι) :
    (history exec s inputs).map Entry.input = accepted exec s inputs := by
  induction inputs generalizing s with
  | nil => rfl
  | cons x inputs ih =>
    rw [history, accepted]
    split
    · rw [List.map_cons, ih]
    · exact ih s

theorem history_append (s : σ) (as bs : List ι) :
    history exec s (as ++ bs) = history exec s as ++ history exec (run exec s as) bs := by
  induction as generalizing s with
  | nil => rfl
  | cons a as ih =>
    rcases h : exec s a with e | s'
    · simp only [List.cons_append, history, h, ih, run, List.foldl_cons, transact_of_error h]
    · simp only [List.cons_append, history, h, ih, run, List.foldl_cons, transact_of_ok h]

/-- An entry of a history cuts the run: what was given before it led to its state, it went through,
and the rest started from there. -/
theorem history_split {s : σ} {inputs : List ι} {before later : List (Entry σ ι)} {e : Entry σ ι}
    (h : history exec s inputs = before ++ e :: later) : ∃ as bs s',
      inputs = as ++ e.input :: bs ∧ before = history exec s as ∧ e.state = run exec s as ∧
        exec e.state e.input = .ok s' ∧ later = history exec s' bs ∧
        run exec s inputs = run exec s' bs := by
  induction inputs generalizing s before with
  | nil => simp [history] at h
  | cons x inputs ih =>
    rcases hx : exec s x with error | s'
    · simp only [history, hx] at h
      obtain ⟨as, bs, s', rfl, rfl, hstate, hexec, hlater, hrun⟩ := ih h
      refine ⟨x :: as, bs, s', rfl, by simp [history, hx], ?_, hexec, hlater, ?_⟩
      · rw [hstate, run, run, List.foldl_cons, transact_of_error hx]
      · rw [← hrun, run, run, List.foldl_cons, transact_of_error hx]
    · simp only [history, hx] at h
      cases before with
      | nil =>
        obtain ⟨rfl, rfl⟩ := List.cons.inj h
        refine ⟨[], inputs, s', rfl, rfl, rfl, hx, rfl, ?_⟩
        rw [run, run, List.foldl_cons, transact_of_ok hx]
      | cons b before =>
        obtain ⟨rfl, htail⟩ := List.cons.inj h
        obtain ⟨as, bs, s'', rfl, rfl, hstate, hexec, hlater, hrun⟩ := ih htail
        refine ⟨x :: as, bs, s'', rfl, by simp [history, hx], ?_, hexec, hlater, ?_⟩
        · rw [hstate, run, run, List.foldl_cons, transact_of_ok hx]
        · rw [← hrun, run, run, List.foldl_cons, transact_of_ok hx]

/-- **Induction over a run with its history.** -/
theorem history_rule {P : List (Entry σ ι) → σ → Prop} {s₀ : σ} (hinit : P [] s₀)
    (hstep : ∀ log s x s', P log s → exec s x = .ok s' → P (log ++ [⟨s, x⟩]) s')
    (inputs : List ι) : P (history exec s₀ inputs) (run exec s₀ inputs) := by
  induction inputs using List.reverseRecOn with
  | nil => exact hinit
  | append_singleton inputs x ih =>
    rw [run_concat, history_append]
    rcases h : exec (run exec s₀ inputs) x with e | s'
    · rw [transact_of_error h]
      simpa only [history, h, List.append_nil] using ih
    · rw [transact_of_ok h]
      simpa only [history, h] using hstep _ _ x s' ih h

end Runs

end Evm
