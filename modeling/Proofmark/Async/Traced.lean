import Proofmark.Async.Program

/-!
# Programs with a history of their requests

`Program.traced` keeps, next to the state, the list of all requests and answers of a program, each
request with the state it was made in. The history is a ghost: nothing reads it, and the program
does to the state what it did before (`settle_traced`). Under rules for states with a history,
`wp_traced_request` says what an await adds to it; the other constructors add nothing.
-/

namespace Async

/-- A request, with the state it was made in, or an answer. -/
inductive Exchange (σ : Type) {ρ : Type} (α : ρ → Type)
  | asked (q : ρ) (s : σ)
  | answered (q : ρ) (a : α q)

/-- A state and the history of the requests. -/
abbrev Traced (σ : Type) {ρ : Type} (α : ρ → Type) :=
  σ × List (Exchange σ α)

namespace Traced

variable {σ ρ : Type} {α : ρ → Type}

/-- One more entry of the history. -/
def push (e : Exchange σ α) (s : Traced σ α) : Traced σ α :=
  (s.1, s.2 ++ [e])

/-- A request in the present state. -/
def ask (q : ρ) (s : Traced σ α) : Traced σ α :=
  s.push (.asked q s.1)

end Traced

namespace Program

variable {σ ε ρ ι : Type} {α : ρ → Type} {β γ : Type}

/-- The same program, which keeps the history of its requests. -/
def traced : Program σ ε α β → Program (Traced σ α) ε α β
  | done result => done result
  | look next => look fun s ↦ (next s.1).traced
  | set f next => set (fun s ↦ (f s.1, s.2)) next.traced
  | await q next => set (Traced.ask q) (await q fun a ↦
      set (Traced.push (.answered q a)) (next a).traced)

@[simp]
theorem traced_pure (b : β) :
    (pure b : Program σ ε α β).traced = (pure b : Program (Traced σ α) ε α β) :=
  rfl

@[simp]
theorem traced_throw (e : ε) :
    (throw e : Program σ ε α β).traced = (throw e : Program (Traced σ α) ε α β) :=
  rfl

theorem traced_andThen (t : Program σ ε α β) (k : Except ε β → Program σ ε α γ) :
    (t.andThen k).traced = t.traced.andThen fun result ↦ (k result).traced := by
  induction t with
  | done result => rfl
  | look next ih => exact congrArg look (funext fun s ↦ ih s.1)
  | set f next ih => exact congrArg (set _) ih
  | await q next ih =>
    exact congrArg (fun k ↦ set (Traced.ask q) (await q k))
      (funext fun a ↦ congrArg (set _) (ih a))

theorem traced_bind (t : Program σ ε α β) (k : β → Program σ ε α γ) :
    (t >>= k).traced = t.traced >>= fun b ↦ (k b).traced := by
  refine (traced_andThen t _).trans (congrArg t.traced.andThen (funext fun result ↦ ?_))
  cases result <;> rfl

theorem traced_tryCatch (t : Program σ ε α β) (handler : ε → Program σ ε α β) :
    (Program.tryCatch t handler).traced =
      Program.tryCatch t.traced fun e ↦ (handler e).traced := by
  refine (traced_andThen t _).trans (congrArg t.traced.andThen (funext fun result ↦ ?_))
  cases result <;> rfl

/-! ### What a traced program may do -/

section Wp

variable {R : Rules (Traced σ α) α ι} {me : ι} {s : Traced σ α}

theorem wp_traced_get_bind {k : σ → Program σ ε α γ} {post : Except ε γ → Traced σ α → Prop} :
    wp R me post (get >>= k).traced s ↔ wp R me post (k s.1).traced s :=
  Iff.rfl

theorem wp_traced_call {op : σ → Except ε β × σ} {post : Except ε β → Traced σ α → Prop} :
    wp R me post (call op : Program σ ε α β).traced s ↔
      R.step me s ((op s.1).2, s.2) ∧
        (R.inv ((op s.1).2, s.2) → post (op s.1).1 ((op s.1).2, s.2)) :=
  Iff.rfl

/-- An await adds the request, and later its answer, to the history. -/
theorem wp_traced_request {q : ρ} {post : Except ε (α q) → Traced σ α → Prop} :
    wp R me post (request q : Program σ ε α (α q)).traced s ↔
      R.step me s (s.ask q) ∧ (R.inv (s.ask q) → ∀ s₁ a s₂, R.inv s₁ → R.inv s₂ →
        R.rely me (s.ask q) s₁ → R.answers q a s₁ → R.rely me s₁ s₂ →
          R.step me s₂ (s₂.push (.answered q a)) ∧
            (R.inv (s₂.push (.answered q a)) → post (.ok a) (s₂.push (.answered q a)))) :=
  Iff.rfl

end Wp

/-! ### The history is a ghost -/

/-- What is left to do, with the history kept. -/
def tracedThread : Thread σ ε α → Thread (Traced σ α) ε α
  | .waiting q next => .waiting q fun a ↦ set (Traced.push (.answered q a)) (next a).traced
  | .ready t => .ready t.traced

/-- A traced program leaves the same state and waits for the same answer. -/
theorem settle_traced (t : Program σ ε α Unit) (s : Traced σ α) :
    (t.traced.settle s).1.1 = (t.settle s.1).1 ∧
      (t.traced.settle s).2 = (t.settle s.1).2.map tracedThread := by
  induction t generalizing s with
  | done result => exact ⟨rfl, rfl⟩
  | look next ih => exact ih s.1 s
  | set f next ih => exact ih (f s.1, s.2)
  | await q next ih => exact ⟨rfl, rfl⟩

end Program

end Async
