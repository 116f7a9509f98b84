import Mathlib.Logic.Relation
import Mathlib.Logic.Function.Basic

/-!
# Asynchronous functions over shared state

A `Program` is an asynchronous function in the style of a single-threaded event loop. It looks at
the shared state, replaces it, awaits an answer from outside, and ends with a value or an error.
Between two awaits nothing else runs; at an await anything may.

`System.Step` runs any number of programs over one state, each as a thread. A pending request is
answered at some moment, and the thread resumes at that moment or a later one; in between, and
while the request is pending, other threads and the environment move. A crash ends every thread.

The program logic is rely–guarantee. `Rules` says what a program may do to the state (`step`), what
it may rely on others not to do (`rely`), what outside answers are possible in a state (`answers`)
and what holds at every moment (`inv`). `Program.wp` is the weakest precondition of a program under
such rules: one equation for each constructor, and one for `>>=`, `throw`, `try` and `finally`.
`System.Good.run` is its soundness for a whole run.
-/

namespace Async

/-- A program over a state `σ` that fails with `ε` and whose requests `ρ` have answers `α`. -/
inductive Program (σ ε : Type) {ρ : Type} (α : ρ → Type) (β : Type) : Type
  | done (result : Except ε β)
  | look (next : σ → Program σ ε α β)
  | set (f : σ → σ) (next : Program σ ε α β)
  | await (q : ρ) (next : α q → Program σ ε α β)

namespace Program

variable {σ ε ρ : Type} {α : ρ → Type} {β γ : Type}

/-- Continue with what a program ends with, value or error. -/
def andThen : Program σ ε α β → (Except ε β → Program σ ε α γ) → Program σ ε α γ
  | done result, k => k result
  | look next, k => look fun s ↦ (next s).andThen k
  | set f next, k => set f (next.andThen k)
  | await q next, k => await q fun a ↦ (next a).andThen k

/-- Sequencing: an error skips the continuation. -/
protected def bind (t : Program σ ε α β) (k : β → Program σ ε α γ) : Program σ ε α γ :=
  t.andThen fun
    | .ok b => k b
    | .error e => done (.error e)

/-- `try t catch e => handler e`. -/
protected def tryCatch (t : Program σ ε α β) (handler : ε → Program σ ε α β) : Program σ ε α β :=
  t.andThen fun
    | .ok b => done (.ok b)
    | .error e => handler e

/-- `try t finally cleanup`, for a cleanup that cannot fail. -/
def finallySet (t : Program σ ε α β) (cleanup : σ → σ) : Program σ ε α β :=
  t.andThen fun result ↦ set cleanup (done result)

instance : Monad (Program σ ε α) where
  pure b := done (.ok b)
  bind := Program.bind

instance : MonadExceptOf ε (Program σ ε α) where
  throw e := done (.error e)
  tryCatch := Program.tryCatch

/-- Read the state. -/
def get : Program σ ε α σ :=
  look fun s ↦ done (.ok s)

/-- A synchronous operation on the state, which may fail after changing it. -/
def call (op : σ → Except ε β × σ) : Program σ ε α β :=
  look fun s ↦ set (fun _ ↦ (op s).2) (done (op s).1)

/-- Await an answer. -/
def request (q : ρ) : Program σ ε α (α q) :=
  await q fun a ↦ done (.ok a)

end Program

/-! ### The rules of the program logic -/

/-- What is assumed of the others and granted to them, for threads named by `ι`. -/
structure Rules (σ : Type) {ρ : Type} (α : ρ → Type) (ι : Type) where
  /-- What holds at every moment. -/
  inv : σ → Prop
  /-- What the outside may answer. -/
  answers : (q : ρ) → α q → σ → Prop
  /-- What a thread may do. -/
  step : ι → σ → σ → Prop
  /-- What a thread may rely on while it waits. -/
  rely : ι → σ → σ → Prop

namespace Program

variable {σ ε ρ ι : Type} {α : ρ → Type} {β γ : Type} (R : Rules σ α ι) (me : ι)

/-- **The weakest precondition.** The program does nothing but the steps it may, whatever it is
answered and whatever the others do, and where it ends the postcondition holds. -/
def wp (post : Except ε β → σ → Prop) : Program σ ε α β → σ → Prop
  | done result, s => post result s
  | look next, s => wp post (next s) s
  | set f next, s => R.step me s (f s) ∧ (R.inv (f s) → wp post next (f s))
  | await q next, s => ∀ s₁ a s₂, R.inv s₁ → R.inv s₂ → R.rely me s s₁ → R.answers q a s₁ →
      R.rely me s₁ s₂ → wp post (next a) s₂

variable {R me} {post post' : Except ε β → σ → Prop} {s : σ}

@[simp]
theorem wp_done {result : Except ε β} : wp R me post (done result) s ↔ post result s :=
  Iff.rfl

@[simp]
theorem wp_pure {b : β} : wp R me post (pure b : Program σ ε α β) s ↔ post (.ok b) s :=
  Iff.rfl

@[simp]
theorem wp_throw {e : ε} : wp R me post (throw e : Program σ ε α β) s ↔ post (.error e) s :=
  Iff.rfl

/-- A weaker postcondition, which may use that it is reached with the invariant in force. -/
theorem wp_mono {t : Program σ ε α β} (hinv : R.inv s)
    (hpost : ∀ result s, R.inv s → post result s → post' result s) (h : wp R me post t s) :
    wp R me post' t s := by
  induction t generalizing s with
  | done result => exact hpost result s hinv h
  | look next ih => exact ih s hinv h
  | set f next ih => exact ⟨h.1, fun hf ↦ ih hf (h.2 hf)⟩
  | await q next ih =>
    intro s₁ a s₂ h₁ h₂ hrely hanswer hrely'
    exact ih a h₂ (h s₁ a s₂ h₁ h₂ hrely hanswer hrely')

theorem wp_andThen {t : Program σ ε α β} {k : Except ε β → Program σ ε α γ}
    {post : Except ε γ → σ → Prop} :
    wp R me post (t.andThen k) s ↔ wp R me (fun result s ↦ wp R me post (k result) s) t s := by
  induction t generalizing s with
  | done result => exact Iff.rfl
  | look next ih => exact ih s
  | set f next ih => exact and_congr_right fun _ ↦ imp_congr_right fun _ ↦ ih
  | await q next ih =>
    refine forall_congr' fun s₁ ↦ forall_congr' fun a ↦ forall_congr' fun s₂ ↦ ?_
    exact imp_congr_right fun _ ↦ imp_congr_right fun _ ↦ imp_congr_right fun _ ↦
      imp_congr_right fun _ ↦ imp_congr_right fun _ ↦ ih a

/-- What follows a value; an error goes through. -/
def afterOk (post : Except ε γ → σ → Prop) (k : β → σ → Prop) : Except ε β → σ → Prop
  | .ok b, s => k b s
  | .error e, s => post (.error e) s

theorem wp_bind {t : Program σ ε α β} {k : β → Program σ ε α γ} {post : Except ε γ → σ → Prop} :
    wp R me post (t >>= k) s ↔ wp R me (afterOk post fun b ↦ wp R me post (k b)) t s := by
  change wp R me post (t.andThen _) s ↔ _
  rw [wp_andThen]
  refine iff_of_eq (congrArg (fun p ↦ wp R me p t s) ?_)
  funext result s
  cases result <;> rfl

theorem wp_tryCatch {t : Program σ ε α β} {handler : ε → Program σ ε α β} :
    wp R me post (tryCatch t handler) s ↔
      wp R me (fun result s ↦ match result with
        | .ok b => post (.ok b) s
        | .error e => wp R me post (handler e) s) t s := by
  change wp R me post (t.andThen _) s ↔ _
  rw [wp_andThen]
  refine iff_of_eq (congrArg (fun p ↦ wp R me p t s) ?_)
  funext result s
  cases result <;> rfl

theorem wp_finallySet {t : Program σ ε α β} {cleanup : σ → σ} :
    wp R me post (t.finallySet cleanup) s ↔
      wp R me (fun result s ↦ R.step me s (cleanup s) ∧
        (R.inv (cleanup s) → post result (cleanup s))) t s :=
  wp_andThen

@[simp]
theorem wp_get {post : Except ε σ → σ → Prop} :
    wp R me post (get : Program σ ε α σ) s ↔ post (.ok s) s :=
  Iff.rfl

@[simp]
theorem wp_call {op : σ → Except ε β × σ} :
    wp R me post (call op : Program σ ε α β) s ↔
      R.step me s (op s).2 ∧ (R.inv (op s).2 → post (op s).1 (op s).2) :=
  Iff.rfl

@[simp]
theorem wp_request {q : ρ} {post : Except ε (α q) → σ → Prop} :
    wp R me post (request q : Program σ ε α (α q)) s ↔
      ∀ s₁ a s₂, R.inv s₁ → R.inv s₂ → R.rely me s s₁ → R.answers q a s₁ → R.rely me s₁ s₂ →
        post (.ok a) s₂ :=
  Iff.rfl

theorem wp_get_bind {k : σ → Program σ ε α γ} {post : Except ε γ → σ → Prop} :
    wp R me post (get >>= k) s ↔ wp R me post (k s) s :=
  Iff.rfl

theorem wp_throw_bind {e : ε} {k : β → Program σ ε α γ} {post : Except ε γ → σ → Prop} :
    wp R me post (throw e >>= k) s ↔ post (.error e) s :=
  Iff.rfl

/-- Sequencing with an assertion in between. -/
theorem wp_seq {t : Program σ ε α β} {k : β → Program σ ε α γ} {q : Except ε β → σ → Prop}
    {post : Except ε γ → σ → Prop} (hinv : R.inv s) (ht : wp R me q t s)
    (hok : ∀ b s, R.inv s → q (.ok b) s → wp R me post (k b) s)
    (herror : ∀ e s, R.inv s → q (.error e) s → post (.error e) s) :
    wp R me post (t >>= k) s := by
  refine wp_bind.2 (wp_mono hinv (fun result s hs hmid ↦ ?_) ht)
  cases result with
  | ok b => exact hok b s hs hmid
  | error e => exact herror e s hs hmid

/-! ### Programs that do no more than a relation allows -/

/-- Wherever a program ends, it leaves the state related to the one it started from. -/
def Leaves (R : Rules σ α ι) (me : ι) (rel : σ → σ → Prop) (t : Program σ ε α β) : Prop :=
  ∀ s, R.inv s → t.wp R me (fun _ s' ↦ rel s s') s

section Leaves

variable {rel : σ → σ → Prop} {t : Program σ ε α β} {k : β → Program σ ε α γ}

theorem leaves_pure [Std.Refl rel] (b : β) : Leaves R me rel (pure b : Program σ ε α β) :=
  fun s _ ↦ Std.Refl.refl s

theorem leaves_throw [Std.Refl rel] (e : ε) : Leaves R me rel (throw e : Program σ ε α β) :=
  fun s _ ↦ Std.Refl.refl s

theorem leaves_throw_bind [Std.Refl rel] (e : ε) (k : β → Program σ ε α γ) :
    Leaves R me rel (throw e >>= k : Program σ ε α γ) :=
  fun s _ ↦ Std.Refl.refl s

theorem leaves_get [Std.Refl rel] : Leaves R me rel (get : Program σ ε α σ) :=
  fun s _ ↦ Std.Refl.refl s

theorem Leaves.bind [IsTrans σ rel] (ht : Leaves R me rel t) (hk : ∀ b, Leaves R me rel (k b)) :
    Leaves R me rel (t >>= k) := by
  intro s hs
  refine wp_seq hs (ht s hs) (fun b s' hs' h ↦ ?_) fun e s' _ h ↦ h
  exact wp_mono hs' (fun _ s'' _ h' ↦ IsTrans.trans s s' s'' h h') (hk b s' hs')

theorem Leaves.tryCatch [IsTrans σ rel] {handler : ε → Program σ ε α β} (ht : Leaves R me rel t)
    (hhandler : ∀ e, Leaves R me rel (handler e)) :
    Leaves R me rel (Program.tryCatch t handler) := by
  refine fun s hs ↦ wp_tryCatch.2 (wp_mono hs (fun result s' hs' h ↦ ?_) (ht s hs))
  cases result with
  | ok b => exact h
  | error e =>
    exact wp_mono hs' (fun _ s'' _ h' ↦ IsTrans.trans s s' s'' h h') (hhandler e s' hs')

theorem leaves_forM [Std.Refl rel] [IsTrans σ rel] {τ : Type} {f : τ → Program σ ε α PUnit}
    (hf : ∀ x, Leaves R me rel (f x)) (l : List τ) : Leaves R me rel (l.forM f) := by
  induction l with
  | nil => exact leaves_pure _
  | cons x l ih => exact (hf x).bind fun _ ↦ ih

end Leaves

/-! ### Programs that do only what they may -/

/-- A program that makes only steps it may, whatever it ends with. -/
def Steps (R : Rules σ α ι) (me : ι) (t : Program σ ε α β) : Prop :=
  ∀ s, R.inv s → t.wp R me (fun _ _ ↦ True) s

section Steps

variable {t : Program σ ε α β} {k : β → Program σ ε α γ}

theorem steps_pure (b : β) : Steps R me (pure b : Program σ ε α β) :=
  fun _ _ ↦ trivial

theorem steps_throw (e : ε) : Steps R me (throw e : Program σ ε α β) :=
  fun _ _ ↦ trivial

theorem steps_get : Steps R me (get : Program σ ε α σ) :=
  fun _ _ ↦ trivial

theorem steps_call {op : σ → Except ε β × σ} (h : ∀ s, R.inv s → R.step me s (op s).2) :
    Steps R me (call op : Program σ ε α β) :=
  fun s hs ↦ wp_call.2 ⟨h s hs, fun _ ↦ trivial⟩

theorem steps_request (q : ρ) : Steps R me (request q : Program σ ε α (α q)) :=
  fun _ _ ↦ wp_request.2 fun _ _ _ _ _ _ _ _ ↦ trivial

theorem Steps.bind (ht : Steps R me t) (hk : ∀ b, Steps R me (k b)) : Steps R me (t >>= k) :=
  fun s hs ↦ wp_seq hs (ht s hs) (fun b s hs _ ↦ hk b s hs) fun _ _ _ h ↦ h

theorem Steps.tryCatch {handler : ε → Program σ ε α β} (ht : Steps R me t)
    (hhandler : ∀ e, Steps R me (handler e)) : Steps R me (Program.tryCatch t handler) := by
  refine fun s hs ↦ wp_tryCatch.2 (wp_mono hs (fun result s hs _ ↦ ?_) (ht s hs))
  cases result with
  | ok b => trivial
  | error e => exact hhandler e s hs

end Steps

/-! ### Programs that keep an assertion -/

/-- What the steps of a program and the others keep holds where it ends. -/
theorem wp_frame {p : σ → Prop} {t : Program σ ε α β} {post : Except ε β → σ → Prop}
    (hstep : ∀ {s s'}, R.inv s → R.step me s s' → p s → p s')
    (hrely : ∀ {s s'}, R.inv s → R.rely me s s' → p s → p s') (hinv : R.inv s) (hs : p s)
    (h : t.wp R me post s) : t.wp R me (fun result s ↦ post result s ∧ p s) s := by
  induction t generalizing s with
  | done result => exact ⟨h, hs⟩
  | look next ih => exact ih s hinv hs h
  | set f next ih => exact ⟨h.1, fun hf ↦ ih hf (hstep hinv h.1 hs) (h.2 hf)⟩
  | await q next ih =>
    intro s₁ a s₂ h₁ h₂ hrely₁ hanswer hrely₂
    exact ih a h₂ (hrely h₁ hrely₂ (hrely hinv hrely₁ hs)) (h s₁ a s₂ h₁ h₂ hrely₁ hanswer hrely₂)

/-- A program that may run wherever `p` holds, and leaves it in force. -/
def Keeps (R : Rules σ α ι) (me : ι) (p : σ → Prop) (t : Program σ ε α β) : Prop :=
  ∀ s, R.inv s → p s → t.wp R me (fun _ s' ↦ p s') s

section Keeps

variable {p : σ → Prop} {t : Program σ ε α β} {k : β → Program σ ε α γ}

theorem keeps_pure (b : β) : Keeps R me p (pure b : Program σ ε α β) :=
  fun _ _ hs ↦ hs

theorem keeps_throw (e : ε) : Keeps R me p (throw e : Program σ ε α β) :=
  fun _ _ hs ↦ hs

theorem Keeps.bind (ht : Keeps R me p t) (hk : ∀ b, Keeps R me p (k b)) :
    Keeps R me p (t >>= k) :=
  fun s hinv hs ↦ wp_seq hinv (ht s hinv hs) (fun b s hinv hs ↦ hk b s hinv hs) fun _ _ _ h ↦ h

theorem Keeps.tryCatch {handler : ε → Program σ ε α β} (ht : Keeps R me p t)
    (hhandler : ∀ e, Keeps R me p (handler e)) : Keeps R me p (Program.tryCatch t handler) := by
  refine fun s hinv hs ↦ wp_tryCatch.2 (wp_mono hinv (fun result s hinv hs ↦ ?_) (ht s hinv hs))
  cases result with
  | ok b => exact hs
  | error e => exact hhandler e s hinv hs

/-- What survives a relation is kept by a program that leaves the state in it. -/
theorem Leaves.keeps {rel : σ → σ → Prop} (ht : Leaves R me rel t)
    (hp : ∀ {s s'}, R.inv s → rel s s' → p s → p s') : Keeps R me p t :=
  fun s hinv hs ↦ wp_mono hinv (fun _ _ _ hrel ↦ hp hinv hrel hs) (ht s hinv)

/-- A loop with an invariant of its accumulator. -/
theorem wp_foldlM {τ : Type} {l : List τ} {f : β → τ → Program σ ε α β} {q : β → Prop} {b : β}
    (hf : ∀ b x s, x ∈ l → R.inv s → p s → q b →
      (f b x).wp R me (fun result s' ↦ p s' ∧ ∀ b', result = .ok b' → q b') s)
    (hinv : R.inv s) (hs : p s) (hb : q b) :
    (l.foldlM f b).wp R me (fun result s' ↦ p s' ∧ ∀ b', result = .ok b' → q b') s := by
  induction l generalizing b s with
  | nil => exact ⟨hs, fun b' h ↦ Except.ok.inj h ▸ hb⟩
  | cons x l ih =>
    refine wp_seq hinv (hf b x s List.mem_cons_self hinv hs hb) (fun b' s' hinv' h ↦ ?_)
      fun e s' _ h ↦ ⟨h.1, nofun⟩
    exact ih (fun b x s hx ↦ hf b x s (List.mem_cons_of_mem _ hx)) hinv' h.1 (h.2 b' rfl)

end Keeps

end Program

/-! ### Rules that know more -/

section Refines

variable {σ ε ρ ι : Type} {α : ρ → Type} {β : Type}

/-- The second rules know more about the state and the others, and allow the program more. -/
structure Rules.Refines (R R' : Rules σ α ι) : Prop where
  inv : ∀ {s}, R'.inv s → R.inv s
  answers : ∀ {q a s}, R'.answers q a s → R.answers q a s
  step : ∀ {i s s'}, R.step i s s' → R'.step i s s'
  rely : ∀ {i s s'}, R'.rely i s s' → R.rely i s s'

/-- What holds under some rules holds under rules that know more. -/
theorem Program.wp_refines {R R' : Rules σ α ι} {me : ι} {post : Except ε β → σ → Prop} {s : σ}
    (h : R.Refines R') {t : Program σ ε α β} (ht : wp R me post t s) : wp R' me post t s := by
  induction t generalizing s with
  | done result => exact ht
  | look next ih => exact ih s ht
  | set f next ih => exact ⟨h.step ht.1, fun hf ↦ ih (ht.2 (h.inv hf))⟩
  | await q next ih =>
    intro s₁ a s₂ h₁ h₂ hrely hanswer hrely'
    exact ih a (ht s₁ a s₂ (h.inv h₁) (h.inv h₂) (h.rely hrely) (h.answers hanswer)
      (h.rely hrely'))

/-- What a program leaves under some rules, it leaves under rules that know more. -/
theorem Program.Leaves.refines {R R' : Rules σ α ι} {me : ι} {rel : σ → σ → Prop}
    (h : R.Refines R') {t : Program σ ε α β} (ht : Program.Leaves R me rel t) :
    Program.Leaves R' me rel t :=
  fun s hs ↦ Program.wp_refines h (ht s (h.inv hs))

end Refines

/-! ### Many programs over one state -/

/-- A program in flight: waiting for an answer, or ready to go on. -/
inductive Thread (σ ε : Type) {ρ : Type} (α : ρ → Type) : Type
  | waiting (q : ρ) (next : α q → Program σ ε α Unit)
  | ready (t : Program σ ε α Unit)

/-- Run a program up to its next await. -/
def Program.settle {σ ε ρ : Type} {α : ρ → Type} :
    Program σ ε α Unit → σ → σ × Option (Thread σ ε α)
  | .done _, s => (s, none)
  | .look next, s => (next s).settle s
  | .set f next, s => next.settle (f s)
  | .await q next, s => (s, some (.waiting q next))

/-- The programs there may be, and the rest of the world. -/
structure System (σ ε : Type) {ρ : Type} (α : ρ → Type) (ι : Type) where
  /-- The programs that may be started. -/
  starts : ι → Program σ ε α Unit → Prop
  /-- What the outside may answer. -/
  answers : (q : ρ) → α q → σ → Prop
  /-- What the world does by itself. -/
  env : σ → σ → Prop
  /-- What is left of the state when every thread dies. -/
  crash : σ → σ → Prop

namespace System

variable {σ ε ρ ι : Type} {α : ρ → Type} [DecidableEq ι]

/-- A state and the threads in flight. -/
structure Config (σ ε : Type) {ρ : Type} (α : ρ → Type) (ι : Type) where
  state : σ
  threads : ι → Option (Thread σ ε α)

/-- One step of the system. -/
inductive Step (S : System σ ε α ι) : Config σ ε α ι → Config σ ε α ι → Prop
  | start {s th i t} (hfree : th i = none) (hstart : S.starts i t) :
      S.Step ⟨s, th⟩ ⟨s, Function.update th i (some (.ready t))⟩
  | answer {s th i q next a} (hthread : th i = some (.waiting q next)) (h : S.answers q a s) :
      S.Step ⟨s, th⟩ ⟨s, Function.update th i (some (.ready (next a)))⟩
  | resume {s th i t} (hthread : th i = some (.ready t)) :
      S.Step ⟨s, th⟩ ⟨(t.settle s).1, Function.update th i (t.settle s).2⟩
  | env {s s' th} (h : S.env s s') : S.Step ⟨s, th⟩ ⟨s', th⟩
  | crash {s s' th} (h : S.crash s s') : S.Step ⟨s, th⟩ ⟨s', fun _ ↦ none⟩

/-- The configurations a run reaches. -/
abbrev Reaches (S : System σ ε α ι) : Config σ ε α ι → Config σ ε α ι → Prop :=
  Relation.ReflTransGen S.Step

/-! ### Playing a run -/

/-- What may happen next; an event that does not apply changes nothing. -/
inductive Event (S : System σ ε α ι)
  | start (i : ι) (t : Program σ ε α Unit) (h : S.starts i t)
  | answer (i : ι) (a : (q : ρ) → σ → α q) (h : ∀ q s, S.answers q (a q s) s)
  | resume (i : ι)
  | env (f : σ → σ) (h : ∀ s, S.env s (f s))
  | crash (f : σ → σ) (h : ∀ s, S.crash s (f s))

variable {S : System σ ε α ι}

/-- The configuration after an event. -/
def Event.act : Event S → Config σ ε α ι → Config σ ε α ι
  | start i t _, c =>
    match c.threads i with
    | none => ⟨c.state, Function.update c.threads i (some (.ready t))⟩
    | some _ => c
  | answer i a _, c =>
    match c.threads i with
    | some (.waiting q next) =>
      ⟨c.state, Function.update c.threads i (some (.ready (next (a q c.state))))⟩
    | _ => c
  | resume i, c =>
    match c.threads i with
    | some (.ready t) => ⟨(t.settle c.state).1, Function.update c.threads i (t.settle c.state).2⟩
    | _ => c
  | env f _, c => ⟨f c.state, c.threads⟩
  | crash f _, c => ⟨f c.state, fun _ ↦ none⟩

/-- The configuration after some events. -/
def play (events : List (Event S)) (c : Config σ ε α ι) : Config σ ε α ι :=
  events.foldl (fun c e ↦ e.act c) c

theorem Event.reaches_act (e : Event S) (c : Config σ ε α ι) : S.Reaches c (e.act c) := by
  obtain ⟨s, th⟩ := c
  cases e with
  | start i t h =>
    simp only [act]
    split
    case h_1 hfree => exact .single (.start hfree h)
    case h_2 => exact .refl
  | answer i a h =>
    simp only [act]
    split
    case h_1 q next hthread => exact .single (.answer hthread (h q s))
    case h_2 => exact .refl
  | resume i =>
    simp only [act]
    split
    case h_1 t hthread => exact .single (.resume hthread)
    case h_2 => exact .refl
  | env f h => exact .single (.env (h s))
  | crash f h => exact .single (.crash (h s))

/-- Playing events is a run. -/
theorem reaches_play (events : List (Event S)) (c : Config σ ε α ι) :
    S.Reaches c (play events c) := by
  induction events generalizing c with
  | nil => exact .refl
  | cons e events ih => exact (e.reaches_act c).trans (ih (e.act c))

end System

/-! ### Soundness -/

section Soundness

variable {σ ε ρ ι : Type} {α : ρ → Type}

/-- The rules are kept by every program of the system, by the world and by a crash. -/
structure Rules.Sound (R : Rules σ α ι) (S : System σ ε α ι) : Prop where
  rely_refl : ∀ i s, R.rely i s s
  rely_trans : ∀ {i s₁ s₂ s₃}, R.rely i s₁ s₂ → R.rely i s₂ s₃ → R.rely i s₁ s₃
  step_inv : ∀ {i s s'}, R.inv s → R.step i s s' → R.inv s'
  step_rely : ∀ {i j s s'}, R.inv s → R.step i s s' → j ≠ i → R.rely j s s'
  env_inv : ∀ {s s'}, R.inv s → S.env s s' → R.inv s'
  env_rely : ∀ {i s s'}, R.inv s → S.env s s' → R.rely i s s'
  crash_inv : ∀ {s s'}, R.inv s → S.crash s s' → R.inv s'
  answered : ∀ {q a s}, S.answers q a s → R.answers q a s
  started : ∀ {i t s}, S.starts i t → R.inv s → t.wp R i (fun _ _ ↦ True) s

/-- What is known of a thread in flight. -/
def Thread.Safe (R : Rules σ α ι) (i : ι) : Thread σ ε α → σ → Prop
  | .waiting q next, s => (Program.await q next).wp R i (fun _ _ ↦ True) s
  | .ready t, s => ∀ s', R.inv s' → R.rely i s s' → t.wp R i (fun _ _ ↦ True) s'

/-- The invariant of a run: that of the rules, and what is known of each thread. -/
structure System.Good (R : Rules σ α ι) (c : System.Config σ ε α ι) : Prop where
  inv : R.inv c.state
  safe : ∀ i t, c.threads i = some t → t.Safe R i c.state

/-- One move of the state: a step of a thread, of the world, or a crash. -/
def System.Move (R : Rules σ α ι) (S : System σ ε α ι) (s s' : σ) : Prop :=
  R.inv s ∧ ((∃ i, R.step i s s') ∨ S.env s s' ∨ S.crash s s')

variable {R : Rules σ α ι} {S : System σ ε α ι}

/-- What is known of a thread survives what others do. -/
theorem Thread.Safe.stable (hS : R.Sound S) {i : ι} {t : Thread σ ε α} {s s' : σ}
    (h : t.Safe R i s) (hrely : R.rely i s s') : t.Safe R i s' := by
  cases t with
  | waiting q next =>
    intro s₁ a s₂ h₁ h₂ hrely₁ hanswer hrely₂
    exact h s₁ a s₂ h₁ h₂ (hS.rely_trans hrely hrely₁) hanswer hrely₂
  | ready t => exact fun s₁ h₁ hrely₁ ↦ h s₁ h₁ (hS.rely_trans hrely hrely₁)

/-- A program runs to its next await by steps it may make. -/
theorem Program.settle_spec (hS : R.Sound S) {i : ι} {t : Program σ ε α Unit} {s : σ}
    (hinv : R.inv s) (h : t.wp R i (fun _ _ ↦ True) s) :
    R.inv (t.settle s).1 ∧ (∀ j, j ≠ i → R.rely j s (t.settle s).1) ∧
      Relation.ReflTransGen (S.Move R) s (t.settle s).1 ∧
      ∀ t', (t.settle s).2 = some t' → t'.Safe R i (t.settle s).1 := by
  induction t generalizing s with
  | done result => exact ⟨hinv, fun j _ ↦ hS.rely_refl j s, .refl, nofun⟩
  | look next ih => exact ih s hinv h
  | set f next ih =>
    have hf := hS.step_inv hinv h.1
    obtain ⟨hinv', hrely, hmoves, hsafe⟩ := ih hf (h.2 hf)
    refine ⟨hinv', fun j hj ↦ ?_, hmoves.head ⟨hinv, .inl ⟨i, h.1⟩⟩, hsafe⟩
    exact hS.rely_trans (hS.step_rely hinv h.1 hj) (hrely j hj)
  | await q next ih =>
    refine ⟨hinv, fun j _ ↦ hS.rely_refl j s, .refl, fun t' ht ↦ ?_⟩
    obtain rfl := Option.some.inj ht
    exact h

/-- A system starts with no thread in flight. -/
theorem System.Good.initial {s : σ} (h : R.inv s) :
    System.Good R (⟨s, fun _ ↦ none⟩ : System.Config σ ε α ι) :=
  ⟨h, nofun⟩

variable [DecidableEq ι]

/-- **Soundness, one step.** -/
theorem System.Good.step (hS : R.Sound S) {c c' : System.Config σ ε α ι} (h : System.Good R c)
    (hstep : S.Step c c') :
    System.Good R c' ∧ Relation.ReflTransGen (S.Move R) c.state c'.state := by
  cases hstep with
  | @start s th i t hfree hstart =>
    refine ⟨⟨h.inv, fun j t' ht ↦ ?_⟩, .refl⟩
    rcases eq_or_ne j i with rfl | hji
    · obtain rfl : Thread.ready t = t' := by simpa using ht
      exact fun s' hs' _ ↦ hS.started hstart hs'
    · exact h.safe j t' (by simpa [hji] using ht)
  | @answer s th i q next a hthread hanswer =>
    refine ⟨⟨h.inv, fun j t' ht ↦ ?_⟩, .refl⟩
    rcases eq_or_ne j i with rfl | hji
    · obtain rfl : Thread.ready (next a) = t' := by simpa using ht
      intro s' hs' hrely
      exact h.safe j _ hthread s a s' h.inv hs' (hS.rely_refl j s) (hS.answered hanswer) hrely
    · exact h.safe j t' (by simpa [hji] using ht)
  | @resume s th i t hthread =>
    have hwp := h.safe i _ hthread s h.inv (hS.rely_refl i s)
    obtain ⟨hinv, hrely, hmoves, hsafe⟩ := Program.settle_spec hS h.inv hwp
    refine ⟨⟨hinv, fun j t' ht ↦ ?_⟩, hmoves⟩
    rcases eq_or_ne j i with rfl | hji
    · exact hsafe t' (by simpa using ht)
    · exact (h.safe j t' (by simpa [hji] using ht)).stable hS (hrely j hji)
  | env henv =>
    refine ⟨⟨hS.env_inv h.inv henv, fun j t' ht ↦ ?_⟩, .single ⟨h.inv, .inr (.inl henv)⟩⟩
    exact (h.safe j t' ht).stable hS (hS.env_rely h.inv henv)
  | crash hcrash =>
    exact ⟨⟨hS.crash_inv h.inv hcrash, nofun⟩, .single ⟨h.inv, .inr (.inr hcrash)⟩⟩

/-- **Soundness.** Whatever a run of the system does to the state, it does by moves under the
rules. -/
theorem System.Good.run (hS : R.Sound S) {c c' : System.Config σ ε α ι} (h : System.Good R c)
    (hrun : S.Reaches c c') :
    System.Good R c' ∧ Relation.ReflTransGen (S.Move R) c.state c'.state := by
  induction hrun with
  | refl => exact ⟨h, .refl⟩
  | tail _ hstep ih =>
    obtain ⟨hgood, hmoves⟩ := ih.1.step hS hstep
    exact ⟨hgood, ih.2.trans hmoves⟩

end Soundness

end Async
