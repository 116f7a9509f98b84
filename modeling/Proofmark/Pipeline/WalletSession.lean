import Proofmark.Numeric.Double
import Proofmark.Pipeline.Json

/-!
# The wallet session

`wallet-session.ts`: an account and session fence around a wallet that answers whenever it likes.
Every method runs to its end before anything else does, except for what its callbacks do:
`getCurrent` and the wallet's `on` and `request` may fire wallet events, and `notify` may call the
session again. So a call carries, as a tree, everything that happens inside it (`Call`, `Fired`),
and a task is what the event loop starts: a call, an event, a timer, or a step of a promise. What
`removeListener` fires finds a revision of its own gone already, and does nothing.

Each reading of the clock is an input of its own, so two of them may differ in any way. The clock is
the runtime's, whose readings are finite. A method's value is `error` where it throws, with the
session it leaves behind. What a request sends, and the texts of the errors, are left out.
-/

namespace Proofmark.Wallet

open Pipeline

/-! ### What the session holds -/

/-- `{ wall: Date.now(), monotonic: performance.now() }` -/
structure Reading where
  wall : ℚ
  monotonic : ℚ
  deriving DecidableEq

/-- `deadline` -/
structure Deadline where
  wall : ℚ
  monotonic : ℚ
  startWall : ℚ
  startMonotonic : ℚ
  deriving DecidableEq

/-- What a wallet answers; `other` is neither an array nor a string. -/
inductive Answered
  | string (t : Text)
  | array (items : List Answered)
  | other

/-- The first of an array of addresses, in lower case. -/
def first : Answered → Option Text
  | .array (.string t :: _) => if Text.isHexString t 20 then some t.lower else none
  | _ => none

inductive Method
  | ethAccounts | ethRequestAccounts | personalSign | other
  deriving DecidableEq

/-- `requestTimeouts` -/
structure RequestTimeouts where
  account : ℚ
  prompt : ℚ

inductive Outcome
  | resolved (value : Answered)
  | rejected

/-- How far a request has come: its first microtask is due, the wallet was asked, that microtask
threw, or its handler ran. -/
inductive Stage
  | queued | asked | failed | handled
  deriving DecidableEq

/-- The promise of a request, with what its closures captured. -/
structure Request (P : Type) where
  revision : ℕ
  provider : P
  timeoutMs : ℚ
  started : Reading
  stage : Stage
  outcome : Option Outcome

/-- `WalletSession`. A request is known by its place among all requests. -/
structure Session (P : Type) where
  revision : ℕ
  deadline : Option Deadline
  /-- the requests whose `cancel` is in the set -/
  pending : List ℕ
  provider : Option P
  address : Option Text
  /-- `none` is undefined, and `some none` is null -/
  observed : Option (Option Text)
  requests : List (Request P)
  /-- the listeners of every attachment, with the revision and the provider they captured -/
  listeners : List (ℕ × P)
  /-- the requests that a check awaits -/
  checks : List ℕ
  /-- how often an account was bound -/
  binds : ℕ

/-- A new session. -/
def Session.start {P : Type} : Session P where
  revision := 0
  deadline := none
  pending := []
  provider := none
  address := none
  observed := none
  requests := []
  listeners := []
  checks := []
  binds := 0

/-- `Number.isSafeInteger` -/
def isSafeInteger (x : ℚ) : Bool :=
  x.den = 1 && |x| ≤ 2 ^ 53 - 1

/-- The deadline has passed, or the clock went back behind the start. -/
def Deadline.passed (d : Deadline) (now : Reading) : Bool :=
  !isSafeInteger now.wall || now.wall < d.startWall || now.monotonic < d.startMonotonic ||
    d.wall ≤ now.wall || d.monotonic ≤ now.monotonic

/-- `late()` -/
def Request.late {P : Type} (r : Request P) (now : Reading) : Bool :=
  now.wall < r.started.wall || now.monotonic < r.started.monotonic ||
    r.timeoutMs ≤ Numeric.sub now.wall r.started.wall ||
    r.timeoutMs ≤ Numeric.sub now.monotonic r.started.monotonic

namespace Session

variable {P : Type} (s : Session P)

/-- `finish`: a request is settled once. -/
def finish (p : ℕ) (outcome : Outcome) : Session P :=
  match s.requests[p]? with
  | none => s
  | some r =>
    if r.outcome.isSome then s
    else
      { s with
        pending := s.pending.erase p
        requests := s.requests.set p { r with outcome := some outcome } }

def dispose : Session P :=
  let s := { s with revision := s.revision + 1, deadline := none }
  let s := s.pending.foldl (fun s p ↦ s.finish p .rejected) s
  { s with provider := none, address := none, observed := none }

/-- The handler of a request moves on. -/
def setStage (p : ℕ) (stage : Stage) : Session P :=
  { s with requests := s.requests.modify p fun r ↦ { r with stage } }

end Session

/-! ### The methods -/

/-- The session that a method leaves, whether it throws or not. -/
def left {P : Type} : Except (Session P) (Session P) → Session P
  | .ok s => s
  | .error s => s

/-- What `getCurrent` returns: `none` if it throws, and `some none` is undefined. -/
abbrev Current (P : Type) :=
  Option (Option P)

/-- What `wallet` does to a session before a callback returns. -/
abbrev Meanwhile (P : Type) :=
  Session P → Session P

section Methods

variable {P : Type} [DecidableEq P] (notified : Meanwhile P)

def invalidate (s : Session P) : Session P :=
  notified s.dispose

/-- `expireIfNeeded`, inside `assertCurrent` or called by a timer of the page. -/
def expireIfNeeded (now : Reading) (s : Session P) : Except (Session P) (Session P) :=
  match s.deadline with
  | none => .ok s
  | some d => if d.passed now then .error (invalidate notified s) else .ok s

def assertCurrent (revision : ℕ) (now : Reading) (s : Session P) : Except (Session P) (Session P) :=
  if revision ≠ s.revision then .error s else expireIfNeeded notified now s

/-- The timing a service answers with, `none` where it is no safe integer. -/
structure Timing where
  serverTime : Option ℤ
  walletExpiresAt : Option ℤ

/-- How long a session may last, where timing and start are well formed. -/
def Timing.remaining (timing : Timing) (started : Reading) : Option ℤ := do
  let serverTime ← timing.serverTime
  let walletExpiresAt ← timing.walletExpiresAt
  let remaining := walletExpiresAt - serverTime
  if serverTime ≤ 0 ∨ 8640000000000000 < walletExpiresAt ∨ remaining ≤ 0 ∨ 30 * 60000 < remaining ∨
      !isSafeInteger started.wall ∨ started.wall ≤ 0 ∨ started.monotonic < 0 ∨
      !isSafeInteger (started.wall + remaining) then none
  else some remaining

def authorize (revision : ℕ) (timing : Timing) (started now again : Reading) (s : Session P) :
    Except (Session P) (Session P) := do
  let s ← assertCurrent notified revision now s
  match timing.remaining started with
  | none => .error (invalidate notified s)
  | some remaining =>
    -- the start is before the request: network and provider time is subtracted
    let d : Deadline :=
      ⟨started.wall + remaining, Numeric.add started.monotonic remaining, started.wall,
        started.monotonic⟩
    assertCurrent notified revision again { s with deadline := some d }

/-- `attach`. While `on` registers the listeners they may fire, and it may throw. -/
def attach (provider : P) (eventful : Bool) (registering : Meanwhile P) (registered : Bool)
    (s : Session P) : Except (Session P) (Session P) :=
  let s := s.dispose
  if !eventful then .error s
  else
    let s := { s with
      provider := some provider, address := none, observed := none,
      listeners := s.listeners ++ [(s.revision, provider)] }
    let s := registering s
    if registered then .ok s else .error s.dispose

inductive WalletEvent
  | accountsChanged (value : Answered)
  | chainChanged
  | disconnect

/-- A listener of an attachment is called; a stale one does nothing. -/
def notice (listener : ℕ) (event : WalletEvent) (s : Session P) : Session P :=
  match s.listeners[listener]? with
  | none => s
  | some (revision, provider) =>
    if s.revision ≠ revision ∨ s.provider ≠ some provider then s
    else
      match event with
      | .accountsChanged value =>
        let s := { s with observed := some (first value) }
        if s.address ≠ none ∧ s.address ≠ first value then invalidate notified s else s
      | .chainChanged | .disconnect => invalidate notified s

def bind (revision : ℕ) (accounts : Answered) (now : Reading) (s : Session P) :
    Except (Session P) (Session P) := do
  let s ← assertCurrent notified revision now s
  match first accounts with
  | none => .error (invalidate notified s)
  | some address =>
    if s.observed ≠ none ∧ s.observed ≠ some none ∧ s.observed ≠ some (some address) then
      .error (invalidate notified s)
    else
      .ok { s with
        address := some address, observed := some (some address), binds := s.binds + 1 }

/-- The provider is the one that `getCurrent` returns. -/
def isCurrent (provider : Option P) (current : Option P) : Bool :=
  current.isSome && current = provider

/-- The promise of a request is made. `asking` is what `getCurrent` does. -/
def request (timeouts : RequestTimeouts) (revision : ℕ) (method : Method) (now : Reading)
    (asking : Meanwhile P) (current : Current P) (started : Reading) (s : Session P) :
    Except (Session P) (Session P) := do
  let s ← assertCurrent notified revision now s
  match s.provider with
  | none => .error (invalidate notified s)
  | some provider =>
    let s := asking s
    match current with
    | none => .error s
    | some current =>
      if !isCurrent (some provider) current then .error (invalidate notified s)
      else
        let timeoutMs := if method = .ethAccounts then timeouts.account else timeouts.prompt
        if method = .other ∨ !isSafeInteger timeoutMs ∨ timeoutMs < 1 ∨ 120000 < timeoutMs then
          .error s
        else
          .ok { s with
            pending := s.pending ++ [s.requests.length]
            requests := s.requests ++ [⟨revision, provider, timeoutMs, started, .queued, none⟩] }

/-- What a check reads and calls: three readings, two of `getCurrent`, and the start. -/
structure Checking (P : Type) where
  now : Reading
  current : Current P
  again : Reading
  currentAgain : Current P
  started : Reading
  afterwards : Reading

/-- `check`, up to the answer it awaits. -/
def check (timeouts : RequestTimeouts) (revision : ℕ) (c : Checking P)
    (asking askingAgain : Meanwhile P) (s : Session P) : Except (Session P) (Session P) := do
  let s ← assertCurrent notified revision c.now s
  if s.provider.isNone then .error (invalidate notified s)
  else
    let s := asking s
    match c.current with
    | none => .error s
    | some current =>
      if !isCurrent s.provider current then .error (invalidate notified s)
      else if s.address.isNone then .ok s
      else
        match request notified timeouts revision .ethAccounts c.again askingAgain c.currentAgain
            c.started s with
        | .ok s => .ok { s with checks := s.checks ++ [s.requests.length - 1] }
        | .error s => do
          let s ← assertCurrent notified revision c.afterwards s
          .error (invalidate notified s)

/-! ### The steps of a promise -/

/-- The timer of a request fires. -/
def timeout (p : ℕ) (s : Session P) : Session P :=
  match s.requests[p]? with
  | none => s
  | some r => if r.outcome.isSome then s else invalidate notified s

/-- The wallet is asked, unless a check throws. `requesting` is what the wallet does when it is. -/
def ask (r : Request P) (now late : Reading) (asking : Meanwhile P) (current : Current P)
    (requesting : Meanwhile P) (s : Session P) : Except (Session P) (Session P) := do
  let s ← assertCurrent notified r.revision now s
  if r.late late then .error (invalidate notified s)
  else
    let s := asking s
    if current ≠ some (some r.provider) then .error s else .ok (requesting s)

/-- The first microtask of a request. -/
def dispatch (p : ℕ) (now late : Reading) (asking : Meanwhile P) (current : Current P)
    (requesting : Meanwhile P) (s : Session P) : Session P :=
  match s.requests[p]? with
  | none => s
  | some r =>
    if r.stage ≠ .queued then s
    else
      match ask notified r now late asking current requesting s with
      | .ok s => s.setStage p .asked
      | .error s => s.setStage p .failed

/-- The answer is confirmed, or a check throws. -/
def confirm (r : Request P) (now : Reading) (asking : Meanwhile P) (current : Current P)
    (s : Session P) : Except (Session P) (Session P) := do
  let s ← assertCurrent notified r.revision now s
  let s := asking s
  match current with
  | none => .error s
  | some current =>
    if !isCurrent (some r.provider) current then .error (invalidate notified s) else .ok s

/-- `if (revision === this.revision) this.invalidate(…); cancel();` -/
def giveUp (p : ℕ) (r : Request P) (s : Session P) : Session P :=
  (if r.revision = s.revision then invalidate notified s else s).finish p .rejected

/-- The wallet's promise was fulfilled. -/
def fulfilled (p : ℕ) (value : Answered) (late now : Reading) (asking : Meanwhile P)
    (current : Current P) (s : Session P) : Session P :=
  match s.requests[p]? with
  | none => s
  | some r =>
    if r.stage ≠ .asked then s
    else
      let s := s.setStage p .handled
      if r.outcome.isSome then s
      else if r.late late then invalidate notified s
      else
        match confirm notified r now asking current s with
        | .ok s => s.finish p (.resolved value)
        | .error s => giveUp notified p r s

/-- The wallet's promise was rejected, or the first microtask threw. -/
def rejected (p : ℕ) (s : Session P) : Session P :=
  match s.requests[p]? with
  | none => s
  | some r =>
    if r.stage ≠ .asked ∧ r.stage ≠ .failed then s
    else
      let s := s.setStage p .handled
      if r.outcome.isSome then s else giveUp notified p r s

/-- A check goes on when its request is settled. -/
def checked (p : ℕ) (now : Reading) (asking : Meanwhile P) (current : Current P) (s : Session P) :
    Session P :=
  match s.requests[p]? with
  | none => s
  | some r =>
    if p ∉ s.checks then s
    else
      match r.outcome with
      | none => s
      | some outcome =>
        let s := { s with checks := s.checks.erase p }
        left do
          let s ← assertCurrent notified r.revision now s
          match outcome with
          | .rejected => .error (invalidate notified s)
          | .resolved accounts =>
            let s := asking s
            match current with
            | none => .error s
            | some current =>
              if !isCurrent s.provider current ∨ first accounts ≠ s.address then
                .error (invalidate notified s)
              else .ok s

end Methods

/-! ### Calls with all that happens inside them -/

mutual

/-- A call of the session, by the page or from inside `notify`. `notified` is what `notify` calls if
the session is invalidated. -/
inductive Call (P : Type)
  | attach (provider : P) (eventful : Bool) (registering : List (Fired P)) (registered : Bool)
  | bind (revision : ℕ) (accounts : Answered) (now : Reading) (notified : List (Call P))
  | authorize (revision : ℕ) (timing : Timing) (started now again : Reading)
      (notified : List (Call P))
  | clearAuthorization
  | expireIfNeeded (now : Reading) (notified : List (Call P))
  | request (revision : ℕ) (method : Method) (now : Reading) (asking : List (Fired P))
      (current : Current P) (started : Reading) (notified : List (Call P))
  | check (revision : ℕ) (c : Checking P) (asking askingAgain : List (Fired P))
      (notified : List (Call P))
  | invalidate (notified : List (Call P))
  | dispose

/-- A wallet event, at a listener of some attachment. -/
inductive Fired (P : Type)
  | mk (listener : ℕ) (event : WalletEvent) (notified : List (Call P))

end

section Runs

variable {P : Type} [DecidableEq P] (timeouts : RequestTimeouts)

mutual

def perform : Call P → Session P → Session P
  | .attach provider eventful registering registered, s =>
    left (attach provider eventful (fireAll registering) registered s)
  | .bind revision accounts now notified, s =>
    left (bind (performAll notified) revision accounts now s)
  | .authorize revision timing started now again notified, s =>
    left (authorize (performAll notified) revision timing started now again s)
  | .clearAuthorization, s => { s with deadline := none }
  | .expireIfNeeded now notified, s => left (expireIfNeeded (performAll notified) now s)
  | .request revision method now asking current started notified, s =>
    left (request (performAll notified) timeouts revision method now (fireAll asking) current
      started s)
  | .check revision c asking askingAgain notified, s =>
    left (check (performAll notified) timeouts revision c (fireAll asking) (fireAll askingAgain) s)
  | .invalidate notified, s => invalidate (performAll notified) s
  | .dispose, s => s.dispose

def performAll : List (Call P) → Session P → Session P
  | [], s => s
  | call :: calls, s => performAll calls (perform call s)

def fire : Fired P → Session P → Session P
  | .mk listener event notified, s => notice (performAll notified) listener event s

def fireAll : List (Fired P) → Session P → Session P
  | [], s => s
  | event :: events, s => fireAll events (fire event s)

end

/-- What the event loop starts. -/
inductive Task (P : Type)
  | call (call : Call P)
  | event (event : Fired P)
  | timer (p : ℕ) (notified : List (Call P))
  | dispatch (p : ℕ) (now late : Reading) (asking : List (Fired P)) (current : Current P)
      (requesting : List (Fired P)) (notified : List (Call P))
  | fulfilled (p : ℕ) (value : Answered) (late now : Reading) (asking : List (Fired P))
      (current : Current P) (notified : List (Call P))
  | rejected (p : ℕ) (notified : List (Call P))
  | checked (p : ℕ) (now : Reading) (asking : List (Fired P)) (current : Current P)
      (notified : List (Call P))

def Task.run : Task P → Session P → Session P
  | .call c, s => perform timeouts c s
  | .event e, s => fire timeouts e s
  | .timer p notified, s => timeout (performAll timeouts notified) p s
  | .dispatch p now late asking current requesting notified, s =>
    Wallet.dispatch (performAll timeouts notified) p now late (fireAll timeouts asking) current
      (fireAll timeouts requesting) s
  | .fulfilled p value late now asking current notified, s =>
    Wallet.fulfilled (performAll timeouts notified) p value late now (fireAll timeouts asking)
      current s
  | .rejected p notified, s => Wallet.rejected (performAll timeouts notified) p s
  | .checked p now asking current notified, s =>
    Wallet.checked (performAll timeouts notified) p now (fireAll timeouts asking) current s

/-- A run of the event loop. -/
def runAll (tasks : List (Task P)) (s : Session P) : Session P :=
  tasks.foldl (fun s task ↦ task.run timeouts s) s

end Runs

end Proofmark.Wallet
