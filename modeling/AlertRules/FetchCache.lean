import AlertRules.Failure
import AlertRules.Ruleset
import AlertRules.Text.Quoted

/-!
# AlertRules.FetchCache — one fetch for all who wait

Obtaining the rules takes time.  The cache keeps the rules that were fetched last, and sees to it that
callers who ask meanwhile share one running fetch:

* while the rules are **current**, a caller is answered at once;
* otherwise the caller joins the fetch in flight, or starts one when there is none;
* invalidating raises the **generation**.  Rules are current only if their fetch started in the
  generation in which it ends, but they replace older rules in any case;
* a fetch runs to its end even if nobody waits for it any more.

A run of the cache is a sequence of steps in any order: `request`, `complete`, `observe`, `cancel` and
`invalidate`.  Between the end of a fetch and the moment at which a waiter observes it, other steps
may happen.  A fetch that ends by itself empties the flight when it ends.  One that crashed cannot do
so: the first waiter who observes the crash empties the flight in its place.
-/

namespace AlertRules

/-- Rules that were fetched, as an object with a number of its own. -/
structure Fetched where
  object : Nat
  rules : Ruleset

namespace FetchCache

/-- What a caller gets. -/
abbrev Answer := Except Failure Fetched

/-- How a fetch ends. -/
inductive Ending where
  | loaded (rules : Ruleset)
  | failed (failure : Failure)
  | crashed (message : String)

/-- The end of a fetch that does not crash. -/
def Ending.ofExcept : Except Failure Ruleset → Ending
  | .ok rules => .loaded rules
  | .error failure => .failed failure

/-- What those who wait for the fetch get; rules become the object of that number. -/
def Ending.answer (object : Nat) : Ending → Answer
  | .loaded rules => .ok ⟨object, rules⟩
  | .failed failure => .error failure
  | .crashed message =>
    .error (.fetch ("fetch task failed: task <id> panicked with message " ++ Text.quoted message))

/-- A fetch: the generation in which it started, what it gave once it has ended, whether it crashed, and
whether a waiter has observed its end. -/
structure Fetch where
  generation : Nat
  result : Option Answer
  crashed : Bool
  observed : Bool

/-- A fetch that has only just started. -/
def Fetch.begun (generation : Nat) : Fetch := ⟨generation, none, false, false⟩

/-- How far a waiter is. -/
inductive Waiting where
  | pending
  | answered (answer : Answer)
  | cancelled

/-- A caller: the fetch that was joined, if the answer was not at hand, and how far the caller is. -/
structure Waiter where
  fetch : Option Nat
  waiting : Waiting

end FetchCache

open FetchCache in
/-- The rules fetched last, whether they are current, the generation, the fetch in flight, how many
fetches were counted, all fetches and all waiters in the order in which they began, and the number of
the next object. -/
structure FetchCache where
  latest : Option Fetched
  current : Bool
  generation : Nat
  inFlight : Option Nat
  fetchCount : Nat
  fetches : List Fetch
  waiters : List Waiter
  nextObject : Nat

namespace FetchCache

/-- Nothing has been fetched. -/
def empty : FetchCache := ⟨none, false, 0, none, 0, [], [], 0⟩

/-! ## What can be seen -/

/-- The rules fetched last; before that, no rules. -/
def rulesNow (c : FetchCache) : Ruleset :=
  (c.latest.map Fetched.rules).getD .empty

/-- Rules have been fetched. -/
def hasRules (c : FetchCache) : Bool :=
  c.latest.isSome

/-- The rules fetched last need not be fetched again. -/
def isCurrent (c : FetchCache) : Bool :=
  c.current && c.latest.isSome

/-- A fetch is in flight. -/
def isFetching (c : FetchCache) : Bool :=
  c.inFlight.isSome

/-- The rules, if they are current. -/
def atHand? (c : FetchCache) : Option Fetched :=
  if c.current then c.latest else none

/-- The first fetch that has not ended. -/
def running? (c : FetchCache) : Option Nat :=
  c.fetches.findIdx? fun f => f.result.isNone

/-! ## Steps -/

/-- The fetch in flight, or a new one when there is none. -/
def join (c : FetchCache) : Nat × FetchCache :=
  match c.inFlight with
  | some f => (f, c)
  | none =>
    (c.fetches.length,
      { c with
        fetches := c.fetches ++ [.begun c.generation]
        fetchCount := c.fetchCount + 1
        inFlight := some c.fetches.length })

/-- One more caller asks for the rules. -/
def request (c : FetchCache) : FetchCache :=
  match c.atHand? with
  | some fetched => { c with waiters := c.waiters ++ [⟨none, .answered (.ok fetched)⟩] }
  | none =>
    let (f, c) := c.join
    { c with waiters := c.waiters ++ [⟨some f, .pending⟩] }

/-- What the cache keeps of the end of a fetch.  A fetch that does not crash empties the flight,
whichever fetch it holds. -/
def land (c : FetchCache) (f : Fetch) : Ending → FetchCache
  | .loaded rules =>
    { c with
      latest := some ⟨c.nextObject, rules⟩
      current := c.generation == f.generation
      inFlight := none
      nextObject := c.nextObject + 1 }
  | .failed _ => { c with inFlight := none }
  | .crashed _ => c

/-- The fetch crashed. -/
def Ending.isCrash : Ending → Bool
  | .crashed _ => true
  | _ => false

/-- The fetch of that number ends, if it is running. -/
def complete (c : FetchCache) (f : Nat) (ending : Ending) : FetchCache :=
  match c.fetches[f]? with
  | some fetch =>
    if fetch.result.isNone then
      { c.land fetch ending with
        fetches := c.fetches.set f
          { fetch with result := some (ending.answer c.nextObject), crashed := ending.isCrash } }
    else c
  | none => c

/-- The fetch that a pending waiter waits for, with its result, once it has ended. -/
def result? (c : FetchCache) (w : Waiter) : Option (Nat × Fetch × Answer) :=
  match w.waiting, w.fetch with
  | .pending, some f =>
    (c.fetches[f]?).bind fun fetch => fetch.result.map fun answer => (f, fetch, answer)
  | _, _ => none

/-- The waiter of that number looks whether its fetch has ended, and is answered if it has.  The first
one to see a crash empties the flight, whichever fetch it holds. -/
def observe (c : FetchCache) (w : Nat) : FetchCache :=
  match c.waiters[w]? with
  | none => c
  | some waiter =>
    match c.result? waiter with
    | none => c
    | some (f, fetch, answer) =>
      { c with
        waiters := c.waiters.set w { waiter with waiting := .answered answer }
        fetches := c.fetches.set f { fetch with observed := true }
        inFlight := if fetch.crashed && !fetch.observed then none else c.inFlight }

/-- The waiter of that number gives up. -/
def cancel (c : FetchCache) (w : Nat) : FetchCache :=
  match c.waiters[w]? with
  | some ⟨fetch, .pending⟩ => { c with waiters := c.waiters.set w ⟨fetch, .cancelled⟩ }
  | _ => c

/-- The rules fetched so far are no longer current. -/
def invalidate (c : FetchCache) : FetchCache :=
  { c with current := false, generation := c.generation + 1 }

/-! ## One caller at a time -/

/-- The answer for a single caller who waits until the fetch has ended with `load`. -/
def get (c : FetchCache) (load : Except Failure Ruleset) : Answer × FetchCache :=
  match c.atHand? with
  | some fetched => (.ok fetched, c)
  | none =>
    let (f, joined) := c.join
    let ending := Ending.ofExcept load
    (ending.answer joined.nextObject, joined.complete f ending)

end FetchCache

end AlertRules
