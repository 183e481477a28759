import AsyncLock.Interleaving.Census
import AsyncLock.Mutex.Machine

/-! # The mutex word counts guards and starved operations

In every reachable state the word is the number of owners of the lock bit plus twice the
number of starved operations. Along a run an operation takes its 2 at most once, and what it
has taken and not given back is exactly what makes it starved.
-/
namespace AsyncLock.Mutex
set_option autoImplicit false

open Interleaving

def guards (s : State Mutex Object) : Nat := census Object.owns s.pool

def starvedOps (s : State Mutex Object) : Nat := census Object.starved s.pool

variable {p : Platform}

theorem step_accounts {i : Nat} {c : LockChoice} {m m' : Mutex} {o o' : Object}
    {new : List Object} (h : step p i c m o = some (m', o', new)) (hAlive : ¬ o'.Aborted)
    {owners starved : Nat} (hs : Accounts p m.state (o.owns + owners) (o.starved + starved)) :
    Accounts p m'.state (o'.owns + census Object.owns new + owners)
      (o'.starved + census Object.starved new + starved) := by
  cases step_acts h with
  | tryTake _ hFree =>
    have := hs.acquire (by omega)
    simpa [hFree, Object.owns, Object.starved] using this
  | lockRun _ _ _ _ hLock =>
    have := Lock.step_accounts hLock hAlive hs
    simpa [Object.owns, Object.starved, LockOutcome.owns, LockOutcome.starved] using this
  | lockReady _ _ _ _ hLock | lockDrop _ _ _ hLock =>
    have := Lock.step_accounts hLock id hs
    simpa [Object.owns, Object.starved, LockOutcome.owns, LockOutcome.starved] using this
  | unlock =>
    have := (show Accounts p m.state (1 + owners) starved by
      simpa [Object.owns, Object.starved] using hs).release
    simpa [Object.owns, Object.starved, unlockUnchecked] using this
  | _ => exact hs

theorem aborted_stuck (i : Nat) (c : LockChoice) (m : Mutex) (o : Object) (h : o.Aborted) :
    (machine p).step i c m o = none := by
  cases o with
  | lock form f =>
    have hNone : f.step p i c m = none := Lock.step_aborted h
    simp [machine, step, hNone]
  | _ => cases h

theorem accounts_of_reaches {s : State Mutex Object} (h : (machine p).Reaches initial s)
    (hAlive : Alive Object.Aborted s) : Accounts p s.mem.state (guards s) (starvedOps s) := by
  apply Machine.invariant_alive (P := fun s => Accounts p s.mem.state (guards s) (starvedOps s))
    aborted_stuck h hAlive (Accounts.new p)
  intro s s' _ _ hStep hAlive' hs
  unfold guards starvedOps at hs ⊢
  rcases Machine.step_others hStep with ⟨k, rfl⟩ |
    ⟨i, c, o, mem, o', new, others, _, hAct, rfl, hMem, hPool, hPool'⟩
  · cases k <;> simpa [machine, create, Object.owns, Object.starved, Lock.owns,
      Lock.starved] using hs
  · rw [hPool, hPool] at hs
    rw [hPool', hPool']
    exact step_accounts hAct (hAlive' o' hMem) hs

/-! ## Taking and giving back -/

/-- The action is the `fetch_add(2)` of a slow lock operation. -/
def fetchAddTwo : LockChoice → Object → Nat
  | .go _, .lock _ (.starve _) => 1
  | _, _ => 0

/-- The action is the `fetch_sub(2)` of `take_mutex`, on completion or on drop. -/
def fetchSubTwo : LockChoice → Object → Nat
  | .go _, .lock _ (.takeMutex _) => 1
  | .drop, .lock _ .fairWaiting => 1
  | _, _ => 0

def Object.mayStarve : Object → Nat
  | .lock _ .dropListener => 0
  | .lock _ f => 1 - f.starved
  | _ => 0

attribute [local simp] Object.starved Object.mayStarve Lock.starved fetchAddTwo fetchSubTwo

/-- A lock operation becomes starved by its `fetch_add(2)` and stops being so by its
`fetch_sub(2)`, and it does not come to the former twice. -/
theorem lock_balance {i : Nat} {c : LockChoice} {m : Mutex} (form : Form) {f : Lock}
    {r : Mutex × LockOutcome} (h : f.step p i c m = some r) :
    ∃ o new, lockStep form r = (r.1, o, new) ∧
      (o.starved + fetchSubTwo c (.lock form f) = f.starved + fetchAddTwo c (.lock form f) ∧
        ∀ n ∈ new, n.starved = 0) ∧
      (o.mayStarve + fetchAddTwo c (.lock form f) ≤ Object.mayStarve (.lock form f) ∧
        ∀ n ∈ new, n.mayStarve = 0) := by
  obtain ⟨m', r⟩ := r
  cases Lock.step_acts h with
  | _ => exact ⟨_, _, rfl, by simp, by simp⟩

theorem step_balance (i : Nat) (c : LockChoice) (m : Mutex) (o : Object) (m' : Mutex)
    (o' : Object) (new : List Object) (h : (machine p).step i c m o = some (m', o', new)) :
    (o'.starved + fetchSubTwo c o = o.starved + fetchAddTwo c o ∧ ∀ n ∈ new, n.starved = 0) ∧
      (o'.mayStarve + fetchAddTwo c o ≤ o.mayStarve ∧ ∀ n ∈ new, n.mayStarve = 0) := by
  cases step_acts h with
  | lockRun form _ _ _ hLock | lockReady form _ _ _ hLock | lockDrop form _ _ hLock =>
    obtain ⟨_, _, hEq, hBalance⟩ := lock_balance form hLock
    cases hEq
    exact hBalance
  | _ => cases c <;> simp

/-- Along a run an operation takes its 2 at most once, and what it has taken and not given
back is what it still has as a starved operation: nothing, once it has acquired the lock or
has been dropped. -/
theorem taken_and_given {acts : List (Action Call LockChoice)} {s : State Mutex Object}
    (h : (machine p).run initial acts = some s) (i : Nat) :
    (machine p).tally fetchAddTwo i initial acts ≤ 1 ∧
      valueAt Object.starved 0 s.pool i + (machine p).tally fetchSubTwo i initial acts =
        (machine p).tally fetchAddTwo i initial acts := by
  have hCreate (m : Mutex) (k : Call) : ((machine p).create m k).starved = 0 := by
    cases k <;> rfl
  have hMay (m : Mutex) (k : Call) : ((machine p).create m k).mayStarve ≤ 1 := by
    cases k <;> simp [machine, create]
  have hOnce := Machine.tally_le hMay (fun i c m o m' o' new hStep =>
    have hBalance := (step_balance i c m o m' o' new hStep).2
    ⟨hBalance.1, fun n hn => by rw [hBalance.2 n hn]; decide⟩) h i
  have hGiven := Machine.tally_balance hCreate (fun i c m o m' o' new hStep =>
    (step_balance i c m o m' o' new hStep).1) h i
  simp only [initial, valueAt, List.getElem?_nil, Option.map_none, Option.getD_none]
    at hOnce hGiven ⊢
  omega

/-- A guard about to be dropped finds the lock bit set: its `fetch_sub(1)` clears that bit and
leaves the starved count as it is. -/
theorem unlock_never_borrows {s : State Mutex Object} (h : (machine p).Reaches initial s)
    (hAlive : Alive Object.Aborted s) {i : Nat} {arc : Bool}
    (hGuard : s.pool[i]? = some (.guard arc)) :
    s.mem.state % 2 = 1 ∧ (s.mem.unlockUnchecked p).state + 1 = s.mem.state ∧
      (s.mem.unlockUnchecked p).state / 2 = s.mem.state / 2 := by
  obtain ⟨hEq, hLe, hLt⟩ := accounts_of_reaches h hAlive
  have hOwner : 1 ≤ guards s := le_census Object.owns (List.mem_of_getElem? hGuard)
  have hState : (s.mem.unlockUnchecked p).state = s.mem.state - 1 :=
    wrappingSub_of_le (by omega) hLt
  omega

/-- The word is `h + 2 * s` with at most one owner; every operation gives back exactly the 2 it
has taken, at most one, unless it still is one of the starved; no unlock borrows. -/
theorem word_accounting {acts : List (Action Call LockChoice)} {s : State Mutex Object}
    (h : (machine p).run initial acts = some s) (hAlive : Alive Object.Aborted s) :
    s.mem.state = guards s + 2 * starvedOps s ∧ guards s ≤ 1 ∧
      (∀ i, (machine p).tally fetchAddTwo i initial acts ≤ 1 ∧
        valueAt Object.starved 0 s.pool i + (machine p).tally fetchSubTwo i initial acts =
          (machine p).tally fetchAddTwo i initial acts) ∧
      ∀ (i : Nat) (arc : Bool), s.pool[i]? = some (.guard arc) →
        s.mem.state % 2 = 1 ∧ (s.mem.unlockUnchecked p).state + 1 = s.mem.state ∧
          (s.mem.unlockUnchecked p).state / 2 = s.mem.state / 2 := by
  have hReach := Machine.reaches_of_run _ acts initial s h
  have hAccounts := accounts_of_reaches hReach hAlive
  exact ⟨hAccounts.state_eq, hAccounts.owners_le, taken_and_given h,
    fun i arc hGuard => unlock_never_borrows hReach hAlive hGuard⟩

def starveAndDrop : List (Action Call LockChoice) :=
  [.call .tryLock, .act 0 (.go false), .call .lock, .act 1 (.go false), .act 1 (.go false),
    .act 1 (.go false), .act 0 .drop, .act 0 (.go false), .call .tryLock, .act 2 (.go false),
    .act 1 (.go false), .act 1 (.go true), .act 1 (.go false), .act 1 (.go false),
    .act 1 (.go false), .act 1 .drop]

theorem word_accounting_starveAndDrop :
    (machine platform64).tally fetchAddTwo 1 initial starveAndDrop = 1 ∧
      (machine platform64).tally fetchSubTwo 1 initial starveAndDrop = 1 ∧
      ∃ s, (machine platform64).run initial starveAndDrop = some s ∧
        s.mem.state = guards s + 2 * starvedOps s := by
  refine ⟨by decide, by decide, ⟨⟨1, ⟨[⟨1, none⟩]⟩⟩,
    [.gone, .lock ⟨false, false⟩ .dropListener, .guard false]⟩, by decide, ?_⟩
  exact (word_accounting (show (machine platform64).run initial starveAndDrop = some _ by decide)
    (by simp [Alive, Object.Aborted, Lock.Aborted])).1

end AsyncLock.Mutex
