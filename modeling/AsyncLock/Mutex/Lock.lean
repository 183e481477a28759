import AsyncLock.Interleaving.Ownership
import AsyncLock.Word
import Mathlib.Tactic.Simps.Basic

/-! # The mutex word and the lock operation

The state word holds the lock bit and, above it, the number of starved lock operations.
`Lock` is a lock operation at the points between its atomic actions: the fast path of `LockInner`
and `LockArcInnards`, the hot loop of `AcquireSlow`, its fair loop and its drop. The two
futures do the same to the mutex; which one it is stays with the object that holds it.
-/
namespace AsyncLock
set_option autoImplicit false

open Interleaving

structure Mutex where
  state : Nat
  lockOps : Event
deriving DecidableEq

namespace Mutex

def new : Mutex := ⟨0, Event.new⟩

/-- `compare_exchange(0, 1)`, the whole of `try_lock` and of `try_lock_arc`. -/
def tryLock (m : Mutex) : Option Mutex :=
  if m.state = 0 then some { m with state := 1 } else none

/-- The first half of `unlock_unchecked`: `fetch_sub(1)`. -/
@[simps] def unlockUnchecked (p : Platform) (m : Mutex) : Mutex :=
  { m with state := wrappingSub p.bits m.state 1 }

/-- The second half of `unlock_unchecked`: `lock_ops.notify(1)`. -/
@[simps] def notifyLockOps (m : Mutex) : Mutex := { m with lockOps := m.lockOps.notify 1 }

end Mutex

/-- A lock operation, named after its next atomic action. A flag says whether its `listener` is
`Some`; at the other points this follows from the point. -/
inductive Lock where
  | unpolled
  | listen
  | tryListening
  | waiting
  | tryWoken
  | passOn
  | starve (listener : Bool)
  | fairListen
  | fairTry
  | fairPassOn
  | fairWaiting
  | fairGrab
  | takeMutex (listener : Bool)
  | dropListener
  | aborting (listener : Bool)
deriving DecidableEq

/-- What one action makes of a lock operation. A ready one may leave its listener behind, in
the future that has not been dropped yet. -/
inductive LockOutcome where
  | running (f : Lock)
  | ready (listener : Bool)
  | dropped
deriving DecidableEq

/-- `go` takes the next action of a poll or of a drop under way, with the value of
`elapsed() > 500µs` should it be asked; `drop` begins the drop of an unfinished future. -/
inductive LockChoice where
  | go (elapsed : Bool)
  | drop
deriving DecidableEq

namespace Lock

/-- The actions of `poll_with_strategy` and of the fields dropped after it. A poll of the
listener that finds the entry unmarked returns `Pending` and changes nothing. -/
def poll (p : Platform) (i : Nat) (elapsed : Bool) (m : Mutex) :
    Lock → Option (Mutex × LockOutcome)
  | unpolled =>
    match m.tryLock with
    | some m' => some (m', .ready false)
    | none => some (m, .running listen)
  | listen => some ({ m with lockOps := m.lockOps.listen i }, .running tryListening)
  | tryListening =>
    if m.state = 0 then some ({ m with state := 1 }, .ready true)
    else if m.state = 1 then some (m, .running waiting)
    -- somebody is starved: out of the hot loop with the listener still registered
    else some (m, .running (starve true))
  | waiting =>
    if (m.lockOps.markOf i).isSome then
      some ({ m with lockOps := m.lockOps.remove i }, .running tryWoken)
    else none
  | tryWoken =>
    if m.state = 0 then some ({ m with state := 1 }, .ready false)
    else if m.state ≠ 1 then some (m, .running passOn)
    else if elapsed then some (m, .running (starve false))
    else some (m, .running listen)
  | passOn => some (m.notifyLockOps, .running (starve false))
  | starve listener =>
    let m' := { m with state := wrappingAdd p.bits m.state 2 }
    if m.state > p.usizeMax / 2 then some (m', .running (aborting listener))
    else if listener then some (m', .running fairWaiting)
    else some (m', .running fairListen)
  | fairListen => some ({ m with lockOps := m.lockOps.listen i }, .running fairTry)
  | fairTry =>
    if m.state = 2 then some ({ m with state := 2 ||| 1 }, .running (takeMutex true))
    else if m.state % 2 = 1 then some (m, .running fairWaiting)
    else some (m, .running fairPassOn)
  | fairPassOn => some (m.notifyLockOps, .running fairWaiting)
  | fairWaiting =>
    if (m.lockOps.markOf i).isSome then
      some ({ m with lockOps := m.lockOps.remove i }, .running fairGrab)
    else none
  | fairGrab =>
    let m' := { m with state := m.state ||| 1 }
    if m.state % 2 = 0 then some (m', .running (takeMutex false))
    else some (m', .running fairListen)
  | takeMutex listener =>
    some ({ m with state := wrappingSub p.bits m.state 2 }, .ready listener)
  | dropListener => some ({ m with lockOps := m.lockOps.discard i }, .dropped)
  | aborting _ => none

/-- The first action of `AcquireSlow::drop` on a future between two polls: a starved one gives
its 2 back and drops its listener next. -/
def drop (p : Platform) (i : Nat) (m : Mutex) : Lock → Option (Mutex × LockOutcome)
  | unpolled => some (m, .dropped)
  | waiting => some ({ m with lockOps := m.lockOps.discard i }, .dropped)
  | fairWaiting => some ({ m with state := wrappingSub p.bits m.state 2 }, .running dropListener)
  | _ => none

def step (p : Platform) (i : Nat) (c : LockChoice) (m : Mutex) (f : Lock) :
    Option (Mutex × LockOutcome) :=
  match c with
  | .go elapsed => f.poll p i elapsed m
  | .drop => f.drop p i m

def owns : Lock → Nat
  | takeMutex _ => 1
  | _ => 0

/-- `fetch_add(2)` has been executed and its `fetch_sub(2)` has not. -/
def starved : Lock → Nat
  | fairListen | fairTry | fairPassOn | fairWaiting | fairGrab | takeMutex _ | aborting _ => 1
  | _ => 0

def listens : Lock → Bool
  | tryListening | waiting | fairTry | fairPassOn | fairWaiting | dropListener => true
  | starve listener | takeMutex listener | aborting listener => listener
  | _ => false

def Aborted : Lock → Prop
  | aborting _ => True
  | _ => False

end Lock

namespace LockOutcome

/-- A ready operation has handed the lock to its caller. -/
def owns : LockOutcome → Nat
  | running f => f.owns
  | ready _ => 1
  | dropped => 0

def starved : LockOutcome → Nat
  | running f => f.starved
  | _ => 0

def listens : LockOutcome → Bool
  | running f => f.listens
  | ready listener => listener
  | dropped => false

def Aborted : LockOutcome → Prop
  | running f => f.Aborted
  | _ => False

end LockOutcome

/-- A mutex word that counts the owners of the lock bit, at most one, and the starved
operations. -/
structure Accounts (p : Platform) (state owners starved : Nat) : Prop where
  state_eq : state = owners + 2 * starved
  owners_le : owners ≤ 1
  state_lt : state < 2 ^ p.bits

namespace Accounts

variable {p : Platform} {state owners starved : Nat}

theorem new (p : Platform) : Accounts p 0 0 0 := ⟨rfl, by decide, Nat.two_pow_pos _⟩

theorem acquire (h : Accounts p state owners starved) (hFree : state % 2 = 0) :
    Accounts p (state + 1) (1 + owners) starved := by
  obtain ⟨hEq, hLe, hLt⟩ := h
  have := p.pow_bits
  exact ⟨by omega, by omega, by omega⟩

/-- `fetch_sub(1)` by the owner takes the lock bit away and nothing from the starved count. -/
theorem release (h : Accounts p state (1 + owners) starved) :
    Accounts p (wrappingSub p.bits state 1) owners starved := by
  obtain ⟨hEq, hLe, hLt⟩ := h
  rw [wrappingSub_of_le (by omega) hLt]
  exact ⟨by omega, by omega, by omega⟩

/-- `fetch_add(2)` cannot wrap where the abort that follows it is not reached. -/
theorem starve (h : Accounts p state owners starved) (hSmall : state ≤ p.usizeMax / 2) :
    Accounts p (wrappingAdd p.bits state 2) owners (1 + starved) := by
  obtain ⟨hEq, hLe, hLt⟩ := h
  have := p.pow_bits
  have := p.le_half
  unfold Platform.usizeMax at hSmall
  rw [wrappingAdd_of_lt (by omega)]
  exact ⟨by omega, by omega, by omega⟩

/-- `fetch_sub(2)` by a starved operation leaves the lock bit alone. -/
theorem giveBack (h : Accounts p state owners (1 + starved)) :
    Accounts p (wrappingSub p.bits state 2) owners starved := by
  obtain ⟨hEq, hLe, hLt⟩ := h
  rw [wrappingSub_of_le (by omega) hLt]
  exact ⟨by omega, by omega, by omega⟩

end Accounts

theorem Mutex.tryLock_eq_some {m m' : Mutex} (h : m.tryLock = some m') :
    m.state = 0 ∧ m' = { m with state := 1 } := by
  unfold tryLock at h
  split at h
  · exact ⟨‹_›, (Option.some.inj h).symm⟩
  · cases h

namespace Lock

variable {p : Platform} {i : Nat} {c : LockChoice} {m m' : Mutex} {f : Lock} {r : LockOutcome}

/-- One constructor for each transition of a lock operation, with the tests that lead to it. -/
inductive Acts (p : Platform) (i : Nat) (m : Mutex) :
    LockChoice → Lock → Mutex → LockOutcome → Prop
  | takeFast (elapsed : Bool) (hFree : m.state = 0) :
      Acts p i m (.go elapsed) unpolled { m with state := 1 } (.ready false)
  | toSlow (elapsed : Bool) : Acts p i m (.go elapsed) unpolled m (.running listen)
  | listen (elapsed : Bool) : Acts p i m (.go elapsed) listen
      { m with lockOps := m.lockOps.listen i } (.running tryListening)
  | takeListening (elapsed : Bool) (hFree : m.state = 0) :
      Acts p i m (.go elapsed) tryListening { m with state := 1 } (.ready true)
  | toWaiting (elapsed : Bool) (hHeld : m.state = 1) :
      Acts p i m (.go elapsed) tryListening m (.running waiting)
  | toStarve (elapsed : Bool) (hFree : m.state ≠ 0) (hHeld : m.state ≠ 1) :
      Acts p i m (.go elapsed) tryListening m (.running (starve true))
  | consume (elapsed : Bool) (hMark : (m.lockOps.markOf i).isSome) :
      Acts p i m (.go elapsed) waiting { m with lockOps := m.lockOps.remove i } (.running tryWoken)
  | takeWoken (elapsed : Bool) (hFree : m.state = 0) :
      Acts p i m (.go elapsed) tryWoken { m with state := 1 } (.ready false)
  | toPassOn (elapsed : Bool) (hHeld : m.state ≠ 1) :
      Acts p i m (.go elapsed) tryWoken m (.running passOn)
  | overtime (hHeld : m.state = 1) :
      Acts p i m (.go true) tryWoken m (.running (starve false))
  | toListen (hHeld : m.state = 1) : Acts p i m (.go false) tryWoken m (.running listen)
  | passOn (elapsed : Bool) :
      Acts p i m (.go elapsed) passOn m.notifyLockOps (.running (starve false))
  | abort (elapsed listener : Bool) : Acts p i m (.go elapsed) (starve listener)
      { m with state := wrappingAdd p.bits m.state 2 } (.running (aborting listener))
  | starveListening (elapsed : Bool) (hSmall : m.state ≤ p.usizeMax / 2) :
      Acts p i m (.go elapsed) (starve true) { m with state := wrappingAdd p.bits m.state 2 }
      (.running fairWaiting)
  | starve (elapsed : Bool) (hSmall : m.state ≤ p.usizeMax / 2) :
      Acts p i m (.go elapsed) (starve false) { m with state := wrappingAdd p.bits m.state 2 }
      (.running fairListen)
  | fairListen (elapsed : Bool) : Acts p i m (.go elapsed) fairListen
      { m with lockOps := m.lockOps.listen i } (.running fairTry)
  | fairTake (elapsed : Bool) (hAlone : m.state = 2) :
      Acts p i m (.go elapsed) fairTry { m with state := 3 } (.running (takeMutex true))
  | toFairWaiting (elapsed : Bool) (hHeld : m.state % 2 = 1) :
      Acts p i m (.go elapsed) fairTry m (.running fairWaiting)
  | toFairPassOn (elapsed : Bool) :
      Acts p i m (.go elapsed) fairTry m (.running fairPassOn)
  | fairPassOn (elapsed : Bool) :
      Acts p i m (.go elapsed) fairPassOn m.notifyLockOps (.running fairWaiting)
  | fairConsume (elapsed : Bool) (hMark : (m.lockOps.markOf i).isSome) :
      Acts p i m (.go elapsed) fairWaiting { m with lockOps := m.lockOps.remove i }
      (.running fairGrab)
  | fairGrab (elapsed : Bool) (hFree : m.state % 2 = 0) : Acts p i m (.go elapsed) fairGrab
      { m with state := m.state + 1 } (.running (takeMutex false))
  | fairGrabHeld (elapsed : Bool) (hHeld : m.state % 2 = 1) :
      Acts p i m (.go elapsed) fairGrab m (.running fairListen)
  | takeMutex (elapsed listener : Bool) : Acts p i m (.go elapsed) (takeMutex listener)
      { m with state := wrappingSub p.bits m.state 2 } (.ready listener)
  | dropListener (elapsed : Bool) : Acts p i m (.go elapsed) dropListener
      { m with lockOps := m.lockOps.discard i } .dropped
  | cancel : Acts p i m .drop unpolled m .dropped
  | cancelListener : Acts p i m .drop waiting { m with lockOps := m.lockOps.discard i } .dropped
  | cancelStarved : Acts p i m .drop fairWaiting
      { m with state := wrappingSub p.bits m.state 2 } (.running dropListener)

theorem poll_acts {elapsed : Bool} (h : f.poll p i elapsed m = some (m', r)) :
    Acts p i m (.go elapsed) f m' r := by
  cases f <;> simp only [poll] at h
  case unpolled =>
    split at h
    · obtain ⟨hFree, rfl⟩ := Mutex.tryLock_eq_some ‹_›
      cases h
      exact .takeFast _ hFree
    · cases h
      exact .toSlow _
  case tryListening =>
    split_ifs at h with hFree hHeld <;> cases h
    · exact .takeListening _ hFree
    · exact .toWaiting _ hHeld
    · exact .toStarve _ hFree hHeld
  case waiting =>
    split_ifs at h with hMark
    cases h
    exact .consume _ hMark
  case tryWoken =>
    split_ifs at h with hFree hHeld hElapsed <;> cases h
    · exact .takeWoken _ hFree
    · exact .toPassOn _ hHeld
    · subst hElapsed
      exact .overtime (not_not.mp hHeld)
    · rw [Bool.not_eq_true] at hElapsed
      subst hElapsed
      exact .toListen (not_not.mp hHeld)
  case starve listener =>
    split_ifs at h with hBig hListener <;> cases h
    · exact .abort _ _
    · subst hListener
      exact .starveListening _ (by omega)
    · rw [Bool.not_eq_true] at hListener
      subst hListener
      exact .starve _ (by omega)
  case fairTry =>
    split_ifs at h with hAlone hHeld <;> cases h
    · exact .fairTake _ hAlone
    · exact .toFairWaiting _ hHeld
    · exact .toFairPassOn _
  case fairWaiting =>
    split_ifs at h with hMark
    cases h
    exact .fairConsume _ hMark
  case fairGrab =>
    split_ifs at h with hFree <;> cases h
    · rw [or_one, hFree]
      exact .fairGrab _ hFree
    · have hHeld : m.state % 2 = 1 := by omega
      rw [or_one, hHeld]
      exact .fairGrabHeld _ hHeld
  case aborting => cases h
  all_goals
    cases h
    constructor

theorem step_acts (h : f.step p i c m = some (m', r)) : Acts p i m c f m' r := by
  cases c with
  | go elapsed => exact poll_acts h
  | drop => cases f <;> cases h <;> constructor

attribute [local simp] owns starved LockOutcome.owns LockOutcome.starved

theorem step_accounts (h : f.step p i c m = some (m', r)) (hAlive : ¬ r.Aborted)
    {owners starved : Nat} (hs : Accounts p m.state (f.owns + owners) (f.starved + starved)) :
    Accounts p m'.state (r.owns + owners) (r.starved + starved) := by
  cases step_acts h with
  | takeFast _ hFree | takeListening _ hFree | takeWoken _ hFree =>
    -- the compare_exchange(0, 1) of the fast path and of the hot loop
    rw [hFree] at hs
    simpa using hs.acquire rfl
  | abort => exact absurd trivial hAlive
  | starveListening _ hSmall | starve _ hSmall =>
    simpa using Accounts.starve (by simpa using hs) hSmall
  | fairTake _ hAlone =>
    rw [hAlone] at hs
    simpa using hs.acquire rfl
  | fairGrab _ hFree => simpa using hs.acquire hFree
  | takeMutex | cancelStarved => simpa using hs.giveBack
  | _ => exact hs

theorem step_access (h : f.step p i c m = some (m', r)) :
    Event.Access i m.lockOps f.listens m'.lockOps r.listens := by
  cases step_acts h with
  | listen | fairListen => exact .listen _
  | consume _ hMark | fairConsume _ hMark => exact .consume _ hMark
  | passOn | fairPassOn => exact .notify _ 1 _
  | dropListener | cancelListener => exact .discard _
  | _ => exact .leave _ _

theorem step_aborted (h : f.Aborted) : f.step p i c m = none := by
  cases f with
  | aborting listener => cases c <;> rfl
  | _ => cases h

/-- An action of a lock operation that is part of another operation changes the mutex there. -/
theorem step_within {σ : Type*} {put : Mutex → σ} {s' : σ}
    (h : ((f.step p i c m).map fun r => (put r.1, r.2)) = some (s', r)) :
    ∃ m', f.step p i c m = some (m', r) ∧ s' = put m' := by
  obtain ⟨⟨m', r'⟩, hStep, hEq⟩ := Option.map_eq_some_iff.mp h
  cases hEq
  exact ⟨m', hStep, rfl⟩

end Lock
end AsyncLock
