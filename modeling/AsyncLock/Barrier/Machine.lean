import AsyncLock.Mutex.Lock

/-! # The barrier

The objects are the `wait` futures and their results. Between the acquisition of the mutex and
the drop of its guard a future works on `count` and `generation_id` alone; every action of that
stretch is a step of its own. The memory also counts the arrivals, the polls that increment
`count`, and a future keeps the number of its arrival.
-/
namespace AsyncLock
set_option autoImplicit false

open Interleaving

structure Barrier where
  mutex : Mutex
  count : Nat
  generationId : Nat
  event : Event
  arrivals : Nat
deriving DecidableEq

namespace Barrier

def new : Barrier := ⟨Mutex.new, 0, 0, Event.new, 0⟩

@[simps] def unlockMutex (p : Platform) (s : Barrier) : Barrier :=
  { s with mutex := s.mutex.unlockUnchecked p }

@[simps] def notifyLockOps (s : Barrier) : Barrier := { s with mutex := s.mutex.notifyLockOps }

/-- `state.count += 1`, by the next arrival. -/
@[simps] def arrive (s : Barrier) : Barrier :=
  { s with count := s.count + 1, arrivals := s.arrivals + 1 }

/-- `state.count = 0` and the `wrapping_add(1)` of the `u64` generation. -/
@[simps] def advance (s : Barrier) : Barrier :=
  { s with count := 0, generationId := wrappingAdd 64 s.generationId 1 }

/-- Drops the listener that the finished `Lock` may still hold, with `lock.set(None)`. -/
def dropLock (i : Nat) (s : Barrier) (listener : Bool) : Barrier :=
  if listener then { s with mutex := { s.mutex with lockOps := s.mutex.lockOps.discard i } } else s

inductive After where
  | wait (localGen ticket : Nat)
  | ready (isLeader : Bool) (ticket : Nat)
deriving DecidableEq

/-- The points of `BarrierWaitInner::poll_with_strategy`: `lock` is `WaitState::Initial`,
`waiting` and `reacquiring` are the states of these names, the others are inside a critical
section. -/
inductive WaitPoint where
  | lock (f : Lock)
  | locked (listener : Bool)
  | arrive
  | compare (localGen ticket : Nat)
  | listen (localGen ticket : Nat)
  | advance (ticket : Nat)
  | notify (ticket : Nat)
  | unlock (after : After)
  | notifyLockOps (after : After)
  | waiting (localGen ticket : Nat)
  | reacquiring (localGen ticket : Nat) (f : Lock)
  | reacquired (localGen ticket : Nat) (listener : Bool)
  | recheck (localGen ticket : Nat)
deriving DecidableEq

inductive Object where
  | wait (blocking : Bool) (at_ : WaitPoint)
  | ready (isLeader : Bool) (ticket : Nat)
  | gone
deriving DecidableEq

inductive Call where
  | waitAs (blocking : Bool)
deriving DecidableEq

namespace Call

def wait : Call := waitAs false

def waitBlocking : Call := waitAs true

end Call

/-- `go` takes the next action of a poll or of a drop under way, with the value of
`elapsed() > 500µs` should the mutex ask for it, and with a wake-up for no reason should the
future sleep on the event; `drop` begins the drop of an unfinished future. -/
inductive Choice where
  | go (elapsed wake : Bool)
  | drop
deriving DecidableEq

def create (_ : Barrier) : Call → Object
  | .waitAs blocking => .wait blocking (.lock .unpolled)

def lockStep (p : Platform) (i : Nat) (c : Choice) (s : Barrier) (blocking : Bool) (f : Lock) :
    Option (Barrier × LockOutcome) :=
  match c with
  | .go elapsed _ => (f.step p i (.go elapsed) s.mutex).map fun r => ({ s with mutex := r.1 }, r.2)
  | .drop =>
    if blocking then none
    else (f.step p i .drop s.mutex).map fun r => ({ s with mutex := r.1 }, r.2)

def lockOutcome (blocking : Bool) : LockOutcome → Object
  | .running f => .wait blocking (.lock f)
  | .ready listener => .wait blocking (.locked listener)
  | .dropped => .gone

def reacquireOutcome (blocking : Bool) (localGen ticket : Nat) : LockOutcome → Object
  | .running f => .wait blocking (.reacquiring localGen ticket f)
  | .ready listener => .wait blocking (.reacquired localGen ticket listener)
  | .dropped => .gone

def afterUnlock (blocking : Bool) : After → Object
  | .wait localGen ticket => .wait blocking (.waiting localGen ticket)
  | .ready isLeader ticket => .ready isLeader ticket

/-- `BarrierWaitInner::poll_with_strategy` for a barrier of `n`, and the drop of the future. -/
def stepWait (n : Nat) (p : Platform) (i : Nat) (c : Choice) (s : Barrier) (blocking : Bool) :
    WaitPoint → Option (Barrier × Object)
  | .lock f => (lockStep p i c s blocking f).map fun r => (r.1, lockOutcome blocking r.2)
  | .locked listener => some (dropLock i s listener, .wait blocking .arrive)
  | .arrive => some (s.arrive, .wait blocking (.compare s.generationId (s.arrivals + 1)))
  | .compare localGen ticket =>
    if s.count < n then some (s, .wait blocking (.listen localGen ticket))
    else some (s, .wait blocking (.advance ticket))
  | .listen localGen ticket =>
    some ({ s with event := s.event.listen i }, .wait blocking (.unlock (.wait localGen ticket)))
  | .advance ticket => some (s.advance, .wait blocking (.notify ticket))
  | .notify ticket =>
    some ({ s with event := s.event.notify p.usizeMax },
      .wait blocking (.unlock (.ready true ticket)))
  | .unlock after => some (s.unlockMutex p, .wait blocking (.notifyLockOps after))
  | .notifyLockOps after => some (s.notifyLockOps, afterUnlock blocking after)
  | .waiting localGen ticket =>
    match c with
    | .go _ wake =>
      if (s.event.markOf i).isSome ∨ wake then
        some ({ s with event := s.event.remove i },
          .wait blocking (.reacquiring localGen ticket .unpolled))
      else none
    | .drop =>
      if blocking then none else some ({ s with event := s.event.discard i }, .gone)
  | .reacquiring localGen ticket f =>
    (lockStep p i c s blocking f).map fun r =>
      (r.1, reacquireOutcome blocking localGen ticket r.2)
  | .reacquired localGen ticket listener =>
    some (dropLock i s listener, .wait blocking (.recheck localGen ticket))
  | .recheck localGen ticket =>
    if localGen = s.generationId ∧ s.count < n then
      some (s, .wait blocking (.listen localGen ticket))
    else some (s, .wait blocking (.unlock (.ready false ticket)))

def step (n : Nat) (p : Platform) (i : Nat) (c : Choice) (s : Barrier) :
    Object → Option (Barrier × Object × List Object)
  | .wait blocking at_ => (stepWait n p i c s blocking at_).map fun r => (r.1, r.2, [])
  | .ready _ _ | .gone => none

def machine (n : Nat) (p : Platform) : Machine Barrier Object Call Choice := ⟨create, step n p⟩

def initial : State Barrier Object := ⟨new, []⟩

/-! ## What a step can do -/

inductive Acts (n : Nat) (p : Platform) (i : Nat) (s : Barrier) (blocking : Bool) :
    WaitPoint → Barrier → Object → Prop
  | lock (f : Lock) (d : LockChoice) (m : Mutex) (r : LockOutcome)
      (hLock : f.step p i d s.mutex = some (m, r)) :
      Acts n p i s blocking (.lock f) { s with mutex := m } (lockOutcome blocking r)
  | locked (listener : Bool) : Acts n p i s blocking (.locked listener) (dropLock i s listener)
      (.wait blocking .arrive)
  | arrive : Acts n p i s blocking .arrive s.arrive
      (.wait blocking (.compare s.generationId (s.arrivals + 1)))
  | follow (localGen ticket : Nat) (hCount : s.count < n) :
      Acts n p i s blocking (.compare localGen ticket) s (.wait blocking (.listen localGen ticket))
  | lead (localGen ticket : Nat) (hCount : n ≤ s.count) :
      Acts n p i s blocking (.compare localGen ticket) s (.wait blocking (.advance ticket))
  | listen (localGen ticket : Nat) : Acts n p i s blocking (.listen localGen ticket)
      { s with event := s.event.listen i } (.wait blocking (.unlock (.wait localGen ticket)))
  | advance (ticket : Nat) :
      Acts n p i s blocking (.advance ticket) s.advance (.wait blocking (.notify ticket))
  | notify (ticket : Nat) : Acts n p i s blocking (.notify ticket)
      { s with event := s.event.notify p.usizeMax } (.wait blocking (.unlock (.ready true ticket)))
  | unlock (after : After) : Acts n p i s blocking (.unlock after) (s.unlockMutex p)
      (.wait blocking (.notifyLockOps after))
  | notifyLockOps (after : After) : Acts n p i s blocking (.notifyLockOps after) s.notifyLockOps
      (afterUnlock blocking after)
  | wake (localGen ticket : Nat) : Acts n p i s blocking (.waiting localGen ticket)
      { s with event := s.event.remove i }
      (.wait blocking (.reacquiring localGen ticket .unpolled))
  | cancel (localGen ticket : Nat) : Acts n p i s blocking (.waiting localGen ticket)
      { s with event := s.event.discard i } .gone
  | relock (localGen ticket : Nat) (f : Lock) (d : LockChoice) (m : Mutex) (r : LockOutcome)
      (hLock : f.step p i d s.mutex = some (m, r)) :
      Acts n p i s blocking (.reacquiring localGen ticket f) { s with mutex := m }
      (reacquireOutcome blocking localGen ticket r)
  | relocked (localGen ticket : Nat) (listener : Bool) :
      Acts n p i s blocking (.reacquired localGen ticket listener) (dropLock i s listener)
      (.wait blocking (.recheck localGen ticket))
  | again (localGen ticket : Nat) (hGen : localGen = s.generationId) :
      Acts n p i s blocking (.recheck localGen ticket) s
      (.wait blocking (.listen localGen ticket))
  | leave (localGen ticket : Nat) (hOver : localGen ≠ s.generationId ∨ n ≤ s.count) :
      Acts n p i s blocking (.recheck localGen ticket) s
      (.wait blocking (.unlock (.ready false ticket)))

variable {n : Nat} {p : Platform} {i : Nat} {c : Choice} {s s' : Barrier} {o o' : Object}
  {new : List Object}

theorem lockStep_eq_some {blocking : Bool} {f : Lock} {r : LockOutcome}
    (h : lockStep p i c s blocking f = some (s', r)) :
    ∃ d m, f.step p i d s.mutex = some (m, r) ∧ s' = { s with mutex := m } := by
  cases c with
  | go elapsed wake => exact ⟨_, Lock.step_within h⟩
  | drop =>
    simp only [lockStep] at h
    split at h
    · cases h
    · exact ⟨_, Lock.step_within h⟩

theorem acts_wait {blocking : Bool} {at_ : WaitPoint}
    (h : stepWait n p i c s blocking at_ = some (s', o')) : Acts n p i s blocking at_ s' o' := by
  cases at_ with
  | lock f =>
    obtain ⟨⟨s₁, r⟩, hLock, hEq⟩ := Option.map_eq_some_iff.mp h
    cases hEq
    obtain ⟨d, m, hStep, rfl⟩ := lockStep_eq_some hLock
    exact .lock _ _ _ _ hStep
  | compare localGen ticket =>
    simp only [stepWait] at h
    split at h <;> cases h
    · exact .follow _ _ ‹_›
    · exact .lead _ _ (by omega)
  | waiting localGen ticket =>
    cases c with
    | go elapsed wake =>
      simp only [stepWait] at h
      split at h <;> cases h
      exact .wake _ _
    | drop =>
      simp only [stepWait] at h
      split at h <;> cases h
      exact .cancel _ _
  | reacquiring localGen ticket f =>
    obtain ⟨⟨s₁, r⟩, hLock, hEq⟩ := Option.map_eq_some_iff.mp h
    cases hEq
    obtain ⟨d, m, hStep, rfl⟩ := lockStep_eq_some hLock
    exact .relock _ _ _ _ _ _ hStep
  | recheck localGen ticket =>
    simp only [stepWait] at h
    split at h <;> cases h
    · rename_i hSame
      exact .again _ _ hSame.1
    · rename_i hOver
      exact .leave _ _ (by omega)
  | locked | arrive | listen | advance | notify | unlock | notifyLockOps | reacquired =>
    cases h
    constructor

theorem step_acts (h : step n p i c s o = some (s', o', new)) :
    ∃ blocking at_, o = .wait blocking at_ ∧ Acts n p i s blocking at_ s' o' ∧ new = [] := by
  cases o with
  | wait blocking at_ =>
    obtain ⟨⟨s₁, q⟩, hStep, hEq⟩ := Option.map_eq_some_iff.mp h
    cases hEq
    exact ⟨blocking, at_, rfl, acts_wait hStep, rfl⟩
  | _ => cases h

end Barrier
end AsyncLock
