import AsyncLock.Mutex.Lock

/-! # The raw reader-writer lock

The lock is an inner mutex, held by the upgradable reader or the writer, and a state word: the
low bit is set when a writer holds the lock or is trying to acquire it, the upper bits count
the active readers. `Read` and `Waiting` are a read future and a writer that waits for the
readers to leave, at the points between their atomic actions.
-/
namespace AsyncLock
set_option autoImplicit false

open Interleaving

structure RwLock (α : Type*) where
  mutex : Mutex
  noReaders : Event
  noWriter : Event
  state : Nat
  value : α
deriving DecidableEq

namespace RwLock

variable {α : Type*}

def writerBit : Nat := 1

def oneReader : Nat := 2

def new (value : α) : RwLock α := ⟨Mutex.new, Event.new, Event.new, 0, value⟩

def compareExchange (s : RwLock α) (expected new : Nat) : Option (RwLock α) :=
  if s.state = expected then some { s with state := new } else none

@[simps] def fetchAdd (p : Platform) (s : RwLock α) (n : Nat) : RwLock α :=
  { s with state := wrappingAdd p.bits s.state n }

@[simps] def fetchSub (p : Platform) (s : RwLock α) (n : Nat) : RwLock α :=
  { s with state := wrappingSub p.bits s.state n }

@[simps] def setWriterBit (s : RwLock α) : RwLock α := { s with state := s.state ||| writerBit }

/-- `fetch_and(!WRITER_BIT)`. -/
@[simps] def clearWriterBit (s : RwLock α) : RwLock α :=
  { s with state := Nat.ldiff s.state writerBit }

/-- The value before a `fetch_sub(ONE_READER)` says that the last reader leaves. -/
def lastReader (state : Nat) : Bool := Nat.ldiff state writerBit = oneReader

/-- `mutex.try_lock()`, of which only the lock bit is kept. -/
def tryLockMutex (s : RwLock α) : Option (RwLock α) :=
  s.mutex.tryLock.map fun mutex => { s with mutex := mutex }

/-- The first half of `mutex.unlock_unchecked()`. -/
@[simps] def unlockMutex (p : Platform) (s : RwLock α) : RwLock α :=
  { s with mutex := s.mutex.unlockUnchecked p }

/-- The second half of `mutex.unlock_unchecked()`. -/
@[simps] def notifyLockOps (s : RwLock α) : RwLock α := { s with mutex := s.mutex.notifyLockOps }

@[simps] def notifyNoReaders (s : RwLock α) : RwLock α :=
  { s with noReaders := s.noReaders.notify 1 }

@[simps] def notifyNoWriter (s : RwLock α) : RwLock α := { s with noWriter := s.noWriter.notify 1 }

end RwLock

/-! ## Reading -/

/-- A read future, with its last observed state where this is read again, and whether its
listener is `Some` where this does not follow. -/
inductive Read where
  | unpolled (state : Nat)
  | loop (state : Nat) (listener : Bool)
  | passOn
  | reload (listener : Bool)
deriving DecidableEq

inductive ReadOutcome where
  | running (f : Read)
  | ready (listener : Bool)
  | aborted
deriving DecidableEq

namespace Read

variable {α : Type*}

/-- One action of `RawRead::poll_with_strategy`. A poll of the listener that finds the entry
unmarked returns `Pending`, changes nothing, and is where the next poll goes on. -/
def poll (p : Platform) (i : Nat) (s : RwLock α) : Read → Option (RwLock α × ReadOutcome)
  | unpolled state => some (s, .running (loop state false))
  | loop state listener =>
    if state &&& RwLock.writerBit = 0 then
      if state > p.isizeMax then some (s, .aborted)
      else
        match s.compareExchange state (state + RwLock.oneReader) with
        | some s' => some (s', .ready listener)
        | none => some (s, .running (loop s.state listener))
    else if listener then
      if (s.noWriter.markOf i).isSome then
        some ({ s with noWriter := s.noWriter.remove i }, .running passOn)
      else none
    else some ({ s with noWriter := s.noWriter.listen i }, .running (reload true))
  | passOn => some (s.notifyNoWriter, .running (reload false))
  | reload listener => some (s, .running (loop s.state listener))

def drop (i : Nat) (s : RwLock α) : Read → Option (RwLock α)
  | unpolled _ => some s
  | loop state listener =>
    if listener ∧ state &&& RwLock.writerBit ≠ 0 then
      some { s with noWriter := s.noWriter.discard i }
    else none
  | _ => none

def listens : Read → Bool
  | loop _ listener | reload listener => listener
  | _ => false

/-- Queued, with no look at the state before its entry is marked. -/
def asleep : Read → Nat
  | loop state true => state % 2
  | _ => 0

end Read

/-! ## Waiting for the readers -/

/-- A `RawWrite` in `WaitingReaders` or an unfinished `RawUpgrade`. The listener is `Some` where
the flag says so, and at `wait`. -/
inductive Waiting where
  | idle (listener : Bool)
  | check (listener : Bool)
  | listen
  | wait
deriving DecidableEq

inductive WaitingOutcome where
  | running (w : Waiting)
  | ready (listener : Bool)
deriving DecidableEq

namespace Waiting

variable {α : Type*}

/-- One action of the loop of `RawUpgrade::poll_with_strategy`, which is that of `RawWrite`. A
blocking call sleeps at `wait`; another returns `Pending` from there to `idle`. -/
def poll (blocking : Bool) (i : Nat) (s : RwLock α) :
    Waiting → Option (RwLock α × WaitingOutcome)
  | idle listener => some (s, .running (check listener))
  | check listener =>
    if s.state = RwLock.writerBit then some (s, .ready listener)
    else if listener then some (s, .running wait)
    else some (s, .running listen)
  | listen => some ({ s with noReaders := s.noReaders.listen i }, .running (check true))
  | wait =>
    if (s.noReaders.markOf i).isSome then
      some ({ s with noReaders := s.noReaders.remove i }, .running (check false))
    else if blocking then none
    else some (s, .running (idle true))

def listens : Waiting → Bool
  | idle listener | check listener => listener
  | listen => false
  | wait => true

/-- Queued, with no look at the state before its entry is marked, unless it is polled again. -/
def asleep : Waiting → Nat
  | idle listener => listener.toNat
  | wait => 1
  | _ => 0

end Waiting
end AsyncLock
