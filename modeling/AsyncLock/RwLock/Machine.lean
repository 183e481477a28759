import AsyncLock.RwLock.Raw

/-! # The reader-writer lock

The objects are calls of the `try_` operations, the futures, the guards and what is left of
them while an unlock or a downgrade is under way. A guard that excludes writers other than
itself carries the position of the call or future that acquired the lock: it stays the same
through `try_upgrade`, `upgrade` and `downgrade_to_upgradable`.
-/
namespace AsyncLock.RwLock
set_option autoImplicit false

open Interleaving

inductive TryReadPoint where
  | load
  | loop (state : Nat)
deriving DecidableEq

inductive TryUpgradablePoint where
  | lock
  | load
  | exchange (state : Nat)
deriving DecidableEq

/-- With the flag of the listener that the finished `acquire` may still hold. -/
inductive UpgradablePoint where
  | acquire (f : Lock)
  | load (listener : Bool)
  | exchange (listener : Bool) (state : Nat)
deriving DecidableEq

inductive TryWritePoint where
  | lock
  | exchange
deriving DecidableEq

/-- A `RawWrite` in `Acquiring`, with the actions that follow: `fetch_or`, the first `listen()`,
and the drop of the finished `Lock` when its variant is replaced. -/
inductive WritePoint where
  | acquiring (f : Lock)
  | setBit (listener : Bool)
  | listen (listener : Bool)
  | replace (listener acquired : Bool)
deriving DecidableEq

inductive WaitingKind where
  | write
  | upgrade
deriving DecidableEq

/-- What is left to do of `write_unlock`, and of the drop of the future that calls it. -/
inductive WriteUnlockPoint where
  | notifyNoWriter
  | unlockMutex
  | notifyLockOps
  | dropListener
deriving DecidableEq

inductive DowngradeWritePoint where
  | unlockMutex
  | notifyLockOps
  | notifyNoWriter
deriving DecidableEq

/-- `readDone`, `upgradableDone` and `writeDone` are finished futures that have not been dropped;
`unlocking` and `notifyingLockOps` the two halves of a `mutex.unlock_unchecked()` that is the
last thing a call does. -/
inductive Object where
  | tryRead (arc : Bool) (at_ : TryReadPoint)
  | read (form : Form) (f : Read)
  | readDone (listener : Bool)
  | readGuard (arc : Bool)
  | readUnlocking
  | tryUpgradable (arc : Bool) (at_ : TryUpgradablePoint)
  | upgradableRead (form : Form) (at_ : UpgradablePoint)
  | upgradableDone (listener : Bool)
  | upgradableGuard (arc : Bool) (chain : Nat)
  | upgradableUnlocking
  | upgradableDowngrading (arc : Bool)
  | tryWrite (arc : Bool) (at_ : TryWritePoint)
  | write (form : Form) (at_ : WritePoint)
  | waiting (kind : WaitingKind) (form : Form) (chain : Nat) (w : Waiting)
  | writeDone (listener : Bool)
  | writeGuard (arc : Bool) (chain : Nat)
  | writeUnlocking (listener : Bool) (at_ : WriteUnlockPoint)
  | writeDowngrading (arc : Bool) (at_ : DowngradeWritePoint)
  | unlocking
  | notifyingLockOps
  | aborted
  | gone
deriving DecidableEq

inductive Call where
  | tryReadAs (arc : Bool)
  | readAs (form : Form)
  | tryUpgradableReadAs (arc : Bool)
  | upgradableReadAs (form : Form)
  | tryWriteAs (arc : Bool)
  | writeAs (form : Form)
deriving DecidableEq

namespace Call

def tryRead : Call := tryReadAs false

def tryReadArc : Call := tryReadAs true

def read : Call := readAs ⟨false, false⟩

def readBlocking : Call := readAs ⟨false, true⟩

def readArc : Call := readAs ⟨true, false⟩

def readArcBlocking : Call := readAs ⟨true, true⟩

def tryUpgradableRead : Call := tryUpgradableReadAs false

def tryUpgradableReadArc : Call := tryUpgradableReadAs true

def upgradableRead : Call := upgradableReadAs ⟨false, false⟩

def upgradableReadBlocking : Call := upgradableReadAs ⟨false, true⟩

def upgradableReadArc : Call := upgradableReadAs ⟨true, false⟩

def upgradableReadArcBlocking : Call := upgradableReadAs ⟨true, true⟩

def tryWrite : Call := tryWriteAs false

def tryWriteArc : Call := tryWriteAs true

def write : Call := writeAs ⟨false, false⟩

def writeBlocking : Call := writeAs ⟨false, true⟩

def writeArc : Call := writeAs ⟨true, false⟩

def writeArcBlocking : Call := writeAs ⟨true, true⟩

end Call

/-- `go` takes the next action of a call, a poll or a drop under way; the others are what an
owner may do with a future or a guard. -/
inductive Choice (α : Type*) where
  | go (elapsed : Bool)
  | drop
  | downgrade
  | tryUpgrade
  | upgrade (blocking : Bool)
  | downgradeToUpgradable
  | write (value : α)
deriving DecidableEq

variable {α : Type*}

/-- `read()` loads the state word; the other calls do nothing before their first action. -/
def create (s : RwLock α) : Call → Object
  | .tryReadAs arc => .tryRead arc .load
  | .readAs form => .read form (.unpolled s.state)
  | .tryUpgradableReadAs arc => .tryUpgradable arc .lock
  | .upgradableReadAs form => .upgradableRead form (.acquire .unpolled)
  | .tryWriteAs arc => .tryWrite arc .lock
  | .writeAs form => .write form (.acquiring .unpolled)

/-- An action of the `Lock` that an upgradable read or a write begins with. A blocking call is
not dropped before it is ready. -/
def lockStep (p : Platform) (i : Nat) (c : Choice α) (s : RwLock α) (form : Form) (f : Lock) :
    Option (RwLock α × LockOutcome) :=
  match c with
  | .go elapsed => (f.step p i (.go elapsed) s.mutex).map fun r => ({ s with mutex := r.1 }, r.2)
  | .drop =>
    if form.blocking then none
    else (f.step p i .drop s.mutex).map fun r => ({ s with mutex := r.1 }, r.2)
  | _ => none

def discardLockOps (i : Nat) (s : RwLock α) (listener : Bool) : RwLock α :=
  if listener then { s with mutex := { s.mutex with lockOps := s.mutex.lockOps.discard i } } else s

def discardNoReaders (i : Nat) (s : RwLock α) (listener : Bool) : RwLock α :=
  if listener then { s with noReaders := s.noReaders.discard i } else s

def discardNoWriter (i : Nat) (s : RwLock α) (listener : Bool) : RwLock α :=
  if listener then { s with noWriter := s.noWriter.discard i } else s

@[simp] theorem discardLockOps_state (i : Nat) (s : RwLock α) (listener : Bool) :
    (discardLockOps i s listener).state = s.state ∧
      (discardLockOps i s listener).mutex.state = s.mutex.state := by
  cases listener <;> exact ⟨rfl, rfl⟩

@[simp] theorem discardNoReaders_state (i : Nat) (s : RwLock α) (listener : Bool) :
    (discardNoReaders i s listener).state = s.state ∧
      (discardNoReaders i s listener).mutex.state = s.mutex.state := by
  cases listener <;> exact ⟨rfl, rfl⟩

@[simp] theorem discardNoWriter_state (i : Nat) (s : RwLock α) (listener : Bool) :
    (discardNoWriter i s listener).state = s.state ∧
      (discardNoWriter i s listener).mutex.state = s.mutex.state := by
  cases listener <;> exact ⟨rfl, rfl⟩

def stepTryRead (p : Platform) (s : RwLock α) (arc : Bool) : TryReadPoint → RwLock α × Object
  | .load => (s, .tryRead arc (.loop s.state))
  | .loop state =>
    if state &&& writerBit ≠ 0 then (s, .gone)
    else if state > p.isizeMax then (s, .aborted)
    else
      match s.compareExchange state (state + oneReader) with
      | some s' => (s', .readGuard arc)
      | none => (s, .tryRead arc (.loop s.state))

def readOutcome (form : Form) : ReadOutcome → Object × List Object
  | .running f => (.read form f, [])
  | .ready listener => (.readDone listener, [.readGuard form.arc])
  | .aborted => (.aborted, [])

def stepTryUpgradable (p : Platform) (i : Nat) (s : RwLock α) (arc : Bool) :
    TryUpgradablePoint → RwLock α × Object
  | .lock =>
    match s.tryLockMutex with
    | some s' => (s', .tryUpgradable arc .load)
    | none => (s, .gone)
  | .load =>
    if s.state > p.isizeMax then (s, .aborted) else (s, .tryUpgradable arc (.exchange s.state))
  | .exchange state =>
    match s.compareExchange state (wrappingAdd p.bits state oneReader) with
    | some s' => (s', .upgradableGuard arc i)
    | none => (s, .tryUpgradable arc (.exchange s.state))

def upgradableOutcome (form : Form) : LockOutcome → Object
  | .running f => .upgradableRead form (.acquire f)
  | .ready listener => .upgradableRead form (.load listener)
  | .dropped => .gone

def stepUpgradableRead (p : Platform) (i : Nat) (c : Choice α) (s : RwLock α) (form : Form) :
    UpgradablePoint → Option (RwLock α × Object × List Object)
  | .acquire f =>
    (lockStep p i c s form f).map fun r => (r.1, upgradableOutcome form r.2, [])
  | .load listener =>
    if s.state > p.isizeMax then some (s, .aborted, [])
    else some (s, .upgradableRead form (.exchange listener s.state), [])
  | .exchange listener state =>
    match s.compareExchange state (wrappingAdd p.bits state oneReader) with
    | some s' => some (s', .upgradableDone listener, [.upgradableGuard form.arc i])
    | none => some (s, .upgradableRead form (.exchange listener s.state), [])

def stepTryWrite (i : Nat) (s : RwLock α) (arc : Bool) : TryWritePoint → RwLock α × Object
  | .lock =>
    match s.tryLockMutex with
    | some s' => (s', .tryWrite arc .exchange)
    | none => (s, .gone)
  | .exchange =>
    match s.compareExchange 0 writerBit with
    | some s' => (s', .writeGuard arc i)
    | none => (s, .unlocking)

def writeOutcome (form : Form) : LockOutcome → Object
  | .running f => .write form (.acquiring f)
  | .ready listener => .write form (.setBit listener)
  | .dropped => .gone

/-- The part of `RawWrite::poll_with_strategy` that sets `WRITER_BIT`. -/
def stepWrite (p : Platform) (i : Nat) (c : Choice α) (s : RwLock α) (form : Form) :
    WritePoint → Option (RwLock α × Object × List Object)
  | .acquiring f => (lockStep p i c s form f).map fun r => (r.1, writeOutcome form r.2, [])
  | .setBit listener =>
    if s.state = writerBit then some (s.setWriterBit, .write form (.replace listener true), [])
    else some (s.setWriterBit, .write form (.listen listener), [])
  | .listen listener =>
    some ({ s with noReaders := s.noReaders.listen i }, .write form (.replace listener false), [])
  | .replace listener acquired =>
    if acquired then
      some (discardLockOps i s listener, .writeDone false, [.writeGuard form.arc i])
    else some (discardLockOps i s listener, .waiting .write form i (.check true), [])

def waitingOutcome (kind : WaitingKind) (form : Form) (chain : Nat) :
    WaitingOutcome → Object × List Object
  | .running w => (.waiting kind form chain w, [])
  | .ready listener => (.writeDone listener, [.writeGuard form.arc chain])

/-- The `WaitingReaders` part of `RawWrite::poll_with_strategy`, `RawUpgrade::poll_with_strategy`,
and the drop of either: `write_unlock`, and then the listener. -/
def stepWaiting (i : Nat) (c : Choice α) (s : RwLock α) (kind : WaitingKind) (form : Form)
    (chain : Nat) (w : Waiting) : Option (RwLock α × Object × List Object) :=
  match c, w with
  | .go _, w =>
    (w.poll form.blocking i s).map fun r =>
      (r.1, (waitingOutcome kind form chain r.2).1, (waitingOutcome kind form chain r.2).2)
  | .drop, .idle listener =>
    if form.blocking then none
    else some (s.clearWriterBit, .writeUnlocking listener .notifyNoWriter, [])
  | _, _ => none

def stepUpgradableGuard (p : Platform) (c : Choice α) (s : RwLock α) (arc : Bool) (chain : Nat) :
    Option (RwLock α × Object) :=
  match c with
  | .drop =>
    if lastReader s.state then some (s.fetchSub p oneReader, .upgradableUnlocking)
    else some (s.fetchSub p oneReader, .unlocking)
  | .downgrade => some (s.unlockMutex p, .upgradableDowngrading arc)
  | .tryUpgrade =>
    match s.compareExchange oneReader writerBit with
    | some s' => some (s', .writeGuard arc chain)
    | none => some (s, .upgradableGuard arc chain)
  | .upgrade blocking =>
    some (s.fetchSub p (oneReader - writerBit),
      .waiting .upgrade ⟨arc, blocking⟩ chain (.idle false))
  | _ => none

def stepWriteGuard (p : Platform) (c : Choice α) (s : RwLock α) (arc : Bool) (chain : Nat) :
    Option (RwLock α × Object) :=
  match c with
  | .drop => some (s.clearWriterBit, .writeUnlocking false .notifyNoWriter)
  | .downgrade =>
    some (s.fetchAdd p (oneReader - writerBit), .writeDowngrading arc .unlockMutex)
  | .downgradeToUpgradable =>
    some (s.fetchAdd p (oneReader - writerBit), .upgradableGuard arc chain)
  | .write value => some ({ s with value := value }, .writeGuard arc chain)
  | _ => none

def stepWriteUnlocking (p : Platform) (i : Nat) (s : RwLock α) (listener : Bool) :
    WriteUnlockPoint → RwLock α × Object
  | .notifyNoWriter => (s.notifyNoWriter, .writeUnlocking listener .unlockMutex)
  | .unlockMutex => (s.unlockMutex p, .writeUnlocking listener .notifyLockOps)
  | .notifyLockOps => (s.notifyLockOps, .writeUnlocking listener .dropListener)
  | .dropListener => (discardNoReaders i s listener, .gone)

def stepWriteDowngrading (p : Platform) (s : RwLock α) (arc : Bool) :
    DowngradeWritePoint → RwLock α × Object
  | .unlockMutex => (s.unlockMutex p, .writeDowngrading arc .notifyLockOps)
  | .notifyLockOps => (s.notifyLockOps, .writeDowngrading arc .notifyNoWriter)
  | .notifyNoWriter => (s.notifyNoWriter, .readGuard arc)

def alone (r : RwLock α × Object) : RwLock α × Object × List Object := (r.1, r.2, [])

def step (p : Platform) (i : Nat) (c : Choice α) (s : RwLock α) :
    Object → Option (RwLock α × Object × List Object)
  | .tryRead arc at_ => some (alone (stepTryRead p s arc at_))
  | .read form f =>
    match c with
    | .go _ => (f.poll p i s).map fun r => (r.1, readOutcome form r.2)
    | .drop => if form.blocking then none else (f.drop i s).map fun s' => (s', .gone, [])
    | _ => none
  | .readDone listener => some (discardNoWriter i s listener, .gone, [])
  | .readGuard _ =>
    match c with
    | .drop =>
      if lastReader s.state then some (s.fetchSub p oneReader, .readUnlocking, [])
      else some (s.fetchSub p oneReader, .gone, [])
    | _ => none
  | .readUnlocking => some (s.notifyNoReaders, .gone, [])
  | .tryUpgradable arc at_ => some (alone (stepTryUpgradable p i s arc at_))
  | .upgradableRead form at_ => stepUpgradableRead p i c s form at_
  | .upgradableDone listener => some (discardLockOps i s listener, .gone, [])
  | .upgradableGuard arc chain => (stepUpgradableGuard p c s arc chain).map alone
  | .upgradableUnlocking => some (s.notifyNoReaders, .unlocking, [])
  | .upgradableDowngrading arc => some (s.notifyLockOps, .readGuard arc, [])
  | .tryWrite arc at_ => some (alone (stepTryWrite i s arc at_))
  | .write form at_ => stepWrite p i c s form at_
  | .waiting kind form chain w => stepWaiting i c s kind form chain w
  | .writeDone listener => some (discardNoReaders i s listener, .gone, [])
  | .writeGuard arc chain => (stepWriteGuard p c s arc chain).map alone
  | .writeUnlocking listener at_ => some (alone (stepWriteUnlocking p i s listener at_))
  | .writeDowngrading arc at_ => some (alone (stepWriteDowngrading p s arc at_))
  | .unlocking => some (s.unlockMutex p, .notifyingLockOps, [])
  | .notifyingLockOps => some (s.notifyLockOps, .gone, [])
  | .aborted | .gone => none

def machine (p : Platform) : Machine (RwLock α) Object Call (Choice α) := ⟨create, step p⟩

def initial (value : α) : State (RwLock α) Object := ⟨RwLock.new value, []⟩

end AsyncLock.RwLock
