import AsyncLock.Mutex.Host
import AsyncLock.RwLock.ReaderWakeup

/-! # The inner mutex of the reader-writer lock

Upgradable readers and writers queue on the inner mutex, whose lock bit then stays with a guard, a
pending upgrade or a waiting writer, through conversions and over the end of the future that has
taken it. It is unlocked by hand in five places. All of them use the mutex as its own guards do, so
none of those who queue on it is forgotten; together with the other two queues this says that
the lock does not come to a state in which everybody sleeps and nobody has been notified.
-/
namespace AsyncLock.RwLock
set_option autoImplicit false

open Interleaving Mutex

namespace Object

/-- What an object has to do with the inner mutex. -/
def role : Object → Role
  | upgradableRead _ (.acquire f) | write _ (.acquiring f) => .locking f
  | upgradableRead _ (.load listener) | upgradableRead _ (.exchange listener _) => .owner listener
  | write _ (.setBit listener) | write _ (.listen listener) => .owner listener
  | write _ (.replace listener _) => .owner listener
  | upgradableDone listener => .apart listener
  | tryUpgradable _ .load | tryUpgradable _ (.exchange _) | tryWrite _ .exchange => .owner false
  | upgradableGuard _ _ | upgradableUnlocking | waiting _ _ _ _ | writeGuard _ _ => .owner false
  | unlocking | writeUnlocking _ .notifyNoWriter | writeUnlocking _ .unlockMutex => .owner false
  | writeDowngrading _ .unlockMutex => .owner false
  | upgradableDowngrading _ | notifyingLockOps => .unlocking
  | writeUnlocking _ .notifyLockOps | writeDowngrading _ .notifyLockOps => .unlocking
  | aborted => .locking (.aborting false)
  | _ => .apart false

theorem role_aborted {o : Object} : o.role.Aborted ↔ o.Aborted := by
  cases o with
  | upgradableRead form at_ | write form at_ => cases at_ <;> exact Iff.rfl
  | tryUpgradable arc at_ | tryWrite arc at_ | writeUnlocking _ at_ | writeDowngrading _ at_ =>
    cases at_ <;> exact Iff.rfl
  | _ => exact Iff.rfl

/-- Asleep until the entry that it has in one of the queues is marked. -/
def Sleeps : Object → Prop
  | read form f => (read form f).ReaderParked
  | waiting kind form chain w => (waiting kind form chain w).Parked
  | upgradableRead form at_ => (upgradableRead form at_).role.Parked
  | write form at_ => (write form at_).role.Parked
  | _ => False

/-- The entry of object `j` has been marked, in the queue in which it sleeps. -/
def Woken {α : Type*} (s : RwLock α) (j : Nat) : Object → Prop
  | read _ _ => (s.noWriter.markOf j).isSome
  | waiting _ _ _ _ => (s.noReaders.markOf j).isSome
  | upgradableRead _ _ | write _ _ => (s.mutex.lockOps.markOf j).isSome
  | _ => False

/-- Has the lock, or is an upgrade that has not begun to wait. -/
def Holds : Object → Prop
  | readGuard _ | upgradableGuard _ _ | writeGuard _ _ => True
  | waiting _ _ _ w => w = .idle false
  | _ => False

/-- Of those at rest that do not hold the lock, only a writer that waits for the readers owns the
mutex. -/
theorem Resting.owner {o : Object} (h : o.Resting) (hHolds : ¬ o.Holds) :
    o.reader = 0 ∧ (o.Parked ∨ o.owner = none) := by
  cases o with
  | readGuard | upgradableGuard | writeGuard => exact absurd trivial hHolds
  | waiting kind form chain w =>
    refine ⟨rfl, .inl ?_⟩
    cases w with
    | idle listener =>
      cases listener
      · exact absurd rfl hHolds
      · rfl
    | wait => exact h
    | _ => cases h
  | upgradableRead form at_ =>
    refine ⟨rfl, .inr ?_⟩
    cases at_ with
    | acquire f => rcases h with rfl | rfl | rfl <;> rfl
    | _ => cases h
  | write form at_ =>
    refine ⟨rfl, .inr ?_⟩
    cases at_ with
    | acquiring f => rcases h with rfl | rfl | rfl <;> rfl
    | _ => cases h
  | read | gone => exact ⟨rfl, .inr rfl⟩
  | _ => cases h

theorem Resting.role {o : Object} (h : o.Resting) : o.role.Resting := by
  cases o with
  | upgradableRead form at_ | write form at_ => cases at_ <;> first | exact h | cases h
  | tryUpgradable arc at_ | tryWrite arc at_ | writeUnlocking _ at_ | writeDowngrading _ at_ =>
    cases h
  | _ => first | rfl | cases h

theorem Parked.waiting {o : Object} (h : o.Parked) :
    ∃ kind form chain w, o = .waiting kind form chain w := by
  cases o with
  | waiting kind form chain w => exact ⟨kind, form, chain, w, rfl⟩
  | _ => cases h

theorem Sleeps.cases {o : Object} (h : o.Sleeps) : o.ReaderParked ∨ o.Parked ∨ o.role.Parked := by
  cases o with
  | read => exact .inl h
  | waiting => exact .inr (.inl h)
  | upgradableRead | write => exact .inr (.inr h)
  | _ => cases h

section

variable {α : Type*} {s : RwLock α} {j : Nat}

theorem woken_of_role (o : Object) (h : o.role.Parked)
    (hMark : (s.mutex.lockOps.markOf j).isSome) : o.Sleeps ∧ o.Woken s j := by
  cases o with
  | upgradableRead | write => exact ⟨h, hMark⟩
  | tryUpgradable arc at_ | tryWrite arc at_ | writeUnlocking _ at_ | writeDowngrading _ at_ =>
    cases at_ <;> cases h
  | _ => cases h

theorem woken_of_reader (o : Object) (h : o.ReaderParked)
    (hMark : (s.noWriter.markOf j).isSome) : o.Sleeps ∧ o.Woken s j := by
  cases o with
  | read => exact ⟨h, hMark⟩
  | _ => cases h

end

end Object

variable {α : Type*} {p : Platform}

theorem role_upgradableOutcome (form : Form) (r : LockOutcome) :
    (upgradableOutcome form r).role = .ofOutcome r := by cases r <;> rfl

theorem role_writeOutcome (form : Form) (r : LockOutcome) :
    (writeOutcome form r).role = .ofOutcome r := by cases r <;> rfl

theorem use_discardLeft (i : Nat) (s : RwLock α) (listener : Bool) :
    ∃ e, Use p i s.mutex e (.apart listener) (discardLockOps i s listener).mutex
      (.apart false) 0 := by
  cases listener
  · exact ⟨_, .stay _⟩
  · exact ⟨_, .discardLeft⟩

theorem use_discard (i : Nat) (s : RwLock α) (listener : Bool) :
    ∃ e, Use p i s.mutex e (.owner listener) (discardLockOps i s listener).mutex
      (.owner false) 0 := by
  cases listener
  · exact ⟨_, .stay _⟩
  · exact ⟨_, .discard⟩

theorem use_discardHand (i : Nat) (s : RwLock α) (listener : Bool) :
    ∃ e, Use p i s.mutex e (.owner listener) (discardLockOps i s listener).mutex
      (.apart false) 1 := by
  cases listener
  · exact ⟨_, .hand _⟩
  · exact ⟨_, .discardHand⟩

/-- Every action of the lock uses the inner mutex in one of the ways of a lock operation, an
owner or an unlock. -/
theorem step_use {i : Nat} {c : Choice α} {s s' : RwLock α} {o o' : Object} {new : List Object}
    (h : step p i c s o = some (s', o', new)) :
    (∃ e, Use p i s.mutex e o.role s'.mutex o'.role (census (fun n => n.role.owns) new)) ∧
      ∀ n ∈ new, n.role = .apart false ∨ n.role = .owner false := by
  have hNil : ∀ n ∈ ([] : List Object), n.role = .apart false ∨ n.role = .owner false := nofun
  cases step_acts h with
  | tryReadAbort | readAbort => exact ⟨⟨_, .abort⟩, hNil⟩
  | tryUpgradableAbort => exact ⟨⟨_, .abortOwner _⟩, hNil⟩
  | upgradableAbort _ _ listener => exact ⟨⟨_, .abortOwner listener⟩, hNil⟩
  | tryUpgradableLock _ _ hFree | tryWriteLock _ _ hFree => exact ⟨⟨_, .tryLock hFree⟩, hNil⟩
  | upgradableAcquire _ form f d m r hLock =>
    rw [role_upgradableOutcome]
    exact ⟨⟨_, .lock f d m r hLock⟩, hNil⟩
  | writeAcquire _ form f d m r hLock =>
    rw [role_writeOutcome]
    exact ⟨⟨_, .lock f d m r hLock⟩, hNil⟩
  | upgradableTake _ form listener =>
    exact ⟨⟨_, .hand listener⟩, fun n hn => .inr (by rw [List.mem_singleton.mp hn]; rfl)⟩
  | waitingReady =>
    exact ⟨⟨_, .hand false⟩, fun n hn => .inr (by rw [List.mem_singleton.mp hn]; rfl)⟩
  | upgradableFinish _ listener => exact ⟨use_discardLeft i s listener, hNil⟩
  | writeWaits _ _ listener => exact ⟨use_discard i s listener, hNil⟩
  | writeAcquired _ _ listener =>
    exact ⟨use_discardHand i s listener, fun n hn => .inr (by rw [List.mem_singleton.mp hn]; rfl)⟩
  | readTake =>
    exact ⟨⟨_, .stay _⟩, fun n hn => .inl (by rw [List.mem_singleton.mp hn]; rfl)⟩
  | upgradableDowngrade | writeUnlockMutex | writeDowngradeMutex | unlock =>
    exact ⟨⟨_, .unlock⟩, hNil⟩
  | upgradableDowngraded | writeUnlockNotifyOps | writeDowngradeNotifyOps | unlocked =>
    exact ⟨⟨_, .notify⟩, hNil⟩
  | readFinish _ listener | writeFinish _ listener | writeUnlocked _ listener =>
    cases listener <;> exact ⟨⟨_, .stay _⟩, hNil⟩
  | _ => exact ⟨⟨_, .stay _⟩, hNil⟩

theorem host (p : Platform) (value : α) :
    Host p (machine p) (initial value) RwLock.mutex Object.role where
  word := rfl
  empty := rfl
  create s k := by
    cases k with
    | upgradableReadAs form | writeAs form => exact .inr rfl
    | _ => exact .inl rfl
  use i c s o s' o' new h := by
    obtain ⟨⟨e, hUse⟩, hNew⟩ := step_use h
    exact ⟨e, hUse, hNew⟩
  aborted i c s o h := aborted_stuck i c s o (Object.role_aborted.mp h)

variable {value : α} {s : State (RwLock α) Object}

def queueAndUnlock : List (Action Call (Choice Nat)) :=
  [.call .tryWrite, .act 0 (.go false), .act 0 (.go false), .call .write, .act 1 (.go false),
    .act 1 (.go false), .act 1 (.go false), .act 0 .drop, .act 0 (.go false), .act 0 (.go false),
    .act 0 (.go false), .act 0 (.go false)]

def writeMarked : State (RwLock Nat) Object :=
  ⟨⟨⟨0, ⟨[⟨1, some .single⟩]⟩⟩, Event.new, Event.new, 0, 7⟩,
    [.gone, .write ⟨false, false⟩ (.acquiring .waiting)]⟩

theorem writeMarked_resting : ∀ o ∈ writeMarked.pool, o.Resting := by
  simp [writeMarked, Object.Resting]

/-- Among objects at rest that do not hold the lock, a writer that waits for the readers is alone
with the two words; without one both words are even. -/
theorem words_of_resting (h : (machine p).Reaches (initial value) s)
    (hResting : ∀ o ∈ s.pool, o.Resting) (hHolds : ∀ o ∈ s.pool, ¬ o.Holds) :
    ((∃ o ∈ s.pool, o.Parked) → s.mem.state = writerBit) ∧
      ((¬ ∃ o ∈ s.pool, o.Parked) → s.mem.mutex.state % 2 = 0 ∧ s.mem.state &&& writerBit = 0) := by
  have hAlive : Alive Object.Aborted s := fun o ho => (hResting o ho).alive
  have hLedger := ledger_of_reaches h hAlive
  have hOwners := hLedger.mutex.owners_le
  have hWord := hLedger.mutex.state_eq
  have hState := hLedger.state_eq
  have hReaders : census Object.reader s.pool = 0 :=
    census_eq_zero fun o ho => ((hResting o ho).owner (hHolds o ho)).1
  constructor
  · rintro ⟨o, ho, hParked⟩
    have hSelf := (census_pos_iff _ _).mpr ⟨o, ho, hParked.asleep.1⟩
    have hWriters := census_le Object.asleep_le_writer s.pool
    rw [writerBit]
    omega
  · intro hNone
    have hOwns : owners s = 0 := by
      refine census_eq_zero fun o ho => ?_
      rcases ((hResting o ho).owner (hHolds o ho)).2 with hParked | hOwner
      · exact absurd ⟨o, ho, hParked⟩ hNone
      · rw [hOwner]
        rfl
    rw [owners_eq] at hOwns
    rw [and_writerBit]
    omega

/-- A writer that waits for the readers, with none left. -/
theorem writer_woken (h : (machine p).Reaches (initial value) s)
    (hResting : ∀ o ∈ s.pool, o.Resting) (hState : s.mem.state = writerBit)
    (hParked : ∃ o ∈ s.pool, o.Parked) :
    ∃ j o, s.pool[j]? = some o ∧ o.Parked ∧ (s.mem.noReaders.markOf j).isSome := by
  have hAlive : Alive Object.Aborted s := fun o ho => (hResting o ho).alive
  have hAsleep : 0 < census Object.asleep s.pool :=
    (census_pos_iff _ _).mpr (hParked.imp fun o ho => ⟨ho.1, ho.2.asleep.1⟩)
  exact (ownedReaders_of_reaches h).exists_parked (writerChain_of_reaches h hAlive hState hAsleep)
    (fun o ho => (hResting o ho).parked) fun o ho => (hResting o ho).notifiesReaders

/-- Somebody who waits for the inner mutex, which is free. -/
theorem queued_woken (h : (machine p).Reaches (initial value) s)
    (hResting : ∀ o ∈ s.pool, o.Resting) (hFree : s.mem.mutex.state % 2 = 0)
    (hQueued : ∃ o ∈ s.pool, o.role.Parked) :
    ∃ j, ∃ o : Object, s.pool[j]? = some o ∧ o.Sleeps ∧ o.Woken s.mem j := by
  obtain ⟨j, o, hGet, hPark, hMark⟩ :=
    (host p value).parked_notified h (fun o ho => (hResting o ho).role) hFree hQueued
  exact ⟨j, o, hGet, o.woken_of_role hPark hMark⟩

/-- A reader, with no writer there. -/
theorem reader_woken {acts : List (Action Call (Choice α))}
    (h : (machine p).run (initial value) acts = some s)
    (hSparing : (machine p).Along Sparing (initial value) acts)
    (hResting : ∀ o ∈ s.pool, o.Resting) (hBit : s.mem.state % 2 = 0)
    (hParked : ∃ o ∈ s.pool, o.ReaderParked) :
    ∃ j, ∃ o : Object, s.pool[j]? = some o ∧ o.Sleeps ∧ o.Woken s.mem j := by
  have hAlive : Alive Object.Aborted s := fun o ho => (hResting o ho).alive
  have hOwned := ownedWriter_of_reaches (Machine.reaches_of_run _ acts _ s h) hAlive
  have hAsleep : 0 < census Object.readerAsleep s.pool :=
    (census_pos_iff _ _).mpr (hParked.imp fun o ho => ⟨ho.1, ho.2.readerAsleep⟩)
  obtain ⟨j, o, hGet, hPark, hMark⟩ := hOwned.exists_parked
    (readerChain_of_run h hSparing hAlive hBit hAsleep) (fun o ho => (hResting o ho).readerParked)
    fun o ho => (hResting o ho).notifiesWriter
  exact ⟨j, o, hGet, o.woken_of_reader hPark hMark⟩

end AsyncLock.RwLock
