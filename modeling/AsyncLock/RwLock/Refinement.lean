import AsyncLock.Interleaving.Refinement
import AsyncLock.RwLock.Accounting

/-! # What a reader-writer lock is

As a sequential object the lock is a value, a number of readers and at most one task beside them: an
upgradable reader, a writer that waits, or a writer. Its operations are what the calls do at the
one action at which they take effect, and the lock of the source implements it: everything
else that its calls do cannot be told from what the guards and the value show.
-/
namespace AsyncLock.RwLock
set_option autoImplicit false

open Interleaving

/-- What there is beside the readers. -/
inductive Mode where
  | free
  | upgradable
  | waiting
  | writing
deriving DecidableEq

structure Abstract (α : Type*) where
  readers : Nat
  mode : Mode
  value : α
deriving DecidableEq

inductive Operation (α : Type*) where
  | read
  | tryReadFail
  | readUnlock
  | upgradableRead
  | upgradableUnlock
  | upgradableDowngrade
  | tryUpgrade
  | tryUpgradeFail
  | upgrade
  | tryWrite
  | tryWriteFail
  | announce
  | grant
  | cancel
  | put (value : α)
  | writeUnlock
  | writeDowngrade
  | downgradeToUpgradable
deriving DecidableEq

variable {α : Type*}

namespace Abstract

/-- From one mode to another. -/
def goTo (x : Abstract α) (source target : Mode) : Option (Abstract α) :=
  if x.mode = source then some { x with mode := target } else none

/-- To the mode of a writer, which there may be only without readers. -/
def write (x : Abstract α) (source : Mode) : Option (Abstract α) :=
  if x.readers = 0 then x.goTo source .writing else none

/-- An operation that gives up because of the readers. -/
def fail (x : Abstract α) (source : Mode) : Option (Abstract α) :=
  if 0 < x.readers then x.goTo source source else none

def addReader (x : Abstract α) : Abstract α := { x with readers := x.readers + 1 }

/-- Readers come in unless a writer is there or waits; an upgradable reader lets them in. -/
def apply : Operation α → Abstract α → Option (Abstract α)
  | .read, x => if x.mode = .free ∨ x.mode = .upgradable then some x.addReader else none
  | .tryReadFail, x => if x.mode = .waiting ∨ x.mode = .writing then some x else none
  | .readUnlock, x => if 0 < x.readers then some { x with readers := x.readers - 1 } else none
  | .upgradableRead, x => x.goTo .free .upgradable
  | .upgradableUnlock, x => x.goTo .upgradable .free
  | .upgradableDowngrade, x => (x.goTo .upgradable .free).map addReader
  | .tryUpgrade, x => x.write .upgradable
  | .tryUpgradeFail, x => x.fail .upgradable
  | .upgrade, x => x.goTo .upgradable .waiting
  | .tryWrite, x => x.write .free
  | .tryWriteFail, x => x.fail .free
  | .announce, x => x.goTo .free .waiting
  | .grant, x => x.write .waiting
  | .cancel, x => x.goTo .waiting .free
  | .put value, x => if x.mode = .writing then some { x with value := value } else none
  | .writeUnlock, x => x.goTo .writing .free
  | .writeDowngrade, x => (x.goTo .writing .free).map addReader
  | .downgradeToUpgradable, x => x.goTo .writing .upgradable

def lock (value : α) : Sequential (Abstract α) (Operation α) := ⟨⟨0, .free, value⟩, apply⟩

/-- Nobody reads while somebody writes. -/
def Exclusive (x : Abstract α) : Prop := x.mode = .writing → x.readers = 0

theorem goTo_eq_some {x y : Abstract α} {source target : Mode}
    (h : x.goTo source target = some y) :
    x.mode = source ∧ y = { x with mode := target } := by
  obtain ⟨hMode, hEq⟩ := Option.ite_none_right_eq_some.mp h
  exact ⟨hMode, (Option.some.inj hEq).symm⟩

theorem write_eq_some {x y : Abstract α} {source : Mode} (h : x.write source = some y) :
    x.readers = 0 ∧ y.readers = 0 := by
  obtain ⟨hReaders, hGo⟩ := Option.ite_none_right_eq_some.mp h
  obtain ⟨_, rfl⟩ := goTo_eq_some hGo
  exact ⟨hReaders, hReaders⟩

theorem exclusive_of_apply (l : Operation α) (x y : Abstract α) (hx : x.Exclusive)
    (h : apply l x = some y) : y.Exclusive := by
  intro hWriting
  cases l with
  | read =>
    obtain ⟨hMode, hEq⟩ := Option.ite_none_right_eq_some.mp h
    cases hEq
    rcases hMode with hMode | hMode <;> cases hMode.symm.trans hWriting
  | tryReadFail =>
    obtain ⟨_, hEq⟩ := Option.ite_none_right_eq_some.mp h
    cases hEq
    exact hx hWriting
  | readUnlock =>
    obtain ⟨hPos, hEq⟩ := Option.ite_none_right_eq_some.mp h
    cases hEq
    have hNone : x.readers = 0 := hx hWriting
    omega
  | put value =>
    obtain ⟨_, hEq⟩ := Option.ite_none_right_eq_some.mp h
    cases hEq
    exact hx hWriting
  | tryUpgrade | tryWrite | grant => exact (write_eq_some h).2
  | tryUpgradeFail | tryWriteFail =>
    obtain ⟨_, hGo⟩ := Option.ite_none_right_eq_some.mp h
    obtain ⟨_, rfl⟩ := goTo_eq_some hGo
    cases hWriting
  | upgradableDowngrade | writeDowngrade =>
    obtain ⟨z, hGo, rfl⟩ := Option.map_eq_some_iff.mp h
    obtain ⟨_, rfl⟩ := goTo_eq_some hGo
    cases hWriting
  | upgradableRead | upgradableUnlock | upgrade | announce | cancel | writeUnlock
  | downgradeToUpgradable =>
    obtain ⟨_, rfl⟩ := goTo_eq_some h
    cases hWriting

end Abstract

/-! ## What the state of the lock stands for -/

namespace Object

/-- A reader that is not upgradable. -/
def plainReader : Object → Nat
  | readGuard _ | upgradableDowngrading _ | writeDowngrading _ _ => 1
  | _ => 0

def upgradableReader : Object → Nat
  | upgradableGuard _ _ => 1
  | _ => 0

end Object

def modeOf (upgradable waiting writing : Nat) : Mode :=
  if 0 < writing then .writing else if 0 < waiting then .waiting
  else if 0 < upgradable then .upgradable else .free

def abstract (s : State (RwLock α) Object) : Abstract α :=
  ⟨census Object.plainReader s.pool,
    modeOf (census Object.upgradableReader s.pool) (census Object.writer s.pool)
      (census Object.granted s.pool), s.mem.value⟩

/-- The operation that an action performs. A `try_write` or `try_upgradable_read` that does not get
the inner mutex performs none: its owner may be a task that is not a reader or writer yet, or no
longer. -/
def effect (c : Choice α) (_ : RwLock α) (o o' : Object) : Option (Operation α) :=
  match c, o, o' with
  | _, .tryRead _ _, .readGuard _ | _, .read _ _, .readDone _ => some .read
  | _, .tryRead _ _, .tryRead _ (.loop state) =>
    if state % 2 = 1 then some .tryReadFail else none
  | _, .readGuard _, _ => some .readUnlock
  | _, .tryUpgradable _ _, .upgradableGuard _ _ => some .upgradableRead
  | _, .upgradableRead _ _, .upgradableDone _ => some .upgradableRead
  | _, .upgradableGuard _ _, .upgradableUnlocking => some .upgradableUnlock
  | _, .upgradableGuard _ _, .unlocking => some .upgradableUnlock
  | _, .upgradableGuard _ _, .upgradableDowngrading _ => some .upgradableDowngrade
  | _, .upgradableGuard _ _, .writeGuard _ _ => some .tryUpgrade
  | .tryUpgrade, .upgradableGuard _ _, .upgradableGuard _ _ => some .tryUpgradeFail
  | _, .upgradableGuard _ _, .waiting _ _ _ _ => some .upgrade
  | _, .tryWrite _ _, .writeGuard _ _ => some .tryWrite
  | _, .tryWrite _ .exchange, .unlocking => some .tryWriteFail
  | _, .write _ (.setBit _), _ => some .announce
  | _, .waiting _ _ _ _, .writeDone _ => some .grant
  | _, .waiting _ _ _ _, .writeUnlocking _ _ => some .cancel
  | .write value, .writeGuard _ _, _ => some (.put value)
  | _, .writeGuard _ _, .writeUnlocking _ _ => some .writeUnlock
  | _, .writeGuard _ _, .writeDowngrading _ _ => some .writeDowngrade
  | _, .writeGuard _ _, .upgradableGuard _ _ => some .downgradeToUpgradable
  | _, _, _ => none

variable {p : Platform} {i : Nat} {c : Choice α} {s s' : RwLock α} {o o' : Object}
  {new : List Object}

def abstractOf (total : (Object → Nat) → Nat) (value : α) : Abstract α :=
  ⟨total Object.plainReader, modeOf (total Object.upgradableReader) (total Object.writer)
    (total Object.granted), value⟩

section

variable {total : (Object → Nat) → Nat} (hs : Balanced p s fun f => f o + total f)
include hs

/-- An owner of the inner mutex is alone with it. -/
theorem Balanced.alone (hHolder : total Object.upgradableReader ≤ total Object.holder)
    (hOwns : o.owns = 1) : total Object.upgradableReader = 0 ∧ total Object.writer = 0 ∧
      total Object.granted = 0 := by
  have hOwners := hs.mutex.owners_le
  unfold Object.owns at hOwns
  dsimp only at hOwners
  omega

/-- Where the bit is clear nobody writes or waits to write. -/
theorem Balanced.clear (hBit : s.state % 2 = 0) : o.writer + total Object.writer = 0 ∧
    o.granted + total Object.granted = 0 := by
  have hOwners := hs.mutex.owners_le
  have hState := hs.state_eq
  dsimp only at hOwners hState
  omega

/-- Where the bit is set somebody writes or waits to write. -/
theorem Balanced.taken (hBit : s.state % 2 = 1) :
    0 < o.writer + total Object.writer ∨ 0 < o.granted + total Object.granted := by
  have hState := hs.state_eq
  dsimp only at hState
  omega

end

attribute [local simp] Object.reader Object.holder Object.looping Object.writer Object.granted
  Object.plainReader Object.upgradableReader effect Sequential.perform Abstract.lock
  Abstract.apply Abstract.goTo Abstract.write Abstract.fail Abstract.addReader abstractOf modeOf

theorem step_performs (h : step p i c s o = some (s', o', new))
    {total : (Object → Nat) → Nat} (hs : Balanced p s fun f => f o + total f)
    (hHolder : total Object.upgradableReader ≤ total Object.holder)
    (hReader : total Object.reader =
      total Object.plainReader + total Object.upgradableReader) (v : α) :
    (Abstract.lock v).perform (effect c s o o') (abstractOf (fun f => f o + total f) s.value) =
      some (abstractOf (fun f => f o' + census f new + total f) s'.value) := by
  cases step_acts h with
  | tryReadTake _ _ hBit | readTake _ _ _ hBit =>
    obtain ⟨hWriter, hGranted⟩ := hs.clear hBit
    simp only [Object.writer, Object.granted, Nat.zero_add] at hWriter hGranted
    simp [hWriter, hGranted, Nat.add_comm, eq_or_ne]
  | tryReadLook =>
    by_cases hBit : s.state % 2 = 1
    · rcases hs.taken hBit with hWriter | hGranted
      · simp only [Object.writer, Nat.zero_add] at hWriter
        simp [hBit, hWriter]
      · simp only [Object.granted, Nat.zero_add] at hGranted
        simp [hBit, hGranted]
    · simp [hBit]
  | readUnlock | readUnlockLast => simp
  | tryUpgradableTake | upgradableTake | upgradableUnlockLast | upgradableUnlock
  | upgradableDowngrade | upgrade | writeSetBit | waitingCancel | writeUnlock | writeDowngrade
  | downgradeToUpgradable =>
    obtain ⟨hUpgradable, hWriter, hGranted⟩ := hs.alone hHolder rfl
    simp [hUpgradable, hWriter, hGranted, Nat.add_comm]
  | waitingReady _ _ _ _ _ hAlone | tryUpgrade _ _ hAlone | tryWriteTake _ _ hAlone =>
    obtain ⟨hUpgradable, hWriter, hGranted⟩ := hs.alone hHolder rfl
    have hState := hs.state_eq
    have hNone : total Object.plainReader = 0 := by
      simp at hState
      omega
    simp [hUpgradable, hWriter, hGranted, hNone]
  | tryUpgradeFail _ _ hOthers =>
    obtain ⟨hUpgradable, hWriter, hGranted⟩ := hs.alone hHolder rfl
    have hState := hs.state_eq
    have hSome : 0 < total Object.plainReader := by
      simp at hState
      omega
    simp [hUpgradable, hWriter, hGranted, hSome]
  | tryWriteGiveUp =>
    obtain ⟨hUpgradable, hWriter, hGranted⟩ := hs.alone hHolder rfl
    have hState := hs.state_eq
    have hSome : 0 < total Object.plainReader := by
      have hNonzero : s.state ≠ 0 := by
        intro hZero
        simp [step, alone, stepTryWrite, compareExchange, hZero] at h
      simp at hState
      omega
    simp [hUpgradable, hWriter, hGranted, hSome]
  | writeValue => simp
  | writeSetBitAgain _ _ _ hSet =>
    -- the bit cannot be set already: the mutex has one owner
    obtain ⟨_, hWriter, hGranted⟩ := hs.alone hHolder rfl
    have hState := hs.state_eq
    simp at hState
    omega
  | upgradableAcquire _ _ _ _ _ r => cases r <;> simp [upgradableOutcome]
  | writeAcquire _ _ _ _ _ r => cases r <;> simp [writeOutcome]
  | readCancelListener => simp [discardNoWriter]
  | readFinish _ listener => cases listener <;> simp [discardNoWriter]
  | upgradableFinish _ listener | writeAcquired _ _ listener | writeWaits _ _ listener =>
    cases listener <;> simp [discardLockOps]
  | writeFinish _ listener | writeUnlocked _ listener =>
    cases listener <;> simp [discardNoReaders]
  | _ => simp

theorem Object.upgradableReader_le (o : Object) : o.upgradableReader ≤ o.holder := by
  cases o <;> simp [Object.upgradableReader, Object.holder]

theorem Object.reader_eq (o : Object) : o.reader = o.plainReader + o.upgradableReader := by
  cases o <;> rfl

theorem next_performs {s t : State (RwLock α) Object} {a : Action Call (Choice α)}
    (h : (machine p).next s a = some t) (hs : Balanced p s.mem fun f => census f s.pool) (v : α) :
    (Abstract.lock v).perform ((machine p).effectOf effect s a) (abstract s) =
      some (abstract t) := by
  rcases Machine.next_others h with ⟨k, rfl, rfl⟩ |
    ⟨i, c, o, mem, o', new, others, rfl, hGet, hAct, rfl, _, hPool, hPool'⟩
  · -- a call has no effect before its first action
    cases k <;> simp [abstract, Machine.effectOf, machine, create]
  · rw [Machine.effectOf_act hGet hAct]
    simp only [hPool] at hs
    have hReader : census Object.reader others =
        census Object.plainReader others + census Object.upgradableReader others := by
      rw [← census_add]
      exact census_congr fun o _ => o.reader_eq
    have hPerforms := step_performs hAct hs (census_le Object.upgradableReader_le others) hReader v
    simpa only [abstract, abstractOf, hPool, hPool'] using hPerforms

/-- Whatever the calls of a run do in between, their effects are a run of the sequential lock,
which ends in what the state stands for. -/
theorem history_sequential (p : Platform) (value : α) (acts : List (Action Call (Choice α)))
    (s : State (RwLock α) Object) (h : (machine p).run (initial value) acts = some s)
    (hAlive : Alive Object.Aborted s) :
    (Abstract.lock value).run ⟨0, .free, value⟩
      ((machine p).history effect (initial value) acts) = some (abstract s) ∧
    (abstract s).Exclusive := by
  have hRun : (Abstract.lock value).run (abstract (initial value))
      ((machine p).history effect (initial value) acts) = some (abstract s) := by
    refine Machine.run_history (fun _ _ => Machine.alive_of_step aborted_stuck)
      (fun u a t hPast hBefore _ hNext => ?_) h hAlive
    exact next_performs hNext (balanced_of_reaches hPast hBefore) value
  exact ⟨hRun, Sequential.invariant Abstract.exclusive_of_apply hRun nofun⟩

/-- An upgrade waits for a reader and keeps another one out. -/
def upgradeAndPut : List (Action Call (Choice Nat)) :=
  [.call .tryUpgradableRead, .act 0 (.go false), .act 0 (.go false), .act 0 (.go false),
    .call .tryRead, .act 1 (.go false), .act 1 (.go false), .act 0 .tryUpgrade,
    .act 0 (.upgrade true), .call .tryRead, .act 2 (.go false), .act 1 .drop, .act 2 (.go false),
    .act 1 (.go false), .act 0 (.go false), .act 0 (.go false), .act 3 (.write 5),
    .act 3 .downgrade]

def upgradedAndPut : State (RwLock Nat) Object :=
  ⟨⟨⟨1, Event.new⟩, Event.new, Event.new, 2, 5⟩,
    [.writeDone false, .gone, .gone, .writeDowngrading false .unlockMutex]⟩

theorem history_sequential_upgradeAndPut :
    (Abstract.lock 0).run ⟨0, .free, 0⟩ [.upgradableRead, .read, .tryUpgradeFail, .upgrade,
      .tryReadFail, .readUnlock, .grant, .put 5, .writeDowngrade] = some ⟨1, .free, 5⟩ ∧
    (abstract upgradedAndPut).Exclusive := by
  have hRun : (machine platform64).run (initial 0) upgradeAndPut = some upgradedAndPut := by
    decide +kernel
  have hAlive : Alive Object.Aborted upgradedAndPut := by
    simp [Alive, upgradedAndPut, Object.Aborted]
  have hHistory : (machine platform64).history effect (initial 0) upgradeAndPut =
      [.upgradableRead, .read, .tryUpgradeFail, .upgrade, .tryReadFail, .readUnlock, .grant,
        .put 5, .writeDowngrade] := by decide +kernel
  have hAbstract : abstract upgradedAndPut = ⟨1, .free, 5⟩ := by decide
  rw [← hHistory, ← hAbstract]
  exact history_sequential platform64 0 upgradeAndPut upgradedAndPut hRun hAlive

end AsyncLock.RwLock
