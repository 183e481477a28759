import AsyncLock.RwLock.Accounting

/-! # Writers and upgraders lose no wake-up

The last reader calls `no_readers.notify(1)` in an action of its own, after its decrement. Until
then it is the one that will notify. A marked entry may be that of a finished or cancelled
writer, which hands the notification on when its listener is dropped; no other object consumes
an entry than the writer that waits, since the mutex has only one owner.
-/
namespace AsyncLock.RwLock
set_option autoImplicit false

open Interleaving

namespace Object

def listensReaders : Object → Bool
  | write _ (.replace _ acquired) => !acquired
  | waiting _ _ _ w => w.listens
  | writeDone listener | writeUnlocking listener _ => listener
  | _ => false

def asleep : Object → Nat
  | waiting _ _ _ w => w.asleep
  | _ => 0

def notifiesReaders : Object → Nat
  | readUnlocking | upgradableUnlocking => 1
  | _ => 0

/-- Not in the middle of an operation: a future between two polls or not polled yet, a thread
blocked on its listener, a guard, or what is no more. -/
def Resting : Object → Prop
  | read _ (.unpolled _) | readGuard _ | upgradableGuard _ _ | writeGuard _ _ | gone => True
  | read _ (.loop state listener) => listener = true ∧ state % 2 = 1
  | upgradableRead _ (.acquire f) | write _ (.acquiring f) =>
    f = .unpolled ∨ f = .waiting ∨ f = .fairWaiting
  | waiting _ _ _ (.idle _) => True
  | waiting _ form _ .wait => form.blocking = true
  | _ => False

/-- A `Write` in `WaitingReaders` or an unfinished `Upgrade` that is parked on `no_readers`. -/
def Parked : Object → Prop
  | waiting _ _ _ (.idle listener) => listener = true
  | waiting _ form _ .wait => form.blocking = true
  | _ => False

theorem asleep_listens (o : Object) (h : 0 < o.asleep) : o.listensReaders = true := by
  cases o with
  | waiting kind form chain w =>
    cases w with
    | idle listener =>
      cases listener
      · cases h
      · rfl
    | wait => rfl
    | _ => cases h
  | _ => cases h

theorem asleep_le_writer (o : Object) : o.asleep ≤ o.writer := by
  cases o with
  | waiting kind form chain w =>
    cases w with
    | idle listener => cases listener <;> simp [asleep, writer, Waiting.asleep]
    | _ => simp [asleep, writer, Waiting.asleep]
  | _ => exact Nat.zero_le _

theorem Parked.asleep {o : Object} (h : o.Parked) : 0 < o.asleep ∧ o.owner.isSome := by
  cases o with
  | waiting kind form chain w =>
    refine ⟨?_, by cases kind <;> rfl⟩
    cases w with
    | idle listener =>
      cases h
      exact Nat.one_pos
    | wait => exact Nat.one_pos
    | _ => cases h
  | _ => cases h

theorem Resting.parked {o : Object} (h : o.Resting) (hListens : o.listensReaders = true) :
    o.Parked := by
  cases o with
  | waiting kind form chain w =>
    cases w with
    | idle listener => exact hListens
    | wait => exact h
    | _ => cases h
  | write form at_ =>
    cases at_ with
    | replace => cases h
    | _ => cases hListens
  | writeDone | writeUnlocking => cases h
  | _ => cases hListens

theorem Resting.alive {o : Object} (h : o.Resting) : ¬ o.Aborted := by
  cases o with
  | upgradableRead form at_ =>
    cases at_ with
    | acquire f => rcases h with rfl | rfl | rfl <;> exact id
    | _ => exact id
  | write form at_ =>
    cases at_ with
    | acquiring f => rcases h with rfl | rfl | rfl <;> exact id
    | _ => exact id
  | aborted => cases h
  | _ => exact id

theorem Resting.notifiesReaders {o : Object} (h : o.Resting) : o.notifiesReaders = 0 := by
  cases o with
  | readUnlocking | upgradableUnlocking => cases h
  | _ => rfl

end Object

variable {α : Type*} {p : Platform} {i : Nat} {c : Choice α} {s s' : RwLock α} {o o' : Object}
  {new : List Object}

attribute [local simp] Object.reader Object.holder Object.looping Object.writer Object.granted
  Object.asleep Object.notifiesReaders

theorem step_accessReaders (h : step p i c s o = some (s', o', new)) :
    Event.Access i s.noReaders o.listensReaders s'.noReaders o'.listensReaders ∧
      ∀ n ∈ new, n.listensReaders = false := by
  cases step_acts h with
  | readNotify | upgradableNotify => exact ⟨.notify _ 1 _, by simp⟩
  | writeListen | waitingListen => exact ⟨.listen _, by simp⟩
  | waitingConsume _ _ _ _ hMark => exact ⟨.consume _ hMark, by simp⟩
  | writeFinish _ listener | writeUnlocked _ listener =>
    refine ⟨?_, by simp⟩
    cases listener
    · exact .leave _ _
    · exact .discard _
  | readFinish _ listener | upgradableFinish _ listener | writeWaits _ _ listener =>
    cases listener <;> exact ⟨.leave _ _, by simp⟩
  | writeAcquired _ _ listener =>
    cases listener <;> exact ⟨.leave _ _, by simp [Object.listensReaders]⟩
  | readTake | upgradableTake | waitingReady =>
    exact ⟨.leave _ _, by simp [Object.listensReaders]⟩
  | upgradableAcquire _ _ _ _ _ r | writeAcquire _ _ _ _ _ r =>
    cases r <;> exact ⟨.leave _ _, by simp⟩
  | _ => exact ⟨.leave _ _, by simp⟩

theorem ownedReaders_of_reaches {value : α} {s : State (RwLock α) Object}
    (h : (machine p).Reaches (initial value) s) :
    Owned Object.listensReaders s.mem.noReaders s.pool :=
  Machine.owned_of_reaches noReaders h (Owned.nil _) (fun _ k => by cases k <;> rfl)
    fun _ _ _ _ _ _ _ hAct => step_accessReaders hAct

/-- Where the last reader has left and a writer sleeps, it is notified or about to be. -/
def WriterChain (s : RwLock α) (asleep notifiers : Nat) : Prop :=
  s.state = 1 → 0 < asleep → s.noReaders.Notified ∨ 0 < notifiers

theorem step_writerChain (h : step p i c s o = some (s', o', new))
    {total : (Object → Nat) → Nat} (hBefore : Balanced p s fun f => f o + total f)
    (hAfter : Balanced p s' fun f => f o' + census f new + total f)
    (hs : s.WriterChain (o.asleep + total Object.asleep)
      (o.notifiesReaders + total Object.notifiesReaders))
    (hWriters : total Object.asleep ≤ total Object.writer)
    (hLeft : 0 < o'.asleep + total Object.asleep → s'.noReaders.owners ≠ []) :
    s'.WriterChain (o'.asleep + total Object.asleep)
      (o'.notifiesReaders + total Object.notifiesReaders) := by
  intro hState hPos
  -- a state of 1 has a single owner of the mutex, the sleeper, and no reader
  have hOwners := hAfter.mutex.owners_le
  have hEq := hAfter.state_eq
  rw [hState] at hEq
  cases step_acts h with
  | readUnlockLast => exact .inr (Nat.add_pos_left Nat.one_pos _)
  | readUnlock _ hLast =>
    have hLt := Ledger.state_lt hBefore
    have hRead := hBefore.state_eq
    simp only [Object.reader] at hRead
    rw [fetchSub_state, wrappingSub_of_le (by omega) (by omega)] at hState
    omega
  | readNotify => exact .inl (Event.notified_notify _ (by decide) (by simpa using hLeft hPos))
  | tryReadTake | readTake | tryUpgradableTake | upgradableTake | upgradableUnlockLast |
      upgradableUnlock | tryUpgrade | tryWriteTake | writeSetBit | writeSetBitAgain | upgrade |
      waitingCancel | writeUnlock | writeDowngrade | downgradeToUpgradable | waitingConsume |
      upgradableNotify | writeListen | waitingListen | waitingReady =>
    simp [Waiting.asleep] at hEq hOwners hPos
    omega
  | waitingBegin =>
    simp only [Object.asleep, Waiting.asleep] at hPos
    exact hs hState (by omega)
  | waitingSleep _ _ _ _ hReaders => exact absurd hState hReaders
  | writeFinish _ listener | writeUnlocked _ listener =>
    cases listener
    · exact hs hState hPos
    · exact (hs hState hPos).imp_left fun hMark => hMark.discard (hLeft hPos)
  | readFinish _ listener | upgradableFinish _ listener | writeWaits _ _ listener
  | writeAcquired _ _ listener => cases listener <;> exact hs hState hPos
  | upgradableAcquire _ _ _ _ _ r | writeAcquire _ _ _ _ _ r =>
    cases r <;> exact hs hState hPos
  | _ => exact hs hState hPos

theorem writerChain_of_reaches {value : α} {s : State (RwLock α) Object}
    (h : (machine p).Reaches (initial value) s) (hAlive : Alive Object.Aborted s) :
    s.mem.WriterChain (census Object.asleep s.pool) (census Object.notifiesReaders s.pool) := by
  apply Machine.invariant_alive (P := fun s => s.mem.WriterChain (census Object.asleep s.pool)
    (census Object.notifiesReaders s.pool)) aborted_stuck h hAlive
    (fun _ hPos => absurd hPos (by simp [initial]))
  intro s s' hPast hBefore hStep hAfter hs
  have hOwned := ownedReaders_of_reaches (hPast.tail hStep)
  have hLedger := balanced_of_reaches hPast hBefore
  have hLedger' := balanced_of_reaches (hPast.tail hStep) hAfter
  rcases Machine.step_others hStep with ⟨k, rfl⟩ |
    ⟨i, c, o, m', o', new, others, _, hAct, rfl, _, hPool, hPool'⟩
  · cases k <;> simpa [machine, create] using hs
  · have hNew : census Object.asleep new = 0 ∧ census Object.notifiesReaders new = 0 := by
      cases step_acts hAct <;> exact ⟨rfl, rfl⟩
    have hLeft := hOwned.owners_ne_nil_of_census Object.asleep_listens
    rw [hPool', hNew.1, Nat.add_zero] at hLeft ⊢
    rw [hPool', hNew.2, Nat.add_zero]
    simp only [hPool, hPool'] at hs hLedger hLedger'
    exact step_writerChain hAct hLedger hLedger' hs (census_le Object.asleep_le_writer others) hLeft

/-- No lost wake-up of writers: if no object is in the middle of an operation, no reader is
left and a `Write` or an `Upgrade` is parked on `no_readers`, then it has been notified. -/
theorem parked_writer_notified {value : α} {s : State (RwLock α) Object}
    (h : (machine p).Reaches (initial value) s) (hResting : ∀ o ∈ s.pool, o.Resting)
    (hState : s.mem.state = writerBit) {i : Nat} {o : Object} (hGet : s.pool[i]? = some o)
    (hParked : o.Parked) : (s.mem.noReaders.markOf i).isSome := by
  have hAlive : Alive Object.Aborted s := fun o ho => (hResting o ho).alive
  have hAsleep : 0 < census Object.asleep s.pool :=
    (census_pos_iff _ _).mpr ⟨o, List.mem_of_getElem? hGet, hParked.asleep.1⟩
  obtain ⟨j, o', hGet', hParked', hMark⟩ := (ownedReaders_of_reaches h).exists_parked
    (writerChain_of_reaches h hAlive hState hAsleep) (fun o ho => (hResting o ho).parked)
    fun o ho => (hResting o ho).notifiesReaders
  -- the marked entry is that of an owner of the mutex, and there is only one
  rwa [owner_unique h hAlive hGet hGet' hParked.asleep.2 hParked'.asleep.2]

def leaveWhileParked : List (Action Call (Choice Nat)) :=
  [.call .tryUpgradableRead, .act 0 (.go false), .act 0 (.go false), .act 0 (.go false),
    .call .tryRead, .act 1 (.go false), .act 1 (.go false), .act 0 (.upgrade false),
    .act 0 (.go false), .act 0 (.go false), .act 0 (.go false), .act 0 (.go false),
    .act 0 (.go false), .act 1 .drop, .act 1 (.go false)]

def upgradeMarked : State (RwLock Nat) Object :=
  ⟨⟨⟨1, Event.new⟩, ⟨[⟨0, some .single⟩]⟩, Event.new, 1, 7⟩,
    [.waiting .upgrade ⟨false, false⟩ 0 (.idle true), .gone]⟩

theorem parked_writer_notified_after_leave : (upgradeMarked.mem.noReaders.markOf 0).isSome :=
  parked_writer_notified (p := platform64)
    (Machine.reaches_of_run _ leaveWhileParked (initial 7) upgradeMarked (by decide +kernel))
    (by simp [upgradeMarked, Object.Resting]) rfl (i := 0) rfl rfl

end AsyncLock.RwLock
