import AsyncLock.Mutex.Accounting

/-! # The mutex loses no wake-up

While the lock bit is clear and some entry of `lock_ops` may be slept on, an entry is marked or
some object is on its way to rouse a sleeper: it will take the lock, find it taken, or notify.
An operation between its `listen()` and the `compare_exchange` of the hot loop is not counted
on: it leaves that loop without notifying when somebody is starved. Then the starved operation
is asleep or rousing itself.
-/
namespace AsyncLock
set_option autoImplicit false

open Interleaving

namespace Lock

/-- It holds an entry and will not look at the word unless that entry is marked. -/
def asleep : Lock → Nat
  | tryListening => 0
  | f => f.listens.toNat

/-- It will look at the word or notify before it may sleep. An abort ends every sleep. -/
def rouses : Lock → Nat
  | tryWoken | passOn | starve false | fairListen | fairTry | fairPassOn | fairGrab => 1
  | aborting _ => 1
  | _ => 0

end Lock

namespace LockOutcome

def asleep : LockOutcome → Nat
  | running f => f.asleep
  | ready listener => listener.toNat
  | dropped => 0

def rouses : LockOutcome → Nat
  | running f => f.rouses
  | _ => 0

end LockOutcome

namespace Mutex

/-- Where the lock is free and somebody may sleep, a wake-up is under way. -/
def Chain (m : Mutex) (asleep rouses : Nat) : Prop :=
  m.state % 2 = 0 → 0 < asleep → m.lockOps.Notified ∨ 0 < rouses

namespace Chain

variable {m : Mutex} {asleep rouses : Nat}

theorem of_locked (h : m.state % 2 = 1) : m.Chain asleep rouses :=
  fun hFree _ => absurd hFree (by omega)

theorem of_rouses (h : 0 < rouses) : m.Chain asleep rouses := fun _ _ => .inr h

theorem of_parity {state : Nat} (h : m.Chain asleep rouses) (hSame : state % 2 = m.state % 2) :
    Chain { m with state := state } asleep rouses := fun hFree => h (hSame ▸ hFree)

theorem notifyLockOps {asleep' : Nat}
    (hLeft : 0 < asleep' → m.notifyLockOps.lockOps.owners ≠ []) :
    m.notifyLockOps.Chain asleep' rouses := by
  intro _ hPos
  have hQueued : m.lockOps.owners ≠ [] := by simpa [Mutex.notifyLockOps] using hLeft hPos
  exact .inl (Event.notified_notify _ (by decide) hQueued)

theorem discard {i asleep' : Nat} (h : m.Chain asleep rouses) (hAsleep : asleep' ≤ asleep)
    (hLeft : 0 < asleep' → (m.lockOps.discard i).owners ≠ []) :
    Chain { m with lockOps := m.lockOps.discard i } asleep' rouses := by
  intro hFree hPos
  rcases h hFree (by omega) with hMark | hRouse
  · exact .inl (hMark.discard (hLeft hPos))
  · exact .inr hRouse

end Chain
end Mutex

namespace Lock

variable {p : Platform} {i : Nat} {m m' : Mutex} {f : Lock} {r : LockOutcome}

attribute [local simp] asleep rouses listens LockOutcome.asleep LockOutcome.rouses

theorem step_chain {c : LockChoice} (h : f.step p i c m = some (m', r)) {others rousers : Nat}
    (hs : m.Chain (f.asleep + others) (f.rouses + rousers))
    (hStarved : m.state % 2 = 0 → m.state ≠ 0 → f.starved = 0 → 0 < others + rousers)
    (hLeft : 0 < r.asleep + others → m'.lockOps.owners ≠ []) :
    m'.Chain (r.asleep + others) (r.rouses + rousers) := by
  cases step_acts h with
  | toSlow | cancel => exact hs
  | listen =>
    intro hFree hPos
    exact (hs hFree hPos).imp_left fun hMark => hMark.listen i
  | takeFast | takeListening | takeWoken => exact .of_locked rfl
  | fairTake => exact .of_locked (show 3 % 2 = 1 by decide)
  | toWaiting _ hHeld | toListen hHeld => exact .of_locked (by omega)
  | toFairWaiting _ hHeld | fairGrabHeld _ hHeld => exact .of_locked hHeld
  | fairGrab _ hFree => exact .of_locked (show (m.state + 1) % 2 = 1 by omega)
  | toStarve _ hZero =>
    -- out of the hot loop without a notification: a starved operation is asleep or rousing
    intro hFree _
    rcases Nat.eq_zero_or_pos others with hNone | hSome
    · exact .inr (by have := hStarved hFree hZero rfl; omega)
    · exact hs hFree (by omega)
  | consume | fairConsume | toPassOn | overtime | abort | starve | fairListen | toFairPassOn =>
    exact .of_rouses (Nat.add_pos_left Nat.one_pos _)
  | passOn | fairPassOn => exact .notifyLockOps hLeft
  | starveListening => exact hs.of_parity (wrappingAdd_two_mod_two p.bits_pos _)
  | takeMutex | cancelStarved => exact hs.of_parity (wrappingSub_two_mod_two p.bits_pos _)
  | dropListener | cancelListener => exact hs.discard (by simp) hLeft

theorem starved_le (f : Lock) : f.starved ≤ f.asleep + f.rouses + f.owns := by
  cases f <;> simp [starved, owns]

end Lock

namespace Mutex

theorem step_access {p : Platform} {i : Nat} {c : LockChoice} {m m' : Mutex} {o o' : Object}
    {new : List Object} (h : step p i c m o = some (m', o', new)) :
    Event.Access i m.lockOps o.listens m'.lockOps o'.listens ∧ ∀ n ∈ new, n.listens = false := by
  cases step_acts h with
  | lockRun _ _ _ _ hLock | lockReady _ _ _ _ hLock | lockDrop _ _ _ hLock =>
    exact ⟨Lock.step_access hLock, by simp [Object.listens]⟩
  | finishListener => exact ⟨.discard _, by simp⟩
  | unlockNotify => exact ⟨.notify _ 1 _, by simp⟩
  | _ => exact ⟨.leave _ _, by simp⟩

theorem owned_of_reaches {p : Platform} {s : State Mutex Object}
    (h : (machine p).Reaches initial s) : Owned Object.listens s.mem.lockOps s.pool :=
  Machine.owned_of_reaches lockOps h (Owned.nil _) (fun _ k => by cases k <;> rfl)
    fun _ _ _ _ _ _ _ hAct => step_access hAct

namespace Object

def asleep : Object → Nat
  | lock _ f => f.asleep
  | finished listener => listener.toNat
  | _ => 0

def rouses : Object → Nat
  | lock _ f => f.rouses
  | unlocking => 1
  | _ => 0

/-- Not in the middle of an operation: a future between two polls or not polled yet, a thread
blocked on its listener, a guard, or a future or call that is no more. -/
def Resting : Object → Prop
  | lock _ .unpolled | lock _ .waiting | lock _ .fairWaiting | guard _ | gone => True
  | _ => False

def Parked : Object → Prop
  | lock _ .waiting | lock _ .fairWaiting => True
  | _ => False

theorem starved_le (o : Object) : o.starved ≤ o.asleep + o.rouses + o.owns := by
  cases o with
  | lock form f => exact f.starved_le
  | _ => simp [starved]

theorem asleep_listens (o : Object) (h : 0 < o.asleep) : o.listens = true := by
  cases o with
  | lock form f =>
    cases f with
    | starve listener | takeMutex listener | aborting listener =>
      cases listener
      · cases h
      · rfl
    | _ => first | rfl | cases h
  | finished listener =>
    cases listener
    · cases h
    · rfl
  | _ => cases h

theorem Parked.asleep {o : Object} (h : o.Parked) : 0 < o.asleep := by
  cases o with
  | lock form f => cases f <;> first | exact Nat.one_pos | cases h
  | _ => cases h

theorem Resting.rouses {o : Object} (h : o.Resting) : o.rouses = 0 := by
  cases o with
  | lock form f => cases f <;> first | rfl | cases h
  | _ => first | rfl | cases h

theorem Resting.parked {o : Object} (h : o.Resting) (hListens : o.listens = true) :
    o.Parked := by
  cases o with
  | lock form f => cases f <;> trivial
  | finished _ | tryLock _ | unlocking => cases h
  | guard _ | gone => cases hListens

theorem Resting.alive {o : Object} (h : o.Resting) : ¬ o.Aborted := by
  cases o with
  | lock form f => cases f <;> first | exact id | cases h
  | _ => exact id

end Object

theorem step_chain {p : Platform} {i : Nat} {c : LockChoice} {m m' : Mutex} {o o' : Object}
    {new : List Object} (h : step p i c m o = some (m', o', new)) {others rousers : Nat}
    (hs : m.Chain (o.asleep + others) (o.rouses + rousers))
    (hStarved : m.state % 2 = 0 → m.state ≠ 0 → o.starved = 0 → 0 < others + rousers)
    (hLeft : 0 < o'.asleep + others → m'.lockOps.owners ≠ []) :
    m'.Chain (o'.asleep + others) (o'.rouses + rousers) := by
  cases step_acts h with
  | tryTake => exact .of_locked rfl
  | tryFail | finish => exact hs
  | lockRun _ _ _ _ hLock | lockReady _ _ _ _ hLock | lockDrop _ _ _ hLock =>
    exact Lock.step_chain hLock hs hStarved hLeft
  | finishListener => exact hs.discard (by simp [Object.asleep]) hLeft
  | unlock => exact .of_rouses (Nat.add_pos_left Nat.one_pos _)
  | unlockNotify => exact .notifyLockOps hLeft

theorem chain_of_reaches {p : Platform} {s : State Mutex Object}
    (h : (machine p).Reaches initial s) (hAlive : Alive Object.Aborted s) :
    s.mem.Chain (census Object.asleep s.pool) (census Object.rouses s.pool) := by
  apply Machine.invariant_alive
    (P := fun s => s.mem.Chain (census Object.asleep s.pool) (census Object.rouses s.pool))
    aborted_stuck h hAlive (fun _ hPos => absurd hPos (by simp [initial]))
  intro s s' hPast hBefore hStep _ hs
  have hOwned := owned_of_reaches (hPast.tail hStep)
  have hAccounts := accounts_of_reaches hPast hBefore
  rcases Machine.step_others hStep with ⟨k, rfl⟩ |
    ⟨i, c, o, m', o', new, others, _, hAct, rfl, _, hPool, hPool'⟩
  · cases k <;> simpa [machine, create, Object.asleep, Object.rouses, Lock.asleep,
      Lock.rouses, Lock.listens] using hs
  · have hNew : census Object.asleep new = 0 ∧ census Object.rouses new = 0 := by
      rcases step_new hAct with rfl | ⟨arc, rfl⟩ <;> exact ⟨rfl, rfl⟩
    have hLeft := hOwned.owners_ne_nil_of_census Object.asleep_listens
    rw [hPool', hNew.1] at hLeft ⊢
    rw [hPool', hNew.2]
    rw [hPool, hPool] at hs
    refine step_chain hAct hs ?_ hLeft
    -- an even word above 0 counts a starved operation, which is not this one
    intro hFree hNonzero hSelf
    have hEq := hAccounts.state_eq
    have hLe := hAccounts.owners_le
    rw [guards, starvedOps, hPool, hPool] at hEq
    rw [guards, hPool] at hLe
    have hSplit := census_le Object.starved_le others
    rw [census_add, census_add] at hSplit
    omega

/-- No lost wake-up: if no object is in the middle of an operation, the lock is free and an
operation is parked on `lock_ops`, then some parked operation has been notified. -/
theorem parked_lock_notified {p : Platform} {s : State Mutex Object}
    (h : (machine p).Reaches initial s) (hResting : ∀ o ∈ s.pool, o.Resting)
    (hFree : s.mem.state % 2 = 0) (hParked : ∃ o ∈ s.pool, o.Parked) :
    ∃ j o, s.pool[j]? = some o ∧ o.Parked ∧ (s.mem.lockOps.markOf j).isSome := by
  have hChain := chain_of_reaches h fun o ho => (hResting o ho).alive
  have hAsleep : 0 < census Object.asleep s.pool :=
    (census_pos_iff _ _).mpr (hParked.imp fun o ho => ⟨ho.1, ho.2.asleep⟩)
  exact (owned_of_reaches h).exists_parked (hChain hFree hAsleep)
    (fun o ho => (hResting o ho).parked) fun o ho => (hResting o ho).rouses

def dropWhileParked : List (Action Call LockChoice) :=
  [.call .tryLock, .act 0 (.go false), .call .lock, .act 1 (.go false), .act 1 (.go false),
    .act 1 (.go false), .act 0 .drop, .act 0 (.go false)]

def parkedAndMarked : State Mutex Object :=
  ⟨⟨0, ⟨[⟨1, some .single⟩]⟩⟩, [.gone, .lock ⟨false, false⟩ .waiting]⟩

theorem parked_lock_notified_after_drop :
    ∃ j o, parkedAndMarked.pool[j]? = some o ∧ o.Parked ∧
      (parkedAndMarked.mem.lockOps.markOf j).isSome :=
  parked_lock_notified (p := platform64)
    (Machine.reaches_of_run _ dropWhileParked initial parkedAndMarked (by decide))
    (by simp [parkedAndMarked, Object.Resting]) rfl
    ⟨.lock ⟨false, false⟩ .waiting, by decide, trivial⟩

end Mutex
end AsyncLock
