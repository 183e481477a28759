import AsyncLock.RwLock.ReaderWakeup

/-! # Who is queued where

With `no_readers` and `no_writer`, the lock has the queue of its inner mutex, where the upgradable
readers and the writers wait, and where a finished `Lock` may still have an entry in the future
that goes on from it. A position that is not in use yet has no entry in any of the three.
-/
namespace AsyncLock.RwLock
set_option autoImplicit false

open Interleaving

namespace Object

/-- A finished future. -/
def isReady : Object → Bool
  | readDone _ | upgradableDone _ | writeDone _ => true
  | _ => false

def listensLockOps : Object → Bool
  | upgradableRead _ (.acquire f) | write _ (.acquiring f) => f.listens
  | upgradableRead _ (.load listener) | upgradableRead _ (.exchange listener _) => listener
  | upgradableDone listener => listener
  | write _ (.setBit listener) | write _ (.listen listener) => listener
  | write _ (.replace listener _) => listener
  | _ => false

end Object

variable {α : Type*} {p : Platform} {i : Nat}

section Step

variable {c : Choice α} {s s' : RwLock α} {o o' : Object} {new : List Object}

theorem step_accessLockOps (h : step p i c s o = some (s', o', new)) (hAlive : ¬ o'.Aborted) :
    Event.Access i s.mutex.lockOps o.listensLockOps s'.mutex.lockOps o'.listensLockOps ∧
      ∀ n ∈ new, n.listensLockOps = false := by
  have hNil : ∀ n ∈ ([] : List Object), n.listensLockOps = false := by simp
  cases step_acts h with
  | tryReadAbort | readAbort | tryUpgradableAbort | upgradableAbort => exact absurd trivial hAlive
  | upgradableAcquire _ _ _ _ _ r hLock | writeAcquire _ _ _ _ _ r hLock =>
    have hAccess := Lock.step_access hLock
    cases r <;> exact ⟨hAccess, hNil⟩
  | upgradableFinish _ listener | writeWaits _ _ listener =>
    cases listener
    · exact ⟨.leave _ _, hNil⟩
    · exact ⟨.discard _, hNil⟩
  | writeAcquired _ _ listener =>
    refine ⟨?_, by simp [Object.listensLockOps]⟩
    cases listener
    · exact .leave _ _
    · exact .discard _
  | readFinish _ listener | writeFinish _ listener | writeUnlocked _ listener =>
    cases listener <;> exact ⟨.leave _ _, hNil⟩
  | readTake | upgradableTake | waitingReady =>
    exact ⟨.leave _ _, by simp [Object.listensLockOps]⟩
  | upgradableDowngraded | writeUnlockNotifyOps | writeDowngradeNotifyOps | unlocked =>
    exact ⟨.notify _ 1 _, hNil⟩
  | _ => exact ⟨.leave _ _, hNil⟩

end Step

variable {value : α} {s : State (RwLock α) Object}

theorem ownedLockOps_of_reaches (h : (machine p).Reaches (initial value) s)
    (hAlive : Alive Object.Aborted s) :
    Owned Object.listensLockOps s.mem.mutex.lockOps s.pool := by
  apply Machine.invariant_alive
    (P := fun s => Owned Object.listensLockOps s.mem.mutex.lockOps s.pool) aborted_stuck h hAlive
    (Owned.nil _)
  intro s s' _ _ hStep hAfter hs
  exact Machine.owned_of_step (fun m : RwLock α => m.mutex.lockOps) hStep hs
    (fun _ k => by cases k <;> rfl)
    fun _ _ _ _ o' _ hAct hMem => step_accessLockOps hAct (hAfter o' hMem)

/-- The position of the next call has no entry. -/
structure Fresh (s : RwLock α) (i : Nat) : Prop where
  noReaders : i ∉ s.noReaders.owners
  noWriter : i ∉ s.noWriter.owners
  lockOps : i ∉ s.mutex.lockOps.owners

theorem fresh_of_reaches (h : (machine p).Reaches (initial value) s)
    (hAlive : Alive Object.Aborted s) : Fresh s.mem s.pool.length := by
  have hOut {listens : Object → Bool} {q : Event} (hOwned : Owned listens q s.pool) :
      s.pool.length ∉ q.owners := by
    rw [hOwned s.pool.length]
    rintro ⟨o, hGet, _⟩
    rw [List.getElem?_eq_none le_rfl] at hGet
    cases hGet
  exact ⟨hOut (ownedReaders_of_reaches h), hOut (ownedWriter_of_reaches h hAlive),
    hOut (ownedLockOps_of_reaches h hAlive)⟩

end AsyncLock.RwLock
