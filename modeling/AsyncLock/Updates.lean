import AsyncLock.Interleaving.Guarded
import AsyncLock.Mutex.Accounting
import AsyncLock.RwLock.Accounting
import AsyncLock.Semaphore.Refinement

/-! # No update is lost behind a lock

A task that holds a guard reads what the lock protects and stores what it makes of that some time
later. The guards of a mutex, the only guard of a semaphore and the write guards of a reader-writer
lock make this as good as one action; so does an upgradable guard, whose view stays true while it
waits to be upgraded.
-/
namespace AsyncLock
set_option autoImplicit false

open Interleaving

variable {δ γ : Type*} {p : Platform} {op : δ → γ → δ}

/-! ## The mutex -/

namespace Mutex

def Object.isGuard : Object → Bool
  | guard _ => true
  | _ => false

def rights : Rights Object := ⟨Object.isGuard, Object.isGuard, Object.isGuard, fun _ => id⟩

theorem Object.owns_of_isGuard {o : Object} (h : o.isGuard = true) : o.owns = 1 := by
  cases o with
  | guard arc => rfl
  | _ => cases h

theorem exclusive_of_reaches {s : State Mutex Object} (h : (machine p).Reaches initial s)
    (hAlive : Alive Object.Aborted s) : rights.Exclusive s := by
  intro i j o q hij ho hq hWrites
  refine Bool.eq_false_iff.mpr fun hKeeps => ?_
  have hBoth := add_le_census Object.owns hij ho hq
  rw [Object.owns_of_isGuard hWrites, Object.owns_of_isGuard hKeeps] at hBoth
  have := (accounts_of_reaches h hAlive).owners_le
  unfold guards at this
  omega

/-- The data behind a mutex are what the updates make of them one after the other, and whoever has
a guard has seen them as they are. -/
theorem updates_in_turn (value : δ) {acts : List (Action Call (DataUse LockChoice γ))}
    {s : State (Guarded Mutex δ) (Viewer Object δ)}
    (h : ((machine p).guarded rights op).run ⟨⟨Mutex.new, value⟩, []⟩ acts = some s)
    (hAlive : Alive Object.Aborted (bare s)) :
    s.mem.value = (acts.filterMap updateOf).foldl op value ∧ Current rights s := by
  refine (Machine.value_of_run (Current.nil _ _) h fun u hPast hToCome => ?_).symm
  exact exclusive_of_reaches hPast (Machine.alive_of_reaches aborted_stuck hToCome hAlive)

/-- One task locks, the other one waits for it, and each adds what it has been given. -/
def addTwice : List (Action Call (DataUse LockChoice Nat)) :=
  [.call .tryLock, .act 0 (.act (.go false)), .call .lockArc, .act 1 (.act (.go false)),
    .act 1 (.act (.go false)), .act 0 .look, .act 1 (.act (.go false)), .act 0 (.update 3),
    .act 0 (.act (.go false)), .act 0 (.act (.go false)), .act 1 (.act (.go false)),
    .act 1 (.act (.go true)), .act 2 .look, .act 2 (.update 4)]

def addedTwice : State (Guarded Mutex Nat) (Viewer Object Nat) :=
  ⟨⟨⟨1, Event.new⟩, 7⟩, [⟨.gone, none⟩, ⟨.finished false, none⟩, ⟨.guard true, some 7⟩]⟩

theorem updates_in_turn_addTwice :
    addedTwice.mem.value = ([3, 4] : List Nat).foldl (· + ·) 0 := by
  have hRun : ((machine platform64).guarded rights (· + ·)).run ⟨⟨Mutex.new, 0⟩, []⟩ addTwice =
      some addedTwice := by decide
  exact (updates_in_turn 0 hRun (by simp [Alive, bare, addedTwice, Object.Aborted])).1

end Mutex

/-! ## The semaphore with one permit -/

namespace Semaphore

def Object.isGuard : Object → Bool
  | guard _ => true
  | _ => false

def rights : Rights Object := ⟨Object.isGuard, Object.isGuard, Object.isGuard, fun _ => id⟩

theorem Object.out_of_isGuard {o : Object} (h : o.isGuard = true) : o.out = 1 := by
  cases o with
  | guard arc => rfl
  | _ => cases h

variable {bits n : Nat}

theorem exclusive_of_reaches (hn : n < 2 ^ bits) {s : State Semaphore Object}
    (h : (machine bits).Reaches (initial n) s) (hOne : n + permitsAdded s ≤ 1) :
    rights.Exclusive s := by
  intro i j o q hij ho hq hWrites
  refine Bool.eq_false_iff.mpr fun hKeeps => ?_
  have hBoth := add_le_census Object.out hij ho hq
  rw [Object.out_of_isGuard hWrites, Object.out_of_isGuard hKeeps] at hBoth
  have := (balance_of_reaches hn h).out_le
  unfold permitsOut at this
  omega

/-- A semaphore of which at most one permit was ever granted guards data like a mutex. -/
theorem updates_under_permit (hn : n < 2 ^ bits) (value : δ)
    {acts : List (Action Call (DataUse Choice γ))}
    {s : State (Guarded Semaphore δ) (Viewer Object δ)}
    (h : ((machine bits).guarded rights op).run ⟨⟨Semaphore.new n, value⟩, []⟩ acts = some s)
    (hOne : n + permitsAdded (bare s) ≤ 1) :
    s.mem.value = (acts.filterMap updateOf).foldl op value ∧ Current rights s := by
  refine (Machine.value_of_run (Current.nil _ _) h fun u hPast hToCome => ?_).symm
  have hLe := permitsAdded_le_of_reaches hToCome
  exact exclusive_of_reaches hn hPast (by omega)

def acquireTwice : List (Action Call (DataUse Choice Nat)) :=
  [.call .tryAcquire, .act 0 (.act (.go false)), .act 0 (.act (.go false)), .call .acquireArc,
    .act 0 .look, .act 1 (.act (.go false)), .act 1 (.act (.go false)), .act 0 (.update 3),
    .act 0 (.act .drop), .act 0 (.act (.go false)), .act 1 (.act (.go false)),
    .act 1 (.act (.go false)), .act 1 (.act (.go false)), .act 2 .look, .act 2 (.update 4)]

def acquiredTwice : State (Guarded Semaphore Nat) (Viewer Object Nat) :=
  ⟨⟨⟨0, ⟨[⟨1, none⟩]⟩⟩, 7⟩, [⟨.gone, none⟩, ⟨.finished true, none⟩, ⟨.guard true, some 7⟩]⟩

theorem updates_under_permit_acquireTwice :
    acquiredTwice.mem.value = ([3, 4] : List Nat).foldl (· + ·) 0 := by
  have hRun : ((machine 64).guarded rights (· + ·)).run ⟨⟨Semaphore.new 1, 0⟩, []⟩
      acquireTwice = some acquiredTwice := by decide
  exact (updates_under_permit (by decide) 0 hRun (by decide)).1

end Semaphore

/-! ## The reader-writer lock -/

namespace RwLock

namespace Object

def reads : Object → Bool
  | readGuard _ | upgradableGuard _ _ | writeGuard _ _ => true
  | _ => false

def writes : Object → Bool
  | writeGuard _ _ => true
  | _ => false

/-- A guard, or on the way from one to another. -/
def keeps : Object → Bool
  | readGuard _ | upgradableGuard _ _ | writeGuard _ _ => true
  | upgradableDowngrading _ | writeDowngrading _ _ | waiting .upgrade _ _ _ => true
  | _ => false

theorem keeps_of_writes (o : Object) (h : o.writes = true) : o.keeps = true := by
  cases o with
  | writeGuard => rfl
  | _ => cases h

theorem granted_of_writes {o : Object} (h : o.writes = true) : o.granted = 1 := by
  cases o with
  | writeGuard => rfl
  | _ => cases h

theorem pos_of_keeps {o : Object} (h : o.keeps = true) :
    0 < o.reader ∨ 0 < o.writer ∨ 0 < o.granted := by
  cases o with
  | readGuard | upgradableGuard | upgradableDowngrading | writeDowngrading => exact .inl Nat.one_pos
  | waiting => exact .inr (.inl Nat.one_pos)
  | writeGuard => exact .inr (.inr Nat.one_pos)
  | _ => cases h

end Object

def rights : Rights Object :=
  ⟨Object.reads, Object.writes, Object.keeps, Object.keeps_of_writes⟩

variable {α : Type*} {stored : α}

theorem exclusive_of_reaches {s : State (RwLock α) Object}
    (h : (machine p).Reaches (initial stored) s) (hAlive : Alive Object.Aborted s) :
    rights.Exclusive s := by
  intro i j o q hij ho hq hWrites
  refine Bool.eq_false_iff.mpr fun hKeeps => ?_
  have hLedger := ledger_of_reaches h hAlive
  have hOwners := hLedger.mutex.owners_le
  have hBoth := add_le_census Object.granted hij ho hq
  rw [Object.granted_of_writes hWrites] at hBoth
  have hMem := List.mem_of_getElem? hq
  rcases Object.pos_of_keeps hKeeps with hPos | hPos | hPos
  · have := le_census Object.reader hMem
    have := hLedger.exclusive (by omega)
    omega
  · have := le_census Object.writer hMem
    omega
  · omega

/-- The data behind a reader-writer lock are what the updates make of them one after the other,
and what was seen through a guard is true as long as the guard lasts, whatever it is converted
to: also while an upgrade waits for the readers. -/
theorem updates_across_upgrade (value : δ) {acts : List (Action Call (DataUse (Choice α) γ))}
    {s : State (Guarded (RwLock α) δ) (Viewer Object δ)}
    (h : ((machine p).guarded rights op).run ⟨⟨RwLock.new stored, value⟩, []⟩ acts = some s)
    (hAlive : Alive Object.Aborted (bare s)) :
    s.mem.value = (acts.filterMap updateOf).foldl op value ∧ Current rights s := by
  refine (Machine.value_of_run (Current.nil _ _) h fun u hPast hToCome => ?_).symm
  exact exclusive_of_reaches hPast (Machine.alive_of_reaches aborted_stuck hToCome hAlive)

/-- A task adds to what it has seen before it was upgraded, while another one was reading. -/
def upgradeAndAdd : List (Action Call (DataUse (Choice Unit) Nat)) :=
  [.call .tryUpgradableRead, .act 0 (.act (.go false)), .act 0 (.act (.go false)),
    .act 0 (.act (.go false)), .act 0 .look, .call .tryRead, .act 1 (.act (.go false)),
    .act 1 (.act (.go false)), .act 1 .look, .act 0 (.act (.upgrade true)), .act 1 (.act .drop),
    .act 1 (.act (.go false)), .act 0 (.act (.go false)), .act 0 (.act (.go false)),
    .act 2 (.update 3), .act 2 (.act .downgradeToUpgradable)]

def upgradedAndAdded : State (Guarded (RwLock Unit) Nat) (Viewer Object Nat) :=
  ⟨⟨⟨⟨1, Event.new⟩, Event.new, Event.new, 2, ()⟩, 3⟩,
    [⟨.writeDone false, none⟩, ⟨.gone, none⟩, ⟨.upgradableGuard false 0, some 3⟩]⟩

theorem updates_across_upgrade_upgradeAndAdd :
    upgradedAndAdded.mem.value = ([3] : List Nat).foldl (· + ·) 0 ∧
      Current rights upgradedAndAdded := by
  have hRun : ((machine platform64).guarded rights (· + ·)).run ⟨⟨RwLock.new (), 0⟩, []⟩
      upgradeAndAdd = some upgradedAndAdded := by decide +kernel
  exact updates_across_upgrade 0 hRun (by simp [Alive, bare, upgradedAndAdded, Object.Aborted])

end RwLock
end AsyncLock
