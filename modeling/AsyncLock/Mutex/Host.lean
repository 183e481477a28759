import AsyncLock.Mutex.Wakeup
import AsyncLock.Interleaving.Completion

/-! # Machines that are built on a mutex

The reader-writer lock and the barrier hold a mutex, and their operations lock and unlock it
piece by piece: a guard is forgotten here and its unlock done by hand there. `Role` is what an
object has to do with the mutex, `Use` what one of its actions does to it. A machine all of whose
actions are uses has what the mutex has by itself: the word counts owners and starved operations,
no wake-up is lost, and lock operations do not keep each other busy.
-/
namespace AsyncLock.Mutex
set_option autoImplicit false

open Interleaving

/-- `apart` has no lock operation under way, but perhaps the listener of a finished one. An
`owner` holds the lock bit. `unlocking` has cleared it and is about to notify. -/
inductive Role where
  | apart (listener : Bool)
  | locking (f : Lock)
  | owner (listener : Bool)
  | unlocking
deriving DecidableEq

namespace Role

def owns : Role → Nat
  | locking f => f.owns
  | owner _ => 1
  | _ => 0

def starved : Role → Nat
  | locking f => f.starved
  | _ => 0

def listens : Role → Bool
  | locking f => f.listens
  | apart listener | owner listener => listener
  | unlocking => false

def asleep : Role → Nat
  | locking f => f.asleep
  | apart listener | owner listener => listener.toNat
  | unlocking => 0

def rouses : Role → Nat
  | locking f => f.rouses
  | unlocking => 1
  | _ => 0

def Aborted : Role → Prop
  | locking f => f.Aborted
  | _ => False

def Parked : Role → Prop
  | locking .waiting | locking .fairWaiting => True
  | _ => False

/-- Not in the middle of a lock operation. -/
def Resting : Role → Prop
  | apart listener | owner listener => listener = false
  | locking f => f = .unpolled ∨ f = .waiting ∨ f = .fairWaiting
  | unlocking => False

def ofOutcome : LockOutcome → Role
  | .running f => locking f
  | .ready listener => owner listener
  | .dropped => apart false

theorem starved_le (r : Role) : r.starved ≤ r.asleep + r.rouses + r.owns := by
  cases r with
  | locking f => exact f.starved_le
  | _ => exact Nat.zero_le _

theorem asleep_listens (r : Role) (h : 0 < r.asleep) : r.listens = true := by
  cases r with
  | locking f => exact Object.asleep_listens (.lock ⟨false, false⟩ f) h
  | apart listener | owner listener =>
    cases listener
    · cases h
    · rfl
  | unlocking => cases h

theorem Parked.asleep {r : Role} (h : r.Parked) : 0 < r.asleep := by
  cases r with
  | locking f => cases f <;> first | exact Nat.one_pos | cases h
  | _ => cases h

theorem Parked.owns {r : Role} (h : r.Parked) : r.owns = 0 := by
  cases r with
  | locking f => cases f <;> first | rfl | cases h
  | _ => cases h

theorem Resting.rouses {r : Role} (h : r.Resting) : r.rouses = 0 := by
  cases r with
  | locking f => rcases h with rfl | rfl | rfl <;> rfl
  | unlocking => cases h
  | _ => rfl

theorem Resting.parked {r : Role} (h : r.Resting) (hListens : r.listens = true) : r.Parked := by
  cases r with
  | locking f =>
    rcases h with rfl | rfl | rfl
    · cases hListens
    · trivial
    · trivial
  | apart listener | owner listener =>
    rw [show listener = false from h] at hListens
    cases hListens
  | unlocking => cases h

theorem Resting.alive {r : Role} (h : r.Resting) : ¬ r.Aborted := by
  cases r with
  | locking f => rcases h with rfl | rfl | rfl <;> exact id
  | _ => exact id

end Role

/-- What an action makes of the work there is to do on the mutex: it begins a lock operation,
leaves the work as it is, or does some of it. -/
inductive Effect where
  | starts
  | keeps
  | lessens
deriving DecidableEq

/-- One action of an object: its role, the mutex and its role after it, and the number of the
new objects that own the lock bit. -/
inductive Use (p : Platform) (i : Nat) (m : Mutex) : Effect → Role → Mutex → Role → Nat → Prop
  | start : Use p i m .starts (.apart false) m (.locking .unpolled) 0
  | tryLock (hFree : m.state = 0) :
      Use p i m .starts (.apart false) { m with state := 1 } (.owner false) 0
  | stay (r : Role) : Use p i m .keeps r m r 0
  | hand (listener : Bool) : Use p i m .keeps (.owner listener) m (.apart listener) 1
  | abort : Use p i m .keeps (.apart false) m (.locking (.aborting false)) 0
  | abortOwner (listener : Bool) :
      Use p i m .lessens (.owner listener) m (.locking (.aborting false)) 0
  | lock (f : Lock) (c : LockChoice) (m' : Mutex) (r : LockOutcome)
      (hLock : f.step p i c m = some (m', r)) :
      Use p i m .lessens (.locking f) m' (.ofOutcome r) 0
  | lockHand (f : Lock) (c : LockChoice) (m' : Mutex) (listener : Bool)
      (hLock : f.step p i c m = some (m', .ready listener)) :
      Use p i m .lessens (.locking f) m' (.apart listener) 1
  | discardLeft : Use p i m .lessens (.apart true)
      { m with lockOps := m.lockOps.discard i } (.apart false) 0
  | discard : Use p i m .lessens (.owner true)
      { m with lockOps := m.lockOps.discard i } (.owner false) 0
  | discardHand : Use p i m .lessens (.owner true)
      { m with lockOps := m.lockOps.discard i } (.apart false) 1
  | unlock : Use p i m .lessens (.owner false) (m.unlockUnchecked p) .unlocking 0
  | notify : Use p i m .lessens .unlocking m.notifyLockOps (.apart false) 0

namespace Use

variable {p : Platform} {i : Nat} {m m' : Mutex} {e : Effect} {r r' : Role} {handed : Nat}

attribute [local simp] Role.owns Role.starved Role.asleep Role.rouses Role.listens Role.ofOutcome
  LockOutcome.owns LockOutcome.starved LockOutcome.asleep LockOutcome.rouses Lock.owns Lock.starved
  Lock.asleep Lock.rouses Lock.listens

theorem accounts (h : Use p i m e r m' r' handed) (hAlive : ¬ r'.Aborted) {owners starved : Nat}
    (hs : Accounts p m.state (r.owns + owners) (r.starved + starved)) :
    Accounts p m'.state (r'.owns + handed + owners) (r'.starved + starved) := by
  cases h with
  | lock f c _ r hLock =>
    have hAfter := Lock.step_accounts hLock (by cases r <;> exact hAlive) hs
    cases r <;> simpa using hAfter
  | lockHand f c _ listener hLock =>
    have hAfter := Lock.step_accounts hLock id hs
    simpa using hAfter
  | tryLock hFree => simpa [hFree] using hs.acquire (by omega)
  | unlock => simpa [unlockUnchecked] using Accounts.release (by simpa using hs)
  | abort | abortOwner => exact absurd trivial hAlive
  | _ => simpa using hs

theorem access (h : Use p i m e r m' r' handed) (hAlive : ¬ r'.Aborted) :
    Event.Access i m.lockOps r.listens m'.lockOps r'.listens := by
  cases h with
  | lock f c _ r hLock =>
    have hAccess := Lock.step_access hLock
    cases r <;> exact hAccess
  | lockHand f c _ listener hLock => exact Lock.step_access hLock
  | discardLeft | discard | discardHand => exact .discard _
  | notify => exact .notify _ 1 _
  | abort | abortOwner => exact absurd trivial hAlive
  | _ => exact .leave _ _

theorem chain (h : Use p i m e r m' r' handed) {others rousers : Nat}
    (hs : m.Chain (r.asleep + others) (r.rouses + rousers))
    (hStarved : m.state % 2 = 0 → m.state ≠ 0 → r.starved = 0 → 0 < others + rousers)
    (hLeft : 0 < r'.asleep + others → m'.lockOps.owners ≠ []) :
    m'.Chain (r'.asleep + others) (r'.rouses + rousers) := by
  cases h with
  | stay => exact hs
  | start => simpa using hs
  | lock f c _ r hLock =>
    have hAfter := Lock.step_chain hLock hs hStarved (by cases r <;> exact hLeft)
    cases r <;> exact hAfter
  | lockHand f c _ listener hLock => exact Lock.step_chain hLock hs hStarved hLeft
  | tryLock => exact .of_locked rfl
  | hand => exact hs
  | discardLeft | discard | discardHand => exact hs.discard (by simp) hLeft
  | unlock | abort | abortOwner => exact .of_rouses (Nat.add_pos_left Nat.one_pos _)
  | notify => exact .notifyLockOps hLeft

end Use

/-- The actions of a machine are uses of the mutex in its memory, and the objects it creates
have nothing to do with it at first, but for a guard that is handed out. -/
structure Host {σ ω κ χ : Type*} (p : Platform) (M : Machine σ ω κ χ) (s₀ : State σ ω)
    (mutex : σ → Mutex) (role : ω → Role) : Prop where
  word : mutex s₀.mem = Mutex.new
  empty : s₀.pool = []
  create : ∀ s k, role (M.create s k) = .apart false ∨ role (M.create s k) = .locking .unpolled
  use : ∀ i c s o s' o' new, M.step i c s o = some (s', o', new) →
    ∃ e, Use p i (mutex s) e (role o) (mutex s') (role o')
        (census (fun n => (role n).owns) new) ∧
      ∀ n ∈ new, role n = .apart false ∨ role n = .owner false
  aborted : ∀ i c s o, (role o).Aborted → M.step i c s o = none

namespace Host

variable {σ ω κ χ : Type*} {p : Platform} {M : Machine σ ω κ χ} {s₀ s : State σ ω}
  {mutex : σ → Mutex} {role : ω → Role}

/-- The objects of the pool that own the lock bit of the mutex. -/
def owners (role : ω → Role) (s : State σ ω) : Nat := census (fun o => (role o).owns) s.pool

def starvedOps (role : ω → Role) (s : State σ ω) : Nat := census (fun o => (role o).starved) s.pool

theorem census_new {f : Role → Nat} (hApart : f (.apart false) = 0) (hOwner : f (.owner false) = 0)
    {new : List ω} (h : ∀ n ∈ new, role n = .apart false ∨ role n = .owner false) :
    census (fun n => f (role n)) new = 0 := by
  apply census_eq_zero
  intro n hn
  rcases h n hn with hRole | hRole
  · rw [hRole, hApart]
  · rw [hRole, hOwner]

theorem accounts_of_reaches (H : Host p M s₀ mutex role) (h : M.Reaches s₀ s)
    (hAlive : Alive (fun o => (role o).Aborted) s) :
    Accounts p (mutex s.mem).state (owners role s) (starvedOps role s) := by
  apply Machine.invariant_alive
    (P := fun s => Accounts p (mutex s.mem).state (owners role s) (starvedOps role s))
    H.aborted h hAlive
  · unfold owners starvedOps
    rw [H.word, H.empty]
    exact Accounts.new p
  · intro u v _ _ hStep hAfter hu
    unfold owners starvedOps at hu ⊢
    rcases Machine.step_others hStep with ⟨k, rfl⟩ |
      ⟨i, c, o, mem, o', new, others, _, hAct, rfl, hMem, hPool, hPool'⟩
    · rcases H.create u.mem k with hRole | hRole <;>
        simpa [hRole, Role.owns, Role.starved, Lock.owns, Lock.starved] using hu
    · obtain ⟨e, hUse, hNew⟩ := H.use i c u.mem o mem o' new hAct
      rw [hPool, hPool] at hu
      rw [hPool', hPool', census_new (f := Role.starved) rfl rfl hNew]
      exact hUse.accounts (hAfter o' hMem) hu

theorem owned_of_reaches (H : Host p M s₀ mutex role) (h : M.Reaches s₀ s)
    (hAlive : Alive (fun o => (role o).Aborted) s) :
    Owned (fun o => (role o).listens) (mutex s.mem).lockOps s.pool := by
  apply Machine.invariant_alive
    (P := fun s => Owned (fun o => (role o).listens) (mutex s.mem).lockOps s.pool)
    H.aborted h hAlive
  · rw [H.word, H.empty]
    exact Owned.nil _
  · intro u v _ _ hStep hAfter hu
    apply Machine.owned_of_step (fun m => (mutex m).lockOps) hStep hu
    · intro m k
      rcases H.create m k with hRole | hRole <;> simp [hRole, Role.listens, Lock.listens]
    · intro i c o m' o' new hAct hMem
      obtain ⟨e, hUse, hNew⟩ := H.use i c u.mem o m' o' new hAct
      refine ⟨hUse.access (hAfter o' hMem), fun n hn => ?_⟩
      rcases hNew n hn with hRole | hRole <;> rw [hRole] <;> rfl

theorem chain_of_reaches (H : Host p M s₀ mutex role) (h : M.Reaches s₀ s)
    (hAlive : Alive (fun o => (role o).Aborted) s) :
    (mutex s.mem).Chain (census (fun o => (role o).asleep) s.pool)
      (census (fun o => (role o).rouses) s.pool) := by
  apply Machine.invariant_alive (P := fun s => (mutex s.mem).Chain
    (census (fun o => (role o).asleep) s.pool) (census (fun o => (role o).rouses) s.pool))
    H.aborted h hAlive
  · intro _ hPos
    rw [H.empty] at hPos
    cases hPos
  · intro u v hPast hBefore hStep hAfter hu
    have hOwned := H.owned_of_reaches (hPast.tail hStep) hAfter
    have hAccounts := H.accounts_of_reaches hPast hBefore
    rcases Machine.step_others hStep with ⟨k, rfl⟩ |
      ⟨i, c, o, m', o', new, others, _, hAct, rfl, _, hPool, hPool'⟩
    · rcases H.create u.mem k with hRole | hRole <;>
        simpa [hRole, Role.asleep, Role.rouses, Lock.asleep, Lock.rouses, Lock.listens] using hu
    · obtain ⟨e, hUse, hNew⟩ := H.use i c u.mem o m' o' new hAct
      have hLeft := hOwned.owners_ne_nil_of_census fun o => (role o).asleep_listens
      rw [hPool', census_new (f := Role.asleep) rfl rfl hNew] at hLeft ⊢
      rw [hPool', census_new (f := Role.rouses) rfl rfl hNew]
      rw [hPool, hPool] at hu
      refine hUse.chain hu ?_ hLeft
      -- an even word above 0 counts a starved operation, which is not this one
      intro hFree hNonzero hSelf
      have hEq := hAccounts.state_eq
      have hLe := hAccounts.owners_le
      rw [owners, starvedOps, hPool, hPool] at hEq
      rw [owners, hPool] at hLe
      have hSplit := census_le (fun o => (role o).starved_le) others
      rw [census_add, census_add] at hSplit
      omega

/-- No lost wake-up: where no lock operation is in the middle of an action, the mutex is free and
an operation is parked on it, a parked operation has been notified. -/
theorem parked_notified (H : Host p M s₀ mutex role) (h : M.Reaches s₀ s)
    (hResting : ∀ o ∈ s.pool, (role o).Resting) (hFree : (mutex s.mem).state % 2 = 0)
    (hParked : ∃ o ∈ s.pool, (role o).Parked) :
    ∃ j o, s.pool[j]? = some o ∧ (role o).Parked ∧ ((mutex s.mem).lockOps.markOf j).isSome := by
  have hAlive : Alive (fun o => (role o).Aborted) s := fun o ho => (hResting o ho).alive
  have hAsleep : 0 < census (fun o => (role o).asleep) s.pool :=
    (census_pos_iff _ _).mpr (hParked.imp fun o ho => ⟨ho.1, ho.2.asleep⟩)
  exact (H.owned_of_reaches h hAlive).exists_parked (H.chain_of_reaches h hAlive hFree hAsleep)
    (fun o ho => (hResting o ho).parked) fun o ho => (hResting o ho).rouses

end Host
end AsyncLock.Mutex
