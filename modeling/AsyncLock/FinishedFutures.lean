import AsyncLock.Mutex.Wakeup
import AsyncLock.RwLock.Listeners
import AsyncLock.Semaphore.Wakeup

/-! # Finished futures that are still queued

No future that acquires a lock or a permit lets go of its listener when it returns `Ready`. It is
left without an entry by the exits before a `listen()` and after the entry has been consumed, and
with one by the exits in between. The entry stays until the finished future is dropped.
-/
namespace AsyncLock
set_option autoImplicit false

open Interleaving

section

variable {σ ω κ χ : Type*}

/-- The finished object `i` at the end of a run owes it to its last action, and is queued exactly
if that was one of the exits that leave an entry behind; its drop takes it out of the queue. -/
structure Returned (M : Machine σ ω κ χ) (s₀ : State σ ω) (acts : List (Action κ χ))
    (s : State σ ω) (i : Nat) (exitsQueued : ω → Bool) (queued : σ → Prop) : Prop where
  last : M.ActedLast s₀ acts i fun u c => ∃ q m o new, u.pool[i]? = some q ∧
    s.pool[i]? = some o ∧ M.step i c u.mem q = some (m, o, new) ∧
    (queued s.mem ↔ exitsQueued q = true)
  dropped : ∀ c t, M.next s (.act i c) = some t → ¬ queued t.mem

/-- Enough for this: an object that has just finished listens exactly if it took such an exit,
and one that has been dropped does not listen. -/
theorem returned_of_run {M : Machine σ ω κ χ} (finished listens : ω → Bool) {exitsQueued : ω → Bool}
    {queued : σ → Prop} {s₀ s : State σ ω} {acts : List (Action κ χ)} {i : Nat} {o : ω}
    (h : M.run s₀ acts = some s) (hGet : s.pool[i]? = some o) (ho : finished o = true)
    (h₀ : s₀.pool = []) (hCreate : ∀ m k, finished (M.create m k) = false)
    (hStep : ∀ i c m q m' o new, M.step i c m q = some (m', o, new) →
      (finished o = true → listens o = exitsQueued q) ∧ ∀ n ∈ new, finished n = false)
    (hDrop : ∀ c m o' new, M.step i c s.mem o = some (m, o', new) → listens o' = false)
    (hQueued : ∀ t, t = s ∨ (∃ c, M.next s (.act i c) = some t) → ∀ o, t.pool[i]? = some o →
      (queued t.mem ↔ listens o = true)) :
    Returned M s₀ acts s i exitsQueued queued := by
  constructor
  · have hLast := Machine.actedLast_of_run (P := fun o => finished o = true) (by simp [h₀])
      (fun m k => by simp [hCreate m k])
      (fun i c m q m' o' new hAct n hn => by simp [(hStep i c m q m' o' new hAct).2 n hn]) h hGet ho
    refine hLast.mono fun u c hAct => ?_
    obtain ⟨q, m, new, hq, hAct⟩ := hAct
    refine ⟨q, m, o, new, hq, hGet, hAct, ?_⟩
    rw [hQueued s (.inl rfl) o hGet, (hStep i c u.mem q m o new hAct).1 ho]
  · intro c t hNext
    obtain ⟨m, o', new, hAct, rfl⟩ := Machine.next_act_at hGet hNext
    rw [hQueued _ (.inr ⟨c, hNext⟩) o' (get_act_self hGet o' new), hDrop c m o' new hAct]
    exact nofun

theorem returned_of_owned {M : Machine σ ω κ χ} (event : σ → Event) (finished listens : ω → Bool)
    {exitsQueued : ω → Bool} {s₀ s : State σ ω} {acts : List (Action κ χ)} {i : Nat} {o : ω}
    (h : M.run s₀ acts = some s) (hGet : s.pool[i]? = some o) (ho : finished o = true)
    (h₀ : s₀.pool = []) (hOwned : ∀ t, M.Reaches s₀ t → Owned listens (event t.mem) t.pool)
    (hCreate : ∀ m k, finished (M.create m k) = false)
    (hStep : ∀ i c m q m' o new, M.step i c m q = some (m', o, new) →
      (finished o = true → listens o = exitsQueued q) ∧ ∀ n ∈ new, finished n = false)
    (hDrop : ∀ c m o' new, M.step i c s.mem o = some (m, o', new) → listens o' = false) :
    Returned M s₀ acts s i exitsQueued fun m => i ∈ (event m).owners := by
  have hReach := M.reaches_of_run acts s₀ s h
  apply returned_of_run finished listens h hGet ho h₀ hCreate hStep hDrop
  intro t ht q hq
  rcases ht with rfl | ⟨c, hNext⟩
  · exact (hOwned t hReach).mem_owners_iff hq
  · exact (hOwned t (hReach.tail ⟨_, hNext⟩)).mem_owners_iff hq

end

/-! ## The mutex -/

/-- The exits after a `listen()` whose entry has not been consumed. -/
def Lock.exitsQueued : Lock → Bool
  | tryListening => true
  | takeMutex listener => listener
  | _ => false

theorem Lock.ready_listener {p : Platform} {i : Nat} {c : LockChoice} {m m' : Mutex} {f : Lock}
    {listener : Bool} (h : f.step p i c m = some (m', .ready listener)) :
    listener = f.exitsQueued := by
  cases Lock.step_acts h <;> rfl

namespace Mutex

def Object.isFinished : Object → Bool
  | finished _ => true
  | _ => false

def Object.exitsQueued : Object → Bool
  | lock _ f => f.exitsQueued
  | _ => false

variable {p : Platform} {i : Nat}

theorem step_finished {c : LockChoice} {m m' : Mutex} {o o' : Object} {new : List Object}
    (h : step p i c m o = some (m', o', new)) :
    (o'.isFinished = true → o'.listens = o.exitsQueued) ∧ ∀ n ∈ new, n.isFinished = false := by
  cases step_acts h with
  | lockReady _ _ _ _ hLock =>
    exact ⟨fun _ => Lock.ready_listener hLock, by simp [Object.isFinished]⟩
  | _ => exact ⟨nofun, by simp⟩

theorem returned_of_finished {acts : List (Action Call LockChoice)} {s : State Mutex Object}
    {listener : Bool} (h : (machine p).run initial acts = some s)
    (hGet : s.pool[i]? = some (.finished listener)) :
    Returned (machine p) initial acts s i Object.exitsQueued fun m => i ∈ m.lockOps.owners := by
  apply returned_of_owned lockOps Object.isFinished Object.listens h hGet rfl rfl
    fun t => owned_of_reaches
  · intro m k
    cases k <;> rfl
  · intro i c m q m' o new hAct
    exact step_finished hAct
  · intro c m o' new hAct
    cases hAct
    rfl

end Mutex

/-! ## The semaphore -/

namespace Semaphore

def Object.isFinished : Object → Bool
  | finished _ => true
  | _ => false

def Object.exitsQueued : Object → Bool
  | acquire _ (.trying listener (.exchange _)) => listener
  | _ => false

variable {bits i n : Nat}

theorem step_finished {c : Choice} {s s' : Semaphore} {o o' : Object} {new : List Object}
    (h : step bits i c s o = some (s', o', new)) :
    (o'.isFinished = true → o'.listens = o.exitsQueued) ∧ ∀ n ∈ new, n.isFinished = false := by
  cases step_acts h with
  | take => exact ⟨fun _ => rfl, by simp [Object.isFinished]⟩
  | _ => exact ⟨nofun, by simp⟩

theorem returned_of_finished {acts : List (Action Call Choice)} {s : State Semaphore Object}
    {listener : Bool} (h : (machine bits).run (initial n) acts = some s)
    (hGet : s.pool[i]? = some (.finished listener)) :
    Returned (machine bits) (initial n) acts s i Object.exitsQueued fun m =>
      i ∈ m.event.owners := by
  apply returned_of_owned event Object.isFinished Object.listens h hGet rfl rfl
    fun t => owned_of_reaches
  · intro m k
    cases k <;> rfl
  · intro i c m q m' o new hAct
    exact step_finished hAct
  · intro c m o' new hAct
    cases hAct
    rfl

end Semaphore

/-! ## The reader-writer lock -/

namespace RwLock

variable {α : Type*} {p : Platform} {i : Nat} {value : α}

def Queued (i : Nat) (s : RwLock α) : Prop :=
  i ∈ s.noReaders.owners ∨ i ∈ s.noWriter.owners ∨ i ∈ s.mutex.lockOps.owners

def Object.listens (o : Object) : Bool :=
  o.listensReaders || o.listensWriter || o.listensLockOps

/-- An upgradable read has kept the listener of its finished `Lock`. -/
def Object.exitsQueued : Object → Bool
  | read _ (.loop _ listener) => listener
  | upgradableRead _ (.exchange listener _) => listener
  | waiting _ _ _ (.check listener) => listener
  | _ => false

theorem step_ready {c : Choice α} {s s' : RwLock α} {o o' : Object} {new : List Object}
    (h : step p i c s o = some (s', o', new)) :
    (o'.isReady = true → o'.listens = o.exitsQueued) ∧ ∀ n ∈ new, n.isReady = false := by
  have hNil : ∀ n ∈ ([] : List Object), n.isReady = false := by simp
  cases step_acts h with
  | readTake _ _ listener | upgradableTake _ _ listener | waitingReady _ _ _ _ listener =>
    refine ⟨fun _ => ?_, by simp [Object.isReady]⟩
    cases listener <;> rfl
  | writeAcquired => exact ⟨fun _ => rfl, by simp [Object.isReady]⟩
  | upgradableAcquire _ _ _ _ _ r | writeAcquire _ _ _ _ _ r => cases r <;> exact ⟨nofun, hNil⟩
  | _ => exact ⟨nofun, hNil⟩

theorem queued_iff {s : State (RwLock α) Object} (h : (machine p).Reaches (initial value) s)
    (hAlive : Alive Object.Aborted s) {o : Object} (hGet : s.pool[i]? = some o) :
    Queued i s.mem ↔ o.listens = true := by
  rw [Queued, (ownedReaders_of_reaches h).mem_owners_iff hGet,
    (ownedWriter_of_reaches h hAlive).mem_owners_iff hGet,
    (ownedLockOps_of_reaches h hAlive).mem_owners_iff hGet]
  simp [Object.listens, or_assoc]

theorem returned_of_ready {acts : List (Action Call (Choice α))} {s : State (RwLock α) Object}
    {o : Object} (h : (machine p).run (initial value) acts = some s)
    (hAlive : Alive Object.Aborted s) (hGet : s.pool[i]? = some o) (hReady : o.isReady = true) :
    Returned (machine p) (initial value) acts s i Object.exitsQueued (Queued i) := by
  have hReach := Machine.reaches_of_run _ acts _ s h
  have hGone (c : Choice α) (m : RwLock α) (o' : Object) (new : List Object)
      (hAct : step p i c s.mem o = some (m, o', new)) : o' = .gone ∧ new = [] := by
    cases o with
    | readDone | upgradableDone | writeDone =>
      cases hAct
      exact ⟨rfl, rfl⟩
    | _ => cases hReady
  apply returned_of_run Object.isReady Object.listens h hGet hReady rfl
  · intro m k
    cases k <;> rfl
  · exact fun i c m q m' o new hAct => step_ready hAct
  · intro c m o' new hAct
    rw [(hGone c m o' new hAct).1]
    rfl
  · intro t ht q hq
    rcases ht with rfl | ⟨c, hNext⟩
    · exact queued_iff hReach hAlive hq
    · refine queued_iff (hReach.tail ⟨_, hNext⟩) ?_ hq
      obtain ⟨m, o', new, hAct, rfl⟩ := Machine.next_act_at hGet hNext
      obtain ⟨rfl, rfl⟩ := hGone c m o' new hAct
      exact hAlive.act id nofun

end RwLock

/-! ## All of them -/

/-- A future that has returned `Ready` is queued exactly if it did so by an exit with a listener
that it had not waited for, and no longer once it has been dropped: the lock futures of the mutex,
the acquire futures of the semaphore, and the read, upgradable read, write and upgrade futures of
the reader-writer lock, with their `_arc` forms. -/
theorem finished_futures_queued_iff {α : Type*} (value : α) (p : Platform) (bits permits : Nat) :
    (∀ acts s i listener, (Mutex.machine p).run Mutex.initial acts = some s →
      s.pool[i]? = some (.finished listener) →
        Returned (Mutex.machine p) Mutex.initial acts s i Mutex.Object.exitsQueued
          fun m => i ∈ m.lockOps.owners) ∧
    (∀ acts s i listener,
      (Semaphore.machine bits).run (Semaphore.initial permits) acts = some s →
      s.pool[i]? = some (.finished listener) →
        Returned (Semaphore.machine bits) (Semaphore.initial permits) acts s i
          Semaphore.Object.exitsQueued fun m => i ∈ m.event.owners) ∧
    ∀ acts s i o, (RwLock.machine p).run (RwLock.initial value) acts = some s →
      Alive RwLock.Object.Aborted s → s.pool[i]? = some o → o.isReady = true →
        Returned (RwLock.machine p) (RwLock.initial value) acts s i RwLock.Object.exitsQueued
          (RwLock.Queued i) := by
  refine ⟨?_, ?_, ?_⟩
  · exact fun acts s i listener h hGet => Mutex.returned_of_finished h hGet
  · exact fun acts s i listener h hGet => Semaphore.returned_of_finished h hGet
  · exact fun acts s i o h hAlive hGet hReady => RwLock.returned_of_ready h hAlive hGet hReady

/-- The permit comes back between the `listen()` of a pending `acquire` and its next try. -/
def acquireWhileQueued : List (Action Semaphore.Call Semaphore.Choice) :=
  [.call .tryAcquire, .act 0 (.go false), .act 0 (.go false), .call .acquire, .act 1 (.go false),
    .act 1 (.go false), .act 1 (.go false), .act 0 .drop, .act 1 (.go false), .act 1 (.go false),
    .act 0 (.go false)]

def finishedQueued : State Semaphore Semaphore.Object :=
  ⟨⟨0, ⟨[⟨1, some .single⟩]⟩⟩, [.gone, .finished true, .guard false]⟩

theorem finished_futures_queued_iff_acquire :
    Returned (Semaphore.machine 64) (Semaphore.initial 1) acquireWhileQueued finishedQueued 1
      Semaphore.Object.exitsQueued fun m => 1 ∈ m.event.owners :=
  (finished_futures_queued_iff () platform64 64 1).2.1 acquireWhileQueued finishedQueued 1 true
    (by decide +kernel) rfl

/-- Another `acquire` comes to sleep, and the next permit is announced to the finished one. -/
def acquireBehindFinished : List (Action Semaphore.Call Semaphore.Choice) :=
  acquireWhileQueued ++ [.call .acquire, .act 3 (.go false), .act 3 (.go false),
    .act 3 (.go false), .act 3 (.go false), .act 3 (.go false), .act 2 .drop, .act 2 (.go false)]

def leftAsleep : State Semaphore Semaphore.Object :=
  ⟨⟨1, ⟨[⟨1, some .single⟩, ⟨3, none⟩]⟩⟩,
    [.gone, .finished true, .gone, .acquire ⟨false, false⟩ (.pending true)]⟩

/-- A finished future holds the notification while a permit is free and another one sleeps. -/
theorem finished_future_absorbs :
    (Semaphore.machine 64).Reaches (Semaphore.initial 1) leftAsleep ∧
      leftAsleep.pool[1]? = some (.finished true) ∧ 1 ∈ leftAsleep.mem.event.owners ∧
      (leftAsleep.mem.event.markOf 1).isSome ∧ leftAsleep.mem.count = 1 ∧
      leftAsleep.pool[3]? = some (.acquire ⟨false, false⟩ (.pending true)) ∧
      leftAsleep.mem.event.markOf 3 = none :=
  ⟨Machine.reaches_of_run _ acquireBehindFinished _ _ (by decide +kernel), rfl, by decide,
    by decide, rfl, rfl, by decide⟩

end AsyncLock
