import AsyncLock.Mutex.Turns

/-! # Every lock operation completes

Once nobody calls the mutex any more, its operations come to an end in whatever order they act
and whatever the clock says, even though the mutex is contended and some of them have starved.
None is left asleep: where no action is possible, each has had the lock and has given it back.
-/
namespace AsyncLock.Mutex
set_option autoImplicit false

open Interleaving

namespace Object

def role : Object → Role
  | lock _ f => .locking f
  | finished listener => .apart listener
  | guard _ => .owner false
  | unlocking => .unlocking
  | tryLock _ | gone => .apart false

/-- A call that may still begin to lock. -/
def starts : Object → Nat
  | tryLock _ => 1
  | _ => 0

/-- What ends without a use of the mutex, or may do so. -/
def ends : Object → Nat
  | tryLock _ | finished _ => 1
  | _ => 0

/-- A lock operation that will return a guard, unless it is dropped. -/
def pending : Object → Nat
  | lock _ .dropListener => 0
  | lock _ _ => 1
  | _ => 0

theorem role_aborted {o : Object} : o.role.Aborted ↔ o.Aborted := by cases o <;> exact Iff.rfl

end Object

variable {p : Platform}

/-- How each action uses the mutex. One that begins to lock is the only one of its call, and one
that leaves the mutex alone is the last one of its object. -/
theorem step_use {i : Nat} {c : LockChoice} {m m' : Mutex} {o o' : Object} {new : List Object}
    (h : step p i c m o = some (m', o', new)) :
    ∃ e, Use p i m e o.role m' o'.role (census (fun n => n.role.owns) new) ∧
      (∀ n ∈ new, n.role = .apart false ∨ n.role = .owner false) ∧
      o'.starts + census Object.starts new ≤ o.starts ∧
      (e = .starts → o'.starts + census Object.starts new < o.starts) ∧
      (e = .keeps → o'.ends + census Object.ends new < o.ends) := by
  cases step_acts h with
  | tryTake _ hFree =>
    exact ⟨_, .tryLock hFree, nofun, Nat.zero_le _, fun _ => Nat.one_pos, nofun⟩
  | tryFail => exact ⟨_, .stay _, nofun, Nat.zero_le _, nofun, fun _ => Nat.one_pos⟩
  | lockRun _ f _ _ hLock | lockDrop _ f _ hLock =>
    exact ⟨_, .lock f c _ _ hLock, nofun, Nat.le_refl _, nofun, nofun⟩
  | lockReady _ f _ listener hLock =>
    refine ⟨_, .lockHand f c _ listener hLock, fun n hn => ?_, Nat.le_refl _, nofun, nofun⟩
    rw [List.mem_singleton.mp hn]
    exact .inr rfl
  | finish => exact ⟨_, .stay _, nofun, Nat.le_refl _, nofun, fun _ => Nat.one_pos⟩
  | finishListener => exact ⟨_, .discardLeft, nofun, Nat.le_refl _, nofun, nofun⟩
  | unlock => exact ⟨_, .unlock, nofun, Nat.le_refl _, nofun, nofun⟩
  | unlockNotify => exact ⟨_, .notify, nofun, Nat.le_refl _, nofun, nofun⟩

theorem host (p : Platform) : Host p (machine p) initial id Object.role where
  word := rfl
  empty := rfl
  create _ k := by
    cases k with
    | lockAs form => exact .inr rfl
    | tryLockAs arc => exact .inl rfl
  use i c m o m' o' new h := by
    obtain ⟨e, hUse, hNew, _⟩ := step_use h
    exact ⟨e, hUse, hNew⟩
  aborted i c m o h := aborted_stuck i c m o (Object.role_aborted.mp h)

/-! ## Every run ends -/

def rank (s : State Mutex Object) : Nat ×ₗ Nat ×ₗ Nat ×ₗ Nat :=
  Host.rank id Object.role s (census Object.starts s.pool) (census Object.ends s.pool)

theorem rank_lt {ok : State Mutex Object → Nat → LockChoice → Prop} {s s' : State Mutex Object}
    (h : (machine p).Works ok s s') : rank s' < rank s := by
  obtain ⟨i, c, o, o', new, others, _, _, hAct, _, hPool, hPool'⟩ := Machine.works_others h
  obtain ⟨e, hUse, hNew, hLe, hStarts, hEnds⟩ := step_use hAct
  refine Host.rank_lt hNew hPool hPool' hUse ?_ (fun he => ?_) (fun he => ?_)
  · rw [hPool, hPool']
    omega
  · rw [hPool, hPool']
    have := hStarts he
    omega
  · rw [hPool, hPool']
    have := hEnds he
    omega

theorem acc_works (ok : State Mutex Object → Nat → LockChoice → Prop) (s : State Mutex Object) :
    Acc (fun v u => (machine p).Works ok u v) s :=
  Machine.acc_of_rank (P := fun _ => True) rank (fun _ _ _ h => ⟨trivial, rank_lt h⟩) trivial

/-! ## Where a run ends -/

/-- No future is dropped before it is ready. -/
def goes (_ : State Mutex Object) (_ : Nat) : LockChoice → Prop
  | .go _ => True
  | .drop => False

theorem step_pending {i : Nat} {e : Bool} {m m' : Mutex} {o o' : Object} {new : List Object}
    (h : step p i (.go e) m o = some (m', o', new)) :
    o'.pending + census Object.pending new + new.length = o.pending := by
  cases step_acts h with
  | lockRun _ f f' _ hLock => cases Lock.step_acts hLock <;> rfl
  | lockReady _ f _ _ hLock => cases Lock.step_acts hLock <;> rfl
  | lockDrop _ f _ hLock =>
    cases Lock.step_acts hLock
    rfl
  | _ => rfl

theorem length_of_works {s t : State Mutex Object}
    (h : Relation.ReflTransGen ((machine p).Works goes) s t) :
    t.pool.length + census Object.pending t.pool =
      s.pool.length + census Object.pending s.pool := by
  induction h with
  | refl => rfl
  | tail _ hLast ih =>
    obtain ⟨i, c, o, o', new, others, hOk, _, hAct, hSet, hPool, hPool'⟩ :=
      Machine.works_others hLast
    cases c with
    | drop => cases hOk
    | go e =>
      have hStep := step_pending hAct
      have hBefore := hPool Object.pending
      have hAfter := hPool' Object.pending
      rw [hSet, List.length_append, List.length_set, ← hSet]
      omega

/-- An object that cannot go on is asleep or is no more. -/
theorem asleep_of_none {i : Nat} {m : Mutex} {o : Object} (hAlive : ¬ o.Aborted)
    (h : ∀ e, step p i (.go e) m o = none) : o = .gone ∨
      ∃ form f, o = .lock form f ∧ (f = .waiting ∨ f = .fairWaiting) ∧
        ¬ (m.lockOps.markOf i).isSome := by
  have hNone := h false
  cases o with
  | tryLock arc =>
    simp only [step] at hNone
    split at hNone <;> cases hNone
  | lock form f =>
    have hLock (e : Bool) : f.step p i (.go e) m = none := by simpa [step] using h e
    rcases Lock.asleep_of_none hLock with hAborted | hAsleep
    · exact absurd hAborted hAlive
    · exact .inr ⟨form, f, rfl, hAsleep⟩
  | finished | guard | unlocking => cases hNone
  | gone => exact .inl rfl

theorem gone_of_stuck {s : State Mutex Object} (h : (machine p).Reaches initial s)
    (hAlive : Alive Object.Aborted s) (hStuck : (machine p).Stuck goes s) :
    ∀ o ∈ s.pool, o = .gone := by
  have hAsleep (j : Nat) (o : Object) (hGet : s.pool[j]? = some o) : o = .gone ∨
      ∃ form f, o = .lock form f ∧ (f = .waiting ∨ f = .fairWaiting) ∧
        ¬ (s.mem.lockOps.markOf j).isSome :=
    asleep_of_none (hAlive o (List.mem_of_getElem? hGet)) fun e =>
      Machine.next_eq_none hGet (hStuck j (.go e) trivial)
  have hOwners : guards s = 0 := by
    apply census_eq_zero
    intro o ho
    obtain ⟨j, hGet⟩ := List.getElem?_of_mem ho
    rcases hAsleep j o hGet with rfl | ⟨form, f, rfl, rfl | rfl, _⟩ <;> rfl
  have hFree : s.mem.state % 2 = 0 := by
    have := (accounts_of_reaches h hAlive).state_eq
    omega
  intro o ho
  by_contra hLeft
  obtain ⟨j, hGet⟩ := List.getElem?_of_mem ho
  -- somebody is asleep, so somebody has been notified, who could go on
  have hParked : ∃ o ∈ s.pool, o.Parked := by
    rcases hAsleep j o hGet with hGone | ⟨form, f, rfl, rfl | rfl, _⟩
    · exact absurd hGone hLeft
    · exact ⟨_, ho, trivial⟩
    · exact ⟨_, ho, trivial⟩
  have hResting : ∀ o ∈ s.pool, o.Resting := by
    intro q hq
    obtain ⟨k, hGet'⟩ := List.getElem?_of_mem hq
    rcases hAsleep k q hGet' with rfl | ⟨form, f, rfl, rfl | rfl, _⟩ <;> trivial
  have hSleepers : 0 < census Object.asleep s.pool :=
    (census_pos_iff _ _).mpr (hParked.imp fun o ho => ⟨ho.1, ho.2.asleep⟩)
  obtain ⟨k, q, hGet', hPark, hMark⟩ := (owned_of_reaches h).exists_parked
    (chain_of_reaches h hAlive hFree hSleepers) (fun o ho => (hResting o ho).parked)
    fun o ho => (hResting o ho).rouses
  rcases hAsleep k q hGet' with rfl | ⟨form, f, rfl, _, hUnmarked⟩
  · cases hPark
  · exact hUnmarked hMark

/-- Without new calls every run ends, and while no future is dropped it ends in a free mutex that
nobody waits for. Each lock operation that was pending has then returned its guard, and the guard
has been dropped. -/
theorem locks_complete {s : State Mutex Object} (h : (machine p).Reaches initial s) :
    ¬ (machine p).Endless (fun _ _ _ => True) s ∧
      ∀ t, Relation.ReflTransGen ((machine p).Works goes) s t → Alive Object.Aborted t →
        (machine p).Stuck goes t → (∀ o ∈ t.pool, o = .gone) ∧ t.mem.state = 0 ∧
          t.mem.lockOps.owners = [] ∧
          t.pool.length = s.pool.length + census Object.pending s.pool := by
  refine ⟨Machine.not_endless_of_acc (acc_works _ s), fun t hRun hAlive hStuck => ?_⟩
  have hReach : (machine p).Reaches initial t := h.trans (Machine.reaches_of_works hRun)
  have hGone := gone_of_stuck hReach hAlive hStuck
  have hNone {f : Object → Nat} (hf : f .gone = 0) : census f t.pool = 0 :=
    census_eq_zero fun o ho => by rw [hGone o ho, hf]
  refine ⟨hGone, ?_, ?_, ?_⟩
  · have hWord := (accounts_of_reaches hReach hAlive).state_eq
    unfold guards starvedOps at hWord
    rwa [hNone rfl, hNone rfl] at hWord
  · refine List.eq_nil_iff_forall_not_mem.mpr fun j hj => ?_
    obtain ⟨o, hGet, hListens⟩ := (owned_of_reaches hReach j).mp hj
    rw [hGone o (List.mem_of_getElem? hGet)] at hListens
    cases hListens
  · have hLength := length_of_works hRun
    rwa [hNone rfl] at hLength

def contended : State Mutex Object :=
  ⟨⟨1, Event.new⟩, [.guard false, .lock ⟨true, false⟩ .unpolled]⟩

def completed : State Mutex Object := ⟨Mutex.new, [.gone, .gone, .gone]⟩

/-- The waiting operation gets the lock after the guard has been dropped. -/
def waitForDrop : List (Nat × LockChoice) :=
  [(1, .go false), (1, .go false), (1, .go false), (0, .go false), (0, .go false),
    (1, .go false), (1, .go true), (2, .go false), (2, .go false), (1, .go false)]

theorem locks_complete_waitForDrop :
    ¬ (machine platform64).Endless (fun _ _ _ => True) contended ∧
      completed.pool.length = contended.pool.length + census Object.pending contended.pool := by
  have hReach : (machine platform64).Reaches initial contended :=
    Machine.reaches_of_run _ [.call .tryLock, .act 0 (.go false), .call .lockArc] _ _ (by decide)
  have hComplete := locks_complete hReach
  refine ⟨hComplete.1, (hComplete.2 completed ?_ ?_ ?_).2.2.2⟩
  · exact Machine.works_of_run waitForDrop (by simp [waitForDrop, goes]) (by decide)
  · simp [Alive, completed, Object.Aborted]
  · intro i c _
    rcases i with _ | _ | _ | i <;> rfl

end AsyncLock.Mutex
