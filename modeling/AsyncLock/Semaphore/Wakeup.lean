import AsyncLock.Semaphore.Accounting

/-! # When the semaphore keeps its wake-ups

A release notifies only if no entry is marked already, and an acquire that consumes an entry
does not pass the notification on. So the release of two permits can wake one waiter, who
takes one of them, and leave the next waiter asleep over the other. Nothing else can go wrong:
wherever no entry is consumed like that, a sleeper has been notified whenever there are more
permits than attempts to take one.
-/
namespace AsyncLock
set_option autoImplicit false

open Interleaving

namespace Semaphore
namespace Object

def listens : Object → Bool
  | acquire _ (.pending listener) | acquire _ (.trying listener _) | finished listener => listener
  | acquire _ .wait => true
  | _ => false

/-- Queued, with no look at the count before its entry is marked, unless it is polled again. -/
def sleeps : Object → Nat
  | acquire _ (.pending listener) => listener.toNat
  | acquire _ .wait => 1
  | _ => 0

def waits : Object → Bool
  | acquire _ .wait => true
  | _ => false

/-- Bound to look at the count before it may sleep. -/
def attempts : Object → Nat
  | tryAcquire _ _ | acquire _ (.trying _ _) | acquire _ .register => 1
  | _ => 0

def notifies : Object → Nat
  | releasing => 1
  | adding n => n
  | _ => 0

/-- Not in the middle of an operation; the thread of a blocking call sleeps at `wait`. -/
def Resting : Object → Prop
  | acquire _ (.pending _) | guard _ | forgotten _ | added _ | gone => True
  | acquire form .wait => form.blocking = true
  | _ => False

def Parked : Object → Prop
  | acquire _ (.pending true) | acquire _ .wait => True
  | _ => False

theorem sleeps_listens (o : Object) (h : 0 < o.sleeps) : o.listens = true := by
  cases o with
  | acquire form at_ =>
    cases at_ with
    | pending listener =>
      cases listener
      · cases h
      · rfl
    | wait => rfl
    | _ => cases h
  | _ => cases h

theorem Parked.sleeps {o : Object} (h : o.Parked) : 0 < o.sleeps := by
  cases o with
  | acquire form at_ =>
    cases at_ with
    | pending listener =>
      cases listener
      · cases h
      · exact Nat.one_pos
    | wait => exact Nat.one_pos
    | _ => cases h
  | _ => cases h

theorem Resting.attempts {o : Object} (h : o.Resting) : o.attempts = 0 ∧ o.notifies = 0 := by
  cases o with
  | acquire form at_ => cases at_ <;> first | exact ⟨rfl, rfl⟩ | cases h
  | _ => first | exact ⟨rfl, rfl⟩ | cases h

theorem Resting.parked {o : Object} (h : o.Resting) (hListens : o.listens = true) :
    o.Parked := by
  cases o with
  | acquire form at_ =>
    cases at_ with
    | pending listener =>
      cases listener
      · cases hListens
      · trivial
    | wait => trivial
    | _ => cases h
  | finished _ => cases h
  | _ => cases hListens

end Object

/-- Where there are permits beyond the attempts under way and somebody sleeps, a notification
is there or on its way. -/
def Chain (s : Semaphore) (sleepers attempts notifiers : Nat) : Prop :=
  0 < sleepers → attempts < s.count → s.event.Notified ∨ 0 < notifiers

variable {bits : Nat}

attribute [local simp] Object.sleeps Object.attempts Object.notifies

theorem step_access {i : Nat} {c : Choice} {s s' : Semaphore} {o o' : Object}
    {new : List Object} (h : step bits i c s o = some (s', o', new)) :
    Event.Access i s.event o.listens s'.event o'.listens ∧ ∀ n ∈ new, n.listens = false := by
  cases step_acts h with
  | register => exact ⟨.listen _, by simp⟩
  | consume _ _ hMark => exact ⟨.consume _ hMark, by simp⟩
  | cancelListener | finishListener => exact ⟨.discard _, by simp⟩
  | releaseNotify => exact ⟨.notify _ 1 _, by simp⟩
  | addNotify _ n => exact ⟨.notify _ n _, by simp⟩
  | take => exact ⟨.leave _ _, by simp [Object.listens]⟩
  | _ => exact ⟨.leave _ _, by simp⟩

theorem owned_of_reaches {n : Nat} {s : State Semaphore Object}
    (h : (machine bits).Reaches (initial n) s) : Owned Object.listens s.mem.event s.pool :=
  Machine.owned_of_reaches event h (Owned.nil _) (fun _ k => by cases k <;> rfl)
    fun _ _ _ _ _ _ _ hAct => step_access hAct

/-- Object `i` is about to consume the only marked entry, with nobody about to notify, while
another acquire sleeps and there are permits for more than the attempts under way and its own. -/
def ConsumesLast (s : State Semaphore Object) (i : Nat) : Prop :=
  s.pool[i]?.any Object.waits ∧ (s.mem.event.markOf i).isSome ∧
    1 < census Object.sleeps s.pool ∧ ¬ (s.mem.event.remove i).Notified ∧
    census Object.notifies s.pool = 0 ∧ census Object.attempts s.pool + 1 < s.mem.count

instance (s : State Semaphore Object) (i : Nat) : Decidable (ConsumesLast s i) :=
  inferInstanceAs (Decidable (_ ∧ _ ∧ _ ∧ _ ∧ _ ∧ _))

/-- The action does not consume the last notification while it is still needed. -/
def Sparing (s : State Semaphore Object) : Action Call Choice → Prop
  | .call _ => True
  | .act i _ => ¬ ConsumesLast s i

instance (s : State Semaphore Object) : ∀ a, Decidable (Sparing s a)
  | .call _ => inferInstanceAs (Decidable True)
  | .act i _ => inferInstanceAs (Decidable (¬ ConsumesLast s i))

theorem step_chain {i : Nat} {c : Choice} {s s' : Semaphore} {o o' : Object} {new : List Object}
    (h : step bits i c s o = some (s', o', new)) (hSound : o.Sound)
    {sleepers attempts notifiers : Nat}
    (hs : s.Chain (o.sleeps + sleepers) (o.attempts + attempts) (o.notifies + notifiers))
    (hLeft : 0 < o'.sleeps + sleepers → s'.event.owners ≠ [])
    (hSparing : ∀ form, o = .acquire form .wait → (s.event.markOf i).isSome → 0 < sleepers →
      attempts + 1 < s.count → (s.event.remove i).Notified ∨ 0 < notifiers) :
    s'.Chain (o'.sleeps + sleepers) (o'.attempts + attempts) (o'.notifies + notifiers) := by
  intro hSleep hCount
  cases step_acts h with
  | tryTake | take =>
    have : wrappingSub bits s.count 1 ≤ s.count - 1 :=
      wrappingSub_le (Nat.one_le_iff_ne_zero.mpr hSound)
    simp only [Object.attempts] at hCount
    exact hs hSleep (by simp only [Object.attempts]; omega)
  | tryFail _ _ _ hZero | toWait _ _ _ hZero | toRegister _ _ _ hZero => omega
  | register =>
    exact (hs (by simpa using hSleep) hCount).imp_left fun hMark => hMark.listen i
  | consume _ form hMark =>
    simp only [Object.sleeps, Object.attempts] at hSleep hCount
    simpa using hSparing form rfl hMark (by omega) (by omega)
  | cancelListener | finishListener =>
    simp only [Object.sleeps, Object.attempts] at hSleep hCount
    rcases hs (by simp only [Object.sleeps]; omega) (by simpa using hCount) with hMark | hNotify
    · exact .inl (hMark.discard (hLeft hSleep))
    · exact .inr hNotify
  | release => exact .inr (Nat.add_pos_left Nat.one_pos _)
  | releaseNotify =>
    exact .inl (Event.notified_notify _ (by decide) (by simpa using hLeft hSleep))
  | addPermits _ n =>
    rcases Nat.eq_zero_or_pos n with rfl | hn
    · have : wrappingAdd bits s.count 0 ≤ s.count := Nat.mod_le _ _
      exact hs hSleep (by simp only [Object.attempts] at hCount ⊢; omega)
    · exact .inr (Nat.add_pos_left hn _)
  | addNotify _ n =>
    rcases Nat.eq_zero_or_pos n with rfl | hn
    · exact (hs hSleep hCount).imp_left fun hMark => hMark.notify 0
    · exact .inl (Event.notified_notify _ hn (by simpa using hLeft hSleep))
  | poll | retry | toPending | cancel | finish | forget | tryRetry =>
    simp only [Object.sleeps, Object.attempts] at hSleep hCount
    exact hs (by simp only [Object.sleeps]; omega) (by simp only [Object.attempts]; omega)

/-- The consumption of the last notification does lose the wake-up: the sleeper is left without
one, and the attempts under way leave a permit over. -/
theorem not_chain_of_consumesLast {s s' : State Semaphore Object} {i : Nat} {c : Choice}
    (hLast : ConsumesLast s i) (h : (machine bits).next s (.act i c) = some s') :
    ¬ s'.mem.Chain (census Object.sleeps s'.pool) (census Object.attempts s'.pool)
      (census Object.notifies s'.pool) := by
  obtain ⟨hWaits, hMark, hSleeps, hUnmarked, hNotifies, hCount⟩ := hLast
  rcases Machine.next_others h with ⟨k, hCall, _⟩ |
    ⟨j, d, o, m', o', new, others, hEq, hGet, hAct, rfl, _, hPool, hPool'⟩
  · cases hCall
  · cases hEq
    rw [hGet, Option.any_some] at hWaits
    rw [hPool] at hSleeps hNotifies hCount
    rw [hPool', hPool', hPool']
    cases step_acts hAct with
    | consume =>
      intro hChain
      simp only [Object.sleeps, Object.attempts, Object.notifies, census_nil]
        at hSleeps hNotifies hCount hChain
      rcases hChain (by omega) (show _ < s.mem.count by omega) with hNotified | hPos
      · exact hUnmarked hNotified
      · omega
    | toPending _ _ hNone => exact absurd hMark hNone
    | _ => cases hWaits

theorem chain_of_run {n : Nat} {acts : List (Action Call Choice)} {s : State Semaphore Object}
    (h : (machine bits).run (initial n) acts = some s)
    (hSparing : (machine bits).Along Sparing (initial n) acts) :
    s.mem.Chain (census Object.sleeps s.pool) (census Object.attempts s.pool)
      (census Object.notifies s.pool) := by
  apply Machine.invariant_along (P := fun s => s.mem.Chain (census Object.sleeps s.pool)
    (census Object.attempts s.pool) (census Object.notifies s.pool)) h hSparing
    (fun hPos => absurd hPos (by simp [initial]))
  intro s a s' hPast hOk hNext hs
  have hOwned := owned_of_reaches (hPast.tail ⟨a, hNext⟩)
  rcases Machine.next_others hNext with ⟨k, rfl, rfl⟩ |
    ⟨i, c, o, m', o', new, others, rfl, hGet, hAct, rfl, _, hPool, hPool'⟩
  · intro hSleep hCount
    simp only [census_append, census_cons, census_nil] at hSleep hCount ⊢
    have hAwake : ((machine bits).create s.mem k).sleeps = 0 := by cases k <;> rfl
    exact (hs (by omega) (by omega)).imp_right (by omega)
  · have hSound := sound_of_reaches hPast o (List.mem_of_getElem? hGet)
    have hNew : census Object.sleeps new = 0 ∧ census Object.attempts new = 0 ∧
        census Object.notifies new = 0 := by
      cases step_acts hAct <;> exact ⟨rfl, rfl, rfl⟩
    have hLeft := hOwned.owners_ne_nil_of_census Object.sleeps_listens
    rw [hPool', hNew.1, Nat.add_zero] at hLeft ⊢
    rw [hPool', hPool', hNew.2.1, hNew.2.2]
    rw [hPool, hPool, hPool] at hs
    apply step_chain hAct hSound hs hLeft
    rintro form rfl hMark hSleepers hCount
    by_contra hLast
    rw [not_or] at hLast
    refine hOk ⟨by simp [hGet, Object.waits], hMark, ?_, hLast.1, ?_, ?_⟩
    · simp only [hPool, Object.sleeps]
      omega
    · simp only [hPool, Object.notifies]
      omega
    · simp only [hPool, Object.attempts]
      omega

/-- Along a run that never consumes the last notification while it is needed, a semaphore at
rest with permits left has notified one of those who are parked. -/
theorem parked_acquire_notified {n : Nat} {acts : List (Action Call Choice)}
    {s : State Semaphore Object} (h : (machine bits).run (initial n) acts = some s)
    (hSparing : (machine bits).Along Sparing (initial n) acts)
    (hResting : ∀ o ∈ s.pool, o.Resting) (hCount : 0 < s.mem.count)
    (hParked : ∃ o ∈ s.pool, o.Parked) :
    ∃ j o, s.pool[j]? = some o ∧ o.Parked ∧ (s.mem.event.markOf j).isSome := by
  have hAttempts : census Object.attempts s.pool = 0 :=
    census_eq_zero fun o ho => (hResting o ho).attempts.1
  have hSleeps : 0 < census Object.sleeps s.pool :=
    (census_pos_iff _ _).mpr (hParked.imp fun o ho => ⟨ho.1, ho.2.sleeps⟩)
  exact (owned_of_reaches (Machine.reaches_of_run _ acts _ s h)).exists_parked
    (chain_of_run h hSparing hSleeps (by omega)) (fun o ho => (hResting o ho).parked)
    fun o ho => (hResting o ho).attempts.2

def dropWhileParked : List (Action Call Choice) :=
  [.call .tryAcquire, .act 0 (.go false), .act 0 (.go false), .call .acquire,
    .act 1 (.go false), .act 1 (.go false), .act 1 (.go false), .act 1 (.go false),
    .act 1 (.go false), .act 0 .drop, .act 0 (.go false)]

def parkedAndMarked : State Semaphore Object :=
  ⟨⟨1, ⟨[⟨1, some .single⟩]⟩⟩, [.gone, .acquire ⟨false, false⟩ (.pending true)]⟩

theorem parked_acquire_notified_after_drop :
    ∃ j o, parkedAndMarked.pool[j]? = some o ∧ o.Parked ∧
      (parkedAndMarked.mem.event.markOf j).isSome :=
  parked_acquire_notified
    (show (machine 64).run (initial 1) dropWhileParked = some _ by decide) (by decide)
    (by simp [parkedAndMarked, Object.Resting]) (by decide)
    ⟨.acquire ⟨false, false⟩ (.pending true), by decide, trivial⟩

def twoReleases : List (Action Call Choice) :=
  [.call .tryAcquire, .act 0 (.go false), .act 0 (.go false),
    .call .tryAcquire, .act 1 (.go false), .act 1 (.go false),
    .call .acquireBlocking, .act 2 (.go false), .act 2 (.go false), .act 2 (.go false),
    .act 2 (.go false),
    .call .acquireBlocking, .act 3 (.go false), .act 3 (.go false), .act 3 (.go false),
    .act 3 (.go false),
    .act 0 .drop, .act 0 (.go false), .act 1 .drop, .act 1 (.go false),
    .act 2 (.go false), .act 2 (.go false), .act 2 (.go false), .act 2 (.go false)]

def asleepOverPermit : State Semaphore Object :=
  ⟨⟨1, ⟨[⟨3, none⟩]⟩⟩, [.gone, .gone, .gone, .acquire ⟨false, true⟩ .wait, .guard false]⟩

/-- After that one thread has its guard and the other sleeps over the permit that is left. -/
theorem parked_acquire_unnotified :
    (machine 64).Reaches (initial 2) asleepOverPermit ∧
      (∀ o ∈ asleepOverPermit.pool, o.Resting) ∧ asleepOverPermit.mem.count = 1 ∧
      (∃ o ∈ asleepOverPermit.pool, o.Parked) ∧
      ¬ ∃ j o, asleepOverPermit.pool[j]? = some o ∧ o.Parked ∧
        (asleepOverPermit.mem.event.markOf j).isSome := by
  refine ⟨Machine.reaches_of_run _ twoReleases _ _ (by decide), ?_, rfl, ?_, ?_⟩
  · simp [asleepOverPermit, Object.Resting]
  · exact ⟨.acquire ⟨false, true⟩ .wait, by decide, trivial⟩
  · rintro ⟨j, o, _, _, hMark⟩
    obtain ⟨e, he, _, hMark⟩ := (Event.markOf_isSome_iff _ j).mp hMark
    simp only [asleepOverPermit, List.mem_singleton] at he
    subst he
    cases hMark

end Semaphore
end AsyncLock
