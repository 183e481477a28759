import AsyncLock.Semaphore.Wakeup

/-! # A guard makes up for a lost wake-up

An acquire can be left asleep over a permit when a notification has been used up by another one.
That other one has taken a permit in turn, and the drop of its guard notifies again. So the
sleeper waits for a guard that somebody still has: as long as no guard is forgotten, nobody sleeps
over a permit once all guards have been dropped.
-/
namespace AsyncLock.Semaphore
set_option autoImplicit false

open Interleaving

namespace Object

def holds : Object → Nat
  | guard _ => 1
  | _ => 0

/-- Has a permit, is about to take one if there is one, or is about to notify. -/
def repairs (o : Object) : Nat := o.attempts + o.notifies + o.holds

end Object

/-- Where there is a permit and somebody sleeps, a notification is there or to come. -/
def Repaired (s : Semaphore) (sleepers repairers : Nat) : Prop :=
  0 < sleepers → 0 < s.count → s.event.Notified ∨ 0 < repairers

variable {bits : Nat}

attribute [local simp] Object.sleeps Object.repairs Object.attempts Object.notifies Object.holds

theorem step_repaired {i : Nat} {c : Choice} {s s' : Semaphore} {o o' : Object}
    {new : List Object} (h : step bits i c s o = some (s', o', new)) (hKeeps : c ≠ .forget)
    {sleepers repairers : Nat} (hs : s.Repaired (o.sleeps + sleepers) (o.repairs + repairers))
    (hLeft : 0 < o'.sleeps + sleepers → s'.event.owners ≠ []) :
    s'.Repaired (o'.sleeps + sleepers) (o'.repairs + census Object.repairs new + repairers) := by
  intro hSleep hCount
  cases step_acts h with
  | tryTake | poll | retry | tryRetry | register | consume | release =>
    exact .inr (Nat.add_pos_left (Nat.add_pos_left Nat.one_pos _) _)
  | take => exact .inr (Nat.add_pos_left (Nat.add_pos_right _ Nat.one_pos) _)
  | tryFail _ _ _ hZero | toWait _ _ _ hZero | toRegister _ _ _ hZero => omega
  | forget => exact absurd rfl hKeeps
  | cancelListener | finishListener =>
    -- the others are asleep
    refine (hs ?_ hCount).imp (fun hMark => ?_) fun hPos => ?_
    · exact Nat.lt_of_lt_of_le hSleep (Nat.add_le_add_right (Nat.zero_le _) _)
    · exact hMark.discard (hLeft hSleep)
    · simpa using hPos
  | releaseNotify =>
    exact .inl (Event.notified_notify _ (by decide) (by simpa using hLeft hSleep))
  | addPermits _ n =>
    rcases Nat.eq_zero_or_pos n with rfl | hn
    · have hLe : wrappingAdd bits s.count 0 ≤ s.count := Nat.mod_le _ _
      exact (hs hSleep (Nat.lt_of_lt_of_le hCount hLe)).imp_right fun hPos => by simpa using hPos
    · have hNotifies : 0 < (Object.adding n).repairs := by simpa using hn
      exact .inr (Nat.add_pos_left (Nat.add_pos_left hNotifies _) _)
  | addNotify _ n =>
    rcases Nat.eq_zero_or_pos n with rfl | hn
    · exact (hs hSleep hCount).imp (fun hMark => hMark.notify 0) fun hPos => by simpa using hPos
    · exact .inl (Event.notified_notify _ hn (by simpa using hLeft hSleep))
  | toPending => exact (hs (Nat.add_pos_left Nat.one_pos _) hCount).imp_right (by simp)
  | cancel | finish => exact (hs (by simpa using hSleep) hCount).imp_right (by simp)

def Unforgotten : Action Call Choice → Prop
  | .act _ .forget => False
  | _ => True

instance : ∀ a, Decidable (Unforgotten a)
  | .act _ .forget => inferInstanceAs (Decidable False)
  | .act _ (.go _) | .act _ .drop | .call _ => inferInstanceAs (Decidable True)

theorem repaired_of_run {n : Nat} {acts : List (Action Call Choice)} {s : State Semaphore Object}
    (h : (machine bits).run (initial n) acts = some s) (hKeeps : ∀ a ∈ acts, Unforgotten a) :
    s.mem.Repaired (census Object.sleeps s.pool) (census Object.repairs s.pool) := by
  refine Machine.invariant_along (P := fun s => s.mem.Repaired (census Object.sleeps s.pool)
    (census Object.repairs s.pool)) h (Machine.along_of_forall hKeeps) nofun ?_
  intro u a u' hPast hKept hNext hu
  have hOwned := owned_of_reaches (hPast.tail ⟨a, hNext⟩)
  rcases Machine.next_others hNext with ⟨k, rfl, rfl⟩ |
    ⟨i, c, o, mem, o', new, others, rfl, hGet, hAct, rfl, _, hPool, hPool'⟩
  · intro hSleep hCount
    have hAwake : ((machine bits).create u.mem k).sleeps = 0 := by cases k <;> rfl
    simp only [census_append, census_cons, census_nil] at hSleep ⊢
    exact (hu (by omega) hCount).imp_right (by omega)
  · have hLeft := hOwned.owners_ne_nil_of_census Object.sleeps_listens
    have hNew : census Object.sleeps new = 0 := by cases step_acts hAct <;> rfl
    rw [hPool', hNew, Nat.add_zero] at hLeft ⊢
    rw [hPool']
    rw [hPool, hPool] at hu
    exact step_repaired hAct (by rintro rfl; exact hKept) hu hLeft

/-- Without guards nobody is left to notify later, so somebody has been notified. -/
theorem notified_of_no_guard {n : Nat} {acts : List (Action Call Choice)}
    {s : State Semaphore Object} (h : (machine bits).run (initial n) acts = some s)
    (hKeeps : ∀ a ∈ acts, Unforgotten a) (hResting : ∀ o ∈ s.pool, o.Resting)
    (hNone : ∀ arc, .guard arc ∉ s.pool) (hCount : 0 < s.mem.count)
    (hParked : ∃ o ∈ s.pool, o.Parked) :
    ∃ j o, s.pool[j]? = some o ∧ o.Parked ∧ (s.mem.event.markOf j).isSome := by
  have hQuiet : census Object.repairs s.pool = 0 := by
    refine census_eq_zero fun o ho => ?_
    obtain ⟨hAttempts, hNotifies⟩ := (hResting o ho).attempts
    have hHolds : o.holds = 0 := by
      cases o with
      | guard arc => exact absurd ho (hNone arc)
      | _ => rfl
    rw [Object.repairs, hAttempts, hNotifies, hHolds]
  have hSleeps : 0 < census Object.sleeps s.pool :=
    (census_pos_iff _ _).mpr (hParked.imp fun o ho => ⟨ho.1, ho.2.sleeps⟩)
  refine (owned_of_reaches (Machine.reaches_of_run _ acts _ s h)).exists_parked
    ((repaired_of_run h hKeeps hSleeps hCount).imp_right ?_)
    (fun o ho => (hResting o ho).parked) fun o ho => (hResting o ho).attempts.2
  rw [hQuiet]
  exact fun hPos => absurd hPos (Nat.lt_irrefl 0)

/-- The thread that has slept over a permit gets its notification from the drop of the guard. -/
def dropThirdGuard : List (Action Call Choice) :=
  twoReleases ++ [.act 4 .drop, .act 4 (.go false)]

def wokenOverPermits : State Semaphore Object :=
  ⟨⟨2, ⟨[⟨3, some .single⟩]⟩⟩, [.gone, .gone, .gone, .acquire ⟨false, true⟩ .wait, .gone]⟩

end AsyncLock.Semaphore
