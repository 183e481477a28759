import AsyncLock.Interleaving.Sharing
import AsyncLock.Semaphore.Machine

/-! # The strong count of a shared semaphore

`acquire_arc` clones the `Arc` for its future, and `try_acquire_arc` clones it for the guard, so a
future that has returned has its own until it is dropped: the `Arc` first and then the listener.
A guard drops its `Arc` after it has given its permit back and notified, and by `forget`, which
gives no permit back.
-/
namespace AsyncLock.Semaphore
set_option autoImplicit false

open Interleaving

def sharing : Sharing Object Call Choice where
  clones
    | .acquireAs form => form.arc
    | .tryAcquireAs _ | .addPermits _ => false
  guard
    | .guard arc => arc
    | _ => false
  keeps := true
  lets
    | .drop, .acquire form (.pending _) => !form.blocking
    | _, .finished _ | _, .forgotten _ | _, .gone => true
    | _, _ => false
  ended
    | .forgotten _ | .added _ | .gone => true
    | _ => false

namespace Object

/-- An `AcquireArc` or a `SemaphoreGuardArc`. -/
def isArc : Object → Bool
  | acquire form _ => form.arc
  | guard arc => arc
  | _ => false

/-- What is left of a `SemaphoreGuardArc` that is being dropped or forgotten. -/
def isReleasing : Object → Bool
  | releasing | forgotten _ | gone => true
  | _ => false

def hasFinished : Object → Bool
  | finished _ => true
  | _ => false

/-- What is left of one that has no `Arc` any more. -/
def isReleased : Object → Bool
  | acquire _ (.pending _) | finished _ | forgotten _ | gone => true
  | _ => false

end Object

def roles : Roles Object where
  borrower o := !o.isArc
  owner o := o.isArc || o.hasFinished || o.isReleasing
  released := Object.isReleased

section

variable {bits i : Nat} {c : Choice} {s s' : Semaphore} {o o' : Object} {new : List Object}

theorem step_owner (h : step bits i c s o = some (s', o', new)) (ho : roles.owner o = true) :
    roles.owner o' = true ∧ ∀ q ∈ new, roles.owner q = true := by
  cases step_acts h with
  | take _ form =>
    have hArc : form.arc = true := by
      simpa [roles, Object.isArc, Object.hasFinished, Object.isReleasing] using ho
    exact ⟨rfl, by simp [roles, Object.isArc, hArc]⟩
  | poll | retry | toWait | toRegister | register | consume | toPending => exact ⟨ho, by simp⟩
  | cancel | cancelListener | finish | finishListener | release | forget | releaseNotify =>
    exact ⟨rfl, by simp⟩
  | tryTake | tryRetry | tryFail | addPermits | addNotify => cases ho

theorem step_borrower (h : step bits i c s o = some (s', o', new))
    (ho : roles.borrower o = true) :
    (roles.borrower o' = true ∨ o' = .guard true) ∧ ∀ q ∈ new, roles.borrower q = true := by
  cases step_acts h with
  | tryTake _ arc =>
    refine ⟨?_, by simp⟩
    cases arc
    · exact .inl rfl
    · exact .inr rfl
  | take _ form => exact ⟨.inl rfl, by simpa [roles, Object.isArc] using ho⟩
  | poll | retry | toWait | toRegister | register | consume | toPending => exact ⟨.inl ho, by simp⟩
  | _ => exact ⟨.inl rfl, by simp⟩

/-- Without its `Arc` an object only drops its listener. -/
theorem step_released (h : step bits i c s o = some (s', o', new))
    (ho : roles.released o = true) (hLets : sharing.lets c o = true) :
    new = [] ∧ roles.released o' = true ∧
      (s' = s ∨ s' = { s with event := s.event.discard i }) := by
  cases o with
  | acquire form at_ =>
    cases at_ with
    | pending listener =>
      cases c with
      | drop =>
        simp only [step, dropAcquire] at h
        split_ifs at h <;> cases h
        · exact ⟨rfl, rfl, .inr rfl⟩
        · exact ⟨rfl, rfl, .inl rfl⟩
      | go | forget => cases hLets
    | _ => cases ho
  | finished listener =>
    cases listener <;> cases h
    · exact ⟨rfl, rfl, .inl rfl⟩
    · exact ⟨rfl, rfl, .inr rfl⟩
  | forgotten | gone => cases h
  | _ => cases ho

theorem released_of_lets (hLets : sharing.lets c o = true) : roles.released o = true := by
  cases o with
  | acquire form at_ =>
    cases at_ with
    | pending => rfl
    | _ => cases c <;> cases hLets
  | finished | forgotten | gone => rfl
  | _ => cases c <;> cases hLets

theorem respects (bits : Nat) : Respects (machine bits) sharing roles := by
  constructor
  · intro m k
    cases k with
    | acquireAs form =>
      obtain ⟨arc, blocking⟩ := form
      cases arc <;> exact rfl
    | tryAcquireAs | addPermits => exact rfl
  · exact fun c o hLets _ => released_of_lets hLets
  · intro i c m o m' o' new hStep _ ho
    obtain ⟨ho', hNew⟩ := step_owner hStep ho
    exact ⟨by simpa [sharing] using ho', hNew⟩
  · intro i c m o m' o' new hStep ho
    obtain ⟨ho', hNew⟩ := step_borrower hStep ho
    refine ⟨fun _ => ?_, hNew⟩
    rcases ho' with hBorrows | rfl
    · have hGuard : sharing.guard o' = false := by
        cases o' with
        | guard arc => simpa [roles, Object.isArc, sharing] using hBorrows
        | _ => rfl
      simpa [hGuard] using hBorrows
    · exact rfl
  · intro i c m o m' o' new hStep hLets ho
    obtain ⟨rfl, ho', _⟩ := step_released hStep ho hLets
    exact ⟨ho', by simp⟩

end

/-! ## Every reachable state -/

/-- The `SemaphoreGuardArc`s. -/
def guardArcs : Party Object → Nat
  | .op (.guard arc) _ => arc.toNat
  | _ => 0

/-- The `AcquireArc`s, finished or not, that have not dropped their `Arc`. -/
def acquireArcs : Party Object → Nat
  | .op (.acquire _ _) .owns | .op (.finished _) .owns => 1
  | _ => 0

/-- The `SemaphoreGuardArc`s that are being dropped or forgotten. -/
def droppedArcs : Party Object → Nat
  | .op o .owns => o.isReleasing.toNat
  | _ => 0

variable {bits n : Nat} {s : State (Refcounted Semaphore) (Party Object)}

theorem arcs_eq (pool : List (Party Object)) (h : ∀ o ∈ pool, o.Fits roles) :
    census Party.arcs pool = census Party.callers pool + census guardArcs pool +
      census acquireArcs pool + census droppedArcs pool := by
  simp only [← census_add]
  refine census_congr fun o ho => ?_
  have hFits := h o ho
  cases o with
  | arc | gone => rfl
  | op o stake =>
    cases stake with
    | borrows =>
      cases o with
      | guard arc =>
        have hArc : arc = false := by simpa [Party.Fits, roles, Object.isArc] using hFits
        rw [hArc]
        rfl
      | _ => rfl
    | owns =>
      cases o with
      | guard arc =>
        have hArc : arc = true := by
          simpa [Party.Fits, roles, Object.isArc, Object.hasFinished, Object.isReleasing]
            using hFits
        rw [hArc]
        rfl
      | tryAcquire | addPermits | adding | added => cases hFits
      | _ => rfl
    | released =>
      cases o with
      | guard => cases hFits
      | _ => rfl

/-- The strong count is that of the `Arc`s that callers, guards and futures have, and of those that
are being dropped; a guard that is forgotten gives up its `Arc` and no permit. -/
structure ArcAccounting (bits : Nat) (s : State (Refcounted Semaphore) (Party Object)) :
    Prop where
  strong : s.mem.strong = census Party.callers s.pool + census guardArcs s.pool +
    census acquireArcs s.pool + census droppedArcs s.pool
  forget : ∀ (i : Nat) (stake : Stake) (t : State (Refcounted Semaphore) (Party Object)),
    s.pool[i]? = some (.op (.guard true) stake) →
    ((machine bits).shared sharing).next s (.act i (.act .forget)) = some t →
      t.mem = s.mem ∧ ∃ u, ((machine bits).shared sharing).next t (.act i (.act .drop)) = some u ∧
        u.mem.mem = s.mem.mem ∧ u.mem.strong + 1 = s.mem.strong
  -- a drop up to its notification; the listener of a future comes last
  touches : ∀ (i : Nat) (c : PartyChoice Call Choice)
    (t : State (Refcounted Semaphore) (Party Object)),
    ((machine bits).shared sharing).next s (.act i c) = some t → t.mem.mem ≠ s.mem.mem →
      (0 < s.mem.strong ∧ 0 < t.mem.strong) ∨
        t.mem.mem = { s.mem.mem with event := s.mem.mem.event.discard i }
  freed : s.mem.strong = 0 ↔ ∀ o ∈ s.pool, o.Apart

theorem forget_releases
    (h : ((machine bits).shared sharing).Reaches (Refcounted.initial (Semaphore.new n)) s)
    {i : Nat} {stake : Stake} {t : State (Refcounted Semaphore) (Party Object)}
    (hGet : s.pool[i]? = some (.op (.guard true) stake))
    (hNext : ((machine bits).shared sharing).next s (.act i (.act .forget)) = some t) :
    t.mem = s.mem ∧ ∃ u, ((machine bits).shared sharing).next t (.act i (.act .drop)) = some u ∧
      u.mem.mem = s.mem.mem ∧ u.mem.strong + 1 = s.mem.strong := by
  have hFits := fits_of_reaches (respects bits) h _ (List.mem_of_getElem? hGet)
  cases stake with
  | borrows | released => cases hFits
  | owns =>
    have hPos := (refs_counted h).strong_pos (List.mem_of_getElem? hGet) id
    obtain ⟨m, o', new, hAct, rfl⟩ := Machine.next_act_at hGet hNext
    cases hAct
    refine ⟨rfl, _, Machine.next_act_of_step (get_act_self hGet _ _) rfl, rfl, ?_⟩
    exact Nat.sub_add_cancel hPos

theorem acquire_arcs_counted
    (h : ((machine bits).shared sharing).Reaches (Refcounted.initial (Semaphore.new n)) s) :
    ArcAccounting bits s := by
  have hFits := fits_of_reaches (respects bits) h
  constructor
  · rw [(refs_counted h).strong]
    exact arcs_eq s.pool hFits
  · exact fun i stake t hGet hNext => forget_releases h hGet hNext
  · intro i c t hNext hTouch
    obtain ⟨o, _, _, _, hGet, _, _⟩ := Machine.next_act hNext
    rcases strong_pos_of_touch h hGet hNext hTouch with hPos | ⟨q, d, rfl, _, hLets, q', new, hStep⟩
    · exact .inl hPos
    · have hReleased : roles.released q = true := hFits _ (List.mem_of_getElem? hGet)
      obtain ⟨_, _, hSame | hDiscard⟩ := step_released hStep hReleased hLets
      · exact absurd hSame hTouch
      · exact .inr hDiscard
  · exact strong_eq_zero_iff h

/-- The caller drops its `Arc` before the future gets its permit, and the guard is forgotten. -/
def acquireThenForget : List (Action Empty (PartyChoice Call Choice)) :=
  [.act 0 (.call .acquireArc), .act 0 .drop, .act 1 (.act (.go false)), .act 1 (.act (.go false)),
    .act 1 (.act (.go false)), .act 2 (.act .forget), .act 2 (.act .drop)]

def lastFinished : State (Refcounted Semaphore) (Party Object) :=
  ⟨⟨⟨0, Event.new⟩, 1, []⟩, [.gone, .op (.finished false) .owns, .op (.forgotten true) .released]⟩

theorem acquire_arcs_counted_acquireThenForget : ArcAccounting 64 lastFinished :=
  acquire_arcs_counted (Machine.reaches_of_run _ acquireThenForget
    (Refcounted.initial (Semaphore.new 1))
    lastFinished (by decide +kernel))

end AsyncLock.Semaphore
