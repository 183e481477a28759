import AsyncLock.Interleaving.Sharing
import AsyncLock.Mutex.Machine

/-! # The strong count of a shared mutex

`lock_arc` clones the `Arc` for its future. `LockArcInnards` moves it into `AcquireSlow`, whose
`take_mutex` moves it into the guard, so a future that has returned has none; on the fast path a
clone for the guard and the drop of the future's own are one hand-over here. The drop of a future
takes it as well, gives the 2 of a starved operation back, drops it, and drops the listener last.
-/
namespace AsyncLock.Mutex
set_option autoImplicit false

open Interleaving

/-- `try_lock_arc` clones the `Arc` for its guard. -/
def sharing : Sharing Object Call LockChoice where
  clones
    | .lockAs form => form.arc
    | .tryLockAs _ => false
  guard
    | .guard arc => arc
    | _ => false
  keeps := false
  lets
    | .drop, .lock form .unpolled | .drop, .lock form .waiting => !form.blocking
    | _, .lock _ .dropListener | _, .finished _ | _, .gone => true
    | _, _ => false
  ended o := o = .gone

namespace Object

/-- A `LockArc` or a `MutexGuardArc`. -/
def isArc : Object → Bool
  | lock form _ => form.arc
  | guard arc => arc
  | _ => false

/-- What is left of a `MutexGuardArc` that is being dropped. -/
def isReleasing : Object → Bool
  | unlocking | gone => true
  | _ => false

/-- What is left of a `LockArc` that has no `Arc` any more. -/
def isReleased : Object → Bool
  | lock _ .unpolled | lock _ .waiting | lock _ .dropListener | finished _ | gone => true
  | _ => false

end Object

def roles : Roles Object where
  borrower o := !o.isArc
  owner o := o.isArc || o.isReleasing
  released := Object.isReleased

section

variable {p : Platform} {i : Nat} {c : LockChoice} {m m' : Mutex} {o o' : Object}
  {new : List Object}

theorem step_owner (h : step p i c m o = some (m', o', new)) (ho : roles.owner o = true) :
    (new = [] ∧ roles.owner o' = true) ∨
      (new = [.guard true] ∧ ∃ listener, o' = .finished listener) := by
  cases step_acts h with
  | tryTake | tryFail | finish | finishListener => cases ho
  | lockRun => exact .inl ⟨rfl, ho⟩
  | lockReady form _ _ listener =>
    have hArc : form.arc = true := by simpa [roles, Object.isArc, Object.isReleasing] using ho
    exact .inr ⟨by rw [hArc], listener, rfl⟩
  | lockDrop | unlock | unlockNotify => exact .inl ⟨rfl, rfl⟩

theorem step_borrower (h : step p i c m o = some (m', o', new)) (ho : roles.borrower o = true) :
    (roles.borrower o' = true ∨ o' = .guard true) ∧ ∀ q ∈ new, roles.borrower q = true := by
  cases step_acts h with
  | tryTake arc =>
    refine ⟨?_, by simp⟩
    cases arc
    · exact .inl rfl
    · exact .inr rfl
  | lockReady form => exact ⟨.inl rfl, by simpa [roles, Object.isArc] using ho⟩
  | lockRun => exact ⟨.inl ho, by simp⟩
  | _ => exact ⟨.inl rfl, by simp⟩

theorem dropped_of_lets {form : Form} {f : Lock} (h : sharing.lets c (.lock form f) = true) :
    (c = .drop ∧ (f = .unpolled ∨ f = .waiting)) ∨ f = .dropListener := by
  cases f with
  | unpolled | waiting =>
    cases c with
    | go => cases h
    | drop => simp
  | dropListener => exact .inr rfl
  | _ => cases c <;> cases h

theorem dropped_step {f : Lock} {r : LockOutcome} (h : f.step p i c m = some (m', r))
    (hDrop : (c = .drop ∧ (f = .unpolled ∨ f = .waiting)) ∨ f = .dropListener) :
    r = .dropped ∧ (m' = m ∨ m' = { m with lockOps := m.lockOps.discard i }) := by
  rcases hDrop with ⟨rfl, rfl | rfl⟩ | rfl
  · cases h
    exact ⟨rfl, .inl rfl⟩
  · cases h
    exact ⟨rfl, .inr rfl⟩
  · cases c with
    | go =>
      cases h
      exact ⟨rfl, .inr rfl⟩
    | drop => cases h

/-- Without its `Arc` a future only drops its listener. -/
theorem step_released (h : step p i c m o = some (m', o', new))
    (ho : roles.released o = true) (hLets : sharing.lets c o = true) :
    new = [] ∧ roles.released o' = true ∧
      (m' = m ∨ m' = { m with lockOps := m.lockOps.discard i }) := by
  cases step_acts h with
  | lockRun _ _ _ _ hLock | lockReady _ _ _ _ hLock =>
    cases (dropped_step hLock (dropped_of_lets hLets)).1
  | lockDrop _ _ _ hLock => exact ⟨rfl, rfl, (dropped_step hLock (dropped_of_lets hLets)).2⟩
  | finish => exact ⟨rfl, rfl, .inl rfl⟩
  | finishListener => exact ⟨rfl, rfl, .inr rfl⟩
  | tryTake | tryFail | unlock | unlockNotify => cases ho

theorem released_of_lets (hLets : sharing.lets c o = true) (ho : roles.owner o = true) :
    roles.released o = true := by
  cases o with
  | lock form f => rcases dropped_of_lets hLets with ⟨_, rfl | rfl⟩ | rfl <;> exact rfl
  | finished | gone => rfl
  | tryLock | guard | unlocking => cases c <;> cases hLets

theorem respects (p : Platform) : Respects (machine p) sharing roles := by
  constructor
  · intro m k
    cases k with
    | lockAs form =>
      obtain ⟨arc, blocking⟩ := form
      cases arc <;> exact rfl
    | tryLockAs => exact rfl
  · exact fun c o hLets ho => released_of_lets hLets ho
  · intro i c m o m' o' new hStep _ ho
    rcases step_owner hStep ho with ⟨rfl, ho'⟩ | ⟨rfl, listener, rfl⟩
    · exact ⟨ho', by simp⟩
    · exact ⟨rfl, by simp [roles, Object.isArc]⟩
  · intro i c m o m' o' new hStep ho
    obtain ⟨ho', hNew⟩ := step_borrower hStep ho
    refine ⟨fun _ => ?_, hNew⟩
    rcases ho' with hBorrows | rfl
    · have hGuard : sharing.guard o' = false := by
        cases o' with
        | guard arc => simpa [roles, Object.isArc, sharing] using hBorrows
        | _ => rfl
      simpa [hGuard] using hBorrows
    · exact rfl
  · intro i c m o m' o' new hStep hLets ho
    obtain ⟨rfl, ho', _⟩ := step_released hStep ho hLets
    exact ⟨ho', by simp⟩

end

/-! ## Every reachable state -/

/-- The `MutexGuardArc`s. -/
def guardArcs : Party Object → Nat
  | .op (.guard arc) _ => arc.toNat
  | _ => 0

/-- The `LockArc`s that have neither returned nor dropped their `Arc`. -/
def lockArcs : Party Object → Nat
  | .op (.lock _ _) .owns => 1
  | _ => 0

/-- The `MutexGuardArc`s that are being dropped. -/
def droppedArcs : Party Object → Nat
  | .op o .owns => o.isReleasing.toNat
  | _ => 0

variable {p : Platform} {s : State (Refcounted Mutex) (Party Object)}

theorem arcs_eq (pool : List (Party Object)) (h : ∀ o ∈ pool, o.Fits roles) :
    census Party.arcs pool = census Party.callers pool + census guardArcs pool +
      census lockArcs pool + census droppedArcs pool := by
  simp only [← census_add]
  refine census_congr fun o ho => ?_
  have hFits := h o ho
  cases o with
  | arc | gone => rfl
  | op o stake =>
    cases stake with
    | borrows =>
      cases o with
      | guard arc =>
        have hArc : arc = false := by simpa [Party.Fits, roles, Object.isArc] using hFits
        rw [hArc]
        rfl
      | _ => rfl
    | owns =>
      cases o with
      | guard arc =>
        have hArc : arc = true := by
          simpa [Party.Fits, roles, Object.isArc, Object.isReleasing] using hFits
        rw [hArc]
        rfl
      | lock | unlocking | gone => rfl
      | tryLock | finished => cases hFits
    | released =>
      cases o with
      | guard => cases hFits
      | _ => rfl

/-- The strong count is that of the `Arc`s that callers, guards, and futures at work have, and of
those that are being dropped. -/
structure ArcAccounting (p : Platform) (s : State (Refcounted Mutex) (Party Object)) : Prop where
  strong : s.mem.strong = census Party.callers s.pool + census guardArcs s.pool +
    census lockArcs s.pool + census droppedArcs s.pool
  -- a guard, and a future that has its 2 still to give back
  owner : ∀ (i : Nat) (o : Object) (stake : Stake), s.pool[i]? = some (.op o stake) →
    o = .guard true ∨ (o.isArc = true ∧ o.starved = 1) → stake = .owns
  -- an unlock, and the fetch_sub(2) of a future that is dropped; its listener comes last
  touches : ∀ (i : Nat) (c : PartyChoice Call LockChoice)
    (t : State (Refcounted Mutex) (Party Object)),
    ((machine p).shared sharing).next s (.act i c) = some t → t.mem.mem ≠ s.mem.mem →
      (0 < s.mem.strong ∧ 0 < t.mem.strong) ∨
        t.mem.mem = { s.mem.mem with lockOps := s.mem.mem.lockOps.discard i }
  freed : s.mem.strong = 0 ↔ ∀ o ∈ s.pool, o.Apart

theorem Object.starved_of_isReleased {o : Object} (h : o.isReleased = true) : o.starved = 0 := by
  cases o with
  | lock form f => cases f <;> first | rfl | cases h
  | _ => rfl

theorem owns_of_fits {o : Object} {stake : Stake} (h : (Party.op o stake).Fits roles)
    (ho : o = .guard true ∨ (o.isArc = true ∧ o.starved = 1)) : stake = .owns := by
  cases stake with
  | owns => rfl
  | borrows =>
    have hArc : o.isArc = true := by
      rcases ho with rfl | ho
      · rfl
      · exact ho.1
    simp [Party.Fits, roles, hArc] at h
  | released =>
    rcases ho with rfl | ⟨_, hStarved⟩
    · cases h
    · cases hStarved.symm.trans (Object.starved_of_isReleased h)

theorem lock_arcs_counted
    (h : ((machine p).shared sharing).Reaches (Refcounted.initial Mutex.new) s) :
    ArcAccounting p s := by
  have hFits := fits_of_reaches (respects p) h
  constructor
  · rw [(refs_counted h).strong]
    exact arcs_eq s.pool hFits
  · intro i o stake hGet ho
    exact owns_of_fits (hFits _ (List.mem_of_getElem? hGet)) ho
  · intro i c t hNext hTouch
    obtain ⟨o, _, _, _, hGet, _, _⟩ := Machine.next_act hNext
    rcases strong_pos_of_touch h hGet hNext hTouch with hPos | ⟨q, d, rfl, _, hLets, q', new, hStep⟩
    · exact .inl hPos
    · have hReleased : roles.released q = true := hFits _ (List.mem_of_getElem? hGet)
      obtain ⟨_, _, hSame | hDiscard⟩ := step_released hStep hReleased hLets
      · exact absurd hSame hTouch
      · exact .inr hDiscard
  · exact strong_eq_zero_iff h

/-- Two futures of one caller, who drops its `Arc` while the second one waits for the guard of the
first. -/
def lockTwice : List (Action Empty (PartyChoice Call LockChoice)) :=
  [.act 0 (.call .lockArc), .act 1 (.act (.go false)), .act 0 (.call .lockArc), .act 0 .drop,
    .act 3 (.act (.go false)), .act 3 (.act (.go false)), .act 3 (.act (.go false)),
    .act 2 (.act .drop), .act 2 (.act (.go false)), .act 2 (.act (.go false)),
    .act 3 (.act (.go false)), .act 3 (.act (.go false)), .act 4 (.act .drop)]

def lastUnlocking : State (Refcounted Mutex) (Party Object) :=
  ⟨⟨Mutex.new, 1, []⟩, [.gone, .op (.finished false) .released, .op .gone .released,
    .op (.finished false) .released, .op .unlocking .owns]⟩

theorem lock_arcs_counted_lockTwice : ArcAccounting platform64 lastUnlocking :=
  lock_arcs_counted (Machine.reaches_of_run _ lockTwice (Refcounted.initial Mutex.new) lastUnlocking
    (by decide +kernel))

end AsyncLock.Mutex
