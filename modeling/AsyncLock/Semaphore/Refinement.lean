import AsyncLock.Interleaving.Refinement
import AsyncLock.Semaphore.Accounting

/-! # What a semaphore is

As a sequential object the semaphore is a number of permits. A `try_acquire` gives up at an
action at which there is none, and a guard is made at one at which there is one left. As long
as what is granted fits in a word, the count is that number and not one modulo the word.
-/
namespace AsyncLock.Semaphore
set_option autoImplicit false

open Interleaving

inductive Operation where
  | take
  | refuse
  | give
  | add (n : Nat)
deriving DecidableEq

namespace Operation

def apply : Operation → Nat → Option Nat
  | take, k => if 0 < k then some (k - 1) else none
  | refuse, k => if k = 0 then some k else none
  | give, k => some (k + 1)
  | add n, k => some (k + n)

end Operation

def counting (n : Nat) : Sequential Nat Operation := ⟨n, Operation.apply⟩

/-- The operation that an action performs. A future that finds no permit waits for one; only
`try_acquire` and `try_acquire_arc` say so. -/
def effect (c : Choice) (_ : Semaphore) (o o' : Object) : Option Operation :=
  match c, o, o' with
  | _, .tryAcquire _ _, .guard _ | _, .acquire _ _, .finished _ => some .take
  | _, .tryAcquire _ _, .gone => some .refuse
  | _, .guard _, .releasing => some .give
  | _, .addPermits n, _ => some (.add n)
  | _, _, _ => none

variable {bits n : Nat}

theorem permitsAdded_le_of_reaches {s t : State Semaphore Object}
    (h : (machine bits).Reaches s t) : permitsAdded s ≤ permitsAdded t := by
  refine Machine.invariant (P := fun t => permitsAdded s ≤ permitsAdded t) h (Nat.le_refl _) ?_
  intro u v _ hStep hu
  rcases Machine.step_others hStep with ⟨k, rfl⟩ |
    ⟨i, c, o, mem, o', new, others, _, hAct, rfl, _, hPool, hPool'⟩
  · refine hu.trans ?_
    unfold permitsAdded
    rw [census_append]
    exact Nat.le_add_right _ _
  · unfold permitsAdded at hu ⊢
    rw [hPool] at hu
    rw [hPool']
    have hSelf : o.granted ≤ o'.granted := by
      cases step_acts hAct <;> first | exact Nat.le_refl _ | exact Nat.zero_le _
    omega

def availablePermits (s : State Semaphore Object) : Nat := s.mem.count

/-- What has been granted fits in a word. -/
def Fitting (bits n : Nat) (s : State Semaphore Object) : Prop := n + permitsAdded s < 2 ^ bits

theorem Fitting.of_step {s t : State Semaphore Object} (h : (machine bits).Step s t)
    (ht : Fitting bits n t) : Fitting bits n s := by
  have hLe := permitsAdded_le_of_reaches (.single h)
  unfold Fitting at ht ⊢
  omega

theorem count_add_out {s : State Semaphore Object} (h : (machine bits).Reaches (initial n) s)
    (hFits : Fitting bits n s) : s.mem.count + permitsOut s = n + permitsAdded s := by
  unfold Fitting at hFits
  have hBalance := balance_of_reaches (by omega) h
  have hCount := hBalance.count_eq
  have hOut := hBalance.out_le
  rw [Nat.mod_eq_of_lt (by omega)] at hCount
  omega

attribute [local simp] effect Sequential.perform counting Operation.apply

/-- An action on a count that neither wraps nor borrows is one of the operations on it. -/
theorem step_performs {i : Nat} {c : Choice} {s s' : Semaphore} {o o' : Object}
    {new : List Object} (h : step bits i c s o = some (s', o', new)) (hSound : o.Sound)
    (hCount : s.count < 2 ^ bits) (hGive : o.out = 1 → s.count + 1 < 2 ^ bits)
    (hAdd : ∀ k, o = .addPermits k → s.count + k < 2 ^ bits) :
    (counting n).perform (effect c s o o') s.count = some s'.count := by
  cases step_acts h with
  | tryTake | take =>
    have hPos : 0 < s.count := Nat.pos_of_ne_zero hSound
    simp [hPos, wrappingSub_of_le hPos hCount]
  | tryFail _ _ _ hZero => simp [hZero]
  | release => simp [wrappingAdd_of_lt (hGive rfl)]
  | addPermits _ k => simp [wrappingAdd_of_lt (hAdd k rfl)]
  | _ => simp

theorem next_performs {s t : State Semaphore Object} {a : Action Call Choice}
    (hPast : (machine bits).Reaches (initial n) s) (hFits : Fitting bits n s)
    (hFits' : Fitting bits n t) (h : (machine bits).next s a = some t) :
    (counting n).perform ((machine bits).effectOf effect s a) (availablePermits s) =
      some (availablePermits t) := by
  have hCount := count_add_out hPast hFits
  rcases Machine.next_others h with ⟨k, rfl, rfl⟩ |
    ⟨i, c, o, mem, o', new, others, rfl, hGet, hAct, rfl, _, hPool, hPool'⟩
  · rfl
  rw [Machine.effectOf_act hGet hAct]
  have hSound := sound_of_reaches hPast o (List.mem_of_getElem? hGet)
  unfold Fitting permitsAdded permitsOut at *
  rw [hPool] at hFits hCount
  rw [hPool] at hCount
  rw [hPool'] at hFits'
  refine step_performs hAct hSound (by omega) (fun hOut => by omega) ?_
  rintro k rfl
  -- what this call adds has been granted after it
  cases hAct
  simp only [Object.granted, Object.out, census_nil] at hFits hFits' hCount
  omega

/-- The effects of a run, each at its action, are a run of a plain counter, whatever the calls do in
between: no permit is made up, and none is refused that was there. -/
theorem history_counts {acts : List (Action Call Choice)} {s : State Semaphore Object}
    (h : (machine bits).run (initial n) acts = some s) (hFits : n + permitsAdded s < 2 ^ bits) :
    (counting n).run n ((machine bits).history effect (initial n) acts) =
        some (availablePermits s) ∧
      availablePermits s + permitsOut s = n + permitsAdded s := by
  have hRun : (counting n).run (availablePermits (initial n))
      ((machine bits).history effect (initial n) acts) = some (availablePermits s) :=
    Machine.run_history (fun _ _ hStep hFits => Fitting.of_step hStep hFits)
      (fun u a t hPast hBefore hAfter hNext => next_performs hPast hBefore hAfter hNext) h hFits
  exact ⟨hRun, count_add_out (Machine.reaches_of_run _ acts _ s h) hFits⟩

def refuseAndAdd : List (Action Call Choice) :=
  [.call .tryAcquire, .act 0 (.go false), .act 0 (.go false), .call .tryAcquireArc,
    .act 1 (.go false), .call (.addPermits 2), .call .acquire, .act 2 (.go false),
    .act 3 (.go false), .act 3 (.go false), .act 3 (.go true), .act 0 .drop, .act 3 (.go false),
    .act 3 (.go false)]

def refusedAndAdded : State Semaphore Object :=
  ⟨⟨2, Event.new⟩, [.releasing, .gone, .adding 2, .finished false, .guard false]⟩

theorem history_counts_refuseAndAdd :
    (counting 1).run 1 [.take, .refuse, .add 2, .give, .take] = some 2 := by
  have hRun : (machine 64).run (initial 1) refuseAndAdd = some refusedAndAdded := by decide
  have hHistory : (machine 64).history effect (initial 1) refuseAndAdd =
      [.take, .refuse, .add 2, .give, .take] := by decide
  rw [← hHistory]
  exact (history_counts hRun (by decide)).1

end AsyncLock.Semaphore
