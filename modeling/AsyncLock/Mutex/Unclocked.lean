import AsyncLock.Mutex.Accounting

/-! # The mutex without a clock

Without `std`, and on `wasm`, `start.elapsed()` is compiled out. A lock operation is then starved
only where another one has been before, so none ever is, and the fair loop and the count above the
lock bit are dead code. What the loop is there for is gone with it: an operation may be woken any
number of times and find the lock taken by somebody who came later.
-/
namespace AsyncLock.Mutex
set_option autoImplicit false

open Interleaving

/-- The clock is not asked, which is as good as an answer that no time has passed. -/
def Unclocked : Action Call LockChoice → Prop
  | .act _ (.go elapsed) => elapsed = false
  | _ => True

/-- In the fast path or in the hot loop, with nobody starved. -/
def hot : Lock → Bool
  | .unpolled | .listen | .tryListening | .waiting | .tryWoken => true
  | _ => false

def Object.Hot : Object → Prop
  | .lock _ f => hot f = true
  | _ => True

variable {p : Platform}

section

variable {i : Nat} {c : LockChoice} {m m' : Mutex} {f f' : Lock} {o o' : Object}
  {new : List Object}

theorem Object.Hot.not_aborted (h : o.Hot) : ¬ o.Aborted := by
  cases o with
  | lock form f => cases f <;> first | exact id | cases h
  | _ => exact id

theorem Object.Hot.starved (h : o.Hot) : o.starved = 0 := by
  cases o with
  | lock form f => cases f <;> first | rfl | cases h
  | _ => rfl

/-- Only the clock or a starved operation makes another one leave the hot loop. -/
theorem step_hot (h : f.step p i c m = some (m', .running f')) (hf : hot f = true)
    (hWord : m.state ≤ 1) (hClock : c ≠ .go true) : hot f' = true := by
  cases Lock.step_acts h with
  | toSlow | listen | toWaiting | consume | toListen => rfl
  | toStarve elapsed hFree hHeld => omega
  | overtime => exact absurd rfl hClock
  | toPassOn elapsed hHeld =>
    have hZero : m.state = 0 := by omega
    simp [Lock.step, Lock.poll, hZero] at h
  | _ => cases hf

theorem step_object_hot (h : step p i c m o = some (m', o', new)) (ho : o.Hot)
    (hWord : m.state ≤ 1) (hClock : c ≠ .go true) : o'.Hot ∧ ∀ n ∈ new, n.Hot := by
  cases step_acts h with
  | lockRun _ _ _ _ hLock => exact ⟨step_hot hLock ho hWord hClock, by simp⟩
  | lockReady => exact ⟨trivial, by simp [Object.Hot]⟩
  | _ => exact ⟨trivial, by simp⟩

end

variable {acts : List (Action Call LockChoice)} {s : State Mutex Object}

theorem hot_of_run (h : (machine p).run initial acts = some s) (hClock : ∀ a ∈ acts, Unclocked a) :
    ∀ o ∈ s.pool, o.Hot := by
  refine Machine.invariant_along (P := fun s => ∀ o ∈ s.pool, o.Hot) h
    (Machine.along_of_forall hClock) (by simp [initial]) ?_
  intro u a v hPast hOk hNext hu
  have hAccounts := accounts_of_reaches hPast fun o ho => (hu o ho).not_aborted
  have hStarved : starvedOps u = 0 := census_eq_zero fun o ho => (hu o ho).starved
  have hWord : u.mem.state ≤ 1 := by
    have hEq := hAccounts.state_eq
    have hLe := hAccounts.owners_le
    omega
  cases a with
  | call k =>
    cases hNext
    intro o ho
    rcases List.mem_append.mp ho with hOld | hNew
    · exact hu o hOld
    · rw [List.mem_singleton.mp hNew]
      cases k <;> trivial
  | act i c =>
    obtain ⟨o, mem, o', new, hGet, hAct, rfl⟩ := Machine.next_act hNext
    have hGo : c ≠ .go true := by
      rintro rfl
      cases hOk
    obtain ⟨hSelf, hNew⟩ := step_object_hot hAct (hu o (List.mem_of_getElem? hGet)) hWord hGo
    intro q hq
    rcases mem_of_act hq with hOld | rfl | hMem
    · exact hu q hOld
    · exact hSelf
    · exact hNew q hMem

/-! ## Overtaken -/

/-- An operation that was woken finds the lock taken and has to listen again. -/
def late : Option Object → Option Object → Nat
  | some (.lock _ .tryWoken), some (.lock _ .listen) => 1
  | _, _ => 0

/-- How often the operation at a position is late in a run. -/
def lateness (p : Platform) (i : Nat) : State Mutex Object → List (Action Call LockChoice) → Nat
  | _, [] => 0
  | s, a :: rest =>
    match (machine p).next s a with
    | some t => late s.pool[i]? t.pool[i]? + lateness p i t rest
    | none => 0

theorem lateness_append {i : Nat} {first : List (Action Call LockChoice)}
    {s t : State Mutex Object} (h : (machine p).run s first = some t)
    (rest : List (Action Call LockChoice)) :
    lateness p i s (first ++ rest) = lateness p i s first + lateness p i t rest := by
  induction first generalizing s with
  | nil =>
    cases h
    exact (Nat.zero_add _).symm
  | cons a first ih =>
    obtain ⟨u, hNext, hRest⟩ := Option.bind_eq_some_iff.mp h
    simp only [List.cons_append, lateness, hNext]
    rw [ih hRest, Nat.add_assoc]

/-- The mutex is held, and operation 0 has been woken for nothing `k` times and sleeps again. -/
def overtaken (k : Nat) : State Mutex Object :=
  ⟨⟨1, ⟨[⟨0, none⟩]⟩⟩,
    .lock ⟨false, false⟩ .waiting :: (List.replicate k .gone ++ [.guard false])⟩

/-- The holder unlocks, somebody else locks, and operation 0 comes too late. -/
def overtake (k : Nat) : List (Action Call LockChoice) :=
  [.act (k + 1) .drop, .act (k + 1) (.go false), .call .tryLock, .act (k + 2) (.go false),
    .act 0 (.go false), .act 0 (.go false), .act 0 (.go false), .act 0 (.go false)]

theorem next_last {m m' : Mutex} {q o o' : Object} {k : Nat} {c : LockChoice}
    (h : step p (k + 1) c m o = some (m', o', [])) :
    (machine p).next ⟨m, q :: (List.replicate k .gone ++ [o])⟩ (.act (k + 1) c) =
      some ⟨m', q :: (List.replicate k .gone ++ [o'])⟩ := by
  refine (Machine.next_act_of_step (o := o) ?_ h).trans ?_
  · simp
  · simp

theorem next_first {m m' : Mutex} {f f' : Lock} {rest : List Object}
    (h : f.step p 0 (.go false) m = some (m', .running f')) :
    (machine p).next ⟨m, .lock ⟨false, false⟩ f :: rest⟩ (.act 0 (.go false)) =
      some ⟨m', .lock ⟨false, false⟩ f' :: rest⟩ := by
  simp [Machine.next, machine, step, h, lockStep]

theorem overtake_run (k : Nat) :
    (machine p).run (overtaken k) (overtake k) = some (overtaken (k + 1)) ∧
      lateness p 0 (overtaken k) (overtake k) = 1 := by
  have hUnlock : step p (k + 1) .drop ⟨1, ⟨[⟨0, none⟩]⟩⟩ (.guard false) =
      some (⟨0, ⟨[⟨0, none⟩]⟩⟩, .unlocking, []) := by
    simp [step, unlockUnchecked, wrappingSub]
  have hCall (m : Mutex) (q : Object) :
      (machine p).next ⟨m, q :: (List.replicate k .gone ++ [.gone])⟩ (.call .tryLock) =
        some ⟨m, q :: (List.replicate (k + 1) .gone ++ [.tryLock false])⟩ := by
    simp [Machine.next, machine, create, Call.tryLock, List.replicate_succ']
  have hNotify : step p (k + 1) (.go false) ⟨0, ⟨[⟨0, none⟩]⟩⟩ .unlocking =
      some (⟨0, ⟨[⟨0, some .single⟩]⟩⟩, .gone, []) := rfl
  have hTake : step p (k + 1 + 1) (.go false) ⟨0, ⟨[⟨0, some .single⟩]⟩⟩ (.tryLock false) =
      some (⟨1, ⟨[⟨0, some .single⟩]⟩⟩, .guard false, []) := rfl
  have hWake : Lock.step p 0 (.go false) ⟨1, ⟨[⟨0, some .single⟩]⟩⟩ .waiting =
      some (⟨1, ⟨[]⟩⟩, .running .tryWoken) := rfl
  have hLate : Lock.step p 0 (.go false) ⟨1, ⟨[]⟩⟩ .tryWoken =
      some (⟨1, ⟨[]⟩⟩, .running .listen) := rfl
  have hListen : Lock.step p 0 (.go false) ⟨1, ⟨[]⟩⟩ .listen =
      some (⟨1, ⟨[⟨0, none⟩]⟩⟩, .running .tryListening) := rfl
  have hSleep : Lock.step p 0 (.go false) ⟨1, ⟨[⟨0, none⟩]⟩⟩ .tryListening =
      some (⟨1, ⟨[⟨0, none⟩]⟩⟩, .running .waiting) := rfl
  constructor
  · simp only [overtake, overtaken, Machine.run, next_last hUnlock, next_last hNotify, hCall,
      next_last hTake, next_first hWake, next_first hLate, next_first hListen, next_first hSleep,
      Option.bind_some]
  · simp only [overtake, overtaken, lateness, next_last hUnlock, next_last hNotify, hCall,
      next_last hTake, next_first hWake, next_first hLate, next_first hListen, next_first hSleep,
      List.getElem?_cons_zero, late]

def overtakes : Nat → List (Action Call LockChoice)
  | 0 => [.call .lock, .call .tryLock, .act 1 (.go false)] ++ List.replicate 3 (.act 0 (.go false))
  | k + 1 => overtakes k ++ overtake k

theorem overtakes_run (k : Nat) :
    (machine p).run initial (overtakes k) = some (overtaken k) ∧
      lateness p 0 initial (overtakes k) = k := by
  induction k with
  | zero => exact ⟨rfl, rfl⟩
  | succ k ih =>
    obtain ⟨hRun, hLate⟩ := overtake_run (p := p) k
    constructor
    · rw [overtakes, Machine.run_append, ih.1, Option.bind_some, hRun]
    · rw [overtakes, lateness_append ih.1, ih.2, hLate]

theorem overtakes_unclocked (k : Nat) : ∀ a ∈ overtakes k, Unclocked a := by
  induction k with
  | zero => simp [overtakes, Unclocked]
  | succ k ih =>
    intro a ha
    rcases List.mem_append.mp ha with hOld | hNew
    · exact ih a hOld
    · simp only [overtake, List.mem_cons, List.not_mem_nil, or_false] at hNew
      rcases hNew with rfl | rfl | rfl | rfl | rfl | rfl | rfl | rfl <;>
        first | exact rfl | exact trivial

/-- All calls but the first are of `try_lock`. -/
theorem overtakes_calls (k : Nat) : ∃ rest, overtakes k = .call .lock :: rest ∧
    ∀ c, .call c ∈ rest → c = .tryLock := by
  induction k with
  | zero => exact ⟨_, rfl, by simp⟩
  | succ k ih =>
    obtain ⟨rest, hEq, hCalls⟩ := ih
    refine ⟨rest ++ overtake k, by rw [overtakes, hEq, List.cons_append], fun c hc => ?_⟩
    rcases List.mem_append.mp hc with hOld | hNew
    · exact hCalls c hOld
    · simpa [overtake] using hNew

/-- Without a clock nobody is ever starved, and the word is the lock bit; but there is no bound on
how often the operation that was called first is woken too late by others, all of them `try_lock`
calls. -/
theorem unclocked_unfair (p : Platform) :
    (∀ acts s, (machine p).run initial acts = some s → (∀ a ∈ acts, Unclocked a) →
      s.mem.state = guards s ∧ guards s ≤ 1 ∧ ∀ o ∈ s.pool, o.Hot) ∧
    ∀ k, ∃ rest s, (∀ c, .call c ∈ rest → c = .tryLock) ∧ (∀ a ∈ rest, Unclocked a) ∧
      (machine p).run initial (.call .lock :: rest) = some s ∧
      s.pool[0]? = some (.lock ⟨false, false⟩ .waiting) ∧
      lateness p 0 initial (.call .lock :: rest) = k := by
  refine ⟨fun acts s h hClock => ?_, fun k => ?_⟩
  · have hHot := hot_of_run h hClock
    have hAccounts := accounts_of_reaches (Machine.reaches_of_run _ acts _ s h)
      fun o ho => (hHot o ho).not_aborted
    have hStarved : starvedOps s = 0 := census_eq_zero fun o ho => (hHot o ho).starved
    have hEq := hAccounts.state_eq
    rw [hStarved] at hEq
    exact ⟨hEq, hAccounts.owners_le, hHot⟩
  · obtain ⟨hRun, hLate⟩ := overtakes_run (p := p) k
    obtain ⟨rest, hEq, hCalls⟩ := overtakes_calls k
    have hUnclocked := overtakes_unclocked k
    rw [hEq] at hRun hLate hUnclocked
    exact ⟨rest, overtaken k, hCalls, fun a ha => hUnclocked a (List.mem_cons_of_mem _ ha), hRun,
      rfl, hLate⟩

theorem unclocked_unfair_once : (overtaken 1).mem.state = guards (overtaken 1) :=
  ((unclocked_unfair platform64).1 (overtakes 1) (overtaken 1) (overtakes_run 1).1
    (overtakes_unclocked 1)).1

end AsyncLock.Mutex
