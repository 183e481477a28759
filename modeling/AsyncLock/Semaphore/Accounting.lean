import AsyncLock.Interleaving.Census
import AsyncLock.Semaphore.Machine

/-! # The semaphore conserves its permits

The count is what was granted at first and by `add_permits`, less the permits out: those of the
live guards and those of the guards given up by `forget`. The equation is modulo the word, and
the permits out never exceed what was granted.
-/
namespace AsyncLock.Semaphore
set_option autoImplicit false

open Interleaving

namespace Object

def out : Object → Nat
  | guard _ | forgotten _ => 1
  | _ => 0

def granted : Object → Nat
  | adding n | added n => n
  | _ => 0

/-- The value a retry loop would decrement is not 0. -/
def Sound : Object → Prop
  | tryAcquire _ (.exchange count) | acquire _ (.trying _ (.exchange count)) => count ≠ 0
  | _ => True

end Object

/-- The permits out and the argument total of the `add_permits` calls so far. -/
def permitsOut (s : State Semaphore Object) : Nat := census Object.out s.pool

def permitsAdded (s : State Semaphore Object) : Nat := census Object.granted s.pool

structure Balance (bits n count added out : Nat) : Prop where
  count_eq : count = (n + added - out) % 2 ^ bits
  out_le : out ≤ n + added

namespace Balance

variable {bits n count added out : Nat}

theorem take (h : Balance bits n count added out) (hCount : count ≠ 0) :
    Balance bits n (wrappingSub bits count 1) added (1 + out) := by
  obtain ⟨hEq, hLe⟩ := h
  have hLt : count < 2 ^ bits := hEq ▸ Nat.mod_lt _ (Nat.two_pow_pos _)
  have hDiv := Nat.div_add_mod (n + added - out) (2 ^ bits)
  rw [← hEq] at hDiv
  have hSplit : n + added - (1 + out) =
      count - 1 + 2 ^ bits * ((n + added - out) / 2 ^ bits) := by omega
  refine ⟨?_, by omega⟩
  rw [wrappingSub_of_le (by omega) hLt, hSplit, Nat.add_mul_mod_self_left,
    Nat.mod_eq_of_lt (by omega)]

theorem give (h : Balance bits n count added (1 + out)) :
    Balance bits n (wrappingAdd bits count 1) added out := by
  obtain ⟨hEq, hLe⟩ := h
  refine ⟨?_, by omega⟩
  rw [wrappingAdd, hEq, Nat.mod_add_mod]
  congr 1
  omega

theorem add (h : Balance bits n count added out) (k : Nat) :
    Balance bits n (wrappingAdd bits count k) (k + added) out := by
  obtain ⟨hEq, hLe⟩ := h
  refine ⟨?_, by omega⟩
  rw [wrappingAdd, hEq, Nat.mod_add_mod]
  congr 1
  omega

end Balance

variable {bits : Nat}

attribute [local simp] Object.out Object.granted

theorem step_sound (i : Nat) (c : Choice) (s : Semaphore) (o : Object) (s' : Semaphore)
    (o' : Object) (new : List Object) (h : (machine bits).step i c s o = some (s', o', new)) :
    o'.Sound ∧ ∀ n ∈ new, n.Sound := by
  cases step_acts h with
  | tryRetry _ _ _ hCount | retry _ _ _ _ hCount => exact ⟨hCount, by simp⟩
  | take => exact ⟨trivial, by simp [Object.Sound]⟩
  | _ => exact ⟨trivial, by simp⟩

theorem sound_of_reaches {n : Nat} {s : State Semaphore Object}
    (h : (machine bits).Reaches (initial n) s) : ∀ o ∈ s.pool, o.Sound :=
  Machine.forall_of_reaches h (by simp [initial]) (fun _ k => by cases k <;> exact trivial)
    fun i c m o m' o' new hStep _ => step_sound i c m o m' o' new hStep

theorem step_balance {i : Nat} {c : Choice} {s s' : Semaphore} {o o' : Object}
    {new : List Object} (h : step bits i c s o = some (s', o', new)) (hSound : o.Sound)
    {n added out : Nat} (hs : Balance bits n s.count (o.granted + added) (o.out + out)) :
    Balance bits n s'.count (o'.granted + census Object.granted new + added)
      (o'.out + census Object.out new + out) := by
  cases step_acts h with
  | tryTake | take =>
    have := (show Balance bits n s.count added out by simpa using hs).take hSound
    simpa using this
  | release =>
    have := (show Balance bits n s.count added (1 + out) by simpa using hs).give
    simpa using this
  | addPermits c k =>
    have := (show Balance bits n s.count added out by simpa using hs).add k
    simpa using this
  | _ => simpa using hs

theorem balance_of_reaches {n : Nat} (hn : n < 2 ^ bits) {s : State Semaphore Object}
    (h : (machine bits).Reaches (initial n) s) :
    Balance bits n s.mem.count (permitsAdded s) (permitsOut s) := by
  apply Machine.invariant
    (P := fun s => Balance bits n s.mem.count (permitsAdded s) (permitsOut s)) h
    ⟨(Nat.mod_eq_of_lt hn).symm, Nat.zero_le _⟩
  intro s s' hPast hStep hs
  unfold permitsAdded permitsOut at hs ⊢
  rcases Machine.step_others hStep with ⟨k, rfl⟩ |
    ⟨i, c, o, mem, o', new, others, hGet, hAct, rfl, _, hPool, hPool'⟩
  · cases k <;> simpa [machine, create] using hs
  · rw [hPool, hPool] at hs
    rw [hPool', hPool']
    exact step_balance hAct (sound_of_reaches hPast o (List.mem_of_getElem? hGet)) hs

theorem drop_gives_back {s s' : State Semaphore Object} {i : Nat} {arc : Bool}
    (hGuard : s.pool[i]? = some (.guard arc))
    (h : (machine bits).next s (.act i .drop) = some s') :
    s'.mem.count = wrappingAdd bits s.mem.count 1 ∧ permitsOut s' + 1 = permitsOut s := by
  obtain ⟨mem, o', new, hAct, rfl⟩ := Machine.next_act_at hGuard h
  cases hAct
  obtain ⟨others, hPool, hSet⟩ := exists_others hGuard
  refine ⟨rfl, ?_⟩
  simp only [permitsOut, List.append_nil, hSet, hPool, Object.out]
  omega

theorem forget_keeps {s s' : State Semaphore Object} {i : Nat} {arc : Bool}
    (hGuard : s.pool[i]? = some (.guard arc))
    (h : (machine bits).next s (.act i .forget) = some s') :
    s'.mem = s.mem ∧ permitsOut s' = permitsOut s ∧ s'.pool[i]? = some (.forgotten arc) ∧
      ∀ c, (machine bits).next s' (.act i c) = none := by
  obtain ⟨mem, o', new, hAct, rfl⟩ := Machine.next_act_at hGuard h
  cases hAct
  obtain ⟨others, hPool, hSet⟩ := exists_others hGuard
  have hForgotten := get_act_self hGuard (.forgotten arc) []
  refine ⟨rfl, ?_, hForgotten, fun c => ?_⟩
  · simp only [permitsOut, List.append_nil, hSet, hPool, Object.out]
  · simp only [Machine.next, hForgotten]
    rfl

/-- Permit conservation in every reachable state, with what the two ends of a guard give back. -/
theorem permits_conserved {n : Nat} (hn : n < 2 ^ bits) {s : State Semaphore Object}
    (h : (machine bits).Reaches (initial n) s) :
    s.mem.count = (n + permitsAdded s - permitsOut s) % 2 ^ bits ∧
      permitsOut s ≤ n + permitsAdded s ∧ (∀ o ∈ s.pool, o.Sound) ∧
      ∀ (i : Nat) (arc : Bool), s.pool[i]? = some (.guard arc) →
        (∀ s', (machine bits).next s (.act i .drop) = some s' →
          s'.mem.count = wrappingAdd bits s.mem.count 1 ∧ permitsOut s' + 1 = permitsOut s) ∧
        ∀ s', (machine bits).next s (.act i .forget) = some s' →
          s'.mem = s.mem ∧ permitsOut s' = permitsOut s ∧
            s'.pool[i]? = some (.forgotten arc) ∧
            ∀ c, (machine bits).next s' (.act i c) = none := by
  have hBalance := balance_of_reaches hn h
  exact ⟨hBalance.count_eq, hBalance.out_le, sound_of_reaches h, fun i arc hGuard =>
    ⟨fun s' hDrop => drop_gives_back hGuard hDrop, fun s' hForget => forget_keeps hGuard hForget⟩⟩

def dropAndForget : List (Action Call Choice) :=
  [.call .tryAcquire, .act 0 (.go false), .act 0 (.go true), .act 0 (.go false),
    .call .acquireArc, .act 1 (.go false), .act 1 (.go false), .act 1 (.go false),
    .call (.addPermits 3), .act 3 (.go false), .act 2 .forget, .act 0 .drop]

def oneForgotten : State Semaphore Object :=
  ⟨⟨4, Event.new⟩, [.releasing, .finished false, .forgotten true, .adding 3]⟩

theorem permits_conserved_dropAndForget :
    oneForgotten.mem.count = (2 + permitsAdded oneForgotten - permitsOut oneForgotten) % 2 ^ 64 :=
  (permits_conserved (by decide)
    (Machine.reaches_of_run (machine 64) dropAndForget (initial 2) oneForgotten (by decide))).1

end AsyncLock.Semaphore
