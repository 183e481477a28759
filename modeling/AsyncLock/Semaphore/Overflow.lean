import AsyncLock.Semaphore.Accounting

/-! # When the count of the semaphore wraps

`add_permits` and the drop of a guard are plain `fetch_add`s. Each raises the count by what it
adds exactly when the permits that are free after it still fit the word, with those that guards
keep out left aside: a guard that outlives an `add_permits` of nearly all there is room for
wraps the count when it is dropped.
-/
namespace AsyncLock.Semaphore
set_option autoImplicit false

open Interleaving

/-- What an action adds to the count. -/
def Object.adds (c : Choice) : Object → Option Nat
  | addPermits k => some k
  | guard _ =>
    match c with
    | .drop => some 1
    | _ => none
  | _ => none

/-- Of an `add_permits` that has been called, whether it has acted or not. -/
def Object.promised : Object → Nat
  | addPermits k | adding k | added k => k
  | _ => 0

def addition (s : State Semaphore Object) : Action Call Choice → Option Nat
  | .call _ => none
  | .act i c => (s.pool[i]?).bind (Object.adds c)

/-- An `add_permits` or a drop of a guard does not lower the count: it raises it by what it adds,
or is refused and changes nothing. -/
def Raises (bits : Nat) (s : State Semaphore Object) (a : Action Call Choice) : Prop :=
  ∀ k ∈ addition s a, ∀ s' ∈ (machine bits).next s a,
    s.mem.count ≤ s'.mem.count ∧ (s'.mem.count = s.mem.count + k ∨ s'.mem = s.mem)

/-- The permits that are free: those granted at first and by `add_permits`, less those out. -/
def free (n : Nat) (s : State Semaphore Object) : Nat := n + permitsAdded s - permitsOut s

/-- What an action adds still fits the word. -/
def Fits (bits n : Nat) (s : State Semaphore Object) (a : Action Call Choice) : Prop :=
  ∀ k ∈ addition s a, free n s + k < 2 ^ bits

instance (bits : Nat) (s : State Semaphore Object) (a : Action Call Choice) :
    Decidable (Raises bits s a) :=
  inferInstanceAs (Decidable (∀ k ∈ addition s a, ∀ s' ∈ (machine bits).next s a, _ ∧ _))

instance (bits n : Nat) (s : State Semaphore Object) (a : Action Call Choice) :
    Decidable (Fits bits n s a) :=
  inferInstanceAs (Decidable (∀ k ∈ addition s a, _))

def argument : Action Call Choice → Nat
  | .call (.addPermits k) => k
  | _ => 0

variable {bits : Nat}

/-- It is an `add_permits` about to act, or the drop of a guard. -/
theorem addition_cases {s : State Semaphore Object} {a : Action Call Choice} {k : Nat}
    (h : addition s a = some k) : ∃ i c o, a = .act i c ∧ s.pool[i]? = some o ∧
      (o = .addPermits k ∨ ∃ arc, o = .guard arc ∧ c = .drop ∧ k = 1) := by
  cases a with
  | call call => cases h
  | act i c =>
    obtain ⟨o, hGet, hAdds⟩ := Option.bind_eq_some_iff.mp h
    refine ⟨i, c, o, rfl, hGet, ?_⟩
    cases o with
    | addPermits n =>
      cases hAdds
      exact .inl rfl
    | guard arc =>
      cases c with
      | drop =>
        cases hAdds
        exact .inr ⟨arc, rfl, rfl, rfl⟩
      | _ => cases hAdds
    | _ => cases hAdds

theorem next_of_addition (bits : Nat) {s : State Semaphore Object} {a : Action Call Choice}
    {k : Nat} (h : addition s a = some k) :
    ∃ s', (machine bits).next s a = some s' ∧
      s'.mem = { s.mem with count := wrappingAdd bits s.mem.count k } := by
  obtain ⟨i, c, o, rfl, hGet, rfl | ⟨arc, rfl, rfl, rfl⟩⟩ := addition_cases h
  · exact ⟨_, Machine.next_act_of_step (M := machine bits) hGet rfl, rfl⟩
  · exact ⟨_, Machine.next_act_of_step (M := machine bits) hGet rfl, rfl⟩

theorem raises_iff {s : State Semaphore Object} {a : Action Call Choice}
    (hCount : s.mem.count < 2 ^ bits) (hArgument : ∀ k ∈ addition s a, k < 2 ^ bits) :
    Raises bits s a ↔ ∀ k ∈ addition s a, s.mem.count + k < 2 ^ bits := by
  constructor
  · intro hRaises k hAdds
    obtain ⟨s', hNext, hMem⟩ := next_of_addition bits hAdds
    have hLe := (hRaises k hAdds s' hNext).1
    rw [hMem] at hLe
    exact (le_wrappingAdd_iff hCount (hArgument k hAdds)).mp hLe
  · intro hFits k hAdds s' hNext
    obtain ⟨t, hNext', hMem⟩ := next_of_addition bits hAdds
    cases hNext'.symm.trans hNext
    have hAdd : s'.mem.count = s.mem.count + k := by
      rw [hMem]
      exact wrappingAdd_of_lt (hFits k hAdds)
    exact ⟨by omega, .inl hAdd⟩

attribute [local simp] Object.out Object.granted Object.adds

theorem step_free {i : Nat} {c : Choice} {s s' : Semaphore} {o o' : Object} {new : List Object}
    (h : step bits i c s o = some (s', o', new)) {n added out : Nat}
    (hOut : o.out + out ≤ n + (o.granted + added)) :
    n + (o'.granted + census Object.granted new + added) -
      (o'.out + census Object.out new + out) ≤
      n + (o.granted + added) - (o.out + out) + (o.adds c).getD 0 := by
  cases step_acts h with
  | tryTake | take | release | addPermits =>
    simp at hOut ⊢
    omega
  | _ => simp

theorem next_free {n : Nat} {s s' : State Semaphore Object} {a : Action Call Choice}
    (hOut : permitsOut s ≤ n + permitsAdded s) (h : (machine bits).next s a = some s') :
    free n s' ≤ free n s + (addition s a).getD 0 := by
  unfold free permitsAdded permitsOut at *
  rcases Machine.next_others h with ⟨k, rfl, rfl⟩ |
    ⟨i, c, o, mem, o', new, others, rfl, hGet, hAct, rfl, _, hPool, hPool'⟩
  · cases k <;> simp [machine, create]
  · have hAdds : addition s (.act i c) = o.adds c := by rw [addition, hGet, Option.bind_some]
    rw [hPool, hPool] at hOut
    rw [hPool', hPool', hPool, hPool, hAdds]
    exact step_free hAct hOut

theorem free_lt_of_next {n : Nat} (hn : n < 2 ^ bits) {s s' : State Semaphore Object}
    {a : Action Call Choice} (hPast : (machine bits).Reaches (initial n) s)
    (hFree : free n s < 2 ^ bits) (hFits : Fits bits n s a)
    (h : (machine bits).next s a = some s') : free n s' < 2 ^ bits := by
  have hNext := next_free (balance_of_reaches hn hPast).out_le h
  cases hAdds : addition s a with
  | none =>
    rw [hAdds] at hNext
    exact Nat.lt_of_le_of_lt hNext hFree
  | some k =>
    rw [hAdds] at hNext
    exact Nat.lt_of_le_of_lt hNext (hFits k hAdds)

theorem count_eq_free {n : Nat} (hn : n < 2 ^ bits) {s : State Semaphore Object}
    (h : (machine bits).Reaches (initial n) s) (hFree : free n s < 2 ^ bits) :
    s.mem.count = free n s := (balance_of_reaches hn h).count_eq.trans (Nat.mod_eq_of_lt hFree)

/-- As long as the additions fit, the count is the number of free permits, not only modulo the
word. -/
theorem count_of_fits {n : Nat} (hn : n < 2 ^ bits) {acts : List (Action Call Choice)}
    {s : State Semaphore Object} (h : (machine bits).run (initial n) acts = some s)
    (hFits : (machine bits).Along (Fits bits n) (initial n) acts) : s.mem.count = free n s := by
  apply count_eq_free hn (Machine.reaches_of_run _ acts _ s h)
  apply Machine.invariant_along (P := fun s => free n s < 2 ^ bits) h hFits hn
  intro s a s' hPast hOk hNext hFree
  exact free_lt_of_next hn hPast hFree hOk hNext

theorem step_not_addPermits {i : Nat} {c : Choice} {s s' : Semaphore} {o o' : Object}
    {new : List Object} (h : step bits i c s o = some (s', o', new)) (k : Nat) :
    o' ≠ .addPermits k ∧ .addPermits k ∉ new := by
  cases step_acts h <;> simp

/-- An `add_permits` about to act has been called with an argument that is past or present. -/
theorem called_of_next {s s' : State Semaphore Object} {a : Action Call Choice}
    (h : (machine bits).next s a = some s') {k : Nat} (hk : .addPermits k ∈ s'.pool) :
    .addPermits k ∈ s.pool ∨ argument a = k := by
  rcases Machine.next_others h with ⟨call, rfl, rfl⟩ |
    ⟨i, c, o, mem, o', new, others, rfl, hGet, hAct, rfl, _, _⟩
  · refine (List.mem_append.mp hk).imp_right fun hNew => ?_
    cases call with
    | addPermits n =>
      cases List.mem_singleton.mp hNew
      rfl
    | _ => cases List.mem_singleton.mp hNew
  · left
    obtain ⟨hSelf, hNew⟩ := step_not_addPermits hAct k
    rcases mem_of_act hk with hOld | hEq | hMem
    · exact hOld
    · exact absurd hEq.symm hSelf
    · exact absurd hMem hNew

/-! ## A bound on the arguments alone -/

section

attribute [local simp] Object.promised

theorem next_promised {s s' : State Semaphore Object} {a : Action Call Choice}
    (h : (machine bits).next s a = some s') :
    census Object.promised s'.pool = census Object.promised s.pool + argument a := by
  rcases Machine.next_others h with ⟨call, rfl, rfl⟩ |
    ⟨i, c, o, mem, o', new, others, rfl, hGet, hAct, rfl, _, hPool, hPool'⟩
  · cases call <;> simp [machine, create, argument]
  · have hNone : argument (.act i c) = 0 := rfl
    rw [hPool, hPool', hNone]
    cases step_acts hAct <;> simp

end

theorem Object.granted_le_promised (o : Object) : o.granted ≤ o.promised := by
  cases o with
  | adding k | added k => exact Nat.le_refl k
  | _ => exact Nat.zero_le _

theorem fits_of_promised {n : Nat} {s : State Semaphore Object} {a : Action Call Choice}
    (hOut : permitsOut s ≤ n + permitsAdded s)
    (h : n + census Object.promised s.pool < 2 ^ bits) : Fits bits n s a := by
  intro k hAdds
  obtain ⟨i, c, o, rfl, hGet, hAddition⟩ := addition_cases hAdds
  obtain ⟨others, hPool, _⟩ := exists_others hGet
  -- a guard stands for a permit that was granted, an `add_permits` for those it will grant
  have hOne : o.granted + k ≤ o.promised + o.out := by
    rcases hAddition with rfl | ⟨arc, rfl, _, rfl⟩
    · exact Nat.le_of_eq (Nat.zero_add k)
    · exact Nat.le_refl 1
  have hOthers := census_le Object.granted_le_promised others
  unfold free permitsAdded permitsOut at *
  rw [hPool] at h
  rw [hPool, hPool] at hOut ⊢
  omega

/-- If all the permits that a run grants fit the word together, every addition fits. -/
theorem fits_of_total {n : Nat} {acts : List (Action Call Choice)}
    (hTotal : n + (acts.map argument).sum < 2 ^ bits) :
    (machine bits).Along (Fits bits n) (initial n) acts := by
  have hn : n < 2 ^ bits := by omega
  apply Machine.along_of_invariant (P := fun s rest => (machine bits).Reaches (initial n) s ∧
    n + census Object.promised s.pool + (rest.map argument).sum < 2 ^ bits)
  · rintro s a rest ⟨hPast, hSum⟩
    exact fits_of_promised (balance_of_reaches hn hPast).out_le (by omega)
  · rintro s a rest s' ⟨hPast, hSum⟩ hNext
    rw [List.map_cons, List.sum_cons] at hSum
    refine ⟨hPast.tail ⟨a, hNext⟩, ?_⟩
    rw [next_promised hNext]
    omega
  · exact ⟨.refl, hTotal⟩

/-! ## The exact condition -/

/-- What a run keeps as long as its additions fit, with the actions that are still to come. -/
structure Unwrapped (bits n : Nat) (s : State Semaphore Object)
    (rest : List (Action Call Choice)) : Prop where
  reaches : (machine bits).Reaches (initial n) s
  free_lt : free n s < 2 ^ bits
  called : ∀ k, .addPermits k ∈ s.pool → k < 2 ^ bits
  coming : ∀ a ∈ rest, argument a < 2 ^ bits

namespace Unwrapped

variable {n : Nat} {s s' : State Semaphore Object} {rest : List (Action Call Choice)}
  {a : Action Call Choice}

theorem initial {acts : List (Action Call Choice)} (hn : n < 2 ^ bits)
    (hArguments : ∀ a ∈ acts, argument a < 2 ^ bits) :
    Unwrapped bits n (initial n) acts :=
  ⟨.refl, hn, by simp [Semaphore.initial], hArguments⟩

theorem addition_lt (hBits : 0 < bits) (h : Unwrapped bits n s rest) {k : Nat}
    (hAdds : addition s a = some k) : k < 2 ^ bits := by
  obtain ⟨i, c, o, _, hGet, rfl | ⟨arc, _, _, rfl⟩⟩ := addition_cases hAdds
  · exact h.called k (List.mem_of_getElem? hGet)
  · exact Nat.one_lt_two_pow (by omega)

theorem raises_iff (hBits : 0 < bits) (hn : n < 2 ^ bits) (h : Unwrapped bits n s rest) :
    Raises bits s a ↔ Fits bits n s a := by
  have hCount := count_eq_free hn h.reaches h.free_lt
  rw [Semaphore.raises_iff (hCount ▸ h.free_lt) fun k hAdds => h.addition_lt hBits hAdds, hCount]
  rfl

theorem step (hn : n < 2 ^ bits) (h : Unwrapped bits n s (a :: rest)) (hFits : Fits bits n s a)
    (hNext : (machine bits).next s a = some s') : Unwrapped bits n s' rest := by
  refine ⟨h.reaches.tail ⟨a, hNext⟩, free_lt_of_next hn h.reaches h.free_lt hFits hNext, ?_, ?_⟩
  · intro k hk
    rcases called_of_next hNext hk with hOld | hNew
    · exact h.called k hOld
    · exact hNew ▸ h.coming a List.mem_cons_self
  · intro b hb
    exact h.coming b (List.mem_cons_of_mem a hb)

end Unwrapped

/-- A run in which every argument of `add_permits` fits the word: no addition lowers the count
or falls short exactly when each leaves the free permits within the word. -/
theorem raises_iff_fits {p : Platform} {n : Nat} (hn : n < 2 ^ p.bits)
    {acts : List (Action Call Choice)} (hArguments : ∀ a ∈ acts, argument a < 2 ^ p.bits) :
    (machine p.bits).Along (Raises p.bits) (initial n) acts ↔
      (machine p.bits).Along (Fits p.bits n) (initial n) acts :=
  Machine.along_iff (P := Unwrapped p.bits n)
    (fun _ _ _ h => h.raises_iff p.bits_pos hn) (fun _ _ _ _ h => h.step hn)
    (Unwrapped.initial hn hArguments)

/-- One permit comes back after an `add_permits` that leaves room for it. -/
def addThenDrop : List (Action Call Choice) :=
  [.call .tryAcquire, .act 0 (.go false), .act 0 (.go false),
    .call (.addPermits (2 ^ 64 - 2)), .act 1 (.go false), .act 0 .drop]

theorem raises_iff_fits_addThenDrop :
    (machine 64).Along (Raises 64) (initial 1) addThenDrop :=
  (raises_iff_fits (p := platform64) (n := 1) (by decide) (by decide)).mpr (by decide +kernel)

/-- One permit comes back after an `add_permits(usize::MAX)`, which finds the count at 0. -/
def addAllThenDrop : List (Action Call Choice) :=
  [.call .tryAcquire, .act 0 (.go false), .act 0 (.go false),
    .call (.addPermits (2 ^ 64 - 1)), .act 1 (.go false), .act 0 .drop]

/-- The drop of the guard makes the other permits disappear. -/
theorem drop_wraps :
    (∀ a ∈ addAllThenDrop, argument a < 2 ^ 64) ∧
      (∃ s s', (machine 64).run (initial 1) (addAllThenDrop.take 5) = some s ∧
        s.mem.count = 2 ^ 64 - 1 ∧ (machine 64).next s (.act 0 .drop) = some s' ∧
        s'.mem.count = 0) ∧
      ¬ (machine 64).Along (Raises 64) (initial 1) addAllThenDrop :=
  ⟨by decide, ⟨⟨⟨2 ^ 64 - 1, Event.new⟩, [.guard false, .adding (2 ^ 64 - 1)]⟩,
    ⟨⟨0, Event.new⟩, [.releasing, .adding (2 ^ 64 - 1)]⟩, by decide +kernel, rfl,
    by decide +kernel, rfl⟩, by decide +kernel⟩

end AsyncLock.Semaphore
