import AsyncLock.Mutex.Wakeup

/-! # The fairness gate of the mutex

While an operation is starved the word is at least 2, so that the `compare_exchange(0, 1)` of
`try_lock`, of the fast path and of the hot loop fails. A starved operation takes a free mutex
only by the `compare_exchange(2, 3)`, where it is the only starved one, or by the `fetch_or`
that follows the consumption of its notification.
-/
namespace AsyncLock.Mutex
set_option autoImplicit false

open Interleaving

/-- The `compare_exchange(0, 1)` is the next action: of `try_lock`, of the fast path, or of a
slow operation in its hot loop. -/
def Object.Barges : Object → Prop
  | .tryLock _ | .lock _ .unpolled | .lock _ .tryListening | .lock _ .tryWoken => True
  | _ => False

/-- The last action of operation `i` in the run has consumed its notification. -/
def WokenLast (p : Platform) (acts : List (Action Call LockChoice)) (i : Nat) (form : Form) :
    Prop :=
  (machine p).ActedLast initial acts i fun u _ =>
    u.pool[i]? = some (.lock form .fairWaiting) ∧ (u.mem.lockOps.markOf i).isSome

variable {p : Platform}

theorem Object.Barges.starved {o : Object} (h : o.Barges) : o.starved = 0 := by
  cases o with
  | lock form f => cases f <;> first | rfl | cases h
  | tryLock arc => rfl
  | _ => cases h

end AsyncLock.Mutex
namespace AsyncLock.Lock

open Interleaving

variable {p : Platform} {i : Nat} {c : LockChoice} {m m' : Mutex} {f : Lock} {r : LockOutcome}

/-- The actions of a lock operation that set the lock bit. -/
theorem step_acquires (h : f.step p i c m = some (m', r)) (hFree : m.state % 2 = 0)
    (hTaken : m'.state % 2 = 1) :
    (m.state = 0 ∧ (f = unpolled ∨ f = tryListening ∨ f = tryWoken)) ∨
      (f = fairTry ∧ m.state = 2 ∧ m'.state = 3) ∨ f = fairGrab := by
  have hSame (hEq : m'.state % 2 = m.state % 2) : False := by omega
  cases step_acts h with
  | takeFast _ hZero => exact .inl ⟨hZero, .inl rfl⟩
  | takeListening _ hZero => exact .inl ⟨hZero, .inr (.inl rfl)⟩
  | takeWoken _ hZero => exact .inl ⟨hZero, .inr (.inr rfl)⟩
  | fairTake _ hAlone => exact .inr (.inl ⟨rfl, hAlone, rfl⟩)
  | fairGrab | fairGrabHeld => exact .inr (.inr rfl)
  | abort | starveListening | starve =>
    exact (hSame (wrappingAdd_two_mod_two p.bits_pos _)).elim
  | takeMutex | cancelStarved => exact (hSame (wrappingSub_two_mod_two p.bits_pos _)).elim
  | _ => exact (hSame rfl).elim

/-- Only a notified operation comes to the `fetch_or`. -/
theorem step_grabs (h : f.step p i c m = some (m', .running fairGrab)) :
    f = fairWaiting ∧ (m.lockOps.markOf i).isSome := by
  cases step_acts h with
  | fairConsume _ hMark => exact ⟨rfl, hMark⟩

end AsyncLock.Lock
namespace AsyncLock.Mutex

open Interleaving

variable {p : Platform}

theorem step_acquires {i : Nat} {c : LockChoice} {m m' : Mutex} {o o' : Object}
    {new : List Object} (h : step p i c m o = some (m', o', new))
    (hHeld : o.owns = 1 → m.state % 2 = 1) (hFree : m.state % 2 = 0)
    (hTaken : m'.state % 2 = 1) :
    (o.Barges ∧ m.state = 0) ∨ (∃ form, o = .lock form .fairTry ∧ m.state = 2 ∧ m'.state = 3) ∨
      ∃ form, o = .lock form .fairGrab := by
  have hSame (hEq : m'.state % 2 = m.state % 2) : False := by omega
  cases step_acts h with
  | tryTake _ hZero => exact .inl ⟨trivial, hZero⟩
  | lockRun form _ _ _ hLock | lockReady form _ _ _ hLock | lockDrop form _ _ hLock =>
    rcases Lock.step_acquires hLock hFree hTaken with ⟨hZero, rfl | rfl | rfl⟩ | ⟨rfl, hTwo⟩ | rfl
    · exact .inl ⟨trivial, hZero⟩
    · exact .inl ⟨trivial, hZero⟩
    · exact .inl ⟨trivial, hZero⟩
    · exact .inr (.inl ⟨form, rfl, hTwo⟩)
    · exact .inr (.inr ⟨form, rfl⟩)
  | unlock =>
    have := hHeld rfl
    omega
  | _ => exact (hSame rfl).elim

theorem woken_of_grab {acts : List (Action Call LockChoice)} {s : State Mutex Object}
    (h : (machine p).run initial acts = some s) {i : Nat} {form : Form}
    (hGet : s.pool[i]? = some (.lock form .fairGrab)) : WokenLast p acts i form := by
  refine (Machine.actedLast_of_run (P := fun o => ∃ form, o = .lock form .fairGrab) nofun ?_ ?_ h
    hGet ⟨form, rfl⟩).mono ?_
  · intro m k
    cases k <;> nofun
  · intro i c m o m' o' new hAct n hn
    rcases step_new hAct with rfl | ⟨arc, rfl⟩
    · cases hn
    · rw [List.mem_singleton.mp hn]
      nofun
  · rintro u c ⟨q, m, new, hq, hAct⟩
    cases step_acts hAct with
    | lockRun _ _ _ _ hLock =>
      obtain ⟨rfl, hMark⟩ := Lock.step_grabs hLock
      exact ⟨hq, hMark⟩

/-- While the lock is free, the only starved operation is where the word is 2. -/
theorem starvedOps_of_free {s : State Mutex Object} (h : (machine p).Reaches initial s)
    (hAlive : Alive Object.Aborted s) (hFree : s.mem.state % 2 = 0) :
    s.mem.state = 2 * starvedOps s := by
  have hEq := (accounts_of_reaches h hAlive).state_eq
  have hLe := (accounts_of_reaches h hAlive).owners_le
  omega

theorem starved_unique {s : State Mutex Object} (hOne : starvedOps s = 1) {i : Nat} {o : Object}
    (hGet : s.pool[i]? = some o) (ho : o.starved = 1) :
    ∀ j q, s.pool[j]? = some q → (q.starved = 1 ↔ j = i) := by
  intro j q hq
  constructor
  · intro hStarved
    by_contra hij
    have := add_le_census Object.starved hij hq hGet
    unfold starvedOps at hOne
    omega
  · rintro rfl
    rw [hq] at hGet
    cases hGet
    exact ho

section

variable {acts : List (Action Call LockChoice)} {s s' : State Mutex Object} {c : LockChoice}

/-- Who can take the free mutex. -/
theorem acquirer_cases (h : (machine p).run initial acts = some s)
    (hAlive : Alive Object.Aborted s) {i : Nat} (hNext : (machine p).next s (.act i c) = some s')
    (hFree : s.mem.state % 2 = 0) (hTaken : s'.mem.state % 2 = 1) : ∃ o, s.pool[i]? = some o ∧
      ((o.Barges ∧ o.starved = 0 ∧ starvedOps s = 0) ∨
        (∃ form, o = .lock form .fairTry ∧ s.mem.state = 2 ∧ s'.mem.state = 3 ∧
          ∀ j q, s.pool[j]? = some q → (q.starved = 1 ↔ j = i)) ∨
        ∃ form, o = .lock form .fairGrab ∧ o.starved = 1 ∧ WokenLast p acts i form) := by
  have hReach := Machine.reaches_of_run _ acts initial s h
  obtain ⟨o, mem, o', new, hGet, hAct, rfl⟩ := Machine.next_act hNext
  have hWord := starvedOps_of_free hReach hAlive hFree
  have hHeld (hOwns : o.owns = 1) : s.mem.state % 2 = 1 := by
    have hLe := le_census Object.owns (List.mem_of_getElem? hGet)
    have hEq := (accounts_of_reaches hReach hAlive).state_eq
    have hOne := (accounts_of_reaches hReach hAlive).owners_le
    unfold guards at hEq hOne
    omega
  refine ⟨o, hGet, ?_⟩
  rcases step_acquires hAct hHeld hFree hTaken with ⟨hBarges, hZero⟩ | ⟨form, rfl, hTwo, hThree⟩ |
    ⟨form, rfl⟩
  · exact .inl ⟨hBarges, hBarges.starved, by omega⟩
  · exact .inr (.inl ⟨form, rfl, hTwo, hThree, starved_unique (by omega) hGet rfl⟩)
  · exact .inr (.inr ⟨form, rfl, rfl, woken_of_grab h hGet⟩)

/-- Past a starved operation only another one that has been woken takes the mutex. -/
theorem woken_of_acquire (h : (machine p).run initial acts = some s)
    (hAlive : Alive Object.Aborted s) {i j : Nat} {o : Object} (hGet : s.pool[i]? = some o)
    (hStarved : o.starved = 1) (hij : j ≠ i) (hNext : (machine p).next s (.act j c) = some s')
    (hFree : s.mem.state % 2 = 0) (hTaken : s'.mem.state % 2 = 1) :
    ∃ form, s.pool[j]? = some (.lock form .fairGrab) ∧ WokenLast p acts j form := by
  have hLe := le_census Object.starved (List.mem_of_getElem? hGet)
  obtain ⟨q, hq, ⟨_, _, hNone⟩ | ⟨form, rfl, _, _, hOnly⟩ | ⟨form, rfl, _, hWoken⟩⟩ :=
    acquirer_cases h hAlive hNext hFree hTaken
  · unfold starvedOps at hNone
    omega
  · exact absurd ((hOnly i o hGet).mp hStarved) (Ne.symm hij)
  · exact ⟨form, hq, hWoken⟩

theorem tryLock_fails (h : (machine p).Reaches initial s) (hAlive : Alive Object.Aborted s)
    {i j : Nat} {o : Object} (hGet : s.pool[i]? = some o) (hStarved : o.starved = 1) {arc : Bool}
    (hTry : s.pool[j]? = some (.tryLock arc)) (hNext : (machine p).next s (.act j c) = some s') :
    s'.mem = s.mem ∧ s'.pool[j]? = some .gone := by
  have hNonzero : s.mem.state ≠ 0 := by
    have hLe := le_census Object.starved (List.mem_of_getElem? hGet)
    have hEq := (accounts_of_reaches h hAlive).state_eq
    unfold starvedOps at hEq
    omega
  obtain ⟨mem, q', new, hAct, rfl⟩ := Machine.next_act_at hTry hNext
  have hNone : s.mem.tryLock = none := if_neg hNonzero
  simp only [machine, step, hNone] at hAct
  cases hAct
  exact ⟨rfl, get_act_self hTry _ _⟩

end

/-- The fairness gate: who can take the free mutex, in every run, and what this means for the
others while some operation is starved. -/
theorem fairness_gate {acts : List (Action Call LockChoice)} {s : State Mutex Object}
    (h : (machine p).run initial acts = some s) (hAlive : Alive Object.Aborted s) :
    (∀ i c s', (machine p).next s (.act i c) = some s' → s.mem.state % 2 = 0 →
      s'.mem.state % 2 = 1 → ∃ o, s.pool[i]? = some o ∧
        ((o.Barges ∧ o.starved = 0 ∧ starvedOps s = 0) ∨
          (∃ form, o = .lock form .fairTry ∧ s.mem.state = 2 ∧ s'.mem.state = 3 ∧
            ∀ j q, s.pool[j]? = some q → (q.starved = 1 ↔ j = i)) ∨
          ∃ form, o = .lock form .fairGrab ∧ o.starved = 1 ∧ WokenLast p acts i form)) ∧
    ∀ i o, s.pool[i]? = some o → o.starved = 1 →
      (∀ j c s', j ≠ i → (machine p).next s (.act j c) = some s' → s.mem.state % 2 = 0 →
        s'.mem.state % 2 = 1 → ∃ form, s.pool[j]? = some (.lock form .fairGrab) ∧
          WokenLast p acts j form) ∧
      ∀ j c s' arc, s.pool[j]? = some (.tryLock arc) → (machine p).next s (.act j c) = some s' →
        s'.mem = s.mem ∧ s'.pool[j]? = some .gone := by
  have hReach := Machine.reaches_of_run _ acts initial s h
  constructor
  · intro i c s' hNext hFree hTaken
    exact acquirer_cases h hAlive hNext hFree hTaken
  · intro i o hGet hStarved
    constructor
    · intro j c s' hij hNext hFree hTaken
      exact woken_of_acquire h hAlive hGet hStarved hij hNext hFree hTaken
    · intro j c s' arc hTry hNext
      exact tryLock_fails hReach hAlive hGet hStarved hTry hNext

def starveThenWake : List (Action Call LockChoice) :=
  [.call .tryLock, .act 0 (.go false), .call .lock, .act 1 (.go false), .act 1 (.go false),
    .act 1 (.go false), .act 0 .drop, .act 0 (.go false), .call .tryLock, .act 2 (.go false),
    .act 1 (.go false), .act 1 (.go true), .act 1 (.go false), .act 1 (.go false),
    .act 1 (.go false), .act 2 .drop, .act 2 (.go false), .act 1 (.go false), .call .tryLock]

def starvedAndWoken : State Mutex Object :=
  ⟨⟨2, ⟨[]⟩⟩, [.gone, .lock ⟨false, false⟩ .fairGrab, .gone, .tryLock false]⟩

theorem fairness_gate_starveThenWake :
    WokenLast platform64 starveThenWake 1 ⟨false, false⟩ ∧
      ∀ s', (machine platform64).next starvedAndWoken (.act 3 (.go false)) = some s' →
        s'.mem = starvedAndWoken.mem ∧ s'.pool[3]? = some .gone := by
  have hGate := fairness_gate (p := platform64)
    (show (machine platform64).run initial starveThenWake = some starvedAndWoken by decide)
    (by simp [Alive, starvedAndWoken, Object.Aborted, Lock.Aborted])
  refine ⟨?_, fun s' => (hGate.2 1 _ rfl rfl).2 3 (.go false) s' false rfl⟩
  obtain ⟨o, hGet, hKind⟩ := hGate.1 1 (.go false) ⟨⟨3, ⟨[]⟩⟩,
    [.gone, .lock ⟨false, false⟩ (.takeMutex false), .gone, .tryLock false]⟩ (by decide) rfl rfl
  cases hGet
  rcases hKind with ⟨hBarges, _⟩ | ⟨form, hTry, _⟩ | ⟨form, hGrab, _, hWoken⟩
  · cases hBarges
  · cases hTry
  · cases hGrab
    exact hWoken

end AsyncLock.Mutex
