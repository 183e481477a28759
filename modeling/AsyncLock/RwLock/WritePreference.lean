import AsyncLock.RwLock.Accounting

/-! # Readers behind a writer

While the writer bit is set, its owner has the inner mutex, so nobody is in the loop that counts
an upgradable reader, and a read future with an old view of the state fails to exchange it. The
bit stays until its owner gives the write lock up, and until then readers only leave.
-/
namespace AsyncLock.RwLock
set_option autoImplicit false

open Interleaving

variable {α : Type*} {p : Platform}

namespace Object

/-- A finished future that has brought a shared lock. -/
def finished : Object → Nat
  | readDone _ | upgradableDone _ => 1
  | _ => 0

/-- The action by which a writer sets the bit. -/
def beginsWrite (c : Choice α) : Object → Prop
  | write _ (.setBit _) => True
  | upgradableGuard _ _ => ∃ blocking, c = .upgrade blocking
  | _ => False

/-- A release, a downgrade or a cancellation of a writer that has set the bit. -/
def endsWrite (c : Choice α) : Object → Prop
  | waiting _ _ _ _ => c = .drop
  | writeGuard _ _ => c = .drop ∨ c = .downgrade ∨ c = .downgradeToUpgradable
  | _ => False

instance [DecidableEq α] (c : Choice α) (o : Object) : Decidable (o.endsWrite c) := by
  unfold endsWrite
  split <;> infer_instance

end Object

def BitSet (s : State (RwLock α) Object) : Prop := s.mem.state &&& writerBit ≠ 0

/-- The action does not end the write of the writer that has set the bit. -/
def KeepsWrite (s : State (RwLock α) Object) : Action Call (Choice α) → Prop
  | .call _ => True
  | .act i c => ∀ o ∈ s.pool[i]?, ¬ o.endsWrite c

instance (s : State (RwLock α) Object) : Decidable (BitSet s) := inferInstanceAs (Decidable (_ ≠ _))

instance [DecidableEq α] (s : State (RwLock α) Object) : ∀ a, Decidable (KeepsWrite s a)
  | .call _ => inferInstanceAs (Decidable True)
  | .act i c => inferInstanceAs (Decidable (∀ o ∈ s.pool[i]?, ¬ o.endsWrite c))

theorem bitSet_iff (s : State (RwLock α) Object) : BitSet s ↔ s.mem.state % 2 = 1 := by
  rw [BitSet, and_writerBit]
  omega

section Step

variable {i : Nat} {c : Choice α} {s s' : RwLock α} {o o' : Object} {new : List Object}
  {total : (Object → Nat) → Nat}

attribute [local simp] Object.starved Object.reader Object.holder Object.looping Object.writer
  Object.granted Object.finished

theorem odd_of_beginsWrite (h : step p i c s o = some (s', o', new)) (hAlive : ¬ o'.Aborted)
    (hs : Balanced p s fun f => f o + total f) (hBegins : o.beginsWrite c) :
    s'.state % 2 = 1 := by
  have hAfter := step_balanced h hAlive hs
  have hOwners := hAfter.mutex.owners_le
  rw [hAfter.state_eq]
  cases step_acts h with
  | writeSetBit | writeSetBitAgain | upgrade =>
    simp at hOwners ⊢
    omega
  | upgradableUnlockLast | upgradableUnlock | upgradableDowngrade | tryUpgrade | tryUpgradeFail =>
    obtain ⟨_, hEq⟩ := hBegins
    cases hEq
  | _ => cases hBegins

/-- Whoever owns the mutex without having set the bit sees it clear. -/
theorem not_odd_of_owner (hs : Balanced p s fun f => f o + total f)
    (hOwner : 0 < o.holder + o.looping) : s.state % 2 ≠ 1 := by
  have hOwners := hs.mutex.owners_le
  rw [hs.state_eq]
  simp only at hOwners ⊢
  omega

theorem even_of_endsWrite (h : step p i c s o = some (s', o', new))
    (hs : Balanced p s fun f => f o + total f) (hEnds : o.endsWrite c) : s'.state % 2 = 0 := by
  have hDowngraded (hGranted : Ledger p s.mutex.state s.state (0 + total Object.starved)
      (0 + total Object.reader) (0 + total Object.holder) (0 + total Object.looping)
      (0 + total Object.writer) (1 + total Object.granted)) :
      (s.fetchAdd p 1).state % 2 = 0 := by
    obtain ⟨hState, _⟩ := hGranted.granted_state
    have := p.pow_bits
    have := p.le_half
    rw [fetchAdd_state, hState, wrappingAdd_of_lt (by omega)]
  have hCleared : s.clearWriterBit.state % 2 = 0 := by
    rw [clearWriterBit_state, writerBit, ldiff_one]
    omega
  cases o with
  | waiting kind form chain w =>
    cases hEnds
    cases w with
    | idle listener =>
      rcases Option.ite_none_left_eq_some.mp h with ⟨_, hEq⟩
      cases hEq
      exact hCleared
    | _ => cases h
  | writeGuard arc chain =>
    rcases hEnds with rfl | rfl | rfl
    · cases h
      exact hCleared
    · cases h
      exact hDowngraded hs
    · cases h
      exact hDowngraded hs
  | _ => cases hEnds

/-- What a step does to a lock with the writer bit set. -/
structure Drains (s s' : RwLock α) (o o' : Object) (new : List Object) : Prop where
  odd : s'.state % 2 = 1
  state_le : s'.state ≤ s.state
  reader_le : o'.reader ≤ o.reader
  finished_le : o'.finished ≤ o.finished
  new : ∀ n ∈ new, n.reader = 0 ∧ n.finished = 0

theorem step_drains (h : step p i c s o = some (s', o', new))
    (hs : Balanced p s fun f => f o + total f) (hOdd : s.state % 2 = 1)
    (hKeeps : ¬ o.endsWrite c) : Drains s s' o o' new := by
  have hOwner := not_odd_of_owner hs
  have hStay (hState : s'.state = s.state) (hReader : o'.reader ≤ o.reader)
      (hFinished : o'.finished ≤ o.finished)
      (hNew : ∀ n ∈ new, n.reader = 0 ∧ n.finished = 0) : Drains s s' o o' new :=
    ⟨by rwa [hState], hState.le, hReader, hFinished, hNew⟩
  have hNil : ∀ n ∈ ([] : List Object), n.reader = 0 ∧ n.finished = 0 := by simp
  cases step_acts h with
  | tryReadTake _ _ hBit | readTake _ _ _ hBit => omega
  | tryUpgradableTake | upgradableTake | upgradableUnlockLast | upgradableUnlock | upgrade
  | upgradableDowngrade | tryUpgrade | tryUpgradeFail | writeSetBit | writeSetBitAgain =>
    exact absurd hOdd (hOwner (by simp))
  | tryWriteTake _ _ hFree => omega
  | waitingCancel => exact absurd rfl hKeeps
  | writeUnlock => exact absurd (.inl rfl) hKeeps
  | writeDowngrade => exact absurd (.inr (.inl rfl)) hKeeps
  | downgradeToUpgradable => exact absurd (.inr (.inr rfl)) hKeeps
  | readUnlockLast | readUnlock =>
    have hReaders := hs.state_eq
    have hLt := hs.state_lt
    simp at hReaders
    have hSub : (s.fetchSub p 2).state = s.state - 2 := wrappingSub_of_le (by omega) (by omega)
    exact ⟨by omega, by omega, Nat.zero_le _, le_rfl, hNil⟩
  | upgradableAcquire _ _ _ _ _ r | writeAcquire _ _ _ _ _ r =>
    cases r <;> exact hStay rfl (Nat.zero_le _) (Nat.zero_le _) hNil
  | readFinish _ listener | upgradableFinish _ listener | writeFinish _ listener
  | writeUnlocked _ listener | writeWaits _ _ listener =>
    cases listener <;> exact hStay rfl (Nat.zero_le _) (Nat.zero_le _) hNil
  | writeAcquired _ _ listener =>
    cases listener <;> exact hStay rfl (Nat.zero_le _) (Nat.zero_le _) (by simp)
  | waitingReady => exact hStay rfl (Nat.zero_le _) (Nat.zero_le _) (by simp)
  | upgradableDowngraded | writeDowngradeMutex | writeDowngradeNotifyOps | writeDowngraded =>
    exact hStay rfl (Nat.le_refl 1) (Nat.zero_le _) hNil
  | _ => exact hStay rfl (Nat.zero_le _) (Nat.zero_le _) hNil

end Step

variable {value : α} {s t : State (RwLock α) Object}

theorem bitSet_of_beginsWrite (h : (machine p).Reaches (initial value) s)
    (hAlive : Alive Object.Aborted s) {i : Nat} {c : Choice α} {o : Object}
    (hGet : s.pool[i]? = some o) (hBegins : o.beginsWrite c)
    (hNext : (machine p).next s (.act i c) = some t) (hAfter : Alive Object.Aborted t) :
    BitSet t := by
  rcases Machine.next_others hNext with ⟨k, hEq, _⟩ |
    ⟨j, d, q, m, o', new, others, hEq, hGet', hAct, rfl, hMem, hPool, _⟩
  · cases hEq
  · cases hEq
    rw [hGet] at hGet'
    cases hGet'
    have hs := balanced_of_reaches h hAlive
    simp only [hPool] at hs
    exact (bitSet_iff _).mpr (odd_of_beginsWrite hAct (hAfter o' hMem) hs hBegins)

/-- Only a step that ends the write lets the reader count grow, and that one clears the bit. -/
theorem count_le_of_step (h : (machine p).Reaches (initial value) s)
    (hAlive : Alive Object.Aborted s) (hBit : BitSet s) (hStep : (machine p).Step s t)
    (hStill : BitSet t) : t.mem.state >>> 1 ≤ s.mem.state >>> 1 := by
  rw [bitSet_iff] at hBit hStill
  rcases Machine.step_others hStep with ⟨k, rfl⟩ |
    ⟨i, c, o, m, o', new, others, _, hAct, rfl, _, hPool, _⟩
  · exact le_rfl
  · have hs := balanced_of_reaches h hAlive
    simp only [hPool] at hs
    by_cases hEnds : o.endsWrite c
    · have hEven := even_of_endsWrite hAct hs hEnds
      rw [hEven] at hStill
      cases hStill
    · have hLe := (step_drains hAct hs hBit hEnds).state_le
      simp only [Nat.shiftRight_eq_div_pow]
      exact Nat.div_le_div_right hLe

/-- The readers of a state are all readers of an earlier one, and so are the finished futures. -/
def NoneAdmitted (s t : State (RwLock α) Object) : Prop :=
  ∀ (j : Nat) (o : Object), t.pool[j]? = some o → 0 < o.reader + o.finished →
    ∃ q, s.pool[j]? = some q ∧ o.reader ≤ q.reader ∧ o.finished ≤ q.finished

theorem NoneAdmitted.step {t' : State (RwLock α) Object} {i : Nat} {o o' : Object} {m : RwLock α}
    {new : List Object} (h : NoneAdmitted s t) (hGet : t.pool[i]? = some o)
    (hEq : t' = ⟨m, t.pool.set i o' ++ new⟩) (hDrains : Drains t.mem m o o' new) :
    NoneAdmitted s t' := by
  subst hEq
  intro j q hq hPos
  rcases get_of_act hq with ⟨rfl, rfl⟩ | ⟨_, hOld⟩ | ⟨_, hMem⟩
  · have hReader := hDrains.reader_le
    have hFinished := hDrains.finished_le
    obtain ⟨q₀, hq₀, hReader₀, hFinished₀⟩ := h j o hGet (by omega)
    exact ⟨q₀, hq₀, by omega, by omega⟩
  · exact h j q hOld hPos
  · have hNew := hDrains.new q hMem
    omega

theorem drains_of_run {acts : List (Action Call (Choice α))}
    (h : (machine p).Reaches (initial value) s) (hBit : BitSet s)
    (hRun : (machine p).run s acts = some t) (hKeeps : (machine p).Along KeepsWrite s acts)
    (hAlive : Alive Object.Aborted t) :
    BitSet t ∧ t.mem.state >>> 1 ≤ s.mem.state >>> 1 ∧ NoneAdmitted s t := by
  refine Machine.invariant_along (P := fun t => Alive Object.Aborted t →
    BitSet t ∧ t.mem.state >>> 1 ≤ s.mem.state >>> 1 ∧ NoneAdmitted s t) hRun hKeeps ?_ ?_ hAlive
  · exact fun _ => ⟨hBit, le_rfl, fun j o ho _ => ⟨o, ho, le_rfl, le_rfl⟩⟩
  · intro u a u' hPast hOk hNext ih hAfter
    have hBefore := Machine.alive_of_step aborted_stuck ⟨a, hNext⟩ hAfter
    obtain ⟨hBit, hLe, hNone⟩ := ih hBefore
    rcases Machine.next_others hNext with ⟨k, rfl, rfl⟩ |
      ⟨i, c, o, m, o', new, others, rfl, hGet, hAct, hEq, _, hPool, _⟩
    · refine ⟨hBit, hLe, fun j o ho hPos => ?_⟩
      rcases get_of_append ho with ho | ⟨_, rfl⟩
      · exact hNone j o ho hPos
      · cases k <;> cases hPos
    · have hs := balanced_of_reaches (h.trans hPast) hBefore
      simp only [hPool] at hs
      have hDrains := step_drains hAct hs ((bitSet_iff u).mp hBit) (hOk o hGet)
      have hState := hDrains.state_le
      refine ⟨?_, ?_, hNone.step hGet hEq hDrains⟩
      · rw [bitSet_iff, hEq]
        exact hDrains.odd
      · rw [hEq]
        simp only [Nat.shiftRight_eq_div_pow] at hLe ⊢
        omega

/-- A writer that sets the bit, or an upgrade, keeps new readers out: no step that leaves the bit
set makes the reader count grow, and until the write is released, downgraded or cancelled, every
reader and every finished read future is one that was there before. -/
theorem write_preference (h : (machine p).Reaches (initial value) s)
    (hAlive : Alive Object.Aborted s) :
    (∀ (i : Nat) (c : Choice α) (o : Object) (t : State (RwLock α) Object),
      s.pool[i]? = some o → o.beginsWrite c → (machine p).next s (.act i c) = some t →
      Alive Object.Aborted t → BitSet t) ∧
    (BitSet s →
      (∀ t, (machine p).Step s t → BitSet t → t.mem.state >>> 1 ≤ s.mem.state >>> 1) ∧
      ∀ (acts : List (Action Call (Choice α))) (t : State (RwLock α) Object),
        (machine p).run s acts = some t → (machine p).Along KeepsWrite s acts →
        Alive Object.Aborted t →
          BitSet t ∧ t.mem.state >>> 1 ≤ s.mem.state >>> 1 ∧ NoneAdmitted s t) := by
  refine ⟨fun i c o t hGet => bitSet_of_beginsWrite h hAlive hGet, fun hBit => ⟨?_, ?_⟩⟩
  · exact fun t => count_le_of_step h hAlive hBit
  · exact fun acts t => drains_of_run h hBit

def setBitBetween : List (Action Call (Choice Nat)) :=
  [.call .tryRead, .act 0 (.go false), .act 0 (.go false), .call .read, .call .write,
    .act 2 (.go false), .act 2 (.go false)]

/-- The read future has seen the word `2`. -/
def bitSetBetween : State (RwLock Nat) Object :=
  ⟨⟨⟨1, Event.new⟩, Event.new, Event.new, 3, 7⟩,
    [.readGuard false, .read ⟨false, false⟩ (.unpolled 2), .write ⟨false, false⟩ (.listen false)]⟩

def readerLeaves : State (RwLock Nat) Object :=
  ⟨⟨⟨1, Event.new⟩, Event.new, ⟨[⟨1, none⟩]⟩, 1, 7⟩,
    [.readUnlocking, .read ⟨false, false⟩ (.reload true), .write ⟨false, false⟩ (.listen false)]⟩

theorem write_preference_staleRead :
    BitSet readerLeaves ∧ readerLeaves.mem.state >>> 1 ≤ bitSetBetween.mem.state >>> 1 ∧
      NoneAdmitted bitSetBetween readerLeaves :=
  ((write_preference (p := platform64)
    (Machine.reaches_of_run _ setBitBetween (initial 7) bitSetBetween (by decide +kernel))
    (by simp [Alive, bitSetBetween, Object.Aborted])).2 (by decide)).2
    [.act 1 (.go false), .act 1 (.go false), .act 1 (.go false), .act 0 .drop] readerLeaves
    (by decide +kernel) (by decide +kernel)
    (by simp [Alive, readerLeaves, Object.Aborted])

end AsyncLock.RwLock
