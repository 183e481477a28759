import AsyncLock.RwLock.WriterWakeup

/-! # When readers lose no wake-up

Whoever clears the writer bit goes on to call `no_writer.notify(1)`, and a woken reader passes
the notification on, except for `downgrade_to_upgradable`: it admits readers and wakes none. In
a run where it finds no reader asleep without a notification, no reader is left asleep.
-/
namespace AsyncLock.RwLock
set_option autoImplicit false

open Interleaving

namespace Object

def listensWriter : Object → Bool
  | read _ f => f.listens
  | readDone listener => listener
  | _ => false

def readerAsleep : Object → Nat
  | read _ f => f.asleep
  | _ => 0

def notifiesWriter : Object → Nat
  | read _ .passOn | writeUnlocking _ .notifyNoWriter | writeDowngrading _ _ => 1
  | _ => 0

def isWriteGuard : Object → Bool
  | writeGuard _ _ => true
  | _ => false

def ReaderParked : Object → Prop
  | read _ (.loop state listener) => listener = true ∧ state % 2 = 1
  | _ => False

theorem readerAsleep_listens (o : Object) (h : 0 < o.readerAsleep) : o.listensWriter = true := by
  cases o with
  | read form f =>
    cases f with
    | loop state listener =>
      cases listener
      · cases h
      · rfl
    | _ => cases h
  | _ => cases h

theorem ReaderParked.readerAsleep {o : Object} (h : o.ReaderParked) : 0 < o.readerAsleep := by
  cases o with
  | read form f =>
    cases f with
    | loop state listener =>
      obtain ⟨rfl, hBit⟩ := h
      simp [Object.readerAsleep, Read.asleep, hBit]
    | _ => cases h
  | _ => cases h

theorem Resting.readerParked {o : Object} (h : o.Resting) (hListens : o.listensWriter = true) :
    o.ReaderParked := by
  cases o with
  | read form f =>
    cases f with
    | loop state listener => exact h
    | reload listener => cases h
    | _ => cases hListens
  | readDone => cases h
  | _ => cases hListens

theorem Resting.notifiesWriter {o : Object} (h : o.Resting) : o.notifiesWriter = 0 := by
  cases o with
  | read form f => cases f <;> first | rfl | cases h
  | writeUnlocking | writeDowngrading => cases h
  | _ => rfl

end Object

variable {α : Type*} {p : Platform} {i : Nat} {c : Choice α} {s s' : RwLock α} {o o' : Object}
  {new : List Object}

attribute [local simp] Object.reader Object.holder Object.looping Object.writer Object.granted
  Object.readerAsleep Object.notifiesWriter Read.asleep

theorem step_accessWriter (h : step p i c s o = some (s', o', new)) (hAlive : ¬ o'.Aborted) :
    Event.Access i s.noWriter o.listensWriter s'.noWriter o'.listensWriter ∧
      ∀ n ∈ new, n.listensWriter = false := by
  cases step_acts h with
  | readAbort => exact absurd trivial hAlive
  | readListen => exact ⟨.listen _, by simp⟩
  | readConsume _ _ _ _ hMark => exact ⟨.consume _ hMark, by simp⟩
  | readPassOn | writeUnlockNotify | writeDowngraded => exact ⟨.notify _ 1 _, by simp⟩
  | readCancelListener => exact ⟨.discard _, by simp⟩
  | readFinish _ listener =>
    refine ⟨?_, by simp⟩
    cases listener
    · exact .leave _ _
    · exact .discard _
  | writeFinish _ listener | writeUnlocked _ listener | upgradableFinish _ listener
  | writeWaits _ _ listener => cases listener <;> exact ⟨.leave _ _, by simp⟩
  | writeAcquired _ _ listener =>
    cases listener <;> exact ⟨.leave _ _, by simp [Object.listensWriter]⟩
  | readTake | upgradableTake | waitingReady =>
    exact ⟨.leave _ _, by simp [Object.listensWriter]⟩
  | upgradableAcquire _ _ _ _ _ r | writeAcquire _ _ _ _ _ r =>
    cases r <;> exact ⟨.leave _ _, by simp⟩
  | _ => exact ⟨.leave _ _, by simp⟩

theorem ownedWriter_of_reaches {value : α} {s : State (RwLock α) Object}
    (h : (machine p).Reaches (initial value) s) (hAlive : Alive Object.Aborted s) :
    Owned Object.listensWriter s.mem.noWriter s.pool := by
  apply Machine.invariant_alive
    (P := fun s => Owned Object.listensWriter s.mem.noWriter s.pool) aborted_stuck h hAlive
    (Owned.nil _)
  intro s s' _ _ hStep hAfter hs
  exact Machine.owned_of_step noWriter hStep hs (fun _ k => by cases k <;> rfl)
    fun _ _ _ _ o' _ hAct hMem => step_accessWriter hAct (hAfter o' hMem)

/-- Where the lock admits readers and one sleeps, a notification is there or on its way. -/
def ReaderChain (s : RwLock α) (asleep notifiers : Nat) : Prop :=
  s.state % 2 = 0 → 0 < asleep → s.noWriter.Notified ∨ 0 < notifiers

def Unnotified (s : State (RwLock α) Object) : Prop :=
  0 < census Object.readerAsleep s.pool ∧ ¬ s.mem.noWriter.Notified ∧
    census Object.notifiesWriter s.pool = 0

instance (s : State (RwLock α) Object) : Decidable (Unnotified s) :=
  inferInstanceAs (Decidable (_ ∧ _ ∧ _))

/-- The action is not a `downgrade_to_upgradable` over a reader asleep. -/
def Sparing (s : State (RwLock α) Object) : Action Call (Choice α) → Prop
  | .act i .downgradeToUpgradable => s.pool[i]?.any Object.isWriteGuard → ¬ Unnotified s
  | _ => True

instance (s : State (RwLock α) Object) (a : Action Call (Choice α)) : Decidable (Sparing s a) := by
  unfold Sparing
  split <;> infer_instance

theorem step_readerChain (h : step p i c s o = some (s', o', new))
    {total : (Object → Nat) → Nat} (hAfter : Balanced p s' fun f => f o' + census f new + total f)
    (hs : s.ReaderChain (o.readerAsleep + total Object.readerAsleep)
      (o.notifiesWriter + total Object.notifiesWriter))
    (hLeft : 0 < o'.readerAsleep + total Object.readerAsleep → s'.noWriter.owners ≠ [])
    (hSparing : o.isWriteGuard → c = .downgradeToUpgradable → 0 < total Object.readerAsleep →
      s.noWriter.Notified ∨ 0 < total Object.notifiesWriter) :
    s'.ReaderChain (o'.readerAsleep + total Object.readerAsleep)
      (o'.notifiesWriter + total Object.notifiesWriter) := by
  intro hBit hPos
  have hEq := hAfter.state_eq
  cases step_acts h with
  | readConsume | waitingCancel | writeUnlock | writeDowngrade =>
    exact .inr (Nat.add_pos_left Nat.one_pos _)
  | readPassOn | writeUnlockNotify | writeDowngraded =>
    exact .inl (Event.notified_notify _ (by decide) (by simpa using hLeft hPos))
  | downgradeToUpgradable => simpa using hSparing rfl rfl (by simpa using hPos)
  | tryUpgrade | tryWriteTake => exact absurd (show 1 % 2 = 0 from hBit) (by decide)
  | writeSetBit | writeSetBitAgain | upgrade =>
    have hOwners := hAfter.mutex.owners_le
    rw [hEq] at hBit
    simp at hBit hOwners
    omega
  | tryReadTake _ _ hFree => exact hs hFree hPos
  | readTake _ _ _ hFree => exact hs hFree (Nat.lt_of_lt_of_le hPos (by simp))
  | readUnlockLast | readUnlock | upgradableUnlockLast | upgradableUnlock =>
    rw [fetchSub_state, wrappingSub_two_mod_two p.bits_pos] at hBit
    exact hs hBit hPos
  | tryUpgradableTake | upgradableTake =>
    rw [fetchAdd_state, wrappingAdd_two_mod_two p.bits_pos] at hBit
    exact hs hBit hPos
  | readRetry _ _ _ listener | readReload _ _ listener =>
    -- the state just read admits readers
    refine hs hBit (Nat.lt_of_lt_of_le hPos ?_)
    cases listener <;> simp [hBit]
  | readListen => exact (hs hBit hPos).imp_left fun hMark => hMark.listen _
  | readCancelListener =>
    refine (hs hBit (Nat.lt_of_lt_of_le hPos (by simp))).imp_left fun hMark => ?_
    exact hMark.discard (hLeft hPos)
  | readFinish _ listener =>
    cases listener
    · exact hs hBit hPos
    · exact (hs hBit hPos).imp_left fun hMark => hMark.discard (hLeft hPos)
  | readAbort => exact hs hBit (Nat.lt_of_lt_of_le hPos (by simp))
  | writeFinish _ listener | writeUnlocked _ listener | upgradableFinish _ listener
  | writeWaits _ _ listener | writeAcquired _ _ listener =>
    cases listener <;> exact hs hBit hPos
  | upgradableAcquire _ _ _ _ _ r | writeAcquire _ _ _ _ _ r =>
    cases r <;> exact hs hBit hPos
  | _ => exact hs hBit hPos

theorem readerChain_of_run {value : α} {acts : List (Action Call (Choice α))}
    {s : State (RwLock α) Object} (h : (machine p).run (initial value) acts = some s)
    (hSparing : (machine p).Along Sparing (initial value) acts)
    (hAlive : Alive Object.Aborted s) :
    s.mem.ReaderChain (census Object.readerAsleep s.pool)
      (census Object.notifiesWriter s.pool) := by
  refine Machine.invariant_along (P := fun s => Alive Object.Aborted s → s.mem.ReaderChain
    (census Object.readerAsleep s.pool) (census Object.notifiesWriter s.pool)) h hSparing
    (fun _ _ hPos => absurd hPos (by simp [initial])) ?_ hAlive
  intro s a s' hPast hOk hNext hs hAfter
  have hBefore := Machine.alive_of_step aborted_stuck ⟨a, hNext⟩ hAfter
  have hReach := hPast.tail ⟨a, hNext⟩
  have hOwned := ownedWriter_of_reaches hReach hAfter
  have hLedger := balanced_of_reaches hReach hAfter
  have hChain := hs hBefore
  rcases Machine.next_others hNext with ⟨k, rfl, rfl⟩ |
    ⟨i, c, o, m', o', new, others, rfl, hGet, hAct, rfl, _, hPool, hPool'⟩
  · cases k <;> simpa [machine, create] using hChain
  · have hNew : census Object.readerAsleep new = 0 ∧ census Object.notifiesWriter new = 0 := by
      cases step_acts hAct <;> exact ⟨rfl, rfl⟩
    have hLeft := hOwned.owners_ne_nil_of_census Object.readerAsleep_listens
    rw [hPool', hNew.1, Nat.add_zero] at hLeft ⊢
    rw [hPool', hNew.2, Nat.add_zero]
    simp only [hPool, hPool'] at hChain hLedger
    apply step_readerChain hAct hLedger hChain hLeft
    rintro hGuard rfl hAsleep
    by_contra hNone
    rw [not_or] at hNone
    refine hOk (by simpa [hGet] using hGuard) ⟨?_, hNone.1, ?_⟩
    · rw [hPool]
      exact Nat.lt_of_lt_of_le hAsleep (Nat.le_add_left _ _)
    · have hSelf : o.notifiesWriter = 0 := by
        cases o <;> first | rfl | cases hGuard
      rw [hPool, hSelf]
      omega

theorem not_readerChain_of_unnotified {value : α} {s s' : State (RwLock α) Object} {i : Nat}
    {arc : Bool} {chain : Nat} (hPast : (machine p).Reaches (initial value) s)
    (hAlive : Alive Object.Aborted s) (hGuard : s.pool[i]? = some (.writeGuard arc chain))
    (hUnnotified : Unnotified s)
    (h : (machine p).next s (.act i .downgradeToUpgradable) = some s') :
    ¬ s'.mem.ReaderChain (census Object.readerAsleep s'.pool)
      (census Object.notifiesWriter s'.pool) := by
  obtain ⟨hAsleep, hUnmarked, hNotifiers⟩ := hUnnotified
  obtain ⟨hState, _⟩ := writeGuard_excludes hPast hAlive hGuard
  obtain ⟨mem, o', new, hAct, rfl⟩ := Machine.next_act_at hGuard h
  cases hAct
  obtain ⟨others, hPool, hSet⟩ := exists_others hGuard
  simp only [List.append_nil, hPool, hSet, Object.readerAsleep, Object.notifiesWriter]
    at hAsleep hNotifiers ⊢
  intro hChain
  have hEven : (s.mem.fetchAdd p 1).state % 2 = 0 := by
    have := p.pow_bits
    have := p.le_half
    rw [fetchAdd_state, hState, wrappingAdd_of_lt (by omega)]
  rcases hChain hEven hAsleep with hMark | hNotify
  · exact hUnmarked hMark
  · omega

/-- Along a run in which no `downgrade_to_upgradable` finds a reader asleep that nobody has
notified, a lock at rest that admits readers has notified one of those who are parked. -/
theorem parked_reader_notified {value : α} {acts : List (Action Call (Choice α))}
    {s : State (RwLock α) Object} (h : (machine p).run (initial value) acts = some s)
    (hSparing : (machine p).Along Sparing (initial value) acts)
    (hResting : ∀ o ∈ s.pool, o.Resting) (hBit : s.mem.state &&& writerBit = 0)
    (hParked : ∃ o ∈ s.pool, o.ReaderParked) :
    ∃ j o, s.pool[j]? = some o ∧ o.ReaderParked ∧ (s.mem.noWriter.markOf j).isSome := by
  have hAlive : Alive Object.Aborted s := fun o ho => (hResting o ho).alive
  have hAsleep : 0 < census Object.readerAsleep s.pool :=
    (census_pos_iff _ _).mpr (hParked.imp fun o ho => ⟨ho.1, ho.2.readerAsleep⟩)
  rw [and_writerBit] at hBit
  exact (ownedWriter_of_reaches (Machine.reaches_of_run _ acts _ s h) hAlive).exists_parked
    (readerChain_of_run h hSparing hAlive hBit hAsleep) (fun o ho => (hResting o ho).readerParked)
    fun o ho => (hResting o ho).notifiesWriter

def dropWhileParked : List (Action Call (Choice Nat)) :=
  [.call .tryWrite, .act 0 (.go false), .act 0 (.go false), .call .read, .act 1 (.go false),
    .act 1 (.go false), .act 1 (.go false), .act 0 .drop, .act 0 (.go false), .act 0 (.go false),
    .act 0 (.go false), .act 0 (.go false)]

def readMarked : State (RwLock Nat) Object :=
  ⟨⟨Mutex.new, Event.new, ⟨[⟨1, some .single⟩]⟩, 0, 7⟩,
    [.gone, .read ⟨false, false⟩ (.loop 1 true)]⟩

theorem parked_reader_notified_after_drop :
    ∃ j o, readMarked.pool[j]? = some o ∧ o.ReaderParked ∧
      (readMarked.mem.noWriter.markOf j).isSome :=
  parked_reader_notified (show (machine platform64).run (initial 7) dropWhileParked =
      some readMarked by decide +kernel) (by decide +kernel)
    (by simp [readMarked, Object.Resting]) (by decide)
    ⟨.read ⟨false, false⟩ (.loop 1 true), by decide, rfl, rfl⟩

def downgradeWhileParked : List (Action Call (Choice Nat)) :=
  [.call .tryWrite, .act 0 (.go false), .act 0 (.go false), .call .read, .act 1 (.go false),
    .act 1 (.go false), .act 1 (.go false), .act 0 .downgradeToUpgradable]

def readUnmarked : State (RwLock Nat) Object :=
  ⟨⟨⟨1, Event.new⟩, Event.new, ⟨[⟨1, none⟩]⟩, 2, 7⟩,
    [.upgradableGuard false 0, .read ⟨false, false⟩ (.loop 1 true)]⟩

/-- The reader sleeps on a lock that would admit it. -/
theorem parked_reader_unnotified :
    (machine platform64).Reaches (initial 7) readUnmarked ∧
      (∀ o ∈ readUnmarked.pool, o.Resting) ∧ readUnmarked.mem.state &&& writerBit = 0 ∧
      (∃ o ∈ readUnmarked.pool, o.ReaderParked) ∧
      ¬ ∃ j o, readUnmarked.pool[j]? = some o ∧ o.ReaderParked ∧
        (readUnmarked.mem.noWriter.markOf j).isSome := by
  refine ⟨Machine.reaches_of_run _ downgradeWhileParked _ _ (by decide +kernel), ?_, by decide,
    ?_, ?_⟩
  · simp [readUnmarked, Object.Resting]
  · exact ⟨.read ⟨false, false⟩ (.loop 1 true), by decide, rfl, rfl⟩
  · rintro ⟨j, o, _, _, hMark⟩
    obtain ⟨e, he, _, hMark⟩ := (Event.markOf_isSome_iff _ j).mp hMark
    simp only [readUnmarked, List.mem_singleton] at he
    subst he
    cases hMark

end AsyncLock.RwLock
