import AsyncLock.RwLock.Listeners

/-! # The `try_` operations and the futures

A call or the first poll of a future, taken without interference, ends after at most seven
actions. A read or an upgradable read is ready at once where the `try_` call would succeed, and
does the same to the lock. A write is ready at once too, but it compares the value from before
its `fetch_or` with `WRITER_BIT` and so never takes its fast path: it registers a listener first,
which is still there when it is ready.
-/
namespace AsyncLock.RwLock
set_option autoImplicit false

open Interleaving

inductive Kind where
  | read
  | upgradableRead
  | write
deriving DecidableEq

namespace Kind

/-- `try_read`, `try_upgradable_read`, `try_write` and their `_arc` forms. -/
def tryCall (arc : Bool) : Kind → Call
  | read => .tryReadAs arc
  | upgradableRead => .tryUpgradableReadAs arc
  | write => .tryWriteAs arc

/-- `read`, `upgradable_read`, `write` and their `_arc` forms. -/
def future (arc : Bool) : Kind → Call
  | read => .readAs ⟨arc, false⟩
  | upgradableRead => .upgradableReadAs ⟨arc, false⟩
  | write => .writeAs ⟨arc, false⟩

end Kind

namespace Object

def isGuard : Object → Bool
  | readGuard _ | upgradableGuard _ _ | writeGuard _ _ => true
  | _ => false

/-- A `try_` call is over, or a poll has returned by an action of its own. -/
def returned : Object → Bool
  | waiting _ _ _ (.idle _) | gone => true
  | o => o.isReady || o.isGuard

end Object

variable {α : Type*} {p : Platform} {i : Nat} {elapsed : Bool}

/-- The actions of one object that nobody interferes with, until it returns. An object that
cannot go on is at the poll of its listener, or has aborted. -/
def goOn (p : Platform) (i : Nat) (elapsed : Bool) :
    Nat → RwLock α → Object → RwLock α × Object × List Object
  | 0, s, o => (s, o, [])
  | n + 1, s, o =>
    if o.returned then (s, o, [])
    else
      match step p i (.go elapsed) s o with
      | none => (s, o, [])
      | some (s', o', []) => goOn p i elapsed n s' o'
      | some (s', o', guard :: new) => (s', o', guard :: new)

/-- The call of a `try_` operation, or the creation and the first poll of a future. -/
def callAlone (p : Platform) (elapsed : Bool) (s : State (RwLock α) Object) (k : Call) :
    RwLock α × Object × List Object :=
  goOn p s.pool.length elapsed 7 s.mem (create s.mem k)

def Ended (p : Platform) (i : Nat) (r : RwLock α × Object × List Object) : Prop :=
  r.2.1.returned = true ∨ ∀ elapsed, step p i (.go elapsed) r.1 r.2.1 = none

/-- The future is ready where the `try_` call succeeds; then they leave the same lock, and the
future no listener. -/
structure Agrees (i : Nat) (tried polled : RwLock α × Object × List Object) : Prop where
  ready_iff : polled.2.1.isReady = true ↔ tried.2.1.isGuard = true
  same : polled.2.1.isReady = true → polled.1 = tried.1 ∧ Fresh polled.1 i

section Steps

variable {s t : RwLock α} {o q : Object}

theorem goOn_stop (n : Nat) (h : o.returned = true ∨ step p i (.go elapsed) s o = none) :
    goOn p i elapsed n s o = (s, o, []) := by
  cases n with
  | zero => rfl
  | succ n =>
    rw [goOn]
    split_ifs with hReturned
    · rfl
    · rw [h.resolve_left hReturned]

theorem goOn_step (n : Nat) (hReturned : o.returned = false)
    (h : step p i (.go elapsed) s o = some (t, q, [])) :
    goOn p i elapsed (n + 1) s o = goOn p i elapsed n t q := by
  rw [goOn, hReturned, h]
  rfl

theorem goOn_ready (n : Nat) {guard : Object} (hReturned : o.returned = false)
    (h : step p i (.go elapsed) s o = some (t, q, [guard])) :
    goOn p i elapsed (n + 1) s o = (t, q, [guard]) := by
  rw [goOn, hReturned, h]
  rfl

/-! ## Each call by itself -/

theorem tryRead_gone (hBit : s.state % 2 = 1) (arc : Bool) :
    goOn p i elapsed 7 s (.tryRead arc .load) = (s, .gone, []) := by
  rw [goOn_step 6 rfl rfl, goOn_step (t := s) (q := .gone) 5 rfl]
  · exact goOn_stop _ (.inl rfl)
  · simp [step, stepTryRead, alone, hBit]

theorem tryRead_aborted (hBit : s.state % 2 = 0) (hBig : s.state > p.isizeMax) (arc : Bool) :
    goOn p i elapsed 7 s (.tryRead arc .load) = (s, .aborted, []) := by
  rw [goOn_step 6 rfl rfl, goOn_step (t := s) (q := .aborted) 5 rfl]
  · exact goOn_stop _ (.inr rfl)
  · simp [step, stepTryRead, alone, hBit, hBig]

theorem tryRead_guard (hBit : s.state % 2 = 0) (hSmall : ¬ s.state > p.isizeMax) (arc : Bool) :
    goOn p i elapsed 7 s (.tryRead arc .load) =
      ({ s with state := s.state + 2 }, .readGuard arc, []) := by
  rw [goOn_step 6 rfl rfl,
    goOn_step (t := { s with state := s.state + 2 }) (q := .readGuard arc) 5 rfl]
  · exact goOn_stop _ (.inl rfl)
  · simp [step, stepTryRead, alone, hBit, hSmall, compareExchange, oneReader]

theorem read_pending (elapsed : Bool) (hBit : s.state % 2 = 1) (hFresh : i ∉ s.noWriter.owners)
    (form : Form) :
    goOn p i elapsed 7 s (.read form (.unpolled s.state)) =
      ({ s with noWriter := s.noWriter.listen i }, .read form (.loop s.state true), []) ∧
    ∀ elapsed, step p i (.go elapsed) { s with noWriter := s.noWriter.listen i }
      (.read form (.loop s.state true)) = none := by
  have hStop (elapsed : Bool) : step p i (.go elapsed) { s with noWriter := s.noWriter.listen i }
      (.read form (.loop s.state true)) = none := by
    simp [step, Read.poll, hBit, Event.markOf_listen_self hFresh]
  refine ⟨?_, hStop⟩
  rw [goOn_step 6 rfl rfl,
    goOn_step (t := { s with noWriter := s.noWriter.listen i }) (q := .read form (.reload true))
      5 rfl, goOn_step 4 rfl rfl]
  · exact goOn_stop _ (.inr (hStop elapsed))
  · simp [step, Read.poll, hBit, readOutcome]

theorem read_aborted (hBit : s.state % 2 = 0) (hBig : s.state > p.isizeMax) (form : Form) :
    goOn p i elapsed 7 s (.read form (.unpolled s.state)) = (s, .aborted, []) := by
  rw [goOn_step 6 rfl rfl, goOn_step (t := s) (q := .aborted) 5 rfl]
  · exact goOn_stop _ (.inr rfl)
  · simp [step, Read.poll, hBit, hBig, readOutcome]

theorem read_ready (hBit : s.state % 2 = 0) (hSmall : ¬ s.state > p.isizeMax) (form : Form) :
    goOn p i elapsed 7 s (.read form (.unpolled s.state)) =
      ({ s with state := s.state + 2 }, .readDone false, [.readGuard form.arc]) := by
  rw [goOn_step 6 rfl rfl]
  apply goOn_ready 5 rfl
  simp [step, Read.poll, hBit, hSmall, compareExchange, oneReader, readOutcome]

theorem tryLockMutex_held (hHeld : s.mutex.state ≠ 0) : s.tryLockMutex = none := by
  simp [tryLockMutex, Mutex.tryLock, hHeld]

theorem tryLockMutex_free (hFree : s.mutex.state = 0) :
    s.tryLockMutex = some { s with mutex := { s.mutex with state := 1 } } := by
  simp [tryLockMutex, Mutex.tryLock, hFree]

/-- A lock operation on a mutex word that is not zero comes to wait for its own new entry. -/
theorem lock_pending (wrap : Lock → Object) (out : LockOutcome → Object) (elapsed : Bool)
    (hWrap : ∀ elapsed (s : RwLock α) f, step p i (.go elapsed) s (wrap f) =
      (f.poll p i elapsed s.mutex).map fun r => ({ s with mutex := r.1 }, out r.2, []))
    (hRunning : ∀ f, out (.running f) = wrap f) (hBusy : ∀ f, (wrap f).returned = false)
    (hHeld : s.mutex.state ≠ 0) (hFresh : i ∉ s.mutex.lockOps.owners) :
    ∃ t f, goOn p i elapsed 7 s (wrap .unpolled) = (t, wrap f, []) ∧
      ∀ elapsed, step p i (.go elapsed) t (wrap f) = none := by
  have hGo {n : Nat} {s t : RwLock α} {f g : Lock}
      (h : f.poll p i elapsed s.mutex = some (t.mutex, .running g))
      (hSame : { s with mutex := t.mutex } = t) :
      goOn p i elapsed (n + 1) s (wrap f) = goOn p i elapsed n t (wrap g) := by
    apply goOn_step n (hBusy f)
    rw [hWrap, h, Option.map_some, hRunning, hSame]
  have hAsleep {s : RwLock α} {f : Lock} (h : ∀ elapsed, f.poll p i elapsed s.mutex = none)
      (elapsed : Bool) : step p i (.go elapsed) s (wrap f) = none := by
    rw [hWrap, h elapsed]
    rfl
  have hMark := Event.markOf_listen_self hFresh
  obtain ⟨listening, hListening⟩ : ∃ m, m =
    { s with mutex := { s.mutex with lockOps := s.mutex.lockOps.listen i } } := ⟨_, rfl⟩
  have hState : listening.mutex.state = s.mutex.state := by rw [hListening]
  have hBegin : goOn p i elapsed 7 s (wrap .unpolled) =
      goOn p i elapsed 5 listening (wrap .tryListening) := by
    rw [hGo (t := s) (g := .listen) (by simp [Lock.poll, Mutex.tryLock, hHeld]) rfl,
      hGo (t := listening) (g := .tryListening) (by simp [Lock.poll, hListening])
        (by rw [hListening])]
  rw [hBegin]
  by_cases hOne : s.mutex.state = 1
  · have hStop := hAsleep (s := listening) (f := .waiting) (by simp [Lock.poll, hListening, hMark])
    refine ⟨listening, .waiting, ?_, hStop⟩
    rw [hGo (t := listening) (g := .waiting) (by simp [Lock.poll, hState, hOne]) rfl]
    exact goOn_stop _ (.inr (hStop elapsed))
  -- somebody is starved, and so is this operation next
  rw [hGo (t := listening) (g := .starve true) (by simp [Lock.poll, hState, hHeld, hOne]) rfl]
  obtain ⟨starved, hStarved⟩ : ∃ m, m = { listening with mutex :=
    { listening.mutex with state := wrappingAdd p.bits listening.mutex.state 2 } } := ⟨_, rfl⟩
  by_cases hBig : s.mutex.state > p.usizeMax / 2
  · have hStop := hAsleep (s := starved) (f := .aborting true) (fun _ => rfl)
    refine ⟨starved, .aborting true, ?_, hStop⟩
    rw [hGo (t := starved) (g := .aborting true)
      (by simp [Lock.poll, hState, hStarved, hBig]) (by rw [hStarved])]
    exact goOn_stop _ (.inr (hStop elapsed))
  · have hStop := hAsleep (s := starved) (f := .fairWaiting)
      (by simp [Lock.poll, hStarved, hListening, hMark])
    refine ⟨starved, .fairWaiting, ?_, hStop⟩
    rw [hGo (t := starved) (g := .fairWaiting)
      (by simp [Lock.poll, hState, hStarved, hBig]) (by rw [hStarved])]
    exact goOn_stop _ (.inr (hStop elapsed))

theorem tryUpgradable_gone (hHeld : s.mutex.state ≠ 0) (arc : Bool) :
    goOn p i elapsed 7 s (.tryUpgradable arc .lock) = (s, .gone, []) := by
  rw [goOn_step (t := s) (q := .gone) 6 rfl]
  · exact goOn_stop _ (.inl rfl)
  · simp [step, stepTryUpgradable, alone, tryLockMutex_held hHeld]

theorem tryUpgradable_free (elapsed : Bool) (hFree : s.mutex.state = 0) (arc : Bool) :
    goOn p i elapsed 7 s (.tryUpgradable arc .lock) =
      if s.state > p.isizeMax then
        ({ s with mutex := { s.mutex with state := 1 } }, .aborted, [])
      else ({ s with mutex := { s.mutex with state := 1 }, state := wrappingAdd p.bits s.state 2 },
        .upgradableGuard arc i, []) := by
  rw [goOn_step (t := { s with mutex := { s.mutex with state := 1 } })
    (q := .tryUpgradable arc .load) 6 rfl
    (by simp [step, stepTryUpgradable, alone, tryLockMutex_free hFree])]
  split_ifs with hBig
  · rw [goOn_step (t := { s with mutex := { s.mutex with state := 1 } }) (q := .aborted) 5 rfl
      (by simp [step, stepTryUpgradable, alone, hBig])]
    exact goOn_stop _ (.inr rfl)
  · rw [goOn_step (t := { s with mutex := { s.mutex with state := 1 } })
      (q := .tryUpgradable arc (.exchange s.state)) 5 rfl
      (by simp [step, stepTryUpgradable, alone, hBig]), goOn_step (t := { s with
        mutex := { s.mutex with state := 1 }, state := wrappingAdd p.bits s.state 2 })
      (q := .upgradableGuard arc i) 4 rfl
      (by simp [step, stepTryUpgradable, alone, compareExchange, oneReader])]
    exact goOn_stop _ (.inl rfl)

theorem upgradable_free (elapsed : Bool) (hFree : s.mutex.state = 0) (arc : Bool) :
    goOn p i elapsed 7 s (.upgradableRead ⟨arc, false⟩ (.acquire .unpolled)) =
      if s.state > p.isizeMax then
        ({ s with mutex := { s.mutex with state := 1 } }, .aborted, [])
      else ({ s with mutex := { s.mutex with state := 1 }, state := wrappingAdd p.bits s.state 2 },
        .upgradableDone false, [.upgradableGuard arc i]) := by
  rw [goOn_step (t := { s with mutex := { s.mutex with state := 1 } })
    (q := .upgradableRead ⟨arc, false⟩ (.load false)) 6 rfl
    (by simp [step, stepUpgradableRead, lockStep, Lock.step, Lock.poll, Mutex.tryLock, hFree,
      upgradableOutcome])]
  split_ifs with hBig
  · rw [goOn_step (t := { s with mutex := { s.mutex with state := 1 } }) (q := .aborted) 5 rfl
      (by simp [step, stepUpgradableRead, hBig])]
    exact goOn_stop _ (.inr rfl)
  · rw [goOn_step (t := { s with mutex := { s.mutex with state := 1 } })
      (q := .upgradableRead ⟨arc, false⟩ (.exchange false s.state)) 5 rfl
      (by simp [step, stepUpgradableRead, hBig])]
    apply goOn_ready 4 rfl
    simp [step, stepUpgradableRead, compareExchange, oneReader]

theorem tryWrite_gone (hHeld : s.mutex.state ≠ 0) (arc : Bool) :
    goOn p i elapsed 7 s (.tryWrite arc .lock) = (s, .gone, []) := by
  rw [goOn_step (t := s) (q := .gone) 6 rfl]
  · exact goOn_stop _ (.inl rfl)
  · simp [step, stepTryWrite, alone, tryLockMutex_held hHeld]

/-- With readers there, `try_write` gives the mutex back. -/
theorem tryWrite_readers (elapsed : Bool) (hFree : s.mutex.state = 0) (hReaders : s.state ≠ 0)
    (arc : Bool) : ∃ t, goOn p i elapsed 7 s (.tryWrite arc .lock) = (t, .gone, []) := by
  rw [goOn_step (t := { s with mutex := { s.mutex with state := 1 } })
    (q := .tryWrite arc .exchange) 6 rfl
    (by simp [step, stepTryWrite, alone, tryLockMutex_free hFree]),
    goOn_step (t := { s with mutex := { s.mutex with state := 1 } }) (q := .unlocking) 5 rfl
    (by simp [step, stepTryWrite, alone, compareExchange, hReaders]),
    goOn_step 4 rfl rfl, goOn_step 3 rfl rfl]
  exact ⟨_, goOn_stop _ (.inl rfl)⟩

theorem tryWrite_guard (hFree : s.mutex.state = 0) (hReaders : s.state = 0) (arc : Bool) :
    goOn p i elapsed 7 s (.tryWrite arc .lock) =
      ({ s with mutex := { s.mutex with state := 1 }, state := 1 }, .writeGuard arc i, []) := by
  rw [goOn_step (t := { s with mutex := { s.mutex with state := 1 } })
    (q := .tryWrite arc .exchange) 6 rfl
    (by simp [step, stepTryWrite, alone, tryLockMutex_free hFree]), goOn_step (t := { s with
      mutex := { s.mutex with state := 1 }, state := 1 }) (q := .writeGuard arc i) 5 rfl
    (by simp [step, stepTryWrite, alone, compareExchange, hReaders, writerBit])]
  exact goOn_stop _ (.inl rfl)

/-- The lock where a write has got the mutex at once and has a listener. -/
def writeBegun (i : Nat) (s : RwLock α) : RwLock α where
  mutex := { s.mutex with state := 1 }
  noReaders := s.noReaders.listen i
  noWriter := s.noWriter
  state := s.state + 1
  value := s.value

theorem write_listens (hFree : s.mutex.state = 0) (hEven : s.state % 2 = 0) (arc : Bool) :
    goOn p i elapsed 7 s (.write ⟨arc, false⟩ (.acquiring .unpolled)) =
      goOn p i elapsed 3 (s.writeBegun i) (.waiting .write ⟨arc, false⟩ i (.check true)) := by
  have hOr : s.state ||| writerBit = s.state + 1 := by
    rw [writerBit, or_one]
    omega
  have hNotSet : s.state ≠ writerBit := by
    rw [writerBit]
    omega
  obtain ⟨bitSet, hBitSet⟩ : ∃ m : RwLock α, m = { s with
    mutex := { s.mutex with state := 1 }
    state := s.state + 1 } := ⟨_, rfl⟩
  have hBegun : { bitSet with noReaders := bitSet.noReaders.listen i } = s.writeBegun i := by
    rw [hBitSet]
    rfl
  rw [goOn_step (t := { s with mutex := { s.mutex with state := 1 } })
    (q := .write ⟨arc, false⟩ (.setBit false)) 6 rfl
    (by simp [step, stepWrite, lockStep, Lock.step, Lock.poll, Mutex.tryLock, hFree,
      writeOutcome]), goOn_step (t := bitSet) (q := .write ⟨arc, false⟩ (.listen false)) 5 rfl
    (by simp [step, stepWrite, hNotSet, setWriterBit, hOr, hBitSet]), goOn_step 4 rfl rfl,
    hBegun, goOn_step 3 rfl rfl]
  rfl

theorem write_ready (hFree : s.mutex.state = 0) (hReaders : s.state = 0) (arc : Bool) :
    goOn p i elapsed 7 s (.write ⟨arc, false⟩ (.acquiring .unpolled)) =
      (s.writeBegun i, .writeDone true, [.writeGuard arc i]) := by
  rw [write_listens hFree (by rw [hReaders])]
  apply goOn_ready 2 rfl
  simp [step, stepWaiting, Waiting.poll, waitingOutcome, writerBit, writeBegun, hReaders]

theorem write_pending (hFree : s.mutex.state = 0) (hEven : s.state % 2 = 0)
    (hReaders : s.state ≠ 0) (hFresh : i ∉ s.noReaders.owners) (arc : Bool) :
    goOn p i elapsed 7 s (.write ⟨arc, false⟩ (.acquiring .unpolled)) =
      (s.writeBegun i, .waiting .write ⟨arc, false⟩ i (.idle true), []) := by
  rw [write_listens hFree hEven,
    goOn_step (t := s.writeBegun i) (q := .waiting .write ⟨arc, false⟩ i .wait) 2 rfl
      (by simp [step, stepWaiting, Waiting.poll, waitingOutcome, writerBit, writeBegun, hReaders]),
    goOn_step (t := s.writeBegun i) (q := .waiting .write ⟨arc, false⟩ i (.idle true)) 1 rfl
      (by simp [step, stepWaiting, Waiting.poll, waitingOutcome, writeBegun,
        Event.markOf_listen_self hFresh])]
  exact goOn_stop _ (.inl rfl)

end Steps

/-! ## Agreement -/

variable {value : α} {s : State (RwLock α) Object}

/-- The actions of a call alone are a run of the machine. -/
theorem run_callAlone (s : State (RwLock α) Object) (k : Call) :
    ∃ n, (machine p).run s
      (.call k :: List.replicate n (.act s.pool.length (.go elapsed))) =
        some ⟨(callAlone p elapsed s k).1,
          s.pool ++ (callAlone p elapsed s k).2.1 :: (callAlone p elapsed s k).2.2⟩ := by
  suffices hGeneral : ∀ (fuel : Nat) (m : RwLock α) (o : Object),
      ∃ n, (machine p).run ⟨m, s.pool ++ [o]⟩
        (List.replicate n (.act s.pool.length (.go elapsed))) =
          some ⟨(goOn p s.pool.length elapsed fuel m o).1,
            s.pool ++ (goOn p s.pool.length elapsed fuel m o).2.1 ::
              (goOn p s.pool.length elapsed fuel m o).2.2⟩ from hGeneral 7 _ _
  intro fuel
  induction fuel with
  | zero => exact fun m o => ⟨0, rfl⟩
  | succ fuel ih =>
    intro m o
    rw [goOn]
    split_ifs with hReturned
    · exact ⟨0, rfl⟩
    cases hStep : step p s.pool.length (.go elapsed) m o with
    | none => exact ⟨0, rfl⟩
    | some r =>
      obtain ⟨m', o', new⟩ := r
      have hNext : (machine p).next ⟨m, s.pool ++ [o]⟩ (.act s.pool.length (.go elapsed)) =
          some ⟨m', s.pool ++ o' :: new⟩ := by
        rw [Machine.next_act_of_step (by simp) hStep]
        simp
      cases new with
      | nil =>
        obtain ⟨n, hRun⟩ := ih m' o'
        refine ⟨n + 1, ?_⟩
        rw [List.replicate_succ, Machine.run, hNext]
        exact hRun
      | cons guard new =>
        refine ⟨1, ?_⟩
        rw [List.replicate_one, Machine.run, hNext]
        rfl

theorem even_of_free (h : (machine p).Reaches (initial value) s)
    (hAlive : Alive Object.Aborted s) (hFree : s.mem.mutex.state = 0) :
    s.mem.state % 2 = 0 := by
  have hLedger := ledger_of_reaches h hAlive
  have hMutex := hLedger.mutex.state_eq
  rw [hLedger.state_eq]
  omega

section

variable {tried polled : RwLock α × Object × List Object}

theorem agrees_of_neither (hPolled : polled.2.1.isReady = false)
    (hTried : tried.2.1.isGuard = false) : Agrees i tried polled := by
  constructor
  · rw [hPolled, hTried]
  · rw [hPolled]
    exact nofun

theorem agrees_of_both (hPolled : polled.2.1.isReady = true) (hTried : tried.2.1.isGuard = true)
    (hSame : polled.1 = tried.1) (hFresh : Fresh polled.1 i) : Agrees i tried polled := by
  constructor
  · rw [hPolled, hTried]
  · exact fun _ => ⟨hSame, hFresh⟩

end

variable (p elapsed) in
/-- Both calls end, and agree exactly under a condition. -/
structure Compares (s : State (RwLock α) Object) (kind : Kind) (arc : Bool) (when_ : Prop) :
    Prop where
  tried_ended : Ended p s.pool.length (callAlone p elapsed s (kind.tryCall arc))
  polled_ended : Ended p s.pool.length (callAlone p elapsed s (kind.future arc))
  agrees_iff : Agrees s.pool.length (callAlone p elapsed s (kind.tryCall arc))
    (callAlone p elapsed s (kind.future arc)) ↔ when_

theorem compares_of_eq {kind : Kind} {arc : Bool} {when_ : Prop}
    {tried polled : RwLock α × Object × List Object}
    (hTried : callAlone p elapsed s (kind.tryCall arc) = tried)
    (hPolled : callAlone p elapsed s (kind.future arc) = polled)
    (hEnds : Ended p s.pool.length tried ∧ Ended p s.pool.length polled)
    (hAgrees : Agrees s.pool.length tried polled ↔ when_) :
    Compares p elapsed s kind arc when_ := by
  subst hTried hPolled
  exact ⟨hEnds.1, hEnds.2, hAgrees⟩

theorem read_compares (hFresh : Fresh s.mem s.pool.length) (arc : Bool) :
    Compares p elapsed s .read arc True := by
  rcases Nat.mod_two_eq_zero_or_one s.mem.state with hBit | hBit
  · by_cases hBig : s.mem.state > p.isizeMax
    · refine compares_of_eq (tryRead_aborted hBit hBig arc) (read_aborted hBit hBig _) ?_ ?_
      · exact ⟨.inr fun _ => rfl, .inr fun _ => rfl⟩
      · exact iff_true_intro (agrees_of_neither rfl rfl)
    · refine compares_of_eq (tryRead_guard hBit hBig arc) (read_ready hBit hBig _) ?_ ?_
      · exact ⟨.inl rfl, .inl rfl⟩
      · exact iff_true_intro (agrees_of_both rfl rfl rfl
          ⟨hFresh.noReaders, hFresh.noWriter, hFresh.lockOps⟩)
  · obtain ⟨hPolled, hStop⟩ := read_pending (p := p) elapsed hBit hFresh.noWriter ⟨arc, false⟩
    refine compares_of_eq (tryRead_gone hBit arc) hPolled ?_ ?_
    · exact ⟨.inl rfl, .inr hStop⟩
    · exact iff_true_intro (agrees_of_neither rfl rfl)

theorem upgradableRead_compares (hFresh : Fresh s.mem s.pool.length) (arc : Bool) :
    Compares p elapsed s .upgradableRead arc True := by
  by_cases hFree : s.mem.mutex.state = 0
  · have hTried := tryUpgradable_free (p := p) (i := s.pool.length) elapsed hFree arc
    have hPolled := upgradable_free (p := p) (i := s.pool.length) elapsed hFree arc
    by_cases hBig : s.mem.state > p.isizeMax
    · rw [if_pos hBig] at hTried hPolled
      refine compares_of_eq hTried hPolled ?_ ?_
      · exact ⟨.inr fun _ => rfl, .inr fun _ => rfl⟩
      · exact iff_true_intro (agrees_of_neither rfl rfl)
    · rw [if_neg hBig] at hTried hPolled
      refine compares_of_eq hTried hPolled ?_ ?_
      · exact ⟨.inl rfl, .inl rfl⟩
      · exact iff_true_intro (agrees_of_both rfl rfl rfl
          ⟨hFresh.noReaders, hFresh.noWriter, hFresh.lockOps⟩)
  · obtain ⟨s', f, hPolled, hStop⟩ := lock_pending (p := p)
      (fun f => .upgradableRead ⟨arc, false⟩ (.acquire f)) (upgradableOutcome ⟨arc, false⟩) elapsed
      (fun _ _ f => by simp [step, stepUpgradableRead, lockStep, Lock.step, Function.comp_def])
      (fun _ => rfl) (fun _ => rfl) hFree hFresh.lockOps
    refine compares_of_eq (tryUpgradable_gone hFree arc) hPolled ?_ ?_
    · exact ⟨.inl rfl, .inr hStop⟩
    · exact iff_true_intro (agrees_of_neither rfl rfl)

theorem write_compares (hFresh : Fresh s.mem s.pool.length)
    (hEven : s.mem.mutex.state = 0 → s.mem.state % 2 = 0) (arc : Bool) :
    Compares p elapsed s .write arc (s.mem.mutex.state ≠ 0 ∨ s.mem.state ≠ 0) := by
  by_cases hFree : s.mem.mutex.state = 0
  · by_cases hReaders : s.mem.state = 0
    · refine compares_of_eq (tryWrite_guard hFree hReaders arc)
        (write_ready hFree hReaders arc) ?_ ?_
      · exact ⟨.inl rfl, .inl rfl⟩
      · constructor
        · intro hAgrees
          have hListener := (hAgrees.same rfl).2.noReaders
          simp [writeBegun] at hListener
        · rintro (hNe | hNe)
          · exact absurd hFree hNe
          · exact absurd hReaders hNe
    · obtain ⟨s', hTried⟩ := tryWrite_readers (p := p) (i := s.pool.length) elapsed hFree
        hReaders arc
      refine compares_of_eq hTried
        (write_pending hFree (hEven hFree) hReaders hFresh.noReaders arc) ?_ ?_
      · exact ⟨.inl rfl, .inl rfl⟩
      · exact ⟨fun _ => .inr hReaders, fun _ => agrees_of_neither rfl rfl⟩
  · obtain ⟨s', f, hPolled, hStop⟩ := lock_pending (p := p)
      (fun f => .write ⟨arc, false⟩ (.acquiring f)) (writeOutcome ⟨arc, false⟩) elapsed
      (fun _ _ f => by simp [step, stepWrite, lockStep, Lock.step, Function.comp_def])
      (fun _ => rfl) (fun _ => rfl) hFree hFresh.lockOps
    refine compares_of_eq (tryWrite_gone hFree arc) hPolled ?_ ?_
    · exact ⟨.inl rfl, .inr hStop⟩
    · exact ⟨fun _ => .inl hFree, fun _ => agrees_of_neither rfl rfl⟩

/-- In every reachable state the `try_` operation and the first poll of the future come to an
end, and they agree unless the operation is a write on a lock that nobody uses or waits for. -/
theorem try_agrees_iff (h : (machine p).Reaches (initial value) s)
    (hAlive : Alive Object.Aborted s) (kind : Kind) (arc elapsed : Bool) :
    Ended p s.pool.length (callAlone p elapsed s (kind.tryCall arc)) ∧
      Ended p s.pool.length (callAlone p elapsed s (kind.future arc)) ∧
      (Agrees s.pool.length (callAlone p elapsed s (kind.tryCall arc))
          (callAlone p elapsed s (kind.future arc)) ↔
        (kind = .write → s.mem.mutex.state ≠ 0 ∨ s.mem.state ≠ 0)) := by
  have hFresh := fresh_of_reaches h hAlive
  have hCompares : Compares p elapsed s kind arc
      (kind = .write → s.mem.mutex.state ≠ 0 ∨ s.mem.state ≠ 0) := by
    cases kind with
    | read => simpa using read_compares hFresh arc
    | upgradableRead => simpa using upgradableRead_compares hFresh arc
    | write => simpa using write_compares hFresh (even_of_free h hAlive) arc
  exact ⟨hCompares.tried_ended, hCompares.polled_ended, hCompares.agrees_iff⟩

def readHeld : State (RwLock Nat) Object :=
  ⟨⟨Mutex.new, Event.new, Event.new, 2, 7⟩, [.readGuard false]⟩

theorem try_agrees_iff_readHeld :
    Agrees 1 (callAlone platform64 false readHeld (Kind.write.tryCall false))
      (callAlone platform64 false readHeld (Kind.write.future false)) :=
  (try_agrees_iff (p := platform64) (Machine.reaches_of_run _ [.call .tryRead,
      .act 0 (.go false), .act 0 (.go false)] (initial 7) readHeld (by decide +kernel))
    (by simp [Alive, readHeld, Object.Aborted]) .write false false).2.2.mpr
    fun _ => .inr (by decide)

/-- On a new lock, a `write` that is ready at its first poll is still queued. -/
theorem write_disagrees :
    (callAlone platform64 false (initial 7) .write).2.1.isReady = true ∧
      (callAlone platform64 false (initial 7) .tryWrite).2.1.isGuard = true ∧
      0 ∈ (callAlone platform64 false (initial 7) .write).1.noReaders.owners ∧
      ¬ Agrees 0 (callAlone platform64 false (initial 7) .tryWrite)
        (callAlone platform64 false (initial 7) .write) := by
  have hListener : 0 ∈ (callAlone platform64 false (initial 7) .write).1.noReaders.owners := by
    decide +kernel
  have hReady : (callAlone platform64 false (initial 7) .write).2.1.isReady = true := by
    decide +kernel
  refine ⟨hReady, by decide +kernel, hListener, fun hAgrees => ?_⟩
  exact (hAgrees.same hReady).2.noReaders hListener

end AsyncLock.RwLock
