import AsyncLock.Mutex.Turns
import AsyncLock.RwLock.InnerMutex
import AsyncLock.RwLock.TryAgreement

/-! # Every operation of the reader-writer lock completes

Once nobody calls the lock any more and nobody converts a guard or writes, its operations come to
an end, as long as a reader that has been notified is not polled while the writer bit is set: such
a poll only passes the notification on to the next reader, and they would go on for ever. Where
they end, everybody has had the lock and has given it back, but for readers from whom a
`downgrade_to_upgradable` has kept their notification.
-/
namespace AsyncLock
set_option autoImplicit false

open Interleaving

namespace Read

/-- What a read future may still do until the state changes or it is notified. Where the bit is
clear it ends with the increment; where the bit is set, with a look at its listener. -/
def effort (state : Nat) : Read → Nat
  | unpolled _ => 4
  | loop seen true =>
    if seen % 2 = 1 then (if state % 2 = 1 then 0 else 3) else (if seen = state then 0 else 1)
  | loop seen false =>
    if seen % 2 = 1 then 2 else if state % 2 = 1 then 3 else if seen = state then 0 else 1
  | reload true => 1
  | reload false => if state % 2 = 1 then 3 else 1
  | passOn => if state % 2 = 1 then 16 else 14

end Read

namespace Waiting

/-- What it may still do until the state changes or it is notified; it is polled only if it has
been. -/
def effort (marked : Bool) : Waiting → Nat
  | idle false => 5
  | check false => 4
  | idle true => if marked then 3 else 0
  | listen => 3
  | check true => 2
  | wait => 1

end Waiting

namespace RwLock

open Mutex

namespace Object

/-- A call that may still begin to lock the inner mutex. -/
def starts : Object → Nat
  | tryUpgradable _ .lock | tryWrite _ .lock => 1
  | _ => 0

/-- How often the object may still change the state word, notify or come to an end, before it uses
the inner mutex again. -/
def turns : Object → Nat
  | write _ (.setBit _) => 7
  | write _ (.listen _) => 6
  | write _ (.replace _ _) => 5
  | read _ _ | waiting _ _ _ _ | upgradableRead _ (.load _) | upgradableRead _ (.exchange _ _) => 4
  | tryRead _ _ | tryUpgradable _ .load | tryUpgradable _ (.exchange _) | tryWrite _ .exchange => 3
  | writeDowngrading _ .notifyNoWriter => 3
  | readGuard _ | upgradableGuard _ _ | writeGuard _ _ => 2
  | tryUpgradable _ .lock | tryWrite _ .lock | readDone _ | upgradableDone _ | writeDone _ => 1
  | readUnlocking | upgradableUnlocking => 1
  | writeUnlocking _ .notifyNoWriter | writeUnlocking _ .dropListener => 1
  | _ => 0

/-- What it may still do before that. -/
def effort (state : Nat) (marked : Bool) : Object → Nat
  | tryRead _ at_ => if at_ = .loop state then 0 else 1
  | read _ f => f.effort state
  | tryUpgradable _ at_ => if at_ = .exchange state then 0 else 1
  | upgradableRead _ (.load _) => 1
  | upgradableRead _ (.exchange _ seen) => if seen = state then 0 else 1
  | waiting _ _ _ w => w.effort marked
  | _ => 0

end Object

variable {α : Type*}

def effortAt (s : RwLock α) (i : Nat) (o : Object) : Nat :=
  o.effort s.state (s.noReaders.markOf i).isSome

def marks (s : RwLock α) : Nat := s.noWriter.marks + s.noReaders.marks

/-- No guard is converted or written through. A writer that waits is polled only if it has been
notified, and a reader that has been notified not while the writer bit is set. -/
def Rouses (s : RwLock α) (i : Nat) : Object → Choice α → Prop
  | .read _ (.loop seen true), .go _ => seen % 2 = 1 → s.state % 2 = 0
  | .waiting _ _ _ (.idle true), .go _ => (s.noReaders.markOf i).isSome
  | _, .go _ | _, .drop | _, .downgrade => True
  | _, _ => False

def roused (s : State (RwLock α) Object) (i : Nat) (c : Choice α) : Prop :=
  ∀ o ∈ s.pool[i]?, s.mem.Rouses i o c

variable {p : Platform} {i : Nat} {c : Choice α} {s s' : RwLock α} {o o' : Object}
  {new : List Object}

/-! ## Every run ends -/

/-- The action takes one of the turns, or leaves less to be done by this object alone. -/
def Eases (i : Nat) (s s' : RwLock α) (o o' : Object) (new : List Object) : Prop :=
  o'.turns + census Object.turns new < o.turns ∨
    (new = [] ∧ o'.turns = o.turns ∧ (∀ j q, j ≠ i → s'.effortAt j q = s.effortAt j q) ∧
      12 * s'.marks + s'.effortAt i o' < 12 * s.marks + s.effortAt i o)

attribute [local simp] Object.turns effortAt Object.effort Read.effort Waiting.effort marks

theorem Eases.turn (h : o'.turns + census Object.turns new < o.turns) :
    Eases i s s' o o' new := .inl h

/-- Where the memory is as before, the others have as much to do as before. -/
theorem Eases.look (hTurns : o'.turns = o.turns) (hLess : s.effortAt i o' < s.effortAt i o) :
    Eases i s s o o' [] := .inr ⟨rfl, hTurns, fun _ _ _ => rfl, Nat.add_lt_add_left hLess _⟩

/-- A retry loop looks again only where the word is not what it expects. -/
theorem eases_tryReadLook {arc : Bool} {at_ : TryReadPoint}
    (h : step p i c s (.tryRead arc at_) = some (s, .tryRead arc (.loop s.state), [])) :
    Eases i s s (.tryRead arc at_) (.tryRead arc (.loop s.state)) [] := by
  have hStale : at_ ≠ .loop s.state := by
    rintro rfl
    simp only [step, alone, stepTryRead] at h
    split_ifs at h with hBit hBig
    · cases h
    · cases h
    · simp [compareExchange] at h
  exact .look rfl (by simp [hStale])

theorem eases_tryUpgradableRetry {arc : Bool} {seen : Nat}
    (h : step p i c s (.tryUpgradable arc (.exchange seen)) =
      some (s, .tryUpgradable arc (.exchange s.state), [])) :
    Eases i s s (.tryUpgradable arc (.exchange seen)) (.tryUpgradable arc (.exchange s.state))
      [] := by
  have hStale : seen ≠ s.state := by
    rintro rfl
    simp [step, alone, stepTryUpgradable, compareExchange] at h
  exact .look rfl (by simp [hStale])

theorem eases_upgradableRetry {form : Form} {listener : Bool} {seen : Nat}
    (h : step p i c s (.upgradableRead form (.exchange listener seen)) =
      some (s, .upgradableRead form (.exchange listener s.state), [])) :
    Eases i s s (.upgradableRead form (.exchange listener seen))
      (.upgradableRead form (.exchange listener s.state)) [] := by
  have hStale : seen ≠ s.state := by
    rintro rfl
    simp [step, stepUpgradableRead, compareExchange] at h
  exact .look rfl (by simp [hStale])

theorem eases_readRetry {form : Form} {seen : Nat} {listener : Bool} (hBit : seen % 2 = 0)
    (h : step p i c s (.read form (.loop seen listener)) =
      some (s, .read form (.loop s.state listener), [])) :
    Eases i s s (.read form (.loop seen listener)) (.read form (.loop s.state listener)) [] := by
  have hStale : seen ≠ s.state := by
    rintro rfl
    cases c with
    | go elapsed =>
      simp only [step, Read.poll, and_writerBit, hBit, if_true, compareExchange] at h
      split_ifs at h <;> simp [readOutcome] at h
    | drop => simp [step, Read.drop, hBit] at h
    | _ => cases h
  refine .look rfl ?_
  by_cases hHeld : s.state % 2 = 1 <;> cases listener <;> simp [hBit, hStale, hHeld]

/-- What one action does to the inner mutex, and what is left to be done after it. -/
theorem step_works (h : step p i c s o = some (s', o', new)) (hOk : s.Rouses i o c) :
    ∃ e, Use p i s.mutex e o.role s'.mutex o'.role (census (fun n => n.role.owns) new) ∧
      o'.starts + census Object.starts new ≤ o.starts ∧
      (e = .starts → o'.starts + census Object.starts new < o.starts) ∧
      (e = .keeps → Eases i s s' o o' new) := by
  cases step_acts h with
  | tryReadAbort | readAbort => exact ⟨_, .abort, Nat.le_refl _, nofun, fun _ => .turn (by simp)⟩
  | tryUpgradableAbort => exact ⟨_, .abortOwner _, Nat.le_refl _, nofun, nofun⟩
  | upgradableAbort _ _ listener => exact ⟨_, .abortOwner listener, Nat.le_refl _, nofun, nofun⟩
  | tryUpgradableLock _ _ hFree | tryWriteLock _ _ hFree =>
    exact ⟨_, .tryLock hFree, Nat.zero_le _, fun _ => Nat.one_pos, nofun⟩
  | upgradableAcquire _ form f d m r hLock =>
    rw [role_upgradableOutcome]
    exact ⟨_, .lock f d m r hLock, by cases r <;> exact Nat.le_refl _, nofun, nofun⟩
  | writeAcquire _ form f d m r hLock =>
    rw [role_writeOutcome]
    exact ⟨_, .lock f d m r hLock, by cases r <;> exact Nat.le_refl _, nofun, nofun⟩
  | tryReadLook => exact ⟨_, .stay _, Nat.le_refl _, nofun, fun _ => eases_tryReadLook h⟩
  | tryUpgradableRetry =>
    exact ⟨_, .stay _, Nat.le_refl _, nofun, fun _ => eases_tryUpgradableRetry h⟩
  | upgradableRetry _ _ listener =>
    exact ⟨_, .stay _, Nat.le_refl _, nofun, fun _ => eases_upgradableRetry h⟩
  | readRetry _ _ _ _ hBit =>
    exact ⟨_, .stay _, Nat.le_refl _, nofun, fun _ => eases_readRetry hBit h⟩
  | tryUpgradableLoad | upgradableLoad =>
    exact ⟨_, .stay _, Nat.le_refl _, nofun, fun _ => .look rfl (by simp)⟩
  | readBegin _ form seen =>
    exact ⟨_, .stay _, Nat.le_refl _, nofun, fun _ => .look rfl (by simp; split_ifs <;> omega)⟩
  | readReload _ _ listener =>
    refine ⟨_, .stay _, Nat.le_refl _, nofun, fun _ => .look rfl ?_⟩
    by_cases hHeld : s.state % 2 = 1 <;> cases listener <;> simp [hHeld]
  | readListen _ _ _ hBit =>
    exact ⟨_, .stay _, Nat.le_refl _, nofun, fun _ => .inr ⟨rfl, rfl, fun _ _ _ => rfl,
      by simp [hBit]⟩⟩
  | readConsume _ form seen hBit hMark =>
    have hClear : s.state % 2 = 0 := by
      cases c with
      | go elapsed => exact hOk hBit
      | drop => simp [step, Read.drop] at h
      | _ => cases h
    have := Event.marks_remove_lt hMark
    exact ⟨_, .stay _, Nat.le_refl _, nofun, fun _ => .inr ⟨rfl, rfl, fun _ _ _ => rfl,
      by simp [hBit, hClear]; omega⟩⟩
  | readPassOn =>
    have := s.noWriter.marks_notify_le 1
    refine ⟨_, .stay _, Nat.le_refl _, nofun, fun _ => .inr ⟨rfl, rfl, fun _ _ _ => rfl, ?_⟩⟩
    by_cases hHeld : s.state % 2 = 1 <;> simp [hHeld] <;> omega
  | waitingBegin _ kind form chain listener =>
    refine ⟨_, .stay _, Nat.le_refl _, nofun, fun _ => .look rfl ?_⟩
    cases listener with
    | false => simp
    | true =>
      have hMark : (s.noReaders.markOf i).isSome := by
        cases c with
        | go elapsed => exact hOk
        | drop => simp [step, stepWaiting] at h
        | _ => cases h
      simp [hMark]
  | waitingSleep | waitingRegister =>
    exact ⟨_, .stay _, Nat.le_refl _, nofun, fun _ => .look rfl (by simp)⟩
  | waitingListen =>
    refine ⟨_, .stay _, Nat.le_refl _, nofun, fun _ => .inr ⟨rfl, rfl, fun j q _ => ?_, by simp⟩⟩
    simp only [effortAt, Event.isSome_markOf_listen]
  | waitingConsume _ _ _ _ hMark =>
    have := Event.marks_remove_lt hMark
    refine ⟨_, .stay _, Nat.le_refl _, nofun, fun _ => .inr ⟨rfl, rfl, fun j q hij => ?_,
      by simp; omega⟩⟩
    simp only [effortAt, Event.isSome_markOf_remove hij]
  | waitingPending _ kind form chain =>
    have hUnmarked : ¬ (s.noReaders.markOf i).isSome := by
      intro hMark
      cases c with
      | go elapsed => simp [step, stepWaiting, Waiting.poll, hMark, waitingOutcome] at h
      | _ => cases h
    exact ⟨_, .stay _, Nat.le_refl _, nofun, fun _ => .look rfl (by simp [hUnmarked])⟩
  | tryUpgrade | tryUpgradeFail | upgrade | downgradeToUpgradable | writeValue => exact hOk.elim
  | upgradableDowngrade | writeUnlockMutex | writeDowngradeMutex | unlock =>
    exact ⟨_, .unlock, Nat.le_refl _, nofun, nofun⟩
  | upgradableDowngraded | writeUnlockNotifyOps | writeDowngradeNotifyOps | unlocked =>
    exact ⟨_, .notify, Nat.le_refl _, nofun, nofun⟩
  | upgradableTake _ _ listener =>
    exact ⟨_, .hand listener, Nat.le_refl _, nofun, fun _ => .turn (by simp)⟩
  | waitingReady => exact ⟨_, .hand false, Nat.le_refl _, nofun, fun _ => .turn (by simp)⟩
  | upgradableFinish _ listener =>
    cases listener
    · exact ⟨_, .stay _, Nat.le_refl _, nofun, fun _ => .turn (by simp)⟩
    · exact ⟨_, .discardLeft, Nat.le_refl _, nofun, nofun⟩
  | writeWaits _ _ listener =>
    cases listener
    · exact ⟨_, .stay _, Nat.le_refl _, nofun, fun _ => .turn (by simp)⟩
    · exact ⟨_, .discard, Nat.le_refl _, nofun, nofun⟩
  | writeAcquired _ _ listener =>
    cases listener
    · exact ⟨_, .hand false, Nat.le_refl _, nofun, fun _ => .turn (by simp)⟩
    · exact ⟨_, .discardHand, Nat.le_refl _, nofun, nofun⟩
  | readFinish _ listener | writeFinish _ listener | writeUnlocked _ listener =>
    cases listener <;> exact ⟨_, .stay _, Nat.le_refl _, nofun, fun _ => .turn (by simp)⟩
  | _ => exact ⟨_, .stay _, Nat.zero_le _, nofun, fun _ => .turn (by simp)⟩

/-- What may still begin to lock, what there is to do on the inner mutex, and between two uses of
it the turns on the state word and the three queues. -/
def rank (s : State (RwLock α) Object) : Nat ×ₗ Nat ×ₗ Nat ×ₗ Nat ×ₗ Nat :=
  Host.rank RwLock.mutex Object.role s (census Object.starts s.pool)
    (toLex (census Object.turns s.pool, 12 * s.mem.marks + censusAt s.mem.effortAt s.pool))

theorem rank_lt {s s' : State (RwLock α) Object} (h : (machine p).Works roused s s') :
    rank s' < rank s := by
  obtain ⟨i, c, o, o', new, others, hOk, hGet, hAct, hSet, hPool, hPool'⟩ :=
    Machine.works_others h
  obtain ⟨e, hUse, hLe, hStarts, hEases⟩ := step_works hAct (hOk o hGet)
  refine Host.rank_lt (step_use hAct).2 hPool hPool' hUse ?_ (fun he => ?_) fun he => ?_
  · rw [hPool, hPool']
    omega
  · rw [hPool, hPool']
    have := hStarts he
    omega
  · simp only [Prod.Lex.toLex_lt_toLex, hPool, hPool']
    rcases hEases he with hTurns | ⟨rfl, hTurns, hOthers, hEffort⟩
    · exact .inl (by omega)
    · refine .inr ⟨by rw [hTurns, census_nil]; rfl, ?_⟩
      rw [hSet, List.append_nil]
      have hSum := censusAt_set hGet hOthers o'
      omega

theorem acc_works (s : State (RwLock α) Object) :
    Acc (fun v u => (machine p).Works roused u v) s :=
  Machine.acc_of_rank (P := fun _ => True) rank (fun _ _ _ h => ⟨trivial, rank_lt h⟩) trivial

/-! ## Where a run ends -/

/-- No future is dropped, and guards are not downgraded. -/
def goes (s : State (RwLock α) Object) (i : Nat) (c : Choice α) : Prop :=
  roused s i c ∧ c ≠ .downgrade ∧ (c = .drop → ∀ o ∈ s.pool[i]?, o.isGuard = true)

/-- Gone, or asleep without a notification: a reader may have one that it must not look at. -/
def Object.Stays (s : RwLock α) (i : Nat) (o : Object) : Prop :=
  o = .gone ∨ (o.Resting ∧ ¬ o.Holds ∧ o.Sleeps ∧
    (o.Woken s i → o.ReaderParked ∧ s.state % 2 = 1))

theorem stays_of_read {form : Form} {f : Read}
    (h : (∀ seen, f = .loop seen true → seen % 2 = 1 → s.state % 2 = 0) →
      f.poll p i s = none) : (Object.read form f).Stays s i := by
  cases f with
  | unpolled | passOn | reload => cases h (by simp)
  | loop seen listener =>
    by_cases hSeen : seen % 2 = 0
    · have hNone := h (by rintro _ ⟨⟩ hOdd; omega)
      simp only [Read.poll, and_writerBit, hSeen, if_true] at hNone
      rcases compareExchange_cases s seen (seen + oneReader) with ⟨_, hEq⟩ | ⟨_, hEq⟩ <;>
        rw [hEq] at hNone <;> split_ifs at hNone
    · cases listener with
      | false =>
        have hNone := h (by simp)
        simp [Read.poll, hSeen] at hNone
      | true =>
        have hOdd : seen % 2 = 1 := by omega
        refine .inr ⟨⟨rfl, hOdd⟩, id, ⟨rfl, hOdd⟩, fun hMark => ⟨⟨rfl, hOdd⟩, ?_⟩⟩
        by_contra hClear
        have hNone := h fun _ _ _ => by omega
        simp only [Read.poll, and_writerBit, if_neg hSeen, if_true] at hNone
        rw [if_pos (show (s.noWriter.markOf i).isSome from hMark)] at hNone
        cases hNone

theorem stays_of_waiting {kind : WaitingKind} {form : Form} {chain : Nat} {w : Waiting}
    (h : (w = .idle true → (s.noReaders.markOf i).isSome) → w.poll form.blocking i s = none) :
    (Object.waiting kind form chain w).Stays s i := by
  cases w with
  | listen => cases h (by simp)
  | idle listener =>
    cases listener with
    | false => cases h (by simp)
    | true =>
      exact .inr ⟨trivial, by simp [Object.Holds], rfl, fun hMark => by cases h fun _ => hMark⟩
  | check listener =>
    have hNone := h (by simp)
    simp only [Waiting.poll] at hNone
    split_ifs at hNone
  | wait =>
    have hNone := h (by simp)
    simp only [Waiting.poll] at hNone
    split_ifs at hNone with hMark hBlocking
    exact .inr ⟨hBlocking, by simp [Object.Holds], hBlocking, fun hWoken => absurd hWoken hMark⟩

theorem stays_of_lock {form : Form} {f : Lock} (hAlive : ¬ o.Aborted)
    (ho : o = .upgradableRead form (.acquire f) ∨ o = .write form (.acquiring f))
    (h : ∀ elapsed, f.step p i (.go elapsed) s.mutex = none) : o.Stays s i := by
  rcases ho with rfl | rfl <;>
  · rcases Lock.asleep_of_none h with hAborted | ⟨hAsleep, hUnmarked⟩
    · exact absurd hAborted hAlive
    · refine .inr ⟨.inr hAsleep, id, ?_, fun hWoken => absurd hWoken hUnmarked⟩
      rcases hAsleep with rfl | rfl <;> trivial

theorem stays_of_none (hAlive : ¬ o.Aborted)
    (h : ∀ c, s.Rouses i o c → c ≠ .downgrade → (c = .drop → o.isGuard = true) →
      step p i c s o = none) : o.Stays s i := by
  have hGo (elapsed : Bool) (hOk : s.Rouses i o (.go elapsed)) :
      step p i (.go elapsed) s o = none := h _ hOk (by simp) (by simp)
  cases o with
  | gone => exact .inl rfl
  | aborted => exact absurd trivial hAlive
  | readGuard =>
    have hNone := h .drop trivial (by simp) fun _ => rfl
    simp only [step] at hNone
    split at hNone <;> cases hNone
  | upgradableGuard arc chain =>
    have hNone := h .drop trivial (by simp) fun _ => rfl
    simp only [step, stepUpgradableGuard] at hNone
    split at hNone <;> cases hNone
  | writeGuard => cases h .drop trivial (by simp) fun _ => rfl
  | read form f =>
    refine stays_of_read (p := p) fun hOk => ?_
    have hNone := hGo false (by
      cases f with
      | loop seen listener =>
        cases listener
        · trivial
        · exact hOk seen rfl
      | _ => trivial)
    simpa [step] using hNone
  | waiting kind form chain w =>
    refine stays_of_waiting fun hOk => ?_
    have hNone := hGo false (by
      cases w with
      | idle listener =>
        cases listener
        · trivial
        · exact hOk rfl
      | _ => trivial)
    simpa [step, stepWaiting] using hNone
  | upgradableRead form at_ =>
    cases at_ with
    | acquire f =>
      refine stays_of_lock (p := p) hAlive (.inl rfl) fun elapsed => ?_
      simpa [step, stepUpgradableRead, lockStep] using hGo elapsed trivial
    | load listener =>
      have hNone := hGo false trivial
      simp only [step, stepUpgradableRead] at hNone
      split at hNone <;> cases hNone
    | exchange listener seen =>
      have hNone := hGo false trivial
      simp only [step, stepUpgradableRead] at hNone
      split at hNone <;> cases hNone
  | write form at_ =>
    cases at_ with
    | acquiring f =>
      refine stays_of_lock (p := p) hAlive (.inr rfl) fun elapsed => ?_
      simpa [step, stepWrite, lockStep] using hGo elapsed trivial
    | setBit | replace =>
      have hNone := hGo false trivial
      simp only [step, stepWrite] at hNone
      split at hNone <;> cases hNone
    | listen => cases hGo false trivial
  | _ => cases hGo false trivial

theorem stays_of_stuck {s : State (RwLock α) Object} (hAlive : Alive Object.Aborted s)
    (h : (machine p).Stuck goes s) (i : Nat) (o : Object) (hGet : s.pool[i]? = some o) :
    o.Stays s.mem i := by
  refine stays_of_none (hAlive o (List.mem_of_getElem? hGet)) fun c hOk hKeeps hDrop =>
    show step p i c s.mem o = none from ?_
  refine Machine.next_eq_none hGet (h i c ⟨?_, hKeeps, fun hc q hq => ?_⟩)
  · intro q hq
    cases hGet.symm.trans hq
    exact hOk
  · cases hGet.symm.trans hq
    exact hDrop hc

/-- The write that was queued waits for one reader, and another one waits for it. -/
def readWriteRead : List (Action Call (Choice Nat)) :=
  queueAndUnlock ++ [.call .tryRead, .act 2 (.go false), .act 2 (.go false)] ++
    List.replicate 8 (.act 1 (.go false)) ++ [.call .read] ++
    List.replicate 3 (.act 3 (.go false)) ++ [.act 2 .drop, .act 2 (.go false)] ++
    List.replicate 2 (.act 1 (.go false)) ++ [.act 4 .drop] ++
    List.replicate 4 (.act 4 (.go false)) ++ List.replicate 5 (.act 3 (.go false)) ++
    [.act 5 .drop, .act 5 (.go false)]

def everybodyGone : State (RwLock Nat) Object :=
  ⟨RwLock.new 7, [.gone, .gone, .gone, .gone, .gone, .gone]⟩

end RwLock
end AsyncLock
