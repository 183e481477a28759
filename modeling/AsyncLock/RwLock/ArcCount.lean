import AsyncLock.Interleaving.Census
import AsyncLock.RwLock.ArcMachine

/-! # The strong count of a shared reader-writer lock

Each `Arc` that the count includes is that of a caller, of a guard, of an `UpgradeArc` that is not
ready, or of an owner that is being dropped. An owner keeps its `Arc` in every action on the raw
lock, its own unlock included, and a borrower acts while the `Arc` it borrows is there.
-/
namespace AsyncLock.RwLock
set_option autoImplicit false

open Interleaving

namespace Object

def isUpgradeArc : Object → Bool
  | waiting .upgrade form _ _ => form.arc
  | _ => false

/-- What is left of an owner that is being dropped. -/
def isReleasing : Object → Bool
  | readUnlocking | upgradableUnlocking | unlocking | notifyingLockOps => true
  | writeUnlocking _ _ | gone => true
  | _ => false

def ownsArc (o : Object) : Bool := o.isArcGuard || o.isUpgradeArc || o.isReleasing

theorem one_of_ownsArc {o : Object} (h : o.ownsArc = true) :
    o.isArcGuard.toNat + o.isUpgradeArc.toNat + o.isReleasing.toNat = 1 := by
  have hArc {arc : Bool} (h : (arc || false || false) = true) : arc.toNat + 0 + 0 = 1 := by
    cases arc
    · cases h
    · rfl
  cases o with
  | waiting kind form =>
    cases kind
    · cases h
    · have hForm : form.arc = true := by
        simpa [ownsArc, isArcGuard, isUpgradeArc, isReleasing] using h
      simp [isArcGuard, isUpgradeArc, isReleasing, hForm]
  | readGuard | upgradableGuard | upgradableDowngrading | writeGuard | writeDowngrading =>
    exact hArc h
  | _ => first | rfl | cases h

end Object

namespace ArcObject

def callers : ArcObject → Nat
  | arc => 1
  | _ => 0

/-- The guards of the `_arc` operations. -/
def guards : ArcObject → Nat
  | op o _ => o.isArcGuard.toNat
  | _ => 0

/-- The `UpgradeArc` futures that have not returned `Ready`. -/
def upgrades : ArcObject → Nat
  | op o _ => o.isUpgradeArc.toNat
  | _ => 0

/-- The owners of an `Arc` that are being dropped. -/
def drops : ArcObject → Nat
  | op o .owns => o.isReleasing.toNat
  | _ => 0

/-- Has an `Arc` of its own. -/
def arcs : ArcObject → Nat
  | arc | op _ .owns => 1
  | _ => 0

def borrowsFrom (handle : Nat) : ArcObject → Nat
  | op _ (.borrows h) => if h = handle then 1 else 0
  | _ => 0

/-- What holds of an object by itself. -/
def Fits : ArcObject → Prop
  | op o (.borrows _) => o.isArcGuard = false ∧ o.isUpgradeArc = false
  | op o .owns => o.ownsArc = true
  | op o .finished => ∃ listener, o = .writeDone listener
  | _ => True

end ArcObject

variable {α : Type*} {p : Platform} {i : Nat}

section Step

variable {c : Choice α} {s s' : RwLock α} {o o' : Object} {new : List Object}

/-- An owner stays one, or is an `UpgradeArc` that has become ready. -/
theorem step_owner (h : step p i c s o = some (s', o', new)) (ho : o.ownsArc = true) :
    (new = [] ∧ o'.ownsArc = true) ∨
      (o.isUpgradeArc = true ∧ (∃ listener, o' = .writeDone listener) ∧
        ∃ chain, new = [.writeGuard true chain]) := by
  cases step_acts h with
  | waitingReady _ kind form chain listener =>
    cases kind
    · cases ho
    · have hArc : form.arc = true := by simpa [Object.ownsArc, Object.isArcGuard,
        Object.isUpgradeArc, Object.isReleasing] using ho
      refine .inr ⟨hArc, ⟨listener, rfl⟩, chain, ?_⟩
      rw [hArc]
  | waitingBegin _ kind | waitingSleep _ kind | waitingRegister _ kind | waitingListen _ kind
  | waitingConsume _ kind | waitingPending _ kind =>
    cases kind
    · cases ho
    · exact .inl ⟨rfl, ho⟩
  | upgrade arc =>
    cases arc
    · cases ho
    · exact .inl ⟨rfl, rfl⟩
  | readUnlockLast | readUnlock | upgradableUnlockLast | upgradableUnlock | readNotify
  | upgradableNotify | waitingCancel | writeUnlock | unlock | unlocked | writeUnlockNotify
  | writeUnlockMutex | writeUnlockNotifyOps | writeUnlocked => exact .inl ⟨rfl, rfl⟩
  | upgradableDowngrade | tryUpgrade | tryUpgradeFail | upgradableDowngraded | writeDowngrade
  | downgradeToUpgradable | writeValue | writeDowngradeMutex | writeDowngradeNotifyOps
  | writeDowngraded => exact .inl ⟨rfl, ho⟩
  | _ => cases ho

/-- A borrower does not become an `UpgradeArc`. It brings no guard into being, or it is a future
that has returned `Ready` and stays. -/
theorem step_borrower (h : step p i c s o = some (s', o', new)) (ho : o.isArcGuard = false)
    (hUpgrade : o.isUpgradeArc = false) :
    o'.isUpgradeArc = false ∧ (new = [] ∨ (o'.isArcGuard = false ∧ o' ≠ .gone ∧
      ∃ guard, new = [guard] ∧ guard.isUpgradeArc = false)) := by
  cases step_acts h with
  | waitingReady | readTake | upgradableTake | writeAcquired =>
    exact ⟨rfl, .inr ⟨rfl, nofun, _, rfl, rfl⟩⟩
  | waitingBegin _ kind | waitingSleep _ kind | waitingRegister _ kind | waitingListen _ kind
  | waitingConsume _ kind | waitingPending _ kind =>
    cases kind
    · exact ⟨rfl, .inl rfl⟩
    · exact ⟨hUpgrade, .inl rfl⟩
  | upgrade => exact ⟨ho, .inl rfl⟩
  | upgradableAcquire _ _ _ _ _ r | writeAcquire _ _ _ _ _ r => cases r <;> exact ⟨rfl, .inl rfl⟩
  | _ => exact ⟨rfl, .inl rfl⟩

/-- What one action of an object that fits can do. -/
inductive ArcActs (p : Platform) (i : Nat) (m : Shared α) :
    ArcChoice α → ArcObject → Shared α → ArcObject → List ArcObject → Prop
  | clone : ArcActs p i m .clone .arc m.clone .arc [.arc]
  | drop (hFree : i ∉ m.lent) : ArcActs p i m .drop .arc m.release .gone []
  | call (k : Call) : ArcActs p i m (.call k) .arc (m.lend i) .arc
      [.op (create m.lock k) (.borrows i)]
  | release (c : Choice α) : ArcActs p i m (.act c) (.op .gone .owns) m.release .gone []
  | keep (c : Choice α) (o o' : Object) (lock : RwLock α) (hLive : o ≠ .gone)
      (hOwns : o'.ownsArc = true) :
      ArcActs p i m (.act c) (.op o .owns) { m with lock := lock } (.op o' .owns) []
  | handOn (c : Choice α) (o : Object) (lock : RwLock α) (listener : Bool) (chain : Nat)
      (hUpgrade : o.isUpgradeArc = true) :
      ArcActs p i m (.act c) (.op o .owns) { m with lock := lock }
      (.op (.writeDone listener) .finished) [.op (.writeGuard true chain) .owns]
  | stay (c : Choice α) (o o' : Object) (handle : Nat) (lock : RwLock α)
      (hGuard : o'.isArcGuard = false) (hUpgrade : o'.isUpgradeArc = false) :
      ArcActs p i m (.act c) (.op o (.borrows handle)) { m with lock := lock }
      (.op o' (.borrows handle)) []
  | ends (c : Choice α) (o : Object) (handle : Nat) (lock : RwLock α) :
      ArcActs p i m (.act c) (.op o (.borrows handle))
      (Shared.giveBack handle { m with lock := lock }) .gone []
  | acquire (c : Choice α) (o o' : Object) (handle : Nat) (lock : RwLock α)
      (hGuard : o'.isArcGuard = true) : ArcActs p i m (.act c) (.op o (.borrows handle))
      (Shared.giveBack handle { m with lock := lock }).clone (.op o' .owns) []
  | readyArc (c : Choice α) (o o' guard : Object) (handle : Nat) (lock : RwLock α)
      (hGuard : guard.isArcGuard = true) (hFinished : o'.isArcGuard = false)
      (hUpgrade : o'.isUpgradeArc = false) : ArcActs p i m (.act c) (.op o (.borrows handle))
      (Shared.clone { m with lock := lock }) (.op o' (.borrows handle)) [.op guard .owns]
  | ready (c : Choice α) (o o' guard : Object) (handle : Nat) (lock : RwLock α)
      (hGuard : guard.isArcGuard = false) (hGuardUpgrade : guard.isUpgradeArc = false)
      (hFinished : o'.isArcGuard = false) (hUpgrade : o'.isUpgradeArc = false) :
      ArcActs p i m (.act c) (.op o (.borrows handle))
      (Shared.lend handle { m with lock := lock }) (.op o' (.borrows handle))
      [.op guard (.borrows handle)]
  | finish (c : Choice α) (listener : Bool) :
      ArcActs p i m (.act c) (.op (.writeDone listener) .finished)
      { m with lock := discardNoReaders i m.lock listener } .gone []

theorem arcStep_acts {c : ArcChoice α} {m m' : Shared α} {o o' : ArcObject}
    {new : List ArcObject} (h : (arcMachine p).step i c m o = some (m', o', new))
    (ho : o.Fits) : ArcActs p i m c o m' o' new := by
  cases o with
  | gone => cases h
  | arc =>
    cases c with
    | clone =>
      cases h
      exact .clone
    | drop =>
      obtain ⟨hFree, hEq⟩ := Option.ite_none_left_eq_some.mp h
      cases hEq
      exact .drop hFree
    | call k =>
      cases h
      exact .call k
    | act c => cases h
  | op o hold =>
    cases c with
    | act c =>
      simp only [arcMachine, arcStep] at h
      split_ifs at h with hGone
      · obtain ⟨rfl, rfl⟩ := hGone
        cases h
        exact .release c
      obtain ⟨⟨lock, q, created⟩, hStep, hEq⟩ := Option.map_eq_some_iff.mp h
      cases hold with
      | owns =>
        have hLive : o ≠ .gone := fun hEq => hGone ⟨hEq, rfl⟩
        rcases step_owner hStep ho with ⟨rfl, hOwns⟩ | ⟨hUpgrade, ⟨listener, rfl⟩, chain, rfl⟩
        · cases hEq
          exact .keep _ _ _ _ hLive hOwns
        · cases hEq
          exact .handOn _ _ _ _ _ hUpgrade
      | borrows handle =>
        obtain ⟨hUpgrade, rfl | ⟨hFinished, hStays, guard, rfl, hGuardUpgrade⟩⟩ :=
          step_borrower hStep ho.1 ho.2
        · simp only [stepBorrower, settle] at hEq
          split_ifs at hEq with hOver hGuard <;> cases hEq
          · exact .ends _ _ _ _
          · exact .acquire _ _ _ _ _ hGuard
          · exact .stay _ _ _ _ _ (by simpa using hGuard) hUpgrade
        · simp only [stepBorrower, settle, makeGuard, if_neg hStays, hFinished,
            Bool.false_eq_true, if_false] at hEq
          split_ifs at hEq with hGuard <;> cases hEq
          · exact .readyArc _ _ _ _ _ _ hGuard hFinished hUpgrade
          · exact .ready _ _ _ _ _ _ (by simpa using hGuard) hGuardUpgrade hFinished hUpgrade
      | finished =>
        obtain ⟨listener, rfl⟩ := ho
        cases hStep
        cases hEq
        exact .finish _ _
    | _ => cases h

end Step

section

variable {c : ArcChoice α} {m m' : Shared α} {o o' : ArcObject} {new : List ArcObject}

attribute [local simp] ArcObject.arcs ArcObject.borrowsFrom

theorem ArcActs.fits (h : ArcActs p i m c o m' o' new) : o'.Fits ∧ ∀ q ∈ new, q.Fits := by
  have hOwns {q : Object} (hGuard : q.isArcGuard = true) : q.ownsArc = true := by
    rw [Object.ownsArc, hGuard]
    rfl
  have hNil : ∀ q ∈ ([] : List ArcObject), q.Fits := by simp
  cases h with
  | clone => exact ⟨trivial, by simp [ArcObject.Fits]⟩
  | call k => exact ⟨trivial, by cases k <;> simp [ArcObject.Fits, create, Object.isArcGuard,
      Object.isUpgradeArc]⟩
  | drop | release | ends | finish => exact ⟨trivial, hNil⟩
  | keep _ _ _ _ _ hKeeps => exact ⟨hKeeps, hNil⟩
  | handOn _ _ _ listener =>
    exact ⟨⟨listener, rfl⟩, by simp [ArcObject.Fits, Object.ownsArc, Object.isArcGuard]⟩
  | stay _ _ _ _ _ hGuard hUpgrade => exact ⟨⟨hGuard, hUpgrade⟩, hNil⟩
  | acquire _ _ _ _ _ hGuard => exact ⟨hOwns hGuard, hNil⟩
  | readyArc _ _ _ _ _ _ hGuard hFinished hUpgrade =>
    exact ⟨⟨hFinished, hUpgrade⟩, by simpa [ArcObject.Fits] using hOwns hGuard⟩
  | ready _ _ _ _ _ _ hGuard hGuardUpgrade hFinished hUpgrade =>
    exact ⟨⟨hFinished, hUpgrade⟩, by simpa [ArcObject.Fits] using ⟨hGuard, hGuardUpgrade⟩⟩

theorem ArcActs.strong (h : ArcActs p i m c o m' o' new) {rest : Nat}
    (hs : m.strong = o.arcs + rest) :
    m'.strong = o'.arcs + census ArcObject.arcs new + rest := by
  cases h <;> simp at hs ⊢ <;> omega

theorem ArcActs.lent (h : ArcActs p i m c o m' o' new) (handle : Nat) {rest : Nat}
    (hs : m.lent.count handle = o.borrowsFrom handle + rest) :
    m'.lent.count handle = o'.borrowsFrom handle + census (ArcObject.borrowsFrom handle) new +
      rest := by
  cases h <;> simp [List.count_erase, List.count_cons] at hs ⊢ <;> omega

/-- A borrow is that of the object itself, or the caller at this position has just lent. -/
theorem ArcActs.borrows (h : ArcActs p i m c o m' o' new) {q : Object} {handle : Nat}
    (hq : .op q (.borrows handle) ∈ o' :: new) :
    (∃ r, o = .op r (.borrows handle)) ∨ (o' = .arc ∧ handle = i) := by
  cases h <;> simp at hq
  case call => exact .inr ⟨rfl, hq.2⟩
  case stay o _ handle' _ _ _ => exact .inl ⟨o, by rw [hq.2]⟩
  case readyArc o _ _ handle' _ _ _ _ => exact .inl ⟨o, by rw [hq.2]⟩
  case ready o _ _ handle' _ _ _ _ _ =>
    rcases hq with hq | hq <;> exact .inl ⟨o, by rw [hq.2]⟩

end

/-! ## Every reachable state -/

variable {value : α} {s t : State (Shared α) ArcObject}

theorem fits_of_reaches (h : (arcMachine p).Reaches (arcInitial value) s) :
    ∀ o ∈ s.pool, o.Fits := by
  apply Machine.forall_of_reaches (P := ArcObject.Fits) h
  · simp [arcInitial, ArcObject.Fits]
  · intro m k
    cases k
  · intro i c m o m' o' new hStep ho
    exact (arcStep_acts hStep ho).fits

structure Counted (s : State (Shared α) ArcObject) : Prop where
  strong : s.mem.strong = census ArcObject.arcs s.pool
  lent : ∀ handle, s.mem.lent.count handle = census (ArcObject.borrowsFrom handle) s.pool
  borrowed : ∀ (j : Nat) (o : Object) (handle : Nat),
    s.pool[j]? = some (.op o (.borrows handle)) → s.pool[handle]? = some .arc

theorem ArcActs.arc_stays {c : ArcChoice α} {m : Shared α} {o o' : ArcObject}
    {new : List ArcObject} (h : ArcActs p i s.mem c o m o' new) (hGet : s.pool[i]? = some o)
    {handle : Nat} (hArc : s.pool[handle]? = some .arc) (hLent : handle ∈ s.mem.lent) :
    (s.pool.set i o' ++ new)[handle]? = some .arc := by
  by_cases hi : handle = i
  · subst hi
    rw [get_act_self hGet]
    rw [hGet] at hArc
    cases hArc
    cases h with
    | clone | call => rfl
    | drop hFree => exact absurd hLent hFree
  · exact get_act_other hArc hi o' new

theorem counted_of_reaches (h : (arcMachine p).Reaches (arcInitial value) s) : Counted s := by
  apply Machine.invariant (P := Counted) h
  · refine ⟨rfl, fun _ => rfl, fun j o handle ho => ?_⟩
    have := List.mem_of_getElem? ho
    simp [arcInitial] at this
  · intro s t hPast hStep hs
    rcases Machine.step_others hStep with ⟨k, _⟩ |
      ⟨i, c, o, m, o', new, others, hGet, hAct, rfl, _, hPool, hPool'⟩
    · cases k
    · have hActs := arcStep_acts hAct (fits_of_reaches hPast o (List.mem_of_getElem? hGet))
      constructor
      · rw [hPool']
        exact hActs.strong (by rw [← hPool, hs.strong])
      · intro handle
        rw [hPool']
        exact hActs.lent handle (by rw [← hPool, hs.lent])
      · intro j q handle hq
        have hLent {k : Nat} {r : Object} (hr : s.pool[k]? = some (.op r (.borrows handle))) :
            (s.pool.set i o' ++ new)[handle]? = some .arc := by
          refine hActs.arc_stays hGet (hs.borrowed k r handle hr) ?_
          rw [← List.count_pos_iff, hs.lent, census_pos_iff]
          exact ⟨_, List.mem_of_getElem? hr, by simp [ArcObject.borrowsFrom]⟩
        have hActing (hMem : .op q (.borrows handle) ∈ o' :: new) :
            (s.pool.set i o' ++ new)[handle]? = some .arc := by
          rcases hActs.borrows hMem with ⟨r, rfl⟩ | ⟨rfl, rfl⟩
          · exact hLent hGet
          · exact get_act_self hGet .arc new
        rcases get_of_act hq with ⟨rfl, hSelf⟩ | ⟨_, hOld⟩ | ⟨_, hMem⟩
        · exact hActing (by rw [hSelf]; exact List.mem_cons_self)
        · exact hLent hOld
        · exact hActing (List.mem_cons_of_mem _ hMem)

theorem arcs_eq (pool : List ArcObject) (h : ∀ o ∈ pool, o.Fits) :
    census ArcObject.arcs pool = census ArcObject.callers pool + census ArcObject.guards pool +
      census ArcObject.upgrades pool + census ArcObject.drops pool := by
  induction pool with
  | nil => rfl
  | cons o pool ih =>
    have hOne : o.arcs = o.callers + o.guards + o.upgrades + o.drops := by
      have ho := h o List.mem_cons_self
      cases o with
      | arc | gone => rfl
      | op o hold =>
        cases hold with
        | borrows =>
          rw [ArcObject.guards, ArcObject.upgrades, ho.1, ho.2]
          rfl
        | owns =>
          have := Object.one_of_ownsArc ho
          simp only [ArcObject.arcs, ArcObject.callers, ArcObject.guards, ArcObject.upgrades,
            ArcObject.drops]
          omega
        | finished =>
          obtain ⟨listener, rfl⟩ := ho
          rfl
    simp only [census_cons, hOne, ih fun q hq => h q (List.mem_cons_of_mem _ hq)]
    omega

/-- The owner at a position has its `Arc` still, or has handed it to the guard it has made. -/
def KeepsArc (i : Nat) (s t : State (Shared α) ArcObject) : Prop :=
  (∃ o, t.pool[i]? = some (.op o .owns)) ∨
    ∃ o chain, s.pool[i]? = some (.op o .owns) ∧ o.isUpgradeArc = true ∧
      t.pool[s.pool.length]? = some (.op (.writeGuard true chain) .owns)

/-- The strong count is that of the `Arc`s that callers, guards and unfinished `UpgradeArc`s have,
and of those that are being dropped. -/
structure ArcAccounting (p : Platform) (s : State (Shared α) ArcObject) : Prop where
  strong : s.mem.strong = census ArcObject.callers s.pool + census ArcObject.guards s.pool +
    census ArcObject.upgrades s.pool + census ArcObject.drops s.pool
  owner : ∀ (i : Nat) (o : Object) (hold : Hold), s.pool[i]? = some (.op o hold) →
    o.isArcGuard = true ∨ o.isUpgradeArc = true → hold = .owns
  -- a conversion, a poll, or an unlock with all its actions
  keeps : ∀ (i : Nat) (o : Object) (c : ArcChoice α) (t : State (Shared α) ArcObject),
    s.pool[i]? = some (.op o .owns) → o ≠ .gone → (arcMachine p).next s (.act i c) = some t →
      t.mem.strong = s.mem.strong ∧ 0 < t.mem.strong ∧ KeepsArc i s t
  -- the end of a drop
  release : ∀ (i : Nat) (c : Choice α), s.pool[i]? = some (.op .gone .owns) →
    ∃ t, (arcMachine p).next s (.act i (.act c)) = some t ∧
      t.mem.strong + 1 = s.mem.strong ∧ t.mem.lock = s.mem.lock ∧ t.pool[i]? = some .gone
  -- a finished `UpgradeArc` may still have a listener, which does not need the lock
  touches : ∀ (i : Nat) (o : ArcObject) (c : ArcChoice α) (t : State (Shared α) ArcObject),
    s.pool[i]? = some o → (arcMachine p).next s (.act i c) = some t →
      t.mem.lock ≠ s.mem.lock → (0 < s.mem.strong ∧ 0 < t.mem.strong) ∨
        ∃ listener, o = .op (.writeDone listener) .finished ∧
          t.mem.lock = discardNoReaders i s.mem.lock listener

theorem strong_pos (hs : Counted s) {o : ArcObject} {j : Nat} (hGet : s.pool[j]? = some o)
    (ho : o.arcs = 1) : 0 < s.mem.strong := by
  have := le_census ArcObject.arcs (List.mem_of_getElem? hGet)
  rw [hs.strong]
  omega

theorem keeps_of_step (h : (arcMachine p).Reaches (arcInitial value) s) {o : Object}
    {c : ArcChoice α} (hGet : s.pool[i]? = some (.op o .owns)) (hLive : o ≠ .gone)
    (hNext : (arcMachine p).next s (.act i c) = some t) :
    t.mem.strong = s.mem.strong ∧ 0 < t.mem.strong ∧ KeepsArc i s t := by
  have hPos := strong_pos (counted_of_reaches h) hGet rfl
  obtain ⟨m, q', new, hAct, rfl⟩ := Machine.next_act_at hGet hNext
  have hActs := arcStep_acts hAct (fits_of_reaches h _ (List.mem_of_getElem? hGet))
  cases hActs with
  | release => exact absurd rfl hLive
  | keep _ _ o' => exact ⟨rfl, hPos, .inl ⟨o', get_act_self hGet _ _⟩⟩
  | handOn _ _ _ listener chain hUpgrade =>
    refine ⟨rfl, hPos, .inr ⟨o, chain, hGet, hUpgrade, ?_⟩⟩
    simp

theorem touches_of_step (h : (arcMachine p).Reaches (arcInitial value) s) {o : ArcObject}
    {c : ArcChoice α} (hGet : s.pool[i]? = some o)
    (hNext : (arcMachine p).next s (.act i c) = some t) (hTouch : t.mem.lock ≠ s.mem.lock) :
    (0 < s.mem.strong ∧ 0 < t.mem.strong) ∨
      ∃ listener, o = .op (.writeDone listener) .finished ∧
        t.mem.lock = discardNoReaders i s.mem.lock listener := by
  have hCounted := counted_of_reaches h
  have hAfter := counted_of_reaches (h.tail ⟨_, hNext⟩)
  obtain ⟨m, q', new, hAct, rfl⟩ := Machine.next_act_at hGet hNext
  have hActs := arcStep_acts hAct (fits_of_reaches h _ (List.mem_of_getElem? hGet))
  have hBorrower {r : Object} {handle : Nat} (hr : o = .op r (.borrows handle)) :
      0 < s.mem.strong ∧ 0 < m.strong := by
    subst hr
    have hArc := hCounted.borrowed i r handle hGet
    have hLent : handle ∈ s.mem.lent := by
      rw [← List.count_pos_iff, hCounted.lent, census_pos_iff]
      exact ⟨_, List.mem_of_getElem? hGet, by simp [ArcObject.borrowsFrom]⟩
    exact ⟨strong_pos hCounted hArc rfl, strong_pos hAfter (hActs.arc_stays hGet hArc hLent) rfl⟩
  cases hActs with
  | clone | drop | call | release => exact absurd rfl hTouch
  | keep | handOn =>
    have hPos := strong_pos hCounted hGet rfl
    exact .inl ⟨hPos, hPos⟩
  | stay | ends | acquire | readyArc | ready => exact .inl (hBorrower rfl)
  | finish _ listener => exact .inr ⟨listener, rfl, rfl⟩

theorem arc_accounting (h : (arcMachine p).Reaches (arcInitial value) s) :
    ArcAccounting p s := by
  have hCounted := counted_of_reaches h
  have hFits := fits_of_reaches h
  constructor
  · rw [hCounted.strong]
    exact arcs_eq s.pool hFits
  · intro i o hold hGet hOwner
    have ho := hFits _ (List.mem_of_getElem? hGet)
    cases hold with
    | owns => rfl
    | borrows =>
      obtain ⟨hGuard, hUpgrade⟩ := ho
      rw [hGuard, hUpgrade] at hOwner
      simp at hOwner
    | finished =>
      obtain ⟨listener, rfl⟩ := ho
      simp [Object.isArcGuard, Object.isUpgradeArc] at hOwner
  · exact fun i o c t hGet hLive hNext => keeps_of_step h hGet hLive hNext
  · intro i c hGet
    have hPos := strong_pos hCounted hGet rfl
    refine ⟨_, Machine.next_act_of_step hGet rfl, ?_, rfl, get_act_self hGet _ _⟩
    exact Nat.sub_add_cancel hPos
  · exact fun i o c t hGet hNext hTouch => touches_of_step h hGet hNext hTouch

/-- The caller drops its `Arc` before the upgrade, and the guard is on its way out. -/
def upgradeThenDrop : List (Action Empty (ArcChoice Nat)) :=
  [.act 0 (.call .tryUpgradableReadArc), .act 1 (.act (.go false)), .act 1 (.act (.go false)),
    .act 1 (.act (.go false)), .act 0 .drop, .act 1 (.act (.upgrade false)),
    .act 1 (.act (.go false)), .act 1 (.act (.go false)), .act 2 (.act .drop),
    .act 2 (.act (.go false))]

def guardUnlocking : State (Shared Nat) ArcObject :=
  ⟨⟨⟨⟨1, Event.new⟩, Event.new, Event.new, 0, 7⟩, 1, []⟩,
    [.gone, .op (.writeDone false) .finished, .op (.writeUnlocking false .unlockMutex) .owns]⟩

theorem arc_accounting_upgradeThenDrop : ArcAccounting platform64 guardUnlocking :=
  arc_accounting (Machine.reaches_of_run _ upgradeThenDrop (arcInitial 7) guardUnlocking
    (by decide +kernel))

end AsyncLock.RwLock
