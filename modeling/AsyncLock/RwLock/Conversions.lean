import AsyncLock.RwLock.Accounting

/-! # Guard conversions are atomic

An upgradable guard, a write guard and an unfinished upgrade belong to the chain of conversions
that began where the lock was acquired. A chain begins once: the call or future that begins it
is not an acquiring one any more. So a chain held at the two ends of a stretch of a run is held
all along, by one object, which is the owner of the mutex throughout.
-/
namespace AsyncLock.RwLock
set_option autoImplicit false

open Interleaving

namespace Object

/-- The chain of conversions that an object carries on. -/
def chain : Object → Option Nat
  | upgradableGuard _ chain | writeGuard _ chain | waiting .upgrade _ chain _ => some chain
  | _ => none

/-- A call or future that may still begin a chain. -/
def acquires : Object → Bool
  | tryUpgradable _ _ | upgradableRead _ _ | tryWrite _ _ | write _ _ | waiting .write _ _ _ => true
  | _ => false

def Placed (i : Nat) : Object → Prop
  | waiting .write _ chain _ => chain = i
  | _ => True

/-- A plain read guard, or one that a downgrade is about to return. -/
def readsOnly : Object → Bool
  | readGuard _ | upgradableDowngrading _ | writeDowngrading _ _ => true
  | _ => false

/-- A plain read guard from its beginning to the end of its drop. -/
def ReadLife (o : Object) : Prop := o.readsOnly = true ∨ o = readUnlocking ∨ o = gone

theorem chain_owner {o : Object} {chain : Nat} (h : o.chain = some chain) : o.owner.isSome := by
  cases o with
  | waiting kind =>
    cases kind
    · cases h
    · rfl
  | upgradableGuard | writeGuard => rfl
  | _ => cases h

theorem readsOnly_reader {o : Object} (h : o.readsOnly = true) : o.reader = 1 := by
  cases o <;> first | rfl | cases h

end Object

variable {α : Type*} {p : Platform} {i : Nat} {c : Choice α} {s s' : RwLock α} {o o' : Object}
  {new : List Object}

/-! ## One step -/

theorem step_placed (h : step p i c s o = some (s', o', new)) (ho : o.Placed i) :
    o'.Placed i ∧ ∀ j, ∀ n ∈ new, n.Placed j := by
  cases step_acts h with
  | writeWaits => exact ⟨rfl, by simp⟩
  | upgradableAcquire _ _ _ _ _ r | writeAcquire _ _ _ _ _ r =>
    cases r <;> exact ⟨trivial, by simp⟩
  | waitingBegin _ kind | waitingSleep _ kind | waitingRegister _ kind | waitingListen _ kind
  | waitingConsume _ kind | waitingPending _ kind =>
    cases kind <;> exact ⟨ho, by simp⟩
  | readTake | upgradableTake | writeAcquired | waitingReady =>
    exact ⟨trivial, by simp [Object.Placed]⟩
  | _ => exact ⟨trivial, by simp⟩

/-- A chain is carried on by the object that acts, or the acquiring object at its position
begins it and acquires no more. -/
theorem step_chain (h : step p i c s o = some (s', o', new)) (ho : o.Placed i) {n : Object}
    (hn : n = o' ∨ n ∈ new) {chain : Nat} (hChain : n.chain = some chain) :
    o.chain = some chain ∨ (i = chain ∧ o.acquires = true ∧ o'.acquires = false) := by
  cases step_acts h with
  | tryUpgradableTake | tryWriteTake =>
    rcases hn with rfl | hn
    · exact .inr ⟨Option.some.inj hChain, rfl, rfl⟩
    · cases hn
  | upgradableTake | writeAcquired =>
    rcases hn with rfl | hn
    · cases hChain
    · rw [List.mem_singleton.mp hn] at hChain
      exact .inr ⟨Option.some.inj hChain, rfl, rfl⟩
  | waitingReady _ kind =>
    rcases hn with rfl | hn
    · cases hChain
    · rw [List.mem_singleton.mp hn] at hChain
      cases kind with
      | write => exact .inr ⟨ho.symm.trans (Option.some.inj hChain), rfl, rfl⟩
      | upgrade => exact .inl hChain
  | readTake =>
    rcases hn with rfl | hn
    · cases hChain
    · rw [List.mem_singleton.mp hn] at hChain
      cases hChain
  | upgradableAcquire _ _ _ _ _ r | writeAcquire _ _ _ _ _ r =>
    rcases hn with rfl | hn
    · cases r <;> cases hChain
    · cases hn
  | waitingBegin _ kind | waitingSleep _ kind | waitingRegister _ kind | waitingListen _ kind
  | waitingConsume _ kind | waitingPending _ kind =>
    rcases hn with rfl | hn
    · cases kind
      · cases hChain
      · exact .inl hChain
    · cases hn
  | tryUpgrade | tryUpgradeFail | upgrade | downgradeToUpgradable | writeValue =>
    rcases hn with rfl | hn
    · exact .inl hChain
    · cases hn
  | _ =>
    rcases hn with rfl | hn
    · cases hChain
    · cases hn

theorem step_acquires (h : step p i c s o = some (s', o', new)) (ho : o.acquires = false) :
    o'.acquires = false := by
  cases step_acts h with
  | upgradableAcquire _ _ _ _ _ r | writeAcquire _ _ _ _ _ r => cases ho
  | waitingBegin _ kind | waitingSleep _ kind | waitingRegister _ kind | waitingListen _ kind
  | waitingConsume _ kind | waitingPending _ kind => cases kind <;> exact ho
  | tryUpgradableLock | tryUpgradableLoad | tryUpgradableRetry | upgradableLoad
  | upgradableRetry | tryWriteLock | writeSetBit | writeSetBitAgain | writeListen
  | writeWaits => cases ho
  | _ => rfl

theorem step_chain_ends (h : step p i c s o = some (s', o', new)) {chain : Nat}
    (hChain : o.chain = some chain) :
    (o'.chain = some chain ∨ ∃ n ∈ new, n.chain = some chain) ∨ c = .drop ∨ c = .downgrade := by
  cases step_acts h with
  | upgradableUnlockLast | upgradableUnlock | waitingCancel | writeUnlock => exact .inr (.inl rfl)
  | upgradableDowngrade | writeDowngrade => exact .inr (.inr rfl)
  | waitingReady _ kind =>
    cases kind
    · cases hChain
    · exact .inl (.inr ⟨_, List.mem_singleton_self _, hChain⟩)
  | waitingBegin _ kind | waitingSleep _ kind | waitingRegister _ kind | waitingListen _ kind
  | waitingConsume _ kind | waitingPending _ kind =>
    cases kind
    · cases hChain
    · exact .inl (.inl hChain)
  | tryUpgrade | tryUpgradeFail | upgrade | downgradeToUpgradable | writeValue =>
    exact .inl (.inl hChain)
  | _ => cases hChain

theorem step_value (h : step p i c s o = some (s', o', new)) (hNe : s'.value ≠ s.value) :
    ∃ arc chain value, o = .writeGuard arc chain ∧ c = .write value ∧ s'.value = value := by
  have hDiscard (listener : Bool) : (discardLockOps i s listener).value = s.value ∧
      (discardNoReaders i s listener).value = s.value ∧
      (discardNoWriter i s listener).value = s.value := by
    cases listener <;> exact ⟨rfl, rfl, rfl⟩
  cases step_acts h with
  | writeValue arc chain value => exact ⟨arc, chain, value, rfl, rfl, rfl⟩
  | readCancelListener => exact absurd (hDiscard _).2.2 hNe
  | readFinish => exact absurd (hDiscard _).2.2 hNe
  | writeFinish | writeUnlocked => exact absurd (hDiscard _).2.1 hNe
  | upgradableFinish | writeAcquired | writeWaits => exact absurd (hDiscard _).1 hNe
  | _ => exact absurd rfl hNe

theorem step_readLife (h : step p i c s o = some (s', o', new)) (ho : o.ReadLife) :
    o'.ReadLife ∧ (o'.readsOnly = true → o.readsOnly = true) := by
  cases step_acts h with
  | readUnlockLast => exact ⟨.inr (.inl rfl), fun _ => rfl⟩
  | readUnlock => exact ⟨.inr (.inr rfl), fun _ => rfl⟩
  | readNotify => exact ⟨.inr (.inr rfl), fun hReads => nomatch hReads⟩
  | upgradableDowngraded | writeDowngradeMutex | writeDowngradeNotifyOps | writeDowngraded =>
    exact ⟨.inl rfl, fun _ => rfl⟩
  | _ => rcases ho with ho | ho | ho <;> cases ho

/-! ## Whole runs -/

def Held (chain : Nat) (s : State (RwLock α) Object) : Prop :=
  ∃ o ∈ s.pool, o.chain = some chain

/-- The object at the position of the chain has acquired the lock, or has failed to. -/
def Begun (chain : Nat) (s : State (RwLock α) Object) : Prop :=
  ∃ o, s.pool[chain]? = some o ∧ o.acquires = false

variable {value : α} {s t s' : State (RwLock α) Object} {chain : Nat}

theorem placed_of_reaches (h : (machine p).Reaches (initial value) s) {i : Nat} {o : Object}
    (hGet : s.pool[i]? = some o) : o.Placed i :=
  Machine.forall_at_of_reaches h (by simp [initial]) (fun _ _ k => by cases k <;> exact trivial)
    (fun _ _ _ _ _ _ _ hAct ho => step_placed hAct ho) i o hGet

theorem begun_of_begun (h : (machine p).Reaches s t) (hBegun : Begun chain s) : Begun chain t := by
  obtain ⟨o, hGet, ho⟩ := hBegun
  exact Machine.stable_at (P := fun o => o.acquires = false)
    (fun _ _ _ _ _ _ _ hAct ho => step_acquires hAct ho) h hGet ho

/-- A chain that a step begins has not begun before. -/
theorem held_of_step (h : (machine p).Reaches (initial value) s) (hStep : (machine p).Step s t)
    (hHeld : Held chain t) : Held chain s ∨ (Begun chain t ∧ ¬ Begun chain s) := by
  obtain ⟨n, hn, hChain⟩ := hHeld
  rcases Machine.step_cases hStep with ⟨k, rfl⟩ | ⟨i, c, o, m, o', new, hGet, hAct, rfl⟩
  · rcases List.mem_append.mp hn with hn | hn
    · exact .inl ⟨n, hn, hChain⟩
    · rw [List.mem_singleton.mp hn] at hChain
      cases k <;> cases hChain
  · rcases mem_of_act hn with hOld | hMade
    · exact .inl ⟨n, hOld, hChain⟩
    · rcases step_chain hAct (placed_of_reaches h hGet) hMade hChain with
        hCarried | ⟨rfl, hAcquires, hDone⟩
      · exact .inl ⟨o, List.mem_of_getElem? hGet, hCarried⟩
      · refine .inr ⟨⟨o', get_act_self hGet o' new, hDone⟩, ?_⟩
        rintro ⟨q, hq, hBegun⟩
        rw [hGet] at hq
        cases hq
        rw [hAcquires] at hBegun
        cases hBegun

theorem begun_of_held (h : (machine p).Reaches (initial value) s) (hHeld : Held chain s) :
    Begun chain s := by
  refine Machine.invariant (P := fun s => Held chain s → Begun chain s) h ?_ ?_ hHeld
  · rintro ⟨o, ho, _⟩
    cases ho
  · intro s t hPast hStep hs hHeld
    rcases held_of_step hPast hStep hHeld with hBefore | ⟨hBegun, _⟩
    · exact begun_of_begun (.single hStep) (hs hBefore)
    · exact hBegun

theorem held_between (h : (machine p).Reaches (initial value) s)
    (hBefore : (machine p).Reaches s t) (hAfter : (machine p).Reaches t s')
    (hStart : Held chain s) (hEnd : Held chain s') : Held chain t := by
  by_contra hNot
  have hBegun := begun_of_begun hBefore (begun_of_held h hStart)
  have hOver : ¬ Held chain s' ∧ Begun chain s' := by
    refine Machine.invariant (P := fun s => ¬ Held chain s ∧ Begun chain s) hAfter
      ⟨hNot, hBegun⟩ ?_
    rintro u u' hPast hStep ⟨hNone, hBegun⟩
    refine ⟨fun hHeld => ?_, begun_of_begun (.single hStep) hBegun⟩
    rcases held_of_step (h.trans (hBefore.trans hPast)) hStep hHeld with hHeld | ⟨_, hFresh⟩
    · exact hNone hHeld
    · exact hFresh hBegun
  exact hOver.1 hEnd

theorem alive_of_reaches (h : (machine p).Reaches s t) (hAlive : Alive Object.Aborted t) :
    Alive Object.Aborted s := by
  induction h with
  | refl => exact hAlive
  | tail _ hStep ih => exact ih (Machine.alive_of_step aborted_stuck hStep hAlive)

theorem held_excludes (h : (machine p).Reaches (initial value) t)
    (hAlive : Alive Object.Aborted t) (hHeld : Held chain t) :
    ∃ (i : Nat) (o : Object), t.pool[i]? = some o ∧ o.chain = some chain ∧
      ∀ (j : Nat) (o' : Object), t.pool[j]? = some o' → o'.owner.isSome → j = i := by
  obtain ⟨o, ho, hChain⟩ := hHeld
  obtain ⟨i, hGet⟩ := List.getElem?_of_mem ho
  exact ⟨i, o, hGet, hChain, fun j o' hj hOwner =>
    owner_unique h hAlive hj hGet hOwner (Object.chain_owner hChain)⟩

theorem value_of_held (h : (machine p).Reaches (initial value) t)
    (hAlive : Alive Object.Aborted t) (hHeld : Held chain t) {a : Action Call (Choice α)}
    (hNext : (machine p).next t a = some s') (hNe : s'.mem.value ≠ t.mem.value) :
    ∃ (i : Nat) (arc : Bool) (v : α), a = .act i (.write v) ∧
      t.pool[i]? = some (.writeGuard arc chain) ∧ s'.mem.value = v := by
  rcases Machine.next_others hNext with ⟨k, rfl, rfl⟩ |
    ⟨i, c, o, m, o', new, others, rfl, hGet, hAct, rfl, _⟩
  · exact absurd rfl hNe
  · obtain ⟨arc, chain', v, rfl, rfl, hValue⟩ := step_value hAct hNe
    obtain ⟨j, q, hj, hChain, hOnly⟩ := held_excludes h hAlive hHeld
    obtain rfl := hOnly i _ hGet rfl
    rw [hGet] at hj
    cases hj
    cases hChain
    exact ⟨i, arc, v, rfl, hGet, hValue⟩

theorem chain_ends {a : Action Call (Choice α)} (hHeld : Held chain t)
    (hNext : (machine p).next t a = some s') (hEnd : ¬ Held chain s') :
    ∃ (i : Nat) (o : Object), t.pool[i]? = some o ∧ o.chain = some chain ∧
      (a = .act i .drop ∨ a = .act i .downgrade) := by
  obtain ⟨q, hq, hChain⟩ := hHeld
  cases a with
  | call k =>
    cases hNext
    exact absurd ⟨q, List.mem_append_left _ hq, hChain⟩ hEnd
  | act i c =>
    obtain ⟨o, m, o', new, hGet, hAct, rfl⟩ := Machine.next_act hNext
    obtain ⟨hi, _⟩ := List.getElem?_eq_some_iff.mp hGet
    obtain ⟨j, hj⟩ := List.getElem?_of_mem hq
    by_cases hij : i = j
    · subst hij
      rw [hGet] at hj
      cases hj
      refine ⟨i, _, hGet, hChain, ?_⟩
      rcases step_chain_ends hAct hChain with (hSelf | ⟨n, hn, hNew⟩) | rfl | rfl
      · exact absurd ⟨o', List.mem_append_left _ (List.mem_set hi o'), hSelf⟩ hEnd
      · exact absurd ⟨n, List.mem_append_right _ hn, hNew⟩ hEnd
      · exact .inl rfl
      · exact .inr rfl
    · have hStay := get_act_other hj (Ne.symm hij) o' new
      exact absurd ⟨q, List.mem_of_getElem? hStay, hChain⟩ hEnd

theorem no_writeGuard (h : (machine p).Reaches (initial value) t)
    (hAlive : Alive Object.Aborted t) {i : Nat} {o : Object} (hGet : t.pool[i]? = some o)
    (hReads : o.readsOnly = true) (j : Nat) (arc : Bool) (chain : Nat) :
    t.pool[j]? ≠ some (.writeGuard arc chain) := by
  intro hGuard
  have hNone := (writeGuard_excludes h hAlive hGuard).2.1
  have hOne := le_census Object.reader (List.mem_of_getElem? hGet)
  rw [Object.readsOnly_reader hReads] at hOne
  unfold readers at hNone
  omega

/-- From the beginning of its life until it is dropped a read guard sees one value. -/
theorem value_of_readsOnly (h : (machine p).Reaches (initial value) s)
    (hPath : (machine p).Reaches s t) (hAlive : Alive Object.Aborted t) {i : Nat} {o o' : Object}
    (hGet : s.pool[i]? = some o) (hLife : o.ReadLife) (hGet' : t.pool[i]? = some o')
    (hReads : o'.readsOnly = true) : t.mem.value = s.mem.value := by
  have hSeen : ∃ q, t.pool[i]? = some q ∧ q.ReadLife ∧
      (q.readsOnly = true → t.mem.value = s.mem.value) := by
    apply Machine.invariant_alive (P := fun t => ∃ q, t.pool[i]? = some q ∧ q.ReadLife ∧
      (q.readsOnly = true → t.mem.value = s.mem.value)) aborted_stuck hPath hAlive
      ⟨o, hGet, hLife, fun _ => rfl⟩
    rintro u u' hPast hBefore ⟨a, hNext⟩ _ ⟨q, hq, hLife, hSame⟩
    have hReach := h.trans hPast
    -- nothing is written in a step from a state in which the object only reads
    have hValue (hReads : q.readsOnly = true) : u'.mem.value = s.mem.value := by
      rw [← hSame hReads]
      by_contra hNe
      rcases Machine.next_others hNext with ⟨k, rfl, rfl⟩ |
        ⟨j, c, g, m, g', new, others, rfl, hj, hAct, rfl, _⟩
      · exact hNe rfl
      · obtain ⟨arc, chain, v, rfl, _⟩ := step_value hAct hNe
        exact no_writeGuard hReach hBefore hq hReads j arc chain hj
    rcases Machine.get_of_step ⟨a, hNext⟩ hq with hStay | ⟨c, m, q', new, hAct, hq'⟩
    · exact ⟨q, hStay, hLife, hValue⟩
    · obtain ⟨hLife', hBack⟩ := step_readLife hAct hLife
      exact ⟨q', hq', hLife', fun hReads => hValue (hBack hReads)⟩
  obtain ⟨q, hq, _, hSame⟩ := hSeen
  rw [hGet'] at hq
  cases hq
  exact hSame hReads

theorem downgrade_readLife {i : Nat} {o : Object} (hGet : s.pool[i]? = some o) {chain : Nat}
    (hChain : o.chain = some chain) (hNext : (machine p).next s (.act i .downgrade) = some t) :
    t.mem.value = s.mem.value ∧ ∃ o', t.pool[i]? = some o' ∧ o'.ReadLife := by
  obtain ⟨m, o', new, hAct, rfl⟩ := Machine.next_act_at hGet hNext
  have hGet' := get_act_self hGet o' new
  cases o with
  | upgradableGuard | writeGuard =>
    cases hAct
    exact ⟨rfl, _, hGet', .inl rfl⟩
  | waiting => cases hAct
  | _ => cases hChain

/-- `try_upgrade` succeeds exactly where no other object is an active reader, and otherwise
changes nothing. -/
theorem tryUpgrade_iff (h : (machine p).Reaches (initial value) t)
    (hAlive : Alive Object.Aborted t) {i : Nat} {arc : Bool} {chain : Nat}
    (hGuard : t.pool[i]? = some (.upgradableGuard arc chain)) :
    ((∀ (j : Nat) (o : Object), t.pool[j]? = some o → j ≠ i → o.reader = 0) →
      (machine p).next t (.act i .tryUpgrade) =
        some ⟨{ t.mem with state := writerBit }, t.pool.set i (.writeGuard arc chain)⟩) ∧
    ((∃ (j : Nat) (o : Object), t.pool[j]? = some o ∧ j ≠ i ∧ 0 < o.reader) →
      (machine p).next t (.act i .tryUpgrade) = some t) := by
  have hLedger := ledger_of_reaches h hAlive
  obtain ⟨others, hPool, hSet⟩ := exists_others hGuard
  rw [hPool Object.reader, hPool Object.holder] at hLedger
  have hState := hLedger.holder_state.1
  refine ⟨fun hAlone => ?_, fun hOther => ?_⟩
  · have hNone : census Object.reader others = 0 := by
      by_contra hPos
      have hGone := hSet .gone Object.reader
      obtain ⟨o, ho, hReader⟩ := (census_pos_iff Object.reader (t.pool.set i .gone)).mp (by omega)
      obtain ⟨j, hj⟩ := List.getElem?_of_mem ho
      by_cases hij : i = j
      · subst hij
        rw [List.getElem?_set_self (List.getElem?_eq_some_iff.mp hGuard).1] at hj
        cases hj
        cases hReader
      · rw [List.getElem?_set_ne hij] at hj
        rw [hAlone j o hj (Ne.symm hij)] at hReader
        cases hReader
    have hTwo : t.mem.state = oneReader := by
      rw [hState, hNone]
      rfl
    simp [Machine.next, hGuard, machine, step, stepUpgradableGuard, compareExchange, hTwo, alone]
  · obtain ⟨j, o, hj, hji, hReader⟩ := hOther
    have hBoth := add_le_census Object.reader hji hj hGuard
    have hSelf : (Object.upgradableGuard arc chain).reader = 1 := rfl
    have hMore : t.mem.state ≠ oneReader := by
      rw [hPool] at hBoth
      rw [hState, hSelf]
      unfold oneReader
      omega
    have hSame : t.pool.set i (.upgradableGuard arc chain) = t.pool := by
      obtain ⟨hi, hEq⟩ := List.getElem?_eq_some_iff.mp hGuard
      rw [← hEq, List.set_getElem_self]
    simp [Machine.next, hGuard, machine, step, stepUpgradableGuard, compareExchange, hMore, alone,
      hSame]

/-- Conversions are atomic. A chain that is held from one state to another is held in every
state between, by the only owner of the mutex; the value changes only through its own write
guard; it ends by the drop or the downgrade of what carries it. After a downgrade there is no
write guard and the value stays, until the read guard is dropped. `try_upgrade` succeeds exactly
where no other reader is active and otherwise changes nothing. -/
theorem conversions_atomic (h : (machine p).Reaches (initial value) s)
    (hBefore : (machine p).Reaches s t) (hAfter : (machine p).Reaches t s')
    (hAlive : Alive Object.Aborted s') :
    (∀ chain, Held chain s → Held chain s' →
      (∃ (i : Nat) (o : Object), t.pool[i]? = some o ∧ o.chain = some chain ∧
        ∀ (j : Nat) (o' : Object), t.pool[j]? = some o' → o'.owner.isSome → j = i) ∧
      ∀ a u, (machine p).next t a = some u →
        (u.mem.value ≠ t.mem.value → ∃ (i : Nat) (arc : Bool) (v : α), a = .act i (.write v) ∧
          t.pool[i]? = some (.writeGuard arc chain) ∧ u.mem.value = v) ∧
        (¬ Held chain u → ∃ (i : Nat) (o : Object), t.pool[i]? = some o ∧
          o.chain = some chain ∧ (a = .act i .drop ∨ a = .act i .downgrade))) ∧
    (∀ (i : Nat) (o o' : Object) (chain : Nat) (u : State (RwLock α) Object),
      s.pool[i]? = some o → o.chain = some chain →
      (machine p).next s (.act i .downgrade) = some u → (machine p).Reaches u t →
      t.pool[i]? = some o' → o'.readsOnly = true →
        t.mem.value = s.mem.value ∧ ∀ (j : Nat) (arc : Bool) (chain : Nat),
          t.pool[j]? ≠ some (.writeGuard arc chain)) ∧
    ∀ (i : Nat) (arc : Bool) (chain : Nat), t.pool[i]? = some (.upgradableGuard arc chain) →
      ((∀ (j : Nat) (o : Object), t.pool[j]? = some o → j ≠ i → o.reader = 0) →
        (machine p).next t (.act i .tryUpgrade) =
          some ⟨{ t.mem with state := writerBit }, t.pool.set i (.writeGuard arc chain)⟩) ∧
      ((∃ (j : Nat) (o : Object), t.pool[j]? = some o ∧ j ≠ i ∧ 0 < o.reader) →
        (machine p).next t (.act i .tryUpgrade) = some t) := by
  have hReach := h.trans hBefore
  have hAlive' := alive_of_reaches hAfter hAlive
  refine ⟨fun chain hStart hEnd => ?_,
    fun i o o' chain u hGet hChain hNext hPath hGet' hReads => ?_,
    fun i arc chain hGuard => tryUpgrade_iff hReach hAlive' hGuard⟩
  · have hHeld := held_between h hBefore hAfter hStart hEnd
    exact ⟨held_excludes hReach hAlive' hHeld, fun a u hNext =>
      ⟨value_of_held hReach hAlive' hHeld hNext, chain_ends hHeld hNext⟩⟩
  · obtain ⟨hValue, q, hq, hLife⟩ := downgrade_readLife hGet hChain hNext
    refine ⟨?_, no_writeGuard hReach hAlive' hGet' hReads⟩
    rw [← hValue]
    exact value_of_readsOnly (h.tail ⟨_, hNext⟩) hPath hAlive' hq hLife hGet' hReads

def upgradableHeld : State (RwLock Nat) Object :=
  ⟨⟨⟨1, Event.new⟩, Event.new, Event.new, 2, 7⟩, [.upgradableGuard false 0]⟩

def upgradedAndWritten : State (RwLock Nat) Object :=
  ⟨⟨⟨1, Event.new⟩, Event.new, Event.new, 1, 8⟩, [.writeGuard false 0]⟩

def upgradableAgain : State (RwLock Nat) Object :=
  ⟨⟨⟨1, Event.new⟩, Event.new, Event.new, 2, 8⟩, [.upgradableGuard false 0]⟩

def downgraded : State (RwLock Nat) Object :=
  ⟨⟨Mutex.new, Event.new, Event.new, 2, 7⟩, [.readGuard false]⟩

theorem conversions_atomic_upgradeAndWrite :
    (∃ (i : Nat) (o : Object), upgradedAndWritten.pool[i]? = some o ∧ o.chain = some 0 ∧
      ∀ (j : Nat) (o' : Object), upgradedAndWritten.pool[j]? = some o' → o'.owner.isSome → j = i) ∧
    downgraded.mem.value = upgradableHeld.mem.value ∧
    (machine platform64).next upgradableHeld (.act 0 .tryUpgrade) =
      some ⟨{ upgradableHeld.mem with state := writerBit }, [.writeGuard false 0]⟩ := by
  have hStart : (machine platform64).Reaches (initial 7) upgradableHeld :=
    Machine.reaches_of_run _ [.call .tryUpgradableRead, .act 0 (.go false), .act 0 (.go false),
      .act 0 (.go false)] _ _ (by decide +kernel)
  have hWrite : (machine platform64).Reaches upgradableHeld upgradedAndWritten :=
    Machine.reaches_of_run _ [.act 0 .tryUpgrade, .act 0 (.write 8)] _ _ (by decide +kernel)
  have hBack : (machine platform64).Reaches upgradedAndWritten upgradableAgain :=
    Machine.reaches_of_run _ [.act 0 .downgradeToUpgradable] _ _ (by decide +kernel)
  have hEnd : (machine platform64).Reaches upgradableHeld downgraded :=
    Machine.reaches_of_run _ [.act 0 .downgrade, .act 0 (.go false)] _ _ (by decide +kernel)
  refine ⟨((conversions_atomic hStart hWrite hBack ?_).1 0 ?_ ?_).1,
    ((conversions_atomic hStart hEnd .refl ?_).2.1 0 _ (.readGuard false) 0
      ⟨downgraded.mem, [.upgradableDowngrading false]⟩ rfl rfl (by decide +kernel)
      (Machine.reaches_of_run _ [.act 0 (.go false)] _ _ (by decide +kernel)) rfl rfl).1,
    ((conversions_atomic hStart .refl .refl ?_).2.2 0 false 0 rfl).1 ?_⟩
  · simp [Alive, upgradableAgain, Object.Aborted]
  · exact ⟨_, List.mem_singleton_self _, rfl⟩
  · exact ⟨_, List.mem_singleton_self _, rfl⟩
  · simp [Alive, downgraded, Object.Aborted]
  · simp [Alive, upgradableHeld, Object.Aborted]
  · rintro (_ | j) o hGet hNe
    · exact absurd rfl hNe
    · simp [upgradableHeld] at hGet

end AsyncLock.RwLock
