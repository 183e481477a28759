import AsyncLock.OnceCell.Agreement

/-! # The once cell loses no wake-up

An uninitialized cell with a queued initializer has notified one or has a caller that is about
to look at the state again or to notify. An initialized cell has marked every entry of its two
queues, once the caller that has stored the value is past its notifications: `usize::MAX`
entries are all that a queue can hold.
-/
namespace AsyncLock.OnceCell
set_option autoImplicit false

open Interleaving

variable {α : Type*}

namespace Object

/-- Suspended or blocked on `active_initializers`. -/
def ParkedActive : Object α → Prop
  | init _ _ .wait => True
  | _ => False

/-- Suspended or blocked on `passive_waiters`. -/
def ParkedPassive : Object α → Prop
  | wait _ .await => True
  | _ => False

def listensActive : Object α → Bool
  | init _ _ .wait => true
  | init _ _ (.loop listener) | init _ _ (.exchange listener) | init _ _ (.run listener)
  | init _ _ (.write listener _) | init _ _ (.store listener)
  | init _ _ (.notifyActive listener) | init _ _ (.notifyPassive listener)
  | init _ _ (.dropGuard listener) | init _ _ (.notifyNext listener)
  | init _ _ (.leave listener) | init _ _ (.finish listener _) => listener
  | _ => false

/-- It will look at the state again before it may sleep, or notify the next initializer. -/
def rouses : Object α → Nat
  | init _ _ (.loop _) | init _ _ .listen | init _ _ (.exchange _) => 1
  | init _ _ (.notifyNext _) => 1
  | _ => 0

def notifiesActive : Object α → Nat
  | init _ _ (.notifyActive _) | trySet .notifyActive => 1
  | _ => 0

def notifiesPassive : Object α → Nat
  | init _ _ (.notifyActive _) | init _ _ (.notifyPassive _) => 1
  | trySet .notifyActive | trySet .notifyPassive => 1
  | _ => 0

/-- Not in the middle of an operation: a call whose future has not been polled, a caller that
sleeps or awaits its closure, a reference, or what is no more. -/
def Resting : Object α → Prop
  | wait _ .check | wait _ .await => True
  | init _ _ .check | init _ _ .wait | init _ _ (.run _) => True
  | returned _ | gone => True
  | _ => False

theorem Resting.rouses {o : Object α} (h : o.Resting) : o.rouses = 0 := by
  cases o with
  | init blocking init at_ => cases at_ <;> first | rfl | cases h
  | _ => rfl

theorem Resting.notifies {o : Object α} (h : o.Resting) :
    o.notifiesActive = 0 ∧ o.notifiesPassive = 0 := by
  cases o with
  | init blocking init at_ => cases at_ <;> first | exact ⟨rfl, rfl⟩ | cases h
  | _ => first | exact ⟨rfl, rfl⟩ | cases h

theorem Resting.parked {o : Object α} (h : o.Resting) (hListens : o.listensActive = true) :
    o.ParkedActive ∨ o.claims = 1 := by
  cases o with
  | init blocking init at_ =>
    cases at_ with
    | wait => exact .inl trivial
    | run listener => exact .inr rfl
    | check => cases hListens
    | _ => cases h
  | _ => cases hListens

theorem ParkedActive.listens {o : Object α} (h : o.ParkedActive) : o.listensActive = true := by
  cases o with
  | init blocking init at_ => cases at_ <;> first | rfl | cases h
  | _ => cases h

theorem ParkedPassive.listens {o : Object α} (h : o.ParkedPassive) :
    o.listensPassive = true := by
  cases o with
  | wait blocking at_ => cases at_ <;> first | rfl | cases h
  | _ => cases h

end Object

variable {p : Platform} {i : Nat} {c : Choice α} {s s' : OnceCell α} {o o' : Object α}
  {new : List (Object α)}

theorem step_accessActive (h : step p i c s o = some (s', o', new)) :
    Event.Access i s.activeInitializers o.listensActive s'.activeInitializers
      o'.listensActive := by
  obtain ⟨hActs, rfl⟩ := step_acts h
  cases hActs with
  | initListen => exact .listen _
  | initConsume _ _ _ hMark => exact .consume _ hMark
  | initCancel => exact .discard _
  | initLeave _ _ _ listener | initFinish _ _ _ listener =>
    cases listener
    · exact .leave _ _
    · exact .discard _
  | initNotifyActive | trySetNotifyActive => exact .notifyAdditional _ _ _
  | initNotifyNext => exact .notify _ 1 _
  | _ => exact .leave _ _

/-- A caller goes to sleep only after it has found the state other than `Initialized`. -/
theorem step_parks (h : step p i c s o = some (s', o', new)) :
    (o'.ParkedActive → s.state = .initializing) ∧
      (o'.ParkedPassive → s.state ≠ .initialized) := by
  obtain ⟨hActs, _⟩ := step_acts h
  cases hActs with
  | initWait =>
    refine ⟨fun _ => ?_, False.elim⟩
    cases hState : s.state with
    | initializing => rfl
    | _ => simp [step, stepInit, hState] at h
  | waitAwait =>
    refine ⟨False.elim, fun _ hInit => ?_⟩
    simp [step, stepWait, hInit] at h
  | _ => exact ⟨False.elim, False.elim⟩

/-! ## An uninitialized cell -/

/-- Where the cell is uninitialized and an initializer is queued, a wake-up is under way. -/
def Chain (s : OnceCell α) (rousers : Nat) : Prop :=
  s.state = .uninitialized → s.activeInitializers.owners ≠ [] →
    s.activeInitializers.Notified ∨ 0 < rousers

namespace Chain

variable {rousers : Nat}

theorem of_rouses (h : 0 < rousers) : s.Chain rousers := fun _ _ => .inr h

theorem of_state (h : s.state ≠ .uninitialized) : s.Chain rousers :=
  fun hState => absurd hState h

theorem congr (h : s.Chain rousers) (hState : s'.state = s.state)
    (hActive : s'.activeInitializers = s.activeInitializers) : s'.Chain rousers := by
  intro hFree hQueued
  rw [hActive] at hQueued ⊢
  exact h (hState ▸ hFree) hQueued

theorem discardActive (h : s.Chain rousers) (i : Nat) (listener : Bool) :
    (discardActive i s listener).Chain rousers := by
  cases listener with
  | false => exact h
  | true =>
    intro hFree hLeft
    have hQueued : s.activeInitializers.owners ≠ [] := by
      obtain ⟨j, hj⟩ := List.exists_mem_of_ne_nil _ hLeft
      exact List.ne_nil_of_mem ((Event.mem_owners_discard _ _ _).mp hj).2
    exact (h hFree hQueued).imp_left fun hMark => hMark.discard hLeft

end Chain

theorem step_chain (h : step p i c s o = some (s', o', new)) {rousers : Nat}
    (hs : s.Chain (o.rouses + rousers)) : s'.Chain (o'.rouses + rousers) := by
  have hParks := step_parks h
  obtain ⟨hActs, rfl⟩ := step_acts h
  cases hActs with
  | initSlow | initQueue | initFree | initListen | initConsume | initLose | initDropGuard =>
    exact .of_rouses (Nat.add_pos_left Nat.one_pos _)
  | initDone _ _ _ _ hInit => exact .of_state (by simp [hInit])
  | initWait => exact .of_state (by simp [hParks.1 trivial])
  | initBegin | trySetBegin | initStore | trySetStore => exact .of_state nofun
  | initNotifyNext =>
    intro _ hQueued
    exact .inl (Event.notified_notify _ (by decide) (by simpa using hQueued))
  | initNotifyActive | trySetNotifyActive =>
    intro hFree hQueued
    exact (hs hFree (by simpa using hQueued)).imp_left fun hMark => hMark.notifyAdditional _
  | initLeave | initFinish | initCancel => exact hs.discardActive _ _
  | waitCancel | waitReturn => exact hs.congr (by simp) rfl
  | _ => exact hs.congr rfl rfl

/-! ## An initialized cell -/

/-- Both queues are within the count that an event keeps of its entries, a `usize`. -/
def Fits (p : Platform) (s : OnceCell α) : Prop :=
  s.activeInitializers.entries.length ≤ p.usizeMax ∧
    s.passiveWaiters.entries.length ≤ p.usizeMax

/-- Where the cell is initialized and nobody is about to notify the event, every object that
is parked on it has been notified. -/
def Settled (event : OnceCell α → Event) (notifies : Object α → Nat)
    (Parked : Object α → Prop) (s : State (OnceCell α) (Object α)) : Prop :=
  s.mem.state = .initialized → census notifies s.pool = 0 →
    ∀ j o, s.pool[j]? = some o → Parked o → ((event s.mem).markOf j).isSome

/-- The caller that stores `Initialized` notifies each event later on. -/
theorem step_store (h : step p i c s o = some (s', o', new)) (hBefore : s.state ≠ .initialized)
    (hAfter : s'.state = .initialized) : o'.notifiesActive = 1 ∧ o'.notifiesPassive = 1 := by
  obtain ⟨hActs, rfl⟩ := step_acts h
  cases hActs with
  | initStore | trySetStore => exact ⟨rfl, rfl⟩
  | initLeave | initFinish | initCancel | waitCancel | waitReturn =>
    exact absurd (by simpa using hAfter) hBefore
  | initBegin | trySetBegin | initDropGuard => cases hAfter
  | _ => exact absurd hAfter hBefore

theorem step_notifiesActive (h : step p i c s o = some (s', o', new))
    (hNotifies : o.notifiesActive ≠ 0) :
    s'.activeInitializers = s.activeInitializers.notifyAdditional p.usizeMax := by
  obtain ⟨hActs, rfl⟩ := step_acts h
  cases hActs with
  | initNotifyActive | trySetNotifyActive => rfl
  | _ => exact absurd rfl hNotifies

theorem step_notifiesPassive (h : step p i c s o = some (s', o', new))
    (hNotifies : o.notifiesPassive ≠ 0) (hLast : o'.notifiesPassive = 0) :
    s'.passiveWaiters = s.passiveWaiters.notifyAdditional p.usizeMax := by
  obtain ⟨hActs, rfl⟩ := step_acts h
  cases hActs with
  | initNotifyPassive | trySetNotifyPassive => rfl
  | initNotifyActive | trySetNotifyActive => cases hLast
  | _ => exact absurd rfl hNotifies

/-- How the objects use one of the two events: who listens and parks, and who notifies. -/
structure EventUse (p : Platform) (event : OnceCell α → Event) (listens : Object α → Bool)
    (notifies : Object α → Nat) (Parked : Object α → Prop) : Prop where
  listens_of_parked : ∀ o, Parked o → listens o = true
  fresh : ∀ s k, ¬ Parked (create s k)
  access : ∀ i c s o s' o' new, step p i c s o = some (s', o', new) →
    Event.Access i (event s) (listens o) (event s') (listens o')
  parks : ∀ i c s o s' o' new, step p i c s o = some (s', o', new) → Parked o' →
    s.state ≠ .initialized
  store : ∀ i c s o s' o' new, step p i c s o = some (s', o', new) →
    s.state ≠ .initialized → s'.state = .initialized → notifies o' ≠ 0
  notify : ∀ i c s o s' o' new, step p i c s o = some (s', o', new) → notifies o ≠ 0 →
    notifies o' = 0 → event s' = (event s).notifyAdditional p.usizeMax

theorem useActive (p : Platform) : EventUse (α := α) p activeInitializers
    Object.listensActive Object.notifiesActive Object.ParkedActive where
  listens_of_parked _ := Object.ParkedActive.listens
  fresh _ k := by cases k <;> exact id
  access _ _ _ _ _ _ _ := step_accessActive
  parks _ _ _ _ _ _ _ h hParked := by simp [(step_parks h).1 hParked]
  store _ _ _ _ _ _ _ h hBefore hAfter := by simp [(step_store h hBefore hAfter).1]
  notify _ _ _ _ _ _ _ h hNotifies _ := step_notifiesActive h hNotifies

theorem usePassive (p : Platform) : EventUse (α := α) p passiveWaiters
    Object.listensPassive Object.notifiesPassive Object.ParkedPassive where
  listens_of_parked _ := Object.ParkedPassive.listens
  fresh _ k := by cases k <;> exact id
  access _ _ _ _ _ _ _ := step_accessPassive
  parks _ _ _ _ _ _ _ h := (step_parks h).2
  store _ _ _ _ _ _ _ h hBefore hAfter := by simp [(step_store h hBefore hAfter).2]
  notify _ _ _ _ _ _ _ := step_notifiesPassive

theorem EventUse.settled_step {event : OnceCell α → Event} {listens : Object α → Bool}
    {notifies : Object α → Nat} {Parked : Object α → Prop}
    (use : EventUse p event listens notifies Parked) {s s' : State (OnceCell α) (Object α)}
    (hStep : (machine p).Step s s') (hOwned : Owned listens (event s.mem) s.pool)
    (hFits : (event s.mem).entries.length ≤ p.usizeMax)
    (hs : Settled event notifies Parked s) : Settled event notifies Parked s' := by
  rcases Machine.step_others hStep with ⟨k, rfl⟩ |
    ⟨i, c, o, mem, o', new, others, hGet, hAct, rfl, _, hPool, hPool'⟩
  · intro hInit hQuiet j q hq hParked
    rw [census_append] at hQuiet
    rcases get_of_append hq with hOld | ⟨_, rfl⟩
    · exact hs hInit (by omega) j q hOld hParked
    · exact absurd hParked (use.fresh s.mem k)
  · obtain ⟨_, rfl⟩ := step_acts hAct
    intro hInit hQuiet j q hq hParked
    rw [hPool'] at hQuiet
    have hLast : notifies o' = 0 := by omega
    have hBefore : s.mem.state = .initialized := by
      by_contra hNot
      exact use.store i c s.mem o mem o' [] hAct hNot hInit hLast
    rcases get_of_set (List.append_nil _ ▸ hq) with ⟨rfl, rfl⟩ | ⟨hji, hOld⟩
    · exact absurd hBefore (use.parks j c s.mem o mem q [] hAct hParked)
    by_cases hSelf : notifies o = 0
    · apply (use.access i c s.mem o mem o' [] hAct).isSome_markOf_other hji
      exact hs hBefore (by rw [hPool]; omega) j q hOld hParked
    · have hQueued := (hOwned j).mpr ⟨q, hOld, use.listens_of_parked q hParked⟩
      have hEvent := use.notify i c s.mem o mem o' [] hAct hSelf hLast
      simp only [hEvent]
      exact Event.isSome_markOf_notifyAdditional hQueued hFits

/-! ## The whole life of a cell -/

variable {r t : State (OnceCell α) (Object α)}

theorem gone_of_borrows (hFree : ∀ o ∈ t.pool, o.borrows = false) :
    ∀ o ∈ t.pool, o = .gone := by
  intro o ho
  have := hFree o ho
  cases o <;> first | rfl | cases this

theorem ownedActive_of_life (h : Life p t) :
    Owned Object.listensActive t.mem.activeInitializers t.pool := by
  induction h with
  | new => exact Owned.nil _
  | fromValue value => exact Owned.nil _
  | step _ hStep ih =>
    apply Machine.owned_of_step activeInitializers hStep ih
    · intro _ k
      cases k <;> rfl
    · intro i c o m' o' new hAct _
      obtain ⟨_, rfl⟩ := step_acts hAct
      exact ⟨step_accessActive hAct, nofun⟩
  | exclusive _ a _ ih =>
    have hSame (s : OnceCell α) : (s.access a).activeInitializers = s.activeInitializers := by
      cases a <;> simp only [access] <;> split <;> rfl
    rw [hSame]
    exact ih

theorem chain_of_life (h : Life p t) : t.mem.Chain (census Object.rouses t.pool) := by
  induction h with
  | new => exact fun _ hQueued => absurd rfl hQueued
  | fromValue value => exact .of_state nofun
  | step _ hStep ih =>
    rcases Machine.step_others hStep with ⟨k, rfl⟩ |
      ⟨i, c, o, mem, o', new, others, _, hAct, rfl, _, hPool, hPool'⟩
    · cases k <;> simpa [machine, create, Object.rouses] using ih
    · obtain ⟨_, rfl⟩ := step_acts hAct
      rw [hPool] at ih
      rw [hPool']
      exact step_chain hAct ih
  | @exclusive s hLife a hFree _ =>
    -- nothing borrows the cell, so nothing is queued
    intro _ hQueued
    have hOwned := ownedActive_of_life (.exclusive hLife a hFree)
    obtain ⟨j, hj⟩ := List.exists_mem_of_ne_nil _ hQueued
    obtain ⟨o, hGet, hListens⟩ := (hOwned j).mp hj
    rw [gone_of_borrows hFree o (List.mem_of_getElem? hGet)] at hListens
    cases hListens

theorem settled_of_run {event : OnceCell α → Event} {listens : Object α → Bool}
    {notifies : Object α → Nat} {Parked : Object α → Prop}
    (use : EventUse p event listens notifies Parked) (hGone : ¬ Parked .gone)
    (h : Life p r) (hFree : ∀ o ∈ r.pool, o.borrows = false)
    (hOwned : ∀ t, Life p t → Owned listens (event t.mem) t.pool)
    {acts : List (Action (Call α) (Choice α))} (hRun : (machine p).run r acts = some t)
    (hFits : (machine p).Along (fun u _ => (event u.mem).entries.length ≤ p.usizeMax) r acts) :
    Settled event notifies Parked t := by
  apply Machine.invariant_along hRun hFits
  · intro _ _ j o hGet hParked
    rw [gone_of_borrows hFree o (List.mem_of_getElem? hGet)] at hParked
    exact absurd hParked hGone
  · intro u a u' hPast hLength hNext hu
    exact use.settled_step ⟨a, hNext⟩ (hOwned u (life_of_reaches h hPast)) hLength hu

/-- No lost wake-up, over the run of a cell that nothing borrows at first: in a state in which
no caller is in the middle of an operation, an uninitialized cell has notified one of its
parked initializers, and an initialized cell has notified everybody parked on it. -/
theorem parked_caller_notified (h : Life p r) (hFree : ∀ o ∈ r.pool, o.borrows = false)
    {acts : List (Action (Call α) (Choice α))} (hRun : (machine p).run r acts = some t)
    (hResting : ∀ o ∈ t.pool, o.Resting) :
    (t.mem.state = .uninitialized → (∃ o ∈ t.pool, o.ParkedActive) →
      ∃ j o, t.pool[j]? = some o ∧ o.ParkedActive ∧
        (t.mem.activeInitializers.markOf j).isSome) ∧
    ((machine p).Along (fun u _ => u.mem.Fits p) r acts → t.mem.state = .initialized →
      ∀ j o, t.pool[j]? = some o →
        (o.ParkedActive → (t.mem.activeInitializers.markOf j).isSome) ∧
        (o.ParkedPassive → (t.mem.passiveWaiters.markOf j).isSome)) := by
  have hLife := life_of_reaches h (Machine.reaches_of_run _ acts r t hRun)
  refine ⟨fun hState hParked => ?_, fun hFits hInit j o hGet => ⟨?_, ?_⟩⟩
  · obtain ⟨q, hq, hParked⟩ := hParked
    have hOwned := ownedActive_of_life hLife
    have hQueued := hOwned.owners_ne_nil hq hParked.listens
    apply hOwned.exists_parked (chain_of_life hLife hState hQueued)
    · intro o ho hListens
      rcases (hResting o ho).parked hListens with hParked | hClaims
      · exact hParked
      · -- nobody runs a closure while the cell is uninitialized
        have hCount := (sound_of_life hLife).ledger.initializing
        have hLe := le_census Object.claims ho
        rw [hState, if_neg nofun] at hCount
        omega
    · exact fun o ho => (hResting o ho).rouses
  · exact settled_of_run (useActive p) id h hFree (fun _ => ownedActive_of_life) hRun
      (hFits.mono fun _ _ => And.left) hInit
      (census_eq_zero fun o ho => (hResting o ho).notifies.1) j o hGet
  · exact settled_of_run (usePassive p) id h hFree (fun _ hLife => (sound_of_life hLife).owned)
      hRun (hFits.mono fun _ _ => And.right) hInit
      (census_eq_zero fun o ho => (hResting o ho).notifies.2) j o hGet

/-- An initializer is at its closure while another one and a waiter have gone to sleep. -/
def sleepBehindClosure : List (Action (Call Nat) (Choice Nat)) :=
  [.call .getOrInit, .act 0 .go, .act 0 .go, .act 0 .go, .call .getOrInit, .act 1 .go,
    .act 1 .go, .act 1 .go, .act 1 .go, .call .wait, .act 2 .go, .act 2 .go, .act 2 .go]

def panicThere : List (Action (Call Nat) (Choice Nat)) :=
  sleepBehindClosure ++ [.act 0 .panic, .act 0 .go, .act 0 .go, .act 0 .go]

def succeedThere : List (Action (Call Nat) (Choice Nat)) :=
  sleepBehindClosure ++ [.act 0 (.succeed 7), .act 0 .go, .act 0 .go, .act 0 .go, .act 0 .go,
    .act 0 .go, .act 0 .go]

def afterPanic : State (OnceCell Nat) (Object Nat) :=
  ⟨⟨⟨[⟨1, some .single⟩]⟩, ⟨[⟨2, none⟩]⟩, .uninitialized, none⟩,
    [.gone, .init false (.closure false) .wait, .wait false .await]⟩

def afterSuccess : State (OnceCell Nat) (Object Nat) :=
  ⟨⟨⟨[⟨1, some .additional⟩]⟩, ⟨[⟨2, some .additional⟩]⟩, .initialized, some 7⟩,
    [.returned (some 7), .init false (.closure false) .wait, .wait false .await]⟩

instance (p : Platform) (s : OnceCell α) : Decidable (s.Fits p) :=
  inferInstanceAs (Decidable (_ ∧ _))

theorem parked_caller_notified_after_closure :
    (∃ j o, afterPanic.pool[j]? = some o ∧ o.ParkedActive ∧
      (afterPanic.mem.activeInitializers.markOf j).isSome) ∧
    (afterSuccess.mem.activeInitializers.markOf 1).isSome ∧
    (afterSuccess.mem.passiveWaiters.markOf 2).isSome := by
  have hPanic := parked_caller_notified (p := platform64) .new nofun
    (show (machine platform64).run ⟨OnceCell.new, []⟩ panicThere = some afterPanic by
      decide +kernel) (by simp [afterPanic, Object.Resting])
  have hSuccess := (parked_caller_notified (p := platform64) .new nofun
    (show (machine platform64).run ⟨OnceCell.new, []⟩ succeedThere = some afterSuccess by
      decide +kernel) (by simp [afterSuccess, Object.Resting])).2 (by decide +kernel) rfl
  exact ⟨hPanic.1 rfl ⟨.init false (.closure false) .wait, by decide, trivial⟩,
    (hSuccess 1 _ rfl).1 trivial, (hSuccess 2 _ rfl).2 trivial⟩

end AsyncLock.OnceCell
