import AsyncLock.Interleaving.Census
import AsyncLock.OnceCell.Transitions

/-! # One initialization, one value

While the cell is initializing exactly one caller is at work on it, and the slot is empty until
that caller has written it. An object that has seen the cell initialized, or has been woken by
`passive_waiters`, is in a state that stays initialized with the same value until an exclusive
access, which has to wait for that object to be gone.
-/
namespace AsyncLock.OnceCell
set_option autoImplicit false

open Interleaving

variable {α : Type*}

namespace Object

/-- Between the winning `compare_exchange` and the store, with nothing written. -/
def claims : Object α → Nat
  | init _ _ (.run _) | init _ _ (.write _ _) | init _ _ (.dropGuard _) => 1
  | trySet (.write _) => 1
  | _ => 0

def hasWritten : Object α → Nat
  | init _ _ (.store _) | trySet .store => 1
  | _ => 0

/-- The next action is a `get_unchecked`. -/
def readsUnchecked : Object α → Bool
  | get .read | wait _ (.read _) | init _ _ (.read _) | init _ _ .readSet => true
  | _ => false

/-- What the object has read through `get_unchecked`. -/
def reference : Object α → Option (Option α)
  | returned value | wait _ (.dropListener value) => some value
  | _ => none

/-- Past its store of `Initialized`, or past a load that has found it. -/
def hasSeen : Object α → Bool
  | get .read | wait _ (.read _) | wait _ (.dropListener _) | returned _ => true
  | init _ _ (.notifyActive _) | init _ _ (.notifyPassive _) | init _ _ (.finish _ _) => true
  | init _ _ (.read _) | init _ _ .readSet => true
  | trySet .notifyActive | trySet .notifyPassive => true
  | _ => false

def listensPassive : Object α → Bool
  | wait _ .recheck | wait _ .await | wait _ (.dropListener _) => true
  | wait _ (.read listener) => listener
  | _ => false

structure Sees (s : OnceCell α) (o : Object α) : Prop where
  initialized : o.hasSeen = true → s.state = .initialized
  same : ∀ v, o.reference = some v → v = s.value

end Object

structure Ledger (s : OnceCell α) (claims written : Nat) : Prop where
  initializing : claims + written = if s.state = .initializing then 1 else 0
  slot : s.value.isSome ↔ s.state = .initialized ∨ 0 < written

namespace Ledger

variable {s : OnceCell α} {claims written : Nat}

theorem claims_state (h : Ledger s (1 + claims) written) :
    s.state = .initializing ∧ claims = 0 ∧ written = 0 ∧ s.value = none := by
  obtain ⟨hCount, hSlot⟩ := h
  split at hCount
  · rename_i hState
    refine ⟨hState, by omega, by omega, ?_⟩
    rw [← Option.not_isSome_iff_eq_none, hSlot, hState]
    rintro (hNot | hPos)
    · cases hNot
    · omega
  · omega

theorem written_state (h : Ledger s claims (1 + written)) :
    s.state = .initializing ∧ claims = 0 ∧ written = 0 ∧ s.value.isSome := by
  obtain ⟨hCount, hSlot⟩ := h
  split at hCount
  · exact ⟨‹_›, by omega, by omega, hSlot.mpr (.inr (by omega))⟩
  · omega

theorem begin (h : Ledger s claims written) (hFree : s.state = .uninitialized) :
    Ledger { s with state := .initializing } (1 + claims) written := by
  obtain ⟨hCount, hSlot⟩ := h
  rw [hFree, if_neg (by decide)] at hCount
  refine ⟨by simp; omega, ?_⟩
  rw [hSlot, hFree]
  simp

theorem write (h : Ledger s (1 + claims) written) (value : α) :
    Ledger (s.write value) claims (1 + written) := by
  obtain ⟨hState, rfl, rfl, _⟩ := h.claims_state
  exact ⟨by simp [hState], by simp⟩

theorem store (h : Ledger s claims (1 + written)) :
    Ledger (s.store .initialized) claims written := by
  obtain ⟨_, rfl, rfl, hValue⟩ := h.written_state
  exact ⟨rfl, by simp [hValue]⟩

theorem dropGuard (h : Ledger s (1 + claims) written) :
    Ledger (s.store .uninitialized) claims written := by
  obtain ⟨_, rfl, rfl, hValue⟩ := h.claims_state
  exact ⟨rfl, by simp [hValue]⟩

end Ledger

variable {p : Platform} {i : Nat} {c : Choice α} {s s' : OnceCell α} {o o' : Object α}
  {new : List (Object α)}

@[simp] theorem discardActive_fields (i : Nat) (s : OnceCell α) (listener : Bool) :
    (discardActive i s listener).state = s.state ∧ (discardActive i s listener).value = s.value ∧
      (discardActive i s listener).passiveWaiters = s.passiveWaiters := by
  cases listener <;> exact ⟨rfl, rfl, rfl⟩

@[simp] theorem discardPassive_fields (i : Nat) (s : OnceCell α) (listener : Bool) :
    (discardPassive i s listener).state = s.state ∧
      (discardPassive i s listener).value = s.value := by
  cases listener <;> exact ⟨rfl, rfl⟩

theorem Ledger.congr {claims written : Nat} (h : Ledger s claims written)
    (hState : s'.state = s.state) (hValue : s'.value = s.value) : Ledger s' claims written :=
  ⟨by rw [hState]; exact h.initializing, by rw [hState, hValue]; exact h.slot⟩

attribute [local simp] Object.claims Object.hasWritten

/-! ## One step -/

theorem step_ledger (h : step p i c s o = some (s', o', new)) {claims written : Nat}
    (hs : Ledger s (o.claims + claims) (o.hasWritten + written)) :
    Ledger s' (o'.claims + claims) (o'.hasWritten + written) := by
  obtain ⟨hActs, rfl⟩ := step_acts h
  cases hActs with
  | initBegin _ _ _ _ hFree | trySetBegin _ _ hFree =>
    simpa using Ledger.begin (by simpa using hs) hFree
  | initWrite _ _ _ _ value | trySetWrite _ value =>
    simpa using Ledger.write (by simpa using hs) value
  | initStore | trySetStore => simpa using Ledger.store (by simpa using hs)
  | initDropGuard => simpa using Ledger.dropGuard (by simpa using hs)
  | initLeave | initFinish | initCancel | waitCancel | waitReturn =>
    exact hs.congr (by simp) (by simp)
  | _ => exact hs.congr rfl rfl

/-- What an action changes in the state and in the slot: the slot is written by the caller that
is initializing, and nothing changes once the cell is initialized. -/
theorem step_frozen (h : step p i c s o = some (s', o', new)) {claims written : Nat}
    (hs : Ledger s (o.claims + claims) (o.hasWritten + written)) :
    (s.state = .initialized → s'.state = .initialized) ∧
      (s'.value = s.value ∨ (o.claims = 1 ∧ s.state = .initializing ∧ s.value = none ∧
        ∃ v, s'.value = some v)) := by
  obtain ⟨hActs, rfl⟩ := step_acts h
  cases hActs with
  | initBegin _ _ _ _ hFree | trySetBegin _ _ hFree =>
    exact ⟨fun hInit => absurd (hFree.symm.trans hInit) (by decide), .inl rfl⟩
  | initWrite _ _ _ _ value | trySetWrite _ value =>
    obtain ⟨hState, _, _, hValue⟩ := Ledger.claims_state (by simpa using hs)
    exact ⟨id, .inr ⟨rfl, hState, hValue, value, rfl⟩⟩
  | initStore | trySetStore => exact ⟨fun _ => rfl, .inl rfl⟩
  | initDropGuard =>
    obtain ⟨hState, _⟩ := Ledger.claims_state (by simpa using hs)
    exact ⟨fun hInit => absurd (hState.symm.trans hInit) (by decide), .inl rfl⟩
  | initLeave | initFinish | initCancel | waitCancel | waitReturn =>
    exact ⟨fun hInit => by simpa using hInit, .inl (by simp)⟩
  | _ => exact ⟨id, .inl rfl⟩

theorem Object.Sees.mono {q : Object α} (h : q.Sees s)
    (hState : s.state = .initialized → s'.state = .initialized)
    (hValue : s.state = .initialized → s'.value = s.value) : q.Sees s' := by
  refine ⟨fun hSeen => hState (h.initialized hSeen), fun v hv => ?_⟩
  have hSeen : q.hasSeen = true := by
    cases q with
    | wait blocking at_ => cases at_ <;> first | rfl | cases hv
    | returned => rfl
    | _ => cases hv
  rw [hValue (h.initialized hSeen)]
  exact h.same v hv

theorem step_sees (h : step p i c s o = some (s', o', new)) (ho : o.Sees s)
    (hPassive : s.passiveWaiters.Notified → s.state = .initialized) : o'.Sees s' := by
  obtain ⟨hActs, rfl⟩ := step_acts h
  cases hActs with
  | getSome _ hInit | waitFast _ _ hInit | waitAgain _ _ hInit | initFast _ _ _ hInit
  | initDone _ _ _ _ hInit => exact ⟨fun _ => hInit, nofun⟩
  | waitConsume _ _ hMark => exact ⟨fun _ => hPassive (Event.notified_of_markOf hMark), nofun⟩
  | getRead | waitRead | waitReadListener | initRead | setReturn =>
    exact ⟨fun _ => ho.initialized rfl, fun v hv => (Option.some.inj hv).symm⟩
  | waitReturn _ _ value =>
    refine ⟨fun _ => by simpa using ho.initialized rfl, fun v hv => ?_⟩
    cases hv
    simpa using ho.same value rfl
  | initStore | trySetStore => exact ⟨fun _ => rfl, nofun⟩
  | initNotifyActive | initNotifyPassive | trySetNotifyActive | setRead =>
    exact ⟨fun _ => ho.initialized rfl, nofun⟩
  | initFinish => exact ⟨fun _ => by simpa using ho.initialized rfl, nofun⟩
  | _ => exact ⟨nofun, nofun⟩

theorem step_accessPassive (h : step p i c s o = some (s', o', new)) :
    Event.Access i s.passiveWaiters o.listensPassive s'.passiveWaiters o'.listensPassive := by
  obtain ⟨hActs, rfl⟩ := step_acts h
  cases hActs with
  | waitListen => exact .listen _
  | waitConsume _ _ hMark => exact .consume _ hMark
  | waitCancel | waitReturn => exact .discard _
  | initNotifyPassive | trySetNotifyPassive => exact .notifyAdditional _ _ _
  | initLeave _ _ _ listener | initFinish _ _ _ listener => cases listener <;> exact .leave _ _
  | _ => exact .leave _ _

/-- Only an object that has seen the cell initialized notifies `passive_waiters`. -/
theorem step_passive (h : step p i c s o = some (s', o', new)) (ho : o.Sees s)
    (hPassive : s.passiveWaiters.Notified → s.state = .initialized)
    (hMark : s'.passiveWaiters.Notified) : s.state = .initialized := by
  obtain ⟨hActs, rfl⟩ := step_acts h
  cases hActs with
  | initNotifyPassive | trySetNotifyPassive => exact ho.initialized rfl
  | waitListen => exact hPassive hMark.of_listen
  | waitConsume => exact hPassive hMark.of_remove
  | waitCancel | waitReturn => exact hPassive hMark.of_discard
  | initLeave | initFinish | initCancel => exact hPassive (by simpa using hMark)
  | _ => exact hPassive hMark

/-! ## The whole life of a cell -/

structure Sound (s : State (OnceCell α) (Object α)) : Prop where
  ledger : Ledger s.mem (census Object.claims s.pool) (census Object.hasWritten s.pool)
  sees : ∀ o ∈ s.pool, o.Sees s.mem
  passive : s.mem.passiveWaiters.Notified → s.mem.state = .initialized
  owned : Owned Object.listensPassive s.mem.passiveWaiters s.pool

namespace Sound

variable {s s' : State (OnceCell α) (Object α)}

theorem create (h : Sound s) (k : Call α) :
    Sound ⟨s.mem, s.pool ++ [(machine p).create s.mem k]⟩ := by
  refine ⟨?_, fun o ho => ?_, h.passive, ?_⟩
  · have := h.ledger
    cases k <;> simpa [machine, OnceCell.create] using this
  · rcases List.mem_append.mp ho with ho | ho
    · exact h.sees o ho
    · rw [List.mem_singleton.mp ho]
      cases k <;> exact ⟨nofun, nofun⟩
  · exact h.owned.append (by cases k <;> simp [machine, OnceCell.create, Object.listensPassive])

theorem step (h : Sound s) (hStep : (machine p).Step s s') : Sound s' := by
  rcases Machine.step_others hStep with ⟨k, rfl⟩ |
    ⟨i, c, o, mem, o', new, others, hGet, hAct, rfl, hMem, hPool, hPool'⟩
  · exact h.create k
  · obtain ⟨_, rfl⟩ := step_acts hAct
    have hLedger := h.ledger
    have hSelf := h.sees o (List.mem_of_getElem? hGet)
    rw [hPool, hPool] at hLedger
    obtain ⟨hState, hValue⟩ := step_frozen hAct hLedger
    have hSame (hInit : s.mem.state = .initialized) : mem.value = s.mem.value := by
      rcases hValue with hEq | ⟨_, hClaim, _⟩
      · exact hEq
      · exact absurd (hClaim.symm.trans hInit) (by decide)
    refine ⟨?_, fun q hq => ?_, fun hMark => ?_, ?_⟩
    · rw [hPool', hPool']
      exact step_ledger hAct hLedger
    · rcases mem_of_act hq with hOld | rfl | hNew
      · exact (h.sees q hOld).mono hState hSame
      · exact step_sees hAct hSelf h.passive
      · cases hNew
    · exact hState (step_passive hAct hSelf h.passive hMark)
    · exact h.owned.act hGet (step_accessPassive hAct) (by simp)

/-- An exclusive access finds no object that has seen anything and no listener. -/
theorem exclusive (h : Sound s) (hFree : ∀ o ∈ s.pool, o.borrows = false) (a : Access α) :
    Sound ⟨s.mem.access a, s.pool⟩ := by
  have hGone (o : Object α) (ho : o ∈ s.pool) : o = .gone := by
    have := hFree o ho
    cases o <;> first | rfl | cases this
  have hZero (f : Object α → Nat) (hf : f .gone = 0) : census f s.pool = 0 :=
    census_eq_zero fun o ho => by rw [hGone o ho, hf]
  have hQuiet : ¬ s.mem.passiveWaiters.Notified := by
    apply Event.not_notified_of_owners
    rw [List.eq_nil_iff_forall_not_mem]
    intro j hj
    obtain ⟨o, hGet, hListens⟩ := (h.owned j).mp hj
    rw [hGone o (List.mem_of_getElem? hGet)] at hListens
    cases hListens
  have hWaiters : (s.mem.access a).passiveWaiters = s.mem.passiveWaiters := by
    cases a <;> simp only [access] <;> split <;> rfl
  refine ⟨?_, fun o ho => ?_, fun hMark => ?_, ?_⟩
  · have hLedger := h.ledger
    simp only [hZero Object.claims rfl, hZero Object.hasWritten rfl] at hLedger ⊢
    cases a <;> simp only [access] <;> split
    · rename_i hInit
      exact ⟨by simp [hInit], by simp [hInit]⟩
    · exact hLedger
    · exact ⟨by simp, by simp⟩
    · exact hLedger
  · rw [hGone o ho]
    exact ⟨nofun, nofun⟩
  · exact absurd (hWaiters ▸ hMark) hQuiet
  · simp only [hWaiters]
    exact h.owned

end Sound

theorem sound_of_life {s : State (OnceCell α) (Object α)} (h : Life p s) : Sound s := by
  induction h with
  | new =>
    exact ⟨⟨rfl, by simp [OnceCell.new]⟩, nofun,
      fun hMark => absurd hMark (Event.not_notified_of_owners rfl), Owned.nil _⟩
  | fromValue value =>
    exact ⟨⟨rfl, by simp [OnceCell.fromValue]⟩, nofun, fun _ => rfl, Owned.nil _⟩
  | step _ hStep ih => exact ih.step hStep
  | exclusive _ a hFree ih => exact ih.exclusive hFree a

/-! ## Between two exclusive accesses -/

variable {r t u : State (OnceCell α) (Object α)}

theorem life_of_reaches (h : Life p r) (hPath : (machine p).Reaches r t) : Life p t := by
  induction hPath with
  | refl => exact h
  | tail _ hStep ih => exact ih.step hStep

def initializers (s : State (OnceCell α) (Object α)) : Nat :=
  census (fun o => o.claims + o.hasWritten) s.pool

theorem initializers_eq (h : Life p t) :
    initializers t = if t.mem.state = .initializing then 1 else 0 := by
  rw [initializers, census_add]
  exact (sound_of_life h).ledger.initializing

/-- The slot is written only while it is empty, by the caller that is initializing. -/
theorem write_of_step (h : Life p t) {a : Action (Call α) (Choice α)}
    (hNext : (machine p).next t a = some u) (hNe : u.mem.value ≠ t.mem.value) :
    ∃ i c o, a = .act i c ∧ t.pool[i]? = some o ∧ o.claims = 1 ∧
      t.mem.state = .initializing ∧ t.mem.value = none ∧ ∃ v, u.mem.value = some v := by
  rcases Machine.next_others hNext with ⟨k, rfl, rfl⟩ |
    ⟨i, c, o, m, o', new, others, rfl, hGet, hAct, rfl, _, hPool, _⟩
  · exact absurd rfl hNe
  · have hLedger := (sound_of_life h).ledger
    rw [hPool, hPool] at hLedger
    rcases (step_frozen hAct hLedger).2 with hSame | ⟨hClaims, hState, hNone, hSome⟩
    · exact absurd hSame hNe
    · exact ⟨i, c, o, rfl, hGet, hClaims, hState, hNone, hSome⟩

theorem value_stays (h : Life p t) (hPath : (machine p).Reaches t u) {v : α}
    (hValue : t.mem.value = some v) : u.mem.value = some v := by
  apply Machine.invariant (P := fun u => u.mem.value = some v) hPath hValue
  rintro w w' hPast ⟨a, hNext⟩ hw
  by_contra hNe
  obtain ⟨_, _, _, _, _, _, _, hNone, _⟩ :=
    write_of_step (life_of_reaches h hPast) hNext (by rwa [hw])
  rw [hw] at hNone
  cases hNone

theorem initialized_stays (h : Life p t) (hPath : (machine p).Reaches t u)
    (hInit : t.mem.state = .initialized) : u.mem.state = .initialized := by
  apply Machine.invariant (P := fun u => u.mem.state = .initialized) hPath hInit
  intro w w' hPast hStep hw
  rcases Machine.step_others hStep with ⟨k, rfl⟩ |
    ⟨i, c, o, m, o', new, others, hGet, hAct, rfl, _, hPool, _⟩
  · exact hw
  · have hLedger := (sound_of_life (life_of_reaches h hPast)).ledger
    rw [hPool, hPool] at hLedger
    exact (step_frozen hAct hLedger).1 hw

/-- The value of a filled slot was there before, or one initializer has written it. -/
theorem value_origin (h : Life p r) (hPath : (machine p).Reaches r t) {v : α}
    (hValue : t.mem.value = some v) : r.mem.value = some v ∨
      ∃ w w' i c o, (machine p).Reaches r w ∧ (machine p).next w (.act i c) = some w' ∧
        (machine p).Reaches w' t ∧ w.pool[i]? = some o ∧ o.claims = 1 ∧
        w.mem.value = none ∧ w'.mem.value = some v := by
  induction hPath with
  | refl => exact .inl hValue
  | @tail w w' hPast hLast ih =>
    obtain ⟨a, hNext⟩ := hLast
    by_cases hSame : w'.mem.value = w.mem.value
    · rcases ih (by rw [← hSame, hValue]) with hOld | ⟨x, x', i, c, o, hx, hAct, hx', hRest⟩
      · exact .inl hOld
      · exact .inr ⟨x, x', i, c, o, hx, hAct, hx'.tail ⟨a, hNext⟩, hRest⟩
    · obtain ⟨i, c, o, rfl, hGet, hClaims, _, hNone, _⟩ :=
        write_of_step (life_of_reaches h hPast) hNext hSame
      exact .inr ⟨w, w', i, c, o, hPast, hNext, .refl, hGet, hClaims, hNone, hValue⟩

theorem read_initialized (h : Life p t) {o : Object α} (ho : o ∈ t.pool)
    (hReads : o.readsUnchecked = true) : t.mem.state = .initialized ∧ t.mem.value.isSome := by
  have hSound := sound_of_life h
  have hSeen : o.hasSeen = true := by
    cases o with
    | get at_ => cases at_ <;> first | rfl | cases hReads
    | wait blocking at_ => cases at_ <;> first | rfl | cases hReads
    | init blocking init at_ => cases at_ <;> first | rfl | cases hReads
    | _ => cases hReads
  have hInit := (hSound.sees o ho).initialized hSeen
  exact ⟨hInit, hSound.ledger.slot.mpr (.inl hInit)⟩

theorem reference_eq (h : Life p t) {o : Object α} (ho : o ∈ t.pool) {v : Option α}
    (hRef : o.reference = some v) : t.mem.state = .initialized ∧ v = t.mem.value ∧ v.isSome := by
  have hSound := sound_of_life h
  have hSeen : o.hasSeen = true := by
    cases o with
    | wait blocking at_ => cases at_ <;> first | rfl | cases hRef
    | returned => rfl
    | _ => cases hRef
  have hInit := (hSound.sees o ho).initialized hSeen
  have hSame := (hSound.sees o ho).same v hRef
  exact ⟨hInit, hSame, hSame ▸ hSound.ledger.slot.mpr (.inl hInit)⟩

/-- An initializer that fails, panics or is dropped writes nothing: its guard puts the state
back to `Uninitialized` and then notifies the next initializer. -/
theorem failed_initializer (h : Life p t) {i : Nat} {blocking : Bool} {init : Init α}
    {at_ : InitPoint α} (hGet : t.pool[i]? = some (.init blocking init at_)) {listener : Bool}
    {c : Choice α} (hNext : (machine p).next t (.act i c) = some u) :
    (at_ = .run listener → c = .fail ∨ c = .panic ∨ c = .drop →
      u.mem = t.mem ∧ u.pool[i]? = some (.init blocking init (.dropGuard listener))) ∧
    (at_ = .dropGuard listener → t.mem.value = none ∧ u.mem = t.mem.store .uninitialized ∧
      u.pool[i]? = some (.init blocking init (.notifyNext listener))) ∧
    (at_ = .notifyNext listener → u.mem = t.mem.notifyNext ∧
      (t.mem.activeInitializers.owners ≠ [] → u.mem.activeInitializers.Notified)) := by
  obtain ⟨m, o', new, hAct, rfl⟩ := Machine.next_act_at hGet hNext
  have hStep : step p i c t.mem (.init blocking init at_) = some (m, o', new) := hAct
  obtain ⟨_, rfl⟩ := step_acts hStep
  have hSelf := get_act_self hGet o' []
  refine ⟨?_, ?_, ?_⟩
  · rintro rfl hChoice
    cases init with
    | closure fallible =>
      rcases hChoice with rfl | rfl | rfl
      · cases fallible <;> cases hAct
        exact ⟨rfl, hSelf⟩
      · cases hAct
        exact ⟨rfl, hSelf⟩
      · cases blocking <;> cases hAct
        exact ⟨rfl, hSelf⟩
    | given value => rcases hChoice with rfl | rfl | rfl <;> cases hAct
  · rintro rfl
    obtain ⟨others, hPool, _⟩ := exists_others hGet
    have hLedger := (sound_of_life h).ledger
    rw [hPool Object.claims] at hLedger
    cases hAct
    exact ⟨hLedger.claims_state.2.2.2, rfl, hSelf⟩
  · rintro rfl
    cases hAct
    exact ⟨rfl, fun hQueued => Event.notified_notify _ (by decide) hQueued⟩

/-- Single initialization and agreement, from a state `r` of the life of a cell to a later
state `t` with no exclusive access between them. -/
theorem single_initialization (h : Life p r) (hPath : (machine p).Reaches r t) :
    (initializers t = if t.mem.state = .initializing then 1 else 0) ∧
    (∀ a u, (machine p).next t a = some u → u.mem.value ≠ t.mem.value →
      ∃ i c o, a = .act i c ∧ t.pool[i]? = some o ∧ o.claims = 1 ∧
        t.mem.state = .initializing ∧ t.mem.value = none ∧ ∃ v, u.mem.value = some v) ∧
    (r.mem.state = .initialized → t.mem.state = .initialized ∧ t.mem.value = r.mem.value) ∧
    (∀ o ∈ t.pool, o.readsUnchecked = true →
      t.mem.state = .initialized ∧ t.mem.value.isSome) ∧
    (∀ o ∈ r.pool, ∀ o' ∈ t.pool, ∀ v v', o.reference = some v → o'.reference = some v' →
      v = v') ∧
    (∀ o ∈ t.pool, ∀ v, o.reference = some (some v) → t.mem.value = some v ∧
      (r.mem.value = some v ∨ ∃ w w' i c q, (machine p).Reaches r w ∧
        (machine p).next w (.act i c) = some w' ∧ (machine p).Reaches w' t ∧
        w.pool[i]? = some q ∧ q.claims = 1 ∧ w.mem.value = none ∧ w'.mem.value = some v)) ∧
    ∀ (i : Nat) (blocking : Bool) (init : Init α) (at_ : InitPoint α) (listener : Bool)
      (c : Choice α) (u : State (OnceCell α) (Object α)),
      t.pool[i]? = some (.init blocking init at_) → (machine p).next t (.act i c) = some u →
      (at_ = .run listener → c = .fail ∨ c = .panic ∨ c = .drop →
        u.mem = t.mem ∧ u.pool[i]? = some (.init blocking init (.dropGuard listener))) ∧
      (at_ = .dropGuard listener → t.mem.value = none ∧ u.mem = t.mem.store .uninitialized ∧
        u.pool[i]? = some (.init blocking init (.notifyNext listener))) ∧
      (at_ = .notifyNext listener → u.mem = t.mem.notifyNext ∧
        (t.mem.activeInitializers.owners ≠ [] → u.mem.activeInitializers.Notified)) := by
  have hLife := life_of_reaches h hPath
  have hSame (v : Option α) (hv : v.isSome) (hr : v = r.mem.value) : t.mem.value = v := by
    obtain ⟨w, rfl⟩ := Option.isSome_iff_exists.mp hv
    exact value_stays h hPath hr.symm
  refine ⟨initializers_eq hLife, fun a u => write_of_step hLife, fun hInit => ?_,
    fun o ho => read_initialized hLife ho, ?_, ?_, ?_⟩
  · have hFilled := (sound_of_life h).ledger.slot.mpr (.inl hInit)
    exact ⟨initialized_stays h hPath hInit, hSame _ hFilled rfl⟩
  · intro o ho o' ho' v v' hRef hRef'
    obtain ⟨_, hv, hSome⟩ := reference_eq h ho hRef
    obtain ⟨_, hv', _⟩ := reference_eq hLife ho' hRef'
    rw [hv', hSame v hSome hv]
  · intro o ho v hRef
    obtain ⟨_, hv, _⟩ := reference_eq hLife ho hRef
    exact ⟨hv.symm, value_origin h hPath hv.symm⟩
  · intro i blocking init at_ listener c u hGet hNext
    exact failed_initializer hLife hGet hNext

def wakeWaiter : List (Action (Call Nat) (Choice Nat)) :=
  [.call .wait, .act 0 .go, .act 0 .go, .act 0 .go, .call (.trySet 5), .act 1 .go, .act 1 .go,
    .act 1 .go, .act 1 .go, .act 1 .go, .act 0 .go, .act 0 .go]

def waiterWoken : State (OnceCell Nat) (Object Nat) :=
  ⟨⟨Event.new, Event.new, .initialized, some 5⟩, [.returned (some 5), .gone]⟩

theorem single_initialization_wakeWaiter :
    initializers waiterWoken = 0 ∧ waiterWoken.mem.value = some 5 := by
  have hPath : (machine platform64).Reaches ⟨OnceCell.new, []⟩ waiterWoken :=
    Machine.reaches_of_run _ wakeWaiter _ _ (by decide +kernel)
  obtain ⟨hCount, _, _, _, _, hReference, _⟩ := single_initialization .new hPath
  exact ⟨hCount, (hReference (.returned (some 5)) (by decide) 5 rfl).1⟩

end AsyncLock.OnceCell
