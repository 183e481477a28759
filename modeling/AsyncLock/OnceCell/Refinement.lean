import AsyncLock.Interleaving.Refinement
import AsyncLock.OnceCell.Custody
import AsyncLock.OnceCell.Wakeup

/-! # What a once cell is

As a sequential object the cell is empty, busy with an initialization, full of a value, or gone. A
call takes effect at one action, a read at its `get_unchecked`; what is done with exclusive
access takes effect at once. The three events, the slot that is filled before the state says
so and the calls that wait for each other cannot be told from what comes out of the cell.
-/
namespace AsyncLock.OnceCell
set_option autoImplicit false

open Interleaving

inductive Contents (α : Type*) where
  | empty
  | busy
  | full (value : α)
  | gone
deriving DecidableEq

inductive Operation (α : Type*) where
  | getFail
  | trySetFail
  | setFail
  | begin
  | giveUp
  | fill (value : α)
  | read (value : α)
  | getMutFail
  | replace (value : α)
  | take (value : Option α)
  | drop (value : Option α)
deriving DecidableEq

variable {α : Type*}

namespace Contents

/-- `set` hands its value back from a full cell only, `try_set` also from a busy one. -/
def apply [DecidableEq α] : Operation α → Contents α → Option (Contents α)
  | .getFail, .empty => some .empty
  | .getFail, .busy => some .busy
  | .trySetFail, .busy => some .busy
  | .trySetFail, .full value => some (.full value)
  | .setFail, .full value => some (.full value)
  | .begin, .empty => some .busy
  | .giveUp, .busy => some .empty
  | .fill value, .busy => some (.full value)
  | .read value, .full found => if value = found then some (.full found) else none
  | .getMutFail, .empty => some .empty
  | .replace value, .full _ => some (.full value)
  | .take none, .empty => some .empty
  | .take (some value), .full found => if value = found then some .empty else none
  | .drop none, .empty => some .gone
  | .drop (some value), .full found => if value = found then some .gone else none
  | _, _ => none

def cell [DecidableEq α] : Sequential (Contents α) (Operation α) := ⟨.empty, apply⟩

end Contents

/-! ## What the state of the cell stands for -/

/-- The slot counts once the state says so. -/
def contents (s : OnceCell α) : Contents α :=
  match s.state, s.value with
  | .initialized, some value => .full value
  | .initializing, _ => .busy
  | _, _ => .empty

/-- The operation that an action performs. -/
def effect (_ : Choice α) (s : OnceCell α) (o o' : Object α) : Option (Operation α) :=
  match o, o' with
  | .get .load, .gone => some .getFail
  | .trySet (.exchange _), .gone => some .trySetFail
  | .trySet (.exchange _), _ => some .begin
  | .trySet .store, _ | .init _ _ (.store _), _ => s.value.map .fill
  | .init _ _ (.exchange _), .init _ _ (.run _) => some .begin
  | .init _ _ (.dropGuard _), _ => some .giveUp
  | .init _ (.given _) (.read false), _ => some .setFail
  | .get .read, _ | .wait _ (.read _), _ => s.value.map .read
  | .init _ (.closure _) (.read _), _ | .init _ _ .readSet, _ => s.value.map .read
  | _, _ => none

variable {p : Platform} {i : Nat} {c : Choice α} {s s' : OnceCell α} {o o' : Object α}
  {new : List (Object α)}

theorem contents_of_free (h : s.state = .uninitialized) : s.contents = .empty := by
  simp [contents, h]

theorem contents_of_busy (h : s.state = .initializing) : s.contents = .busy := by
  simp [contents, h]

theorem contents_of_value {v : α} (h : s.state = .initialized) (hValue : s.value = some v) :
    s.contents = .full v := by
  simp [contents, h, hValue]

theorem Ledger.full {claims written : Nat} (h : Ledger s claims written)
    (hInit : s.state = .initialized) : ∃ v, s.value = some v ∧ s.contents = .full v := by
  obtain ⟨v, hValue⟩ := Option.isSome_iff_exists.mp (h.slot.mpr (.inl hInit))
  exact ⟨v, hValue, contents_of_value hInit hValue⟩

theorem step_getNone (h : step p i c s (.get .load) = some (s', .gone, new)) :
    s.state ≠ .initialized := by
  intro hInit
  simp [step, stepGet, hInit] at h

attribute [local simp] Object.claims Object.hasWritten effect Sequential.perform Contents.cell
  Contents.apply

theorem step_performs [DecidableEq α] (h : step p i c s o = some (s', o', new))
    {claims written : Nat} (hs : Ledger s (o.claims + claims) (o.hasWritten + written))
    (ho : o.Sees s) :
    Contents.cell.perform (effect c s o o') s.contents = some s'.contents := by
  cases (step_acts h).1 with
  | getNone =>
    have hNot := step_getNone h
    cases hState : s.state with
    | uninitialized => simp [contents_of_free hState]
    | initializing => simp [contents_of_busy hState]
    | initialized => exact absurd hState hNot
  | trySetLose =>
    have hNot := step_trySetLose h
    cases hState : s.state with
    | uninitialized => exact absurd hState hNot
    | initializing => simp [contents_of_busy hState]
    | initialized =>
      obtain ⟨v, _, hFull⟩ := hs.full hState
      simp [hFull]
  | initBegin _ _ _ _ hFree | trySetBegin _ _ hFree =>
    rw [contents_of_free hFree, contents_of_busy rfl]
    rfl
  | initStore | trySetStore =>
    obtain ⟨hState, _, _, hSome⟩ := Ledger.written_state (by simpa using hs)
    obtain ⟨v, hValue⟩ := Option.isSome_iff_exists.mp hSome
    have hAfter : (s.store .initialized).contents = .full v := contents_of_value rfl hValue
    rw [contents_of_busy hState, hAfter]
    simp [hValue]
  | initDropGuard =>
    obtain ⟨hState, _⟩ := Ledger.claims_state (by simpa using hs)
    rw [contents_of_busy hState, contents_of_free rfl]
    rfl
  | initWrite _ _ _ _ value | trySetWrite _ value =>
    -- the value is in the slot before the cell is full
    obtain ⟨hState, _⟩ := Ledger.claims_state (by simpa using hs)
    have hAfter : (s.write value).contents = .busy := contents_of_busy hState
    rw [contents_of_busy hState, hAfter]
    rfl
  | getRead | waitRead | waitReadListener | setReturn | setLose =>
    obtain ⟨v, hValue, hFull⟩ := hs.full (ho.initialized rfl)
    simp [hValue, hFull]
  | initRead _ _ _ ran =>
    obtain ⟨v, hValue, hFull⟩ := hs.full (ho.initialized rfl)
    simp [hValue, hFull]
  | initLeave | initFinish | initCancel | waitCancel | waitReturn =>
    simp [contents]
  | setRead | initFail | initSucceed => simp
  | _ => rfl

/-! ## The whole life of a cell -/

namespace Custody

def contents (h : Custody α) : Contents α := if h.live then h.cell.mem.contents else .gone

/-- The operations that a deed performs; `into_inner` takes and drops what is left. -/
def effects (p : Platform) (h : Custody α) : Deed α → List (Operation α)
  | .action a => ((machine p).effectOf effect h.cell a).toList
  | .access (.getMut value) =>
    if h.cell.mem.state = .initialized then [.replace value] else [.getMutFail]
  | .access .take => [.take h.cell.mem.taken]
  | .intoInner => [.take h.cell.mem.taken] ++ [.drop h.take.cell.mem.dropInPlace.2]
  | .dropCell => [.drop h.cell.mem.dropInPlace.2]

def history (p : Platform) : Custody α → List (Deed α) → List (Operation α)
  | _, [] => []
  | h, d :: rest =>
    match h.next p d with
    | some h' => h.effects p d ++ h'.history p rest
    | none => []

theorem contents_of_live {h : Custody α} (hLive : h.live = true) :
    h.contents = h.cell.mem.contents := by
  simp [contents, hLive]

end Custody

namespace Kept

variable {h h' : Custody α}

/-- Nobody is initializing a cell that nobody borrows. -/
theorem cases_of_free (hk : Kept p h) (hLive : h.live = true) (hFree : h.Free) :
    (∃ v, h.cell.mem.state = .initialized ∧ h.cell.mem.value = some v) ∨
      h.cell.mem.state = .uninitialized := by
  have hInitializing := (sound_of_life (hk.life hLive)).ledger.initializing
  have hNone (f : Object α → Nat) (hf : f .gone = 0) : census f h.cell.pool = 0 :=
    census_eq_zero fun o ho => by rw [gone_of_borrows hFree o ho, hf]
  rw [hNone _ rfl, hNone _ rfl] at hInitializing
  cases hState : h.cell.mem.state with
  | uninitialized => exact .inr rfl
  | initializing => simp [hState] at hInitializing
  | initialized =>
    have hSome := (hk.value_of_free hLive hFree).mpr hState
    obtain ⟨v, hValue⟩ := Option.isSome_iff_exists.mp hSome
    exact .inl ⟨v, rfl, hValue⟩

variable [DecidableEq α]

theorem take_performs (hk : Kept p h) (hLive : h.live = true) (hFree : h.Free) :
    Contents.cell.run h.contents [.take h.cell.mem.taken] = some h.take.contents := by
  have hAfter : h.take.contents = (h.cell.mem.access .take).contents :=
    Custody.contents_of_live hLive
  rw [Custody.contents_of_live hLive, hAfter]
  rcases hk.cases_of_free hLive hFree with ⟨v, hInit, hValue⟩ | hNot
  · simp [contents, taken, access, hInit, hValue, Sequential.run]
  · simp [contents, taken, access, hNot, Sequential.run]

theorem drop_performs (hk : Kept p h) (hLive : h.live = true) (hFree : h.Free) :
    Contents.cell.run h.contents [.drop h.cell.mem.dropInPlace.2] = some h.drop.contents := by
  have hAfter : h.drop.contents = .gone := rfl
  rw [Custody.contents_of_live hLive, hAfter]
  rcases hk.cases_of_free hLive hFree with ⟨v, hInit, hValue⟩ | hNot
  · simp [contents, dropInPlace, hInit, hValue, Sequential.run]
  · simp [contents, dropInPlace, hNot, Sequential.run]

theorem getMut_performs (hk : Kept p h) (hLive : h.live = true) (hFree : h.Free) (value : α) :
    Contents.cell.run h.contents (h.effects p (.access (.getMut value))) =
      some (h.getMut value).contents := by
  rcases hk.cases_of_free hLive hFree with ⟨v, hInit, hValue⟩ | hNot
  · simp [Custody.contents, contents, Custody.effects, Custody.getMut, access, hLive, hInit, hValue,
      Sequential.run]
  · simp [Custody.contents, contents, Custody.effects, Custody.getMut, hLive, hNot, Sequential.run]

theorem act_performs (hk : Kept p h) (hLive : h.live = true) (hAct : h.act p i c = some h') :
    Contents.cell.run h.contents (h.effects p (.action (.act i c))) = some h'.contents := by
  obtain ⟨o, o', ha⟩ := acted_of_act hAct
  have hSound := sound_of_life (hk.life hLive)
  have hLedger := hSound.ledger
  obtain ⟨others, hPool, _⟩ := exists_others ha.get
  rw [hPool, hPool] at hLedger
  have hPerforms := step_performs ha.step hLedger (hSound.sees o (List.mem_of_getElem? ha.get))
  rw [Custody.contents_of_live hLive, Custody.contents_of_live (ha.live.trans hLive)]
  rw [Custody.effects, Sequential.run_toList, Machine.effectOf_act ha.get ha.step]
  exact hPerforms

theorem next_performs (hk : Kept p h) {d : Deed α} (hNext : h.next p d = some h') :
    Contents.cell.run h.contents (h.effects p d) = some h'.contents := by
  cases d with
  | action a =>
    cases a with
    | call k =>
      simp only [Custody.next] at hNext
      split_ifs at hNext with hLive
      cases hNext
      rfl
    | act i c =>
      simp only [Custody.next] at hNext
      split_ifs at hNext with hLive
      exact hk.act_performs hLive hNext
  | access a =>
    cases a with
    | getMut value =>
      simp only [Custody.next] at hNext
      split_ifs at hNext with hOpen
      cases hNext
      exact hk.getMut_performs hOpen.1 hOpen.2 value
    | take =>
      simp only [Custody.next] at hNext
      split_ifs at hNext with hOpen
      cases hNext
      exact hk.take_performs hOpen.1 hOpen.2
  | intoInner =>
    simp only [Custody.next] at hNext
    split_ifs at hNext with hOpen
    cases hNext
    obtain ⟨hLive, hFree⟩ := hOpen
    have hTake := hk.take_performs hLive hFree
    have hDrop := (hk.take hLive hFree).drop_performs hLive hFree
    rw [Custody.effects, Sequential.run_append, hTake, Option.bind_some]
    exact hDrop
  | dropCell =>
    simp only [Custody.next] at hNext
    split_ifs at hNext with hOpen
    cases hNext
    exact hk.drop_performs hOpen.1 hOpen.2

theorem run_performs (hk : Kept p h) {deeds : List (Deed α)} (hRun : h.run p deeds = some h') :
    Contents.cell.run h.contents (h.history p deeds) = some h'.contents := by
  induction deeds generalizing h with
  | nil =>
    cases hRun
    rfl
  | cons d rest ih =>
    obtain ⟨h₁, hNext, hRest⟩ := Option.bind_eq_some_iff.mp hRun
    simp only [Custody.history, hNext]
    rw [Sequential.run_append, hk.next_performs hNext, Option.bind_some]
    exact ih (hk.next hNext) hRest

end Kept

theorem Custody.Starts.kept {h : Custody α} (hStart : h.Starts) : Kept p h := by
  cases hStart with
  | new => exact Kept.of_new
  | fromValue value => exact Kept.of_fromValue value

/-- Whatever the calls of a life do in between, what they take effect with is a life of the
sequential cell, through every `take` and to the end of the cell. -/
theorem life_sequential [DecidableEq α] {h₀ h : Custody α} (hStart : h₀.Starts)
    {deeds : List (Deed α)} (hRun : h₀.run p deeds = some h) :
    Contents.cell.run h₀.contents (h₀.history p deeds) = some h.contents :=
  Kept.run_performs hStart.kept hRun

/-- A `try_set` and a `get` come too early, a closure panics, and the value of another one is
changed and moved out. -/
def panicThenReplace : List (Deed Nat) :=
  [.action (.call .getOrInit), .action (.act 0 .go), .action (.act 0 .go), .action (.act 0 .go),
    .action (.call (.trySet 4)), .action (.act 1 .go), .action (.call .get), .action (.act 2 .go),
    .action (.act 0 .panic), .action (.act 0 .go), .action (.act 0 .go), .action (.act 0 .go),
    .action (.call .getOrInit), .action (.act 3 .go), .action (.act 3 .go), .action (.act 3 .go),
    .action (.act 3 (.succeed 7)), .action (.act 3 .go), .action (.act 3 .go),
    .action (.act 3 .go), .action (.act 3 .go), .action (.act 3 .go), .action (.act 3 .go),
    .action (.act 3 .go), .access (.getMut 8), .intoInner]

theorem life_sequential_panicThenReplace :
    Contents.cell.run .empty [.begin, .trySetFail, .getFail, .giveUp, .begin, .fill 7, .read 7,
      .replace 8, .take (some 8), .drop none] = some (.gone : Contents Nat) := by
  have hOver : ((Custody.new.run platform64 panicThenReplace).map fun h => h.contents) =
      some .gone := by decide +kernel
  obtain ⟨h, hRun, hContents⟩ := Option.map_eq_some_iff.mp hOver
  have hHistory : Custody.new.history platform64 panicThenReplace = [.begin, .trySetFail,
      .getFail, .giveUp, .begin, .fill 7, .read 7, .replace 8, .take (some 8), .drop none] := by
    decide +kernel
  have hLife := life_sequential .new hRun
  rw [hHistory, hContents] at hLife
  exact hLife

end AsyncLock.OnceCell
