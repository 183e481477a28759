import AsyncLock.OnceCell.Machine

/-! # What a step of the once cell can do

`Acts` has one constructor for each transition of an object, with the tests of the source that
lead to it.
-/
namespace AsyncLock.OnceCell
set_option autoImplicit false

open Interleaving

variable {α : Type*}

inductive Acts (p : Platform) (i : Nat) (s : OnceCell α) :
    Choice α → Object α → OnceCell α → Object α → Prop
  | getSome (c : Choice α) (hInit : s.state = .initialized) :
      Acts p i s c (.get .load) s (.get .read)
  | getNone (c : Choice α) : Acts p i s c (.get .load) s .gone
  | getRead (c : Choice α) : Acts p i s c (.get .read) s (.returned s.value)
  | waitFast (c : Choice α) (blocking : Bool) (hInit : s.state = .initialized) :
      Acts p i s c (.wait blocking .check) s (.wait blocking (.read false))
  | waitSlow (c : Choice α) (blocking : Bool) :
      Acts p i s c (.wait blocking .check) s (.wait blocking .listen)
  | waitUnpolled (blocking : Bool) : Acts p i s .drop (.wait blocking .check) s .gone
  | waitListen (c : Choice α) (blocking : Bool) : Acts p i s c (.wait blocking .listen)
      { s with passiveWaiters := s.passiveWaiters.listen i } (.wait blocking .recheck)
  | waitAgain (c : Choice α) (blocking : Bool) (hInit : s.state = .initialized) :
      Acts p i s c (.wait blocking .recheck) s (.wait blocking (.read true))
  | waitAwait (c : Choice α) (blocking : Bool) :
      Acts p i s c (.wait blocking .recheck) s (.wait blocking .await)
  | waitConsume (c : Choice α) (blocking : Bool) (hMark : (s.passiveWaiters.markOf i).isSome) :
      Acts p i s c (.wait blocking .await)
      { s with passiveWaiters := s.passiveWaiters.remove i } (.wait blocking (.read false))
  | waitCancel (blocking : Bool) :
      Acts p i s .drop (.wait blocking .await) (discardPassive i s true) .gone
  | waitRead (c : Choice α) (blocking : Bool) :
      Acts p i s c (.wait blocking (.read false)) s (.returned s.value)
  | waitReadListener (c : Choice α) (blocking : Bool) :
      Acts p i s c (.wait blocking (.read true)) s (.wait blocking (.dropListener s.value))
  | waitReturn (c : Choice α) (blocking : Bool) (value : Option α) :
      Acts p i s c (.wait blocking (.dropListener value)) (discardPassive i s true)
      (.returned value)
  | initFast (c : Choice α) (blocking : Bool) (init : Init α) (hInit : s.state = .initialized) :
      Acts p i s c (.init blocking init .check) s (.init blocking init (.read false))
  | initSlow (c : Choice α) (blocking : Bool) (init : Init α) :
      Acts p i s c (.init blocking init .check) s (.init blocking init (.loop false))
  | initUnpolled (blocking : Bool) (init : Init α) :
      Acts p i s .drop (.init blocking init .check) s .gone
  | initDone (c : Choice α) (blocking : Bool) (init : Init α) (listener : Bool)
      (hInit : s.state = .initialized) : Acts p i s c (.init blocking init (.loop listener)) s
      (.init blocking init (.finish listener false))
  | initWait (c : Choice α) (blocking : Bool) (init : Init α) :
      Acts p i s c (.init blocking init (.loop true)) s (.init blocking init .wait)
  | initQueue (c : Choice α) (blocking : Bool) (init : Init α) :
      Acts p i s c (.init blocking init (.loop false)) s (.init blocking init .listen)
  | initFree (c : Choice α) (blocking : Bool) (init : Init α) (listener : Bool) :
      Acts p i s c (.init blocking init (.loop listener)) s
      (.init blocking init (.exchange listener))
  | initListen (c : Choice α) (blocking : Bool) (init : Init α) :
      Acts p i s c (.init blocking init .listen)
      { s with activeInitializers := s.activeInitializers.listen i }
      (.init blocking init (.loop true))
  | initConsume (c : Choice α) (blocking : Bool) (init : Init α)
      (hMark : (s.activeInitializers.markOf i).isSome) :
      Acts p i s c (.init blocking init .wait)
      { s with activeInitializers := s.activeInitializers.remove i }
      (.init blocking init (.loop false))
  | initCancel (blocking : Bool) (init : Init α) :
      Acts p i s .drop (.init blocking init .wait) (discardActive i s true) .gone
  | initBegin (c : Choice α) (blocking : Bool) (init : Init α) (listener : Bool)
      (hFree : s.state = .uninitialized) :
      Acts p i s c (.init blocking init (.exchange listener))
      { s with state := .initializing } (.init blocking init (.run listener))
  | initLose (c : Choice α) (blocking : Bool) (init : Init α) (listener : Bool) :
      Acts p i s c (.init blocking init (.exchange listener)) s
      (.init blocking init (.loop listener))
  | initSucceed (c : Choice α) (blocking : Bool) (init : Init α) (listener : Bool) (value : α) :
      Acts p i s c (.init blocking init (.run listener)) s
      (.init blocking init (.write listener value))
  | initFail (c : Choice α) (blocking : Bool) (init : Init α) (listener : Bool) :
      Acts p i s c (.init blocking init (.run listener)) s
      (.init blocking init (.dropGuard listener))
  | initWrite (c : Choice α) (blocking : Bool) (init : Init α) (listener : Bool) (value : α) :
      Acts p i s c (.init blocking init (.write listener value)) (s.write value)
      (.init blocking init (.store listener))
  | initStore (c : Choice α) (blocking : Bool) (init : Init α) (listener : Bool) :
      Acts p i s c (.init blocking init (.store listener)) (s.store .initialized)
      (.init blocking init (.notifyActive listener))
  | initNotifyActive (c : Choice α) (blocking : Bool) (init : Init α) (listener : Bool) :
      Acts p i s c (.init blocking init (.notifyActive listener)) (s.notifyActive p)
      (.init blocking init (.notifyPassive listener))
  | initNotifyPassive (c : Choice α) (blocking : Bool) (init : Init α) (listener : Bool) :
      Acts p i s c (.init blocking init (.notifyPassive listener)) (s.notifyPassive p)
      (.init blocking init (.finish listener true))
  | initDropGuard (c : Choice α) (blocking : Bool) (init : Init α) (listener : Bool) :
      Acts p i s c (.init blocking init (.dropGuard listener)) (s.store .uninitialized)
      (.init blocking init (.notifyNext listener))
  | initNotifyNext (c : Choice α) (blocking : Bool) (init : Init α) (listener : Bool) :
      Acts p i s c (.init blocking init (.notifyNext listener)) s.notifyNext
      (.init blocking init (.leave listener))
  | initLeave (c : Choice α) (blocking : Bool) (init : Init α) (listener : Bool) :
      Acts p i s c (.init blocking init (.leave listener)) (discardActive i s listener) .gone
  | initFinish (c : Choice α) (blocking : Bool) (init : Init α) (listener ran : Bool) :
      Acts p i s c (.init blocking init (.finish listener ran)) (discardActive i s listener)
      (.init blocking init (.read ran))
  | initRead (c : Choice α) (blocking fallible ran : Bool) :
      Acts p i s c (.init blocking (.closure fallible) (.read ran)) s (.returned s.value)
  | setRead (c : Choice α) (blocking : Bool) (value : α) :
      Acts p i s c (.init blocking (.given value) (.read true)) s
      (.init blocking (.given value) .readSet)
  | setLose (c : Choice α) (blocking : Bool) (value : α) :
      Acts p i s c (.init blocking (.given value) (.read false)) s .gone
  | setReturn (c : Choice α) (blocking : Bool) (init : Init α) :
      Acts p i s c (.init blocking init .readSet) s (.returned s.value)
  | trySetBegin (c : Choice α) (value : α) (hFree : s.state = .uninitialized) :
      Acts p i s c (.trySet (.exchange value)) { s with state := .initializing }
      (.trySet (.write value))
  | trySetLose (c : Choice α) (value : α) : Acts p i s c (.trySet (.exchange value)) s .gone
  | trySetWrite (c : Choice α) (value : α) :
      Acts p i s c (.trySet (.write value)) (s.write value) (.trySet .store)
  | trySetStore (c : Choice α) :
      Acts p i s c (.trySet .store) (s.store .initialized) (.trySet .notifyActive)
  | trySetNotifyActive (c : Choice α) :
      Acts p i s c (.trySet .notifyActive) (s.notifyActive p) (.trySet .notifyPassive)
  | trySetNotifyPassive (c : Choice α) :
      Acts p i s c (.trySet .notifyPassive) (s.notifyPassive p) .gone
  | release (c : Choice α) (value : Option α) : Acts p i s c (.returned value) s .gone

variable {p : Platform} {i : Nat} {c : Choice α} {s s' : OnceCell α} {o o' : Object α}
  {new : List (Object α)}

theorem begin_cases (s : OnceCell α) :
    (s.state = .uninitialized ∧ s.begin = some { s with state := .initializing }) ∨
    s.begin = none := by
  unfold begin
  split
  · exact .inl ⟨‹_›, rfl⟩
  · exact .inr rfl

theorem acts_wait {blocking : Bool} {at_ : WaitPoint α}
    (h : stepWait i c s blocking at_ = some (s', o')) :
    Acts p i s c (.wait blocking at_) s' o' := by
  cases at_ with
  | check =>
    cases c with
    | go =>
      simp only [stepWait] at h
      split at h <;> cases h
      · exact .waitFast _ _ ‹_›
      · exact .waitSlow _ _
    | drop =>
      simp only [stepWait] at h
      split at h <;> cases h
      exact .waitUnpolled _
    | _ => cases h
  | listen =>
    cases h
    exact .waitListen _ _
  | recheck =>
    simp only [stepWait] at h
    split at h <;> cases h
    · exact .waitAgain _ _ ‹_›
    · exact .waitAwait _ _
  | await =>
    cases c with
    | go =>
      simp only [stepWait] at h
      split at h <;> cases h
      exact .waitConsume _ _ ‹_›
    | drop =>
      simp only [stepWait] at h
      split at h <;> cases h
      exact .waitCancel _
    | _ => cases h
  | read listener => cases listener <;> cases h <;> constructor
  | dropListener value =>
    cases h
    exact .waitReturn _ _ _

theorem acts_run {blocking listener : Bool} {init : Init α} {at_ : InitPoint α}
    (h : stepRun c blocking listener init = some at_) :
    Acts p i s c (.init blocking init (.run listener)) s (.init blocking init at_) := by
  cases init with
  | closure fallible =>
    cases c with
    | go => cases h
    | succeed value =>
      cases h
      exact .initSucceed _ _ _ _ _
    | panic =>
      cases h
      exact .initFail _ _ _ _
    | drop | fail =>
      simp only [stepRun] at h
      split at h <;> cases h
      exact .initFail _ _ _ _
  | given value =>
    cases c <;> cases h
    exact .initSucceed _ _ _ _ _

theorem acts_init {blocking : Bool} {init : Init α} {at_ : InitPoint α}
    (h : stepInit p i c s blocking init at_ = some (s', o')) :
    Acts p i s c (.init blocking init at_) s' o' := by
  cases at_ with
  | check =>
    cases c with
    | go =>
      simp only [stepInit] at h
      split at h <;> cases h
      · exact .initFast _ _ _ ‹_›
      · exact .initSlow _ _ _
    | drop =>
      simp only [stepInit] at h
      split at h <;> cases h
      exact .initUnpolled _ _
    | _ => cases h
  | loop listener =>
    simp only [stepInit] at h
    split at h
    · cases h
      exact .initDone _ _ _ _ ‹_›
    · cases listener <;> cases h
      · exact .initQueue _ _ _
      · exact .initWait _ _ _
    · cases h
      exact .initFree _ _ _ _
  | wait =>
    cases c with
    | go =>
      simp only [stepInit] at h
      split at h <;> cases h
      exact .initConsume _ _ _ ‹_›
    | drop =>
      simp only [stepInit] at h
      split at h <;> cases h
      exact .initCancel _ _
    | _ => cases h
  | exchange listener =>
    simp only [stepInit] at h
    rcases begin_cases s with ⟨hFree, hEq⟩ | hEq <;> rw [hEq] at h <;> cases h
    · exact .initBegin _ _ _ _ hFree
    · exact .initLose _ _ _ _
  | run listener =>
    obtain ⟨at_, hRun, hEq⟩ := Option.map_eq_some_iff.mp h
    cases hEq
    exact acts_run hRun
  | read ran => cases init <;> cases ran <;> cases h <;> constructor
  | listen | write | store | notifyActive | notifyPassive | dropGuard | notifyNext | leave |
      finish | readSet =>
    cases h
    constructor

theorem step_acts (h : step p i c s o = some (s', o', new)) : Acts p i s c o s' o' ∧ new = [] := by
  have hMap {r : Option (OnceCell α × Object α)}
      (h : (r.map fun r => (r.1, r.2, ([] : List (Object α)))) = some (s', o', new)) :
      r = some (s', o') ∧ new = [] := by
    obtain ⟨r, rfl, hEq⟩ := Option.map_eq_some_iff.mp h
    cases hEq
    exact ⟨rfl, rfl⟩
  cases o with
  | get at_ =>
    cases h
    refine ⟨?_, rfl⟩
    cases at_ with
    | load =>
      simp only [stepGet]
      split
      · exact .getSome _ ‹_›
      · exact .getNone _
    | read => exact .getRead _
  | wait blocking at_ =>
    obtain ⟨hStep, rfl⟩ := hMap h
    exact ⟨acts_wait hStep, rfl⟩
  | init blocking init at_ =>
    obtain ⟨hStep, rfl⟩ := hMap h
    exact ⟨acts_init hStep, rfl⟩
  | trySet at_ =>
    cases h
    refine ⟨?_, rfl⟩
    cases at_ with
    | exchange value =>
      simp only [stepTrySet]
      rcases begin_cases s with ⟨hFree, hEq⟩ | hEq <;> rw [hEq]
      · exact .trySetBegin _ _ hFree
      · exact .trySetLose _ _
    | _ => constructor
  | returned value =>
    cases h
    exact ⟨.release _ _, rfl⟩
  | gone => cases h

end AsyncLock.OnceCell
