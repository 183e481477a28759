import AsyncLock.Interleaving.Machine

/-! # Machines that implement sequential objects

A sequential object says what its operations do and where they are possible. A machine implements
it if each of its actions is either one operation on what the state stands for or not to be seen
there at all. Then the operations of a run, in the order in which they took effect, are a run of
the sequential object, whatever else goes on between the first and the last action of each call.
-/
namespace AsyncLock.Interleaving
set_option autoImplicit false

variable {σ ω κ χ ς ℓ : Type*}

structure Sequential (ς ℓ : Type*) where
  initial : ς
  apply : ℓ → ς → Option ς

namespace Sequential

def run (A : Sequential ς ℓ) : ς → List ℓ → Option ς
  | x, [] => some x
  | x, l :: rest => (A.apply l x).bind fun y => A.run y rest

/-- An operation, or none. -/
def perform (A : Sequential ς ℓ) : Option ℓ → ς → Option ς
  | none, x => some x
  | some l, x => A.apply l x

theorem run_append (A : Sequential ς ℓ) (ls rest : List ℓ) (x : ς) :
    A.run x (ls ++ rest) = (A.run x ls).bind fun y => A.run y rest := by
  induction ls generalizing x with
  | nil => rfl
  | cons l ls ih => simp only [List.cons_append, run, ih, Option.bind_assoc]

theorem run_toList (A : Sequential ς ℓ) (l : Option ℓ) (x : ς) :
    A.run x l.toList = A.perform l x := by
  cases l with
  | none => rfl
  | some l => exact Option.bind_fun_some (A.apply l x)

theorem invariant {A : Sequential ς ℓ} {P : ς → Prop}
    (hStep : ∀ l x y, P x → A.apply l x = some y → P y) {x y : ς} {ls : List ℓ}
    (h : A.run x ls = some y) (hx : P x) : P y := by
  induction ls generalizing x with
  | nil =>
    cases h
    exact hx
  | cons l rest ih =>
    obtain ⟨z, hApply, hRest⟩ := Option.bind_eq_some_iff.mp h
    exact ih hRest (hStep l x z hx hApply)

end Sequential

namespace Machine

/-- The operation that an action performs, which is seen from the memory before it and from its
object before and after. -/
def effectOf (M : Machine σ ω κ χ) (effect : χ → σ → ω → ω → Option ℓ) (s : State σ ω) :
    Action κ χ → Option ℓ
  | .call _ => none
  | .act i c =>
    (s.pool[i]?).bind fun o => (M.step i c s.mem o).bind fun r => effect c s.mem o r.2.1

/-- The operations of a run, in the order in which they take effect. -/
def history (M : Machine σ ω κ χ) (effect : χ → σ → ω → ω → Option ℓ) :
    State σ ω → List (Action κ χ) → List ℓ
  | _, [] => []
  | s, a :: rest =>
    match M.next s a with
    | some t => (M.effectOf effect s a).toList ++ M.history effect t rest
    | none => []

variable {M : Machine σ ω κ χ} {effect : χ → σ → ω → ω → Option ℓ}

theorem effectOf_act {s : State σ ω} {i : Nat} {c : χ} {o o' : ω} {mem : σ} {new : List ω}
    (hGet : s.pool[i]? = some o) (hStep : M.step i c s.mem o = some (mem, o', new)) :
    M.effectOf effect s (.act i c) = effect c s.mem o o' := by
  simp [effectOf, hGet, hStep]

/-- Each action is an operation of the object that the state stands for, or leaves it as it is,
as long as what is good in the end has been good all along. -/
theorem run_history {A : Sequential ς ℓ} {abs : State σ ω → ς} {good : State σ ω → Prop}
    (hBack : ∀ s t, M.Step s t → good t → good s) {s₀ : State σ ω}
    (hStep : ∀ s a t, M.Reaches s₀ s → good s → good t → M.next s a = some t →
      A.perform (M.effectOf effect s a) (abs s) = some (abs t)) {acts : List (Action κ χ)}
    {s : State σ ω} (h : M.run s₀ acts = some s) (hGood : good s) :
    A.run (abs s₀) (M.history effect s₀ acts) = some (abs s) := by
  suffices hGeneral : ∀ u, M.Reaches s₀ u → M.run u acts = some s →
      good u ∧ A.run (abs u) (M.history effect u acts) = some (abs s) from
    (hGeneral s₀ .refl h).2
  clear h
  induction acts with
  | nil =>
    intro u _ hRun
    cases hRun
    exact ⟨hGood, rfl⟩
  | cons a rest ih =>
    intro u hPast hRun
    obtain ⟨t, hNext, hRest⟩ := Option.bind_eq_some_iff.mp hRun
    obtain ⟨hAfter, hHistory⟩ := ih t (hPast.tail ⟨a, hNext⟩) hRest
    have hBefore := hBack u t ⟨a, hNext⟩ hAfter
    refine ⟨hBefore, ?_⟩
    simp only [history, hNext]
    have hPerforms := hStep u a t hPast hBefore hAfter hNext
    rw [Sequential.run_append, Sequential.run_toList, hPerforms, Option.bind_some]
    exact hHistory

end Machine
end AsyncLock.Interleaving
