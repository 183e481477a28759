import AsyncLock.Interleaving.Machine

/-! # Leaked objects

`mem::forget` ends an object without its destructor: the memory stays as it is, and the object
never acts again. `leaky` adds it to a machine, for any object at any time. Up to who is still
held, a run with leaks is a run of the machine.
-/
namespace AsyncLock.Interleaving
set_option autoImplicit false

variable {σ ω κ χ : Type*}

/-- An object that still has its owner, or one after `mem::forget`. -/
inductive Leakable (ω : Type*) where
  | held (o : ω)
  | leaked (o : ω)
deriving DecidableEq

inductive LeakChoice (χ : Type*) where
  | act (c : χ)
  | forget
deriving DecidableEq

def Leakable.object : Leakable ω → ω
  | .held o | .leaked o => o

def State.objects (s : State σ (Leakable ω)) : State σ ω := ⟨s.mem, s.pool.map Leakable.object⟩

theorem State.get_objects {s : State σ (Leakable ω)} {i : Nat} {o : ω}
    (hGet : s.pool[i]? = some (.held o)) : s.objects.pool[i]? = some o := by
  simp [State.objects, hGet, Leakable.object]

theorem State.objects_forget {s : State σ (Leakable ω)} {i : Nat} {o : ω}
    (hGet : s.pool[i]? = some (.held o)) :
    State.objects ⟨s.mem, s.pool.set i (.leaked o)⟩ = s.objects := by
  obtain ⟨hi, hEq⟩ := List.getElem?_eq_some_iff.mp (State.get_objects hGet)
  have hSame : s.objects.pool.set i o = s.objects.pool := by
    rw [← hEq]
    exact List.set_getElem_self hi
  rw [State.objects, List.map_set]
  exact congrArg (State.mk s.mem) hSame

namespace Machine

def leaky (M : Machine σ ω κ χ) : Machine σ (Leakable ω) κ (LeakChoice χ) where
  create s k := .held (M.create s k)
  step i c s
    | .held o =>
      match c with
      | .act c => (M.step i c s o).map fun r => (r.1, .held r.2.1, r.2.2.map .held)
      | .forget => some (s, .leaked o, [])
    | .leaked _ => none

theorem object_comp_held : Leakable.object ∘ (Leakable.held : ω → Leakable ω) = id := rfl

theorem leaky_act {M : Machine σ ω κ χ} {i : Nat} {c : χ} {s mem : σ} {o : ω} {o' : Leakable ω}
    {new : List (Leakable ω)} (h : M.leaky.step i (.act c) s (.held o) = some (mem, o', new)) :
    M.step i c s o = some (mem, o'.object, new.map Leakable.object) := by
  obtain ⟨⟨m, q, added⟩, hStep, hResult⟩ := Option.map_eq_some_iff.mp h
  cases hResult
  rw [hStep, List.map_map, object_comp_held, List.map_id]
  rfl

/-- A step of the machine with leaks is one of the machine itself or a `forget`. -/
theorem leaky_step {M : Machine σ ω κ χ} {s s' : State σ (Leakable ω)} (h : M.leaky.Step s s') :
    s'.objects = s.objects ∨ M.Step s.objects s'.objects := by
  rcases step_cases h with ⟨k, rfl⟩ | ⟨i, c, o, mem, o', new, hGet, hStep, rfl⟩
  · exact .inr ⟨.call k, by simp [next, State.objects, leaky, Leakable.object]⟩
  · cases o with
    | leaked o => cases hStep
    | held o =>
      cases c with
      | act c =>
        refine .inr ⟨.act i c, ?_⟩
        rw [next_act_of_step (State.get_objects hGet) (leaky_act hStep)]
        simp [State.objects, List.map_set]
      | forget =>
        cases hStep
        rw [List.append_nil]
        exact .inl (State.objects_forget hGet)

theorem reaches_of_leaky {M : Machine σ ω κ χ} {s s' : State σ (Leakable ω)}
    (h : M.leaky.Reaches s s') : M.Reaches s.objects s'.objects := by
  refine Relation.ReflTransGen.lift' State.objects ?_ s s' h
  intro t t' hStep
  show M.Reaches t.objects t'.objects
  rcases leaky_step hStep with hSame | hStep
  · rw [hSame]
    exact .refl
  · exact .single hStep

end Machine
end AsyncLock.Interleaving
