import AsyncLock.Interleaving.Machine

/-! # Data behind a lock

The machine of a lock does not mention the data that it guards. Here they stand beside its state:
an object with the right to read looks at them, and one with the right to write stores what it
computes from the value that it has seen, maybe long ago. As long as an object that may write is
the only one with a view worth keeping, no update is lost, and the data are what the updates
make of them one after the other.
-/
namespace AsyncLock.Interleaving
set_option autoImplicit false

variable {σ ω κ χ δ γ : Type*}

structure Guarded (σ δ : Type*) where
  lock : σ
  value : δ
deriving DecidableEq

/-- An object of the lock with the value that it has seen last. -/
structure Viewer (ω δ : Type*) where
  object : ω
  seen : Option δ
deriving DecidableEq

inductive DataUse (χ γ : Type*) where
  | act (c : χ)
  | look
  | update (a : γ)
deriving DecidableEq

/-- What an object may do with the data. One that `keeps` its view relies on it to stay true, as
the future of an upgrade does, which cannot read. -/
structure Rights (ω : Type*) where
  reads : ω → Bool
  writes : ω → Bool
  keeps : ω → Bool
  keeps_of_writes : ∀ o, writes o = true → keeps o = true

namespace Rights

variable (R : Rights ω)

/-- What is left of a view when an object becomes, or brings into being, another one. -/
def hand (h : Viewer ω δ) (o : ω) : Viewer ω δ :=
  ⟨o, if R.keeps h.object ∧ R.keeps o then h.seen else none⟩

/-- An object that may write is the only one that keeps a view. -/
def Exclusive (s : State σ ω) : Prop :=
  ∀ (i j : Nat) (o q : ω), i ≠ j → s.pool[i]? = some o → s.pool[j]? = some q → R.writes o = true →
    R.keeps q = false

end Rights

namespace Machine

def guarded (M : Machine σ ω κ χ) (R : Rights ω) (op : δ → γ → δ) :
    Machine (Guarded σ δ) (Viewer ω δ) κ (DataUse χ γ) where
  create s k := ⟨M.create s.lock k, none⟩
  step i u s h :=
    match u with
    | .act c => (M.step i c s.lock h.object).map fun r =>
      (⟨r.1, s.value⟩, R.hand h r.2.1, r.2.2.map (R.hand h))
    | .look => if R.reads h.object then some (s, ⟨h.object, some s.value⟩, []) else none
    | .update a =>
      match R.writes h.object, h.seen with
      | true, some v => some (⟨s.lock, op v a⟩, ⟨h.object, some (op v a)⟩, [])
      | _, _ => none

end Machine

/-- The lock without its data. -/
def bare (s : State (Guarded σ δ) (Viewer ω δ)) : State σ ω :=
  ⟨s.mem.lock, s.pool.map Viewer.object⟩

def updateOf : Action κ (DataUse χ γ) → Option γ
  | .act _ (.update a) => some a
  | _ => none

/-- Every view that is kept is true. -/
def Current (R : Rights ω) (s : State (Guarded σ δ) (Viewer ω δ)) : Prop :=
  ∀ h ∈ s.pool, R.keeps h.object = true → ∀ v ∈ h.seen, v = s.mem.value

theorem Current.nil (R : Rights ω) (u : Guarded σ δ) : Current R ⟨u, []⟩ := by simp [Current]

namespace Machine

variable {M : Machine σ ω κ χ} {R : Rights ω} {op : δ → γ → δ}
  {s t : State (Guarded σ δ) (Viewer ω δ)}

theorem guarded_update {i : Nat} {a : γ} {u u' : Guarded σ δ} {h h' : Viewer ω δ}
    {new : List (Viewer ω δ)}
    (hStep : (M.guarded R op).step i (.update a) u h = some (u', h', new)) :
    R.writes h.object = true ∧ ∃ v, h.seen = some v ∧ u' = ⟨u.lock, op v a⟩ ∧
      h' = ⟨h.object, some (op v a)⟩ ∧ new = [] := by
  simp only [guarded] at hStep
  split at hStep
  · rename_i v hWrites hSeen
    cases hStep
    exact ⟨hWrites, v, hSeen, rfl, rfl, rfl⟩
  · cases hStep

/-- The lock does not notice what is done with the data. -/
theorem bare_of_next {a : Action κ (DataUse χ γ)} (h : (M.guarded R op).next s a = some t) :
    M.Step (bare s) (bare t) ∨ bare s = bare t := by
  cases a with
  | call k =>
    cases h
    exact .inl ⟨.call k, by simp [next, bare, guarded]⟩
  | act i u =>
    obtain ⟨q, mem, q', new, hGet, hStep, rfl⟩ := next_act h
    have hObject : (bare s).pool[i]? = some q.object := by simp [bare, hGet]
    have hSame (hq : q'.object = q.object) :
        (s.pool.set i q').map Viewer.object = s.pool.map Viewer.object := by
      obtain ⟨hi, hEq⟩ := List.getElem?_eq_some_iff.mp hObject
      rw [List.map_set, hq, ← hEq]
      exact List.set_getElem_self hi
    cases u with
    | act c =>
      obtain ⟨⟨m', o', new'⟩, hAct, hEq⟩ := Option.map_eq_some_iff.mp hStep
      cases hEq
      refine .inl ⟨.act i c, ?_⟩
      rw [next_act_of_step hObject hAct]
      simp [bare, List.map_set, Rights.hand, Function.comp_def]
    | look =>
      simp only [guarded] at hStep
      split at hStep
      · cases hStep
        exact .inr (by simp [bare, hSame])
      · cases hStep
    | update a =>
      obtain ⟨_, v, _, rfl, rfl, rfl⟩ := guarded_update hStep
      exact .inr (by simp [bare, hSame])

theorem reaches_bare (h : (M.guarded R op).Reaches s t) : M.Reaches (bare s) (bare t) := by
  induction h with
  | refl => exact .refl
  | tail _ hLast ih =>
    obtain ⟨a, hNext⟩ := hLast
    rcases bare_of_next hNext with hStep | hSame
    · exact ih.tail hStep
    · rwa [← hSame]

theorem Current.next {a : Action κ (DataUse χ γ)} (hs : Current R s) (hExcl : R.Exclusive (bare s))
    (h : (M.guarded R op).next s a = some t) :
    Current R t ∧ t.mem.value = (updateOf a).elim s.mem.value (op s.mem.value) := by
  cases a with
  | call k =>
    cases h
    refine ⟨fun q hq hKeeps v hv => ?_, rfl⟩
    rcases List.mem_append.mp hq with hOld | hNew
    · exact hs q hOld hKeeps v hv
    · cases List.mem_singleton.mp hNew
      cases hv
  | act i u =>
    obtain ⟨q, mem, q', new, hGet, hStep, rfl⟩ := next_act h
    have hq := List.mem_of_getElem? hGet
    cases u with
    | act c =>
      obtain ⟨⟨m', o', new'⟩, hAct, hEq⟩ := Option.map_eq_some_iff.mp hStep
      cases hEq
      -- a view is handed on only from one that was kept to one that is
      have hHand (o : ω) (v : δ) (hv : v ∈ (R.hand q o).seen) : v = s.mem.value := by
        simp only [Rights.hand] at hv
        split at hv
        · rename_i hKeeps
          exact hs q hq hKeeps.1 v hv
        · cases hv
      refine ⟨fun r hr hKeeps v hv => ?_, rfl⟩
      rcases mem_of_act hr with hOld | rfl | hNew
      · exact hs r hOld hKeeps v hv
      · exact hHand o' v hv
      · obtain ⟨o, _, rfl⟩ := List.mem_map.mp hNew
        exact hHand o v hv
    | look =>
      simp only [guarded] at hStep
      split at hStep
      · cases hStep
        refine ⟨fun r hr hKeeps v hv => ?_, rfl⟩
        rcases mem_of_act hr with hOld | rfl | hNew
        · exact hs r hOld hKeeps v hv
        · exact (Option.some.inj hv).symm
        · cases hNew
      · cases hStep
    | update a =>
      obtain ⟨hWrites, v, hSeen, rfl, rfl, rfl⟩ := guarded_update hStep
      have hView : v = s.mem.value := hs q hq (R.keeps_of_writes _ hWrites) v hSeen
      refine ⟨fun r hr hKeeps w hw => ?_, by rw [hView]; rfl⟩
      obtain ⟨j, hGet'⟩ := List.getElem?_of_mem hr
      rcases get_of_act hGet' with ⟨_, rfl⟩ | ⟨hji, hOld⟩ | ⟨_, hNew⟩
      · exact (Option.some.inj hw).symm
      · -- the others have no view to lose
        have hNone := hExcl i j q.object r.object (Ne.symm hji) (by simp [bare, hGet])
          (by simp [bare, hOld]) hWrites
        rw [hNone] at hKeeps
        cases hKeeps
      · cases hNew

/-- No update is lost: the data are what the updates make of them one after the other, although
each is computed from what was seen before it. -/
theorem value_of_run {acts : List (Action κ (DataUse χ γ))} (hs : Current R s)
    (h : (M.guarded R op).run s acts = some t)
    (hExcl : ∀ u, M.Reaches (bare s) u → M.Reaches u (bare t) → R.Exclusive u) :
    Current R t ∧ t.mem.value = (acts.filterMap updateOf).foldl op s.mem.value := by
  induction acts generalizing s with
  | nil =>
    cases h
    exact ⟨hs, rfl⟩
  | cons a rest ih =>
    obtain ⟨u, hNext, hRest⟩ := Option.bind_eq_some_iff.mp h
    have hPast : M.Reaches (bare s) (bare u) := reaches_bare (.single ⟨a, hNext⟩)
    have hToCome := reaches_bare (reaches_of_run _ rest u t hRest)
    obtain ⟨hu, hValue⟩ := Current.next hs (hExcl _ .refl (hPast.trans hToCome)) hNext
    obtain ⟨ht, hEnd⟩ := ih hu hRest fun v hv => hExcl v (hPast.trans hv)
    refine ⟨ht, ?_⟩
    rw [hEnd, hValue, List.filterMap_cons]
    cases updateOf a <;> rfl

end Machine
end AsyncLock.Interleaving
