import AsyncLock.Interleaving.Census

/-! # A machine behind an `Arc`

Callers hold `Arc`s of the memory of a machine. Its objects borrow one of these, or have one of
their own, which they have cloned, pass on to what they bring into being, and drop. A `Sharing` says
where the code of a machine does this. Whatever it says, the strong count is the number of those
who have an `Arc`, and who has given his up is the only one to act when nobody has one.
-/
namespace AsyncLock.Interleaving
set_option autoImplicit false

variable {σ ω κ χ : Type*}

/-- `lent` has the position of a caller's `Arc` once for each borrow of it. -/
structure Refcounted (σ : Type*) where
  mem : σ
  strong : Nat
  lent : List Nat
deriving DecidableEq

/-- What an object has of the `Arc`: that of a caller, one of its own, or none any more. -/
inductive Stake where
  | borrows (handle : Nat)
  | owns
  | released
deriving DecidableEq

inductive Party (ω : Type*) where
  | arc
  | op (o : ω) (stake : Stake)
  | gone
deriving DecidableEq

inductive PartyChoice (κ χ : Type*) where
  | clone
  | drop
  | call (k : κ)
  | act (c : χ)
deriving DecidableEq

/-- `clones` says of a call whether its future gets a clone, `guard` of what a borrowing call has
become whether it is a guard with a clone of its own, and `keeps` whether a future with an `Arc`
gives its guard a clone instead of the `Arc` itself. An owner that `lets` go of its `Arc` does so
before the action that it is about to take; a borrower that has `ended` has nothing left to do. -/
structure Sharing (ω κ χ : Type*) where
  clones : κ → Bool
  guard : ω → Bool
  keeps : Bool
  lets : χ → ω → Bool
  ended : ω → Bool

namespace Refcounted

/-- `Arc::new`. -/
def new (mem : σ) : Refcounted σ := ⟨mem, 1, []⟩

def giveBack (handle : Nat) (m : Refcounted σ) : Refcounted σ :=
  { m with lent := m.lent.erase handle }

end Refcounted

namespace Sharing

variable (K : Sharing ω κ χ)

def settle (handle : Nat) (m : Refcounted σ) (o : ω) : Refcounted σ × Party ω :=
  if K.ended o then (m.giveBack handle, .gone)
  else if K.guard o then ({ m.giveBack handle with strong := m.strong + 1 }, .op o .owns)
  else (m, .op o (.borrows handle))

/-- A borrower after one of its actions. What it has brought into being borrows as well. -/
def stepBorrower (handle : Nat) (m : Refcounted σ) (o : ω) (new : List ω) :
    Refcounted σ × Party ω × List (Party ω) :=
  let r := K.settle handle { m with lent := List.replicate new.length handle ++ m.lent } o
  (r.1, r.2, new.map (.op · (.borrows handle)))

/-- An owner after one of its actions. -/
def stepOwner (m : Refcounted σ) (o : ω) (new : List ω) :
    Refcounted σ × Party ω × List (Party ω) :=
  if new = [] then (m, .op o .owns, [])
  else if K.keeps then
    ({ m with strong := m.strong + new.length }, .op o .owns, new.map (.op · .owns))
  else
    ({ m with strong := m.strong + (new.length - 1) }, .op o .released, new.map (.op · .owns))

def stepOp (i : Nat) (M : Machine σ ω κ χ) (c : χ) (m : Refcounted σ) (o : ω) (stake : Stake) :
    Option (Refcounted σ × Party ω × List (Party ω)) :=
  (M.step i c m.mem o).map fun r =>
    let m' := { m with mem := r.1 }
    match stake with
    | .borrows handle => K.stepBorrower handle m' r.2.1 r.2.2
    | .owns => K.stepOwner m' r.2.1 r.2.2
    | .released => (m', .op r.2.1 .released, r.2.2.map (.op · .released))

/-- A caller does not drop an `Arc` while it is borrowed, and who has given its own up goes on
only to its end. -/
def step (M : Machine σ ω κ χ) (i : Nat) (c : PartyChoice κ χ) (m : Refcounted σ) :
    Party ω → Option (Refcounted σ × Party ω × List (Party ω))
  | .arc =>
    match c with
    | .clone => some ({ m with strong := m.strong + 1 }, .arc, [.arc])
    | .drop => if i ∈ m.lent then none else some ({ m with strong := m.strong - 1 }, .gone, [])
    | .call k =>
      if K.clones k then
        some ({ m with strong := m.strong + 1 }, .arc, [.op (M.create m.mem k) .owns])
      else some ({ m with lent := i :: m.lent }, .arc, [.op (M.create m.mem k) (.borrows i)])
    | .act _ => none
  | .op o stake =>
    match c with
    | .act c =>
      if stake = .owns ∧ K.lets c o then
        some ({ m with strong := m.strong - 1 }, .op o .released, [])
      else if stake = .released ∧ K.lets c o = false then none
      else K.stepOp i M c m o stake
    | _ => none
  | .gone => none

end Sharing

def Machine.shared (M : Machine σ ω κ χ) (K : Sharing ω κ χ) :
    Machine (Refcounted σ) (Party ω) Empty (PartyChoice κ χ) := ⟨fun _ k => k.elim, K.step M⟩

def Refcounted.initial (mem : σ) : State (Refcounted σ) (Party ω) := ⟨.new mem, [.arc]⟩

namespace Party

def callers : Party ω → Nat
  | arc => 1
  | _ => 0

/-- Has an `Arc` of its own. -/
def arcs : Party ω → Nat
  | arc | op _ .owns => 1
  | _ => 0

def borrowsFrom (handle : Nat) : Party ω → Nat
  | op _ (.borrows h) => if h = handle then 1 else 0
  | _ => 0

/-- Neither has an `Arc` nor borrows one. -/
def Apart : Party ω → Prop
  | gone | op _ .released => True
  | _ => False

theorem census_map_owns (new : List ω) :
    census arcs (new.map (op · .owns)) = new.length ∧
      ∀ handle, census (borrowsFrom handle) (new.map (op · .owns)) = 0 := by
  induction new with
  | nil => exact ⟨rfl, fun _ => rfl⟩
  | cons o new ih =>
    simp only [List.map_cons, census_cons, ih.1, ih.2, arcs, borrowsFrom, List.length_cons]
    exact ⟨Nat.add_comm _ _, fun _ => trivial⟩

theorem census_map_borrows (new : List ω) (handle : Nat) :
    census arcs (new.map (op · (.borrows handle))) = 0 ∧
      ∀ h, census (borrowsFrom h) (new.map (op · (.borrows handle))) =
        (List.replicate new.length handle).count h := by
  induction new with
  | nil => exact ⟨rfl, fun _ => rfl⟩
  | cons o new ih =>
    simp only [List.map_cons, census_cons, ih.1, ih.2, arcs, borrowsFrom, List.length_cons,
      List.replicate_succ, List.count_cons, beq_iff_eq]
    exact ⟨trivial, fun _ => Nat.add_comm _ _⟩

theorem census_map_released (new : List ω) :
    census arcs (new.map (op · .released)) = 0 ∧
      ∀ handle, census (borrowsFrom handle) (new.map (op · .released)) = 0 := by
  induction new with
  | nil => exact ⟨rfl, fun _ => rfl⟩
  | cons o new ih =>
    simp only [List.map_cons, census_cons, ih.1, ih.2, arcs, borrowsFrom]
    exact ⟨trivial, fun _ => trivial⟩

end Party

section

variable {M : Machine σ ω κ χ} {K : Sharing ω κ χ} {i : Nat}

/-- What one action can do to the count. -/
inductive Trades (M : Machine σ ω κ χ) (K : Sharing ω κ χ) (i : Nat) (m : Refcounted σ) :
    PartyChoice κ χ → Party ω → Refcounted σ → Party ω → List (Party ω) → Prop
  | clone : Trades M K i m .clone .arc { m with strong := m.strong + 1 } .arc [.arc]
  | drop (hFree : i ∉ m.lent) :
      Trades M K i m .drop .arc { m with strong := m.strong - 1 } .gone []
  | callOwner (k : κ) (hClones : K.clones k = true) : Trades M K i m (.call k) .arc
      { m with strong := m.strong + 1 } .arc [.op (M.create m.mem k) .owns]
  | callBorrower (k : κ) (hClones : K.clones k = false) : Trades M K i m (.call k) .arc
      { m with lent := i :: m.lent } .arc [.op (M.create m.mem k) (.borrows i)]
  | release (c : χ) (o : ω) (hLets : K.lets c o = true) : Trades M K i m (.act c) (.op o .owns)
      { m with strong := m.strong - 1 } (.op o .released) []
  | stays (c : χ) (o o' : ω) (mem : σ) (hLets : K.lets c o = false)
      (hStep : M.step i c m.mem o = some (mem, o', [])) :
      Trades M K i m (.act c) (.op o .owns) { m with mem := mem } (.op o' .owns) []
  | shares (c : χ) (o o' : ω) (mem : σ) (new : List ω) (hKeeps : K.keeps = true)
      (hLets : K.lets c o = false) (hStep : M.step i c m.mem o = some (mem, o', new)) :
      Trades M K i m (.act c) (.op o .owns)
      { m with mem := mem, strong := m.strong + new.length } (.op o' .owns)
      (new.map (.op · .owns))
  | hands (c : χ) (o o' : ω) (mem : σ) (new : List ω) (hNew : new ≠ []) (hKeeps : K.keeps = false)
      (hLets : K.lets c o = false) (hStep : M.step i c m.mem o = some (mem, o', new)) :
      Trades M K i m (.act c) (.op o .owns)
      { m with mem := mem, strong := m.strong + (new.length - 1) } (.op o' .released)
      (new.map (.op · .owns))
  | borrows (c : χ) (o o' : ω) (handle : Nat) (mem : σ) (new : List ω)
      (hEnded : K.ended o' = false) (hGuard : K.guard o' = false)
      (hStep : M.step i c m.mem o = some (mem, o', new)) :
      Trades M K i m (.act c) (.op o (.borrows handle))
      { m with mem := mem, lent := List.replicate new.length handle ++ m.lent }
      (.op o' (.borrows handle)) (new.map (.op · (.borrows handle)))
  | ends (c : χ) (o o' : ω) (handle : Nat) (mem : σ) (new : List ω) (hEnded : K.ended o' = true)
      (hStep : M.step i c m.mem o = some (mem, o', new)) :
      Trades M K i m (.act c) (.op o (.borrows handle))
      { m with mem := mem, lent := (List.replicate new.length handle ++ m.lent).erase handle }
      .gone (new.map (.op · (.borrows handle)))
  | takes (c : χ) (o o' : ω) (handle : Nat) (mem : σ) (new : List ω) (hEnded : K.ended o' = false)
      (hGuard : K.guard o' = true) (hStep : M.step i c m.mem o = some (mem, o', new)) :
      Trades M K i m (.act c) (.op o (.borrows handle))
      ⟨mem, m.strong + 1, (List.replicate new.length handle ++ m.lent).erase handle⟩
      (.op o' .owns) (new.map (.op · (.borrows handle)))
  | leaves (c : χ) (o o' : ω) (mem : σ) (new : List ω) (hLets : K.lets c o = true)
      (hStep : M.step i c m.mem o = some (mem, o', new)) :
      Trades M K i m (.act c) (.op o .released) { m with mem := mem } (.op o' .released)
      (new.map (.op · .released))

theorem trades_of_step {c : PartyChoice κ χ} {m m' : Refcounted σ} {o o' : Party ω}
    {new : List (Party ω)} (h : (M.shared K).step i c m o = some (m', o', new)) :
    Trades M K i m c o m' o' new := by
  cases o with
  | gone => cases h
  | arc =>
    cases c with
    | clone =>
      cases h
      exact .clone
    | drop =>
      obtain ⟨hFree, hEq⟩ := Option.ite_none_left_eq_some.mp h
      cases hEq
      exact .drop hFree
    | call k =>
      simp only [Machine.shared, Sharing.step] at h
      split_ifs at h with hClones <;> cases h
      · exact .callOwner k hClones
      · exact .callBorrower k (by simpa using hClones)
    | act c => cases h
  | op o stake =>
    cases c with
    | act c =>
      simp only [Machine.shared, Sharing.step] at h
      split_ifs at h with hRelease hStop
      · obtain ⟨rfl, hLets⟩ := hRelease
        cases h
        exact .release c o hLets
      obtain ⟨⟨mem, q, created⟩, hStep, hEq⟩ := Option.map_eq_some_iff.mp h
      cases stake with
      | borrows handle =>
        simp only [Sharing.stepBorrower, Sharing.settle, Refcounted.giveBack] at hEq
        split_ifs at hEq with hEnded hGuard <;> cases hEq
        · exact .ends _ _ _ _ _ _ hEnded hStep
        · exact .takes _ _ _ _ _ _ (by simpa using hEnded) hGuard hStep
        · exact .borrows _ _ _ _ _ _ (by simpa using hEnded) (by simpa using hGuard) hStep
      | owns =>
        have hLets : K.lets c o = false := by simpa using hRelease
        simp only [Sharing.stepOwner] at hEq
        split_ifs at hEq with hNew hKeeps
        · subst hNew
          cases hEq
          exact .stays _ _ _ _ hLets hStep
        · cases hEq
          exact .shares _ _ _ _ _ hKeeps hLets hStep
        · cases hEq
          exact .hands _ _ _ _ _ hNew (by simpa using hKeeps) hLets hStep
      | released =>
        cases hEq
        exact .leaves _ _ _ _ _ (by simpa using hStop) hStep
    | _ => cases h

attribute [local simp] Party.arcs Party.borrowsFrom Party.census_map_owns
  Party.census_map_borrows Party.census_map_released

variable {c : PartyChoice κ χ} {m m' : Refcounted σ} {o o' : Party ω} {new : List (Party ω)}

theorem Trades.strong (h : Trades M K i m c o m' o' new) {rest : Nat}
    (hs : m.strong = o.arcs + rest) :
    m'.strong = o'.arcs + census Party.arcs new + rest := by
  cases h with
  | hands _ _ _ _ created hNew =>
    have hLength := List.length_pos_of_ne_nil hNew
    simp at hs ⊢
    omega
  | _ =>
    simp at hs ⊢
    omega

theorem Trades.lent (h : Trades M K i m c o m' o' new) (handle : Nat) {rest : Nat}
    (hs : m.lent.count handle = o.borrowsFrom handle + rest) :
    m'.lent.count handle =
      o'.borrowsFrom handle + census (Party.borrowsFrom handle) new + rest := by
  cases h <;> simp [List.count_erase, List.count_cons, List.count_append] at hs ⊢ <;> omega

/-- A borrow is that of the object itself, or the caller at this position has just lent. -/
theorem Trades.borrows_from (h : Trades M K i m c o m' o' new) {q : ω} {handle : Nat}
    (hq : .op q (.borrows handle) ∈ o' :: new) :
    (∃ r, o = .op r (.borrows handle)) ∨ (o' = .arc ∧ handle = i) := by
  cases h <;> simp at hq
  case callBorrower => exact .inr ⟨rfl, hq.2⟩
  case borrows r _ _ _ _ _ _ _ => rcases hq with ⟨_, rfl⟩ | ⟨_, rfl⟩ <;> exact .inl ⟨r, rfl⟩
  case ends r _ _ _ _ _ _ | takes r _ _ _ _ _ _ _ =>
    obtain ⟨_, rfl⟩ := hq
    exact .inl ⟨r, rfl⟩

end

/-! ## Who may have an `Arc` -/

/-- Which objects can be found as borrowers, as owners, and without their `Arc`. -/
structure Roles (ω : Type*) where
  borrower : ω → Bool
  owner : ω → Bool
  released : ω → Bool

def Party.Fits (R : Roles ω) : Party ω → Prop
  | op o (.borrows _) => R.borrower o = true
  | op o .owns => R.owner o = true
  | op o .released => R.released o = true
  | _ => True

/-- The machine keeps to the roles. -/
structure Respects (M : Machine σ ω κ χ) (K : Sharing ω κ χ) (R : Roles ω) : Prop where
  call : ∀ m k, if K.clones k then R.owner (M.create m k) = true
    else R.borrower (M.create m k) = true
  release : ∀ c o, K.lets c o = true → R.owner o = true → R.released o = true
  owner : ∀ i c m o m' o' new, M.step i c m o = some (m', o', new) → K.lets c o = false →
    R.owner o = true → (if new = [] ∨ K.keeps then R.owner o' = true else R.released o' = true) ∧
      ∀ q ∈ new, R.owner q = true
  borrower : ∀ i c m o m' o' new, M.step i c m o = some (m', o', new) → R.borrower o = true →
    (K.ended o' = false → if K.guard o' then R.owner o' = true else R.borrower o' = true) ∧
      ∀ q ∈ new, R.borrower q = true
  released : ∀ i c m o m' o' new, M.step i c m o = some (m', o', new) → K.lets c o = true →
    R.released o = true → R.released o' = true ∧ ∀ q ∈ new, R.released q = true

section

variable {M : Machine σ ω κ χ} {K : Sharing ω κ χ} {R : Roles ω} {i : Nat}

theorem Trades.fits (hR : Respects M K R) {c : PartyChoice κ χ} {m m' : Refcounted σ}
    {o o' : Party ω} {new : List (Party ω)} (h : Trades M K i m c o m' o' new) (ho : o.Fits R) :
    o'.Fits R ∧ ∀ q ∈ new, q.Fits R := by
  have hMap {stake : Stake} {created : List ω} (hAll : ∀ q ∈ created, (Party.op q stake).Fits R) :
      ∀ q ∈ created.map (Party.op · stake), q.Fits R := by
    intro q hq
    obtain ⟨r, hr, rfl⟩ := List.mem_map.mp hq
    exact hAll r hr
  have hNil : ∀ q ∈ ([] : List (Party ω)), q.Fits R := by simp
  cases h with
  | clone => exact ⟨trivial, by simp [Party.Fits]⟩
  | drop => exact ⟨trivial, hNil⟩
  | callOwner k hClones =>
    have hCall := hR.call m.mem k
    rw [if_pos hClones] at hCall
    exact ⟨trivial, by simpa [Party.Fits] using hCall⟩
  | callBorrower k hClones =>
    have hCall := hR.call m.mem k
    rw [if_neg (by simp [hClones])] at hCall
    exact ⟨trivial, by simpa [Party.Fits] using hCall⟩
  | release c o hLets => exact ⟨hR.release c o hLets ho, hNil⟩
  | stays c o o' mem hLets hStep =>
    have hStays := (hR.owner _ _ _ _ _ _ _ hStep hLets ho).1
    rw [if_pos (.inl rfl)] at hStays
    exact ⟨hStays, hNil⟩
  | shares c o o' mem new hKeeps hLets hStep =>
    obtain ⟨hKept, hNew⟩ := hR.owner _ _ _ _ _ _ _ hStep hLets ho
    rw [if_pos (.inr hKeeps)] at hKept
    exact ⟨hKept, hMap hNew⟩
  | hands c o o' mem new hSome hKeeps hLets hStep =>
    obtain ⟨hHanded, hNew⟩ := hR.owner _ _ _ _ _ _ _ hStep hLets ho
    rw [if_neg (by simp [hSome, hKeeps])] at hHanded
    exact ⟨hHanded, hMap hNew⟩
  | borrows c o o' handle mem new hEnded hGuard hStep =>
    obtain ⟨hStays, hNew⟩ := hR.borrower _ _ _ _ _ _ _ hStep ho
    have hBorrows := hStays hEnded
    rw [if_neg (by simp [hGuard])] at hBorrows
    exact ⟨hBorrows, hMap hNew⟩
  | ends c o o' handle mem new hEnded hStep =>
    exact ⟨trivial, hMap (hR.borrower _ _ _ _ _ _ _ hStep ho).2⟩
  | takes c o o' handle mem new hEnded hGuard hStep =>
    obtain ⟨hStays, hNew⟩ := hR.borrower _ _ _ _ _ _ _ hStep ho
    have hTakes := hStays hEnded
    rw [if_pos hGuard] at hTakes
    exact ⟨hTakes, hMap hNew⟩
  | leaves c o o' mem new hLets hStep =>
    obtain ⟨hLeft, hNew⟩ := hR.released _ _ _ _ _ _ _ hStep hLets ho
    exact ⟨hLeft, hMap hNew⟩

theorem fits_of_reaches (hR : Respects M K R) {mem : σ} {s : State (Refcounted σ) (Party ω)}
    (h : (M.shared K).Reaches (Refcounted.initial mem) s) : ∀ o ∈ s.pool, o.Fits R := by
  refine Machine.forall_of_reaches h (by simp [Refcounted.initial, Party.Fits])
    (fun _ k => k.elim) ?_
  intro i c m o m' o' new hStep ho
  exact (trades_of_step hStep).fits hR ho

end

/-! ## Every reachable state -/

section

variable {M : Machine σ ω κ χ} {K : Sharing ω κ χ} {i : Nat} {mem : σ}
  {s t : State (Refcounted σ) (Party ω)}

structure RefsCounted (s : State (Refcounted σ) (Party ω)) : Prop where
  strong : s.mem.strong = census Party.arcs s.pool
  lent : ∀ handle, s.mem.lent.count handle = census (Party.borrowsFrom handle) s.pool
  borrowed : ∀ (j : Nat) (o : ω) (handle : Nat),
    s.pool[j]? = some (.op o (.borrows handle)) → s.pool[handle]? = some .arc

namespace RefsCounted

theorem lent_of_borrows (hs : RefsCounted s) {j handle : Nat} {o : ω}
    (hGet : s.pool[j]? = some (.op o (.borrows handle))) : handle ∈ s.mem.lent := by
  rw [← List.count_pos_iff, hs.lent, census_pos_iff]
  exact ⟨_, List.mem_of_getElem? hGet, by simp [Party.borrowsFrom]⟩

theorem strong_pos (hs : RefsCounted s) {o : Party ω} (hMem : o ∈ s.pool) (hApart : ¬ o.Apart) :
    0 < s.mem.strong := by
  rw [hs.strong, census_pos_iff]
  cases o with
  | arc => exact ⟨_, hMem, Nat.one_pos⟩
  | gone => exact absurd trivial hApart
  | op o stake =>
    cases stake with
    | owns => exact ⟨_, hMem, Nat.one_pos⟩
    | released => exact absurd trivial hApart
    | borrows handle =>
      obtain ⟨j, hGet⟩ := List.getElem?_of_mem hMem
      exact ⟨.arc, List.mem_of_getElem? (hs.borrowed j o handle hGet), Nat.one_pos⟩

end RefsCounted

theorem Trades.arc_stays {c : PartyChoice κ χ} {m : Refcounted σ} {o o' : Party ω}
    {new : List (Party ω)} (h : Trades M K i s.mem c o m o' new) (hGet : s.pool[i]? = some o)
    {handle : Nat} (hArc : s.pool[handle]? = some .arc) (hLent : handle ∈ s.mem.lent) :
    (s.pool.set i o' ++ new)[handle]? = some .arc := by
  by_cases hi : handle = i
  · subst hi
    rw [get_act_self hGet]
    cases hGet.symm.trans hArc
    cases h with
    | clone | callOwner | callBorrower => rfl
    | drop hFree => exact absurd hLent hFree
  · exact get_act_other hArc hi o' new

theorem refs_counted (h : (M.shared K).Reaches (Refcounted.initial mem) s) : RefsCounted s := by
  refine Machine.invariant (P := RefsCounted) h ⟨rfl, fun _ => rfl, fun j o handle ho => ?_⟩ ?_
  · have hMem := List.mem_of_getElem? ho
    simp [Refcounted.initial] at hMem
  intro s t _ hStep hs
  rcases Machine.step_others hStep with ⟨k, _⟩ |
    ⟨i, c, o, m, o', new, others, hGet, hAct, rfl, _, hPool, hPool'⟩
  · cases k
  have hTrades := trades_of_step hAct
  constructor
  · rw [hPool']
    exact hTrades.strong (by rw [← hPool, hs.strong])
  · intro handle
    rw [hPool']
    exact hTrades.lent handle (by rw [← hPool, hs.lent])
  · intro j q handle hq
    have hKept {k : Nat} {r : ω} (hr : s.pool[k]? = some (.op r (.borrows handle))) :
        (s.pool.set i o' ++ new)[handle]? = some .arc :=
      hTrades.arc_stays hGet (hs.borrowed k r handle hr) (hs.lent_of_borrows hr)
    have hActing (hMem : .op q (.borrows handle) ∈ o' :: new) :
        (s.pool.set i o' ++ new)[handle]? = some .arc := by
      rcases hTrades.borrows_from hMem with ⟨r, rfl⟩ | ⟨rfl, rfl⟩
      · exact hKept hGet
      · exact get_act_self hGet .arc new
    rcases get_of_act hq with ⟨rfl, hSelf⟩ | ⟨_, hOld⟩ | ⟨_, hMem⟩
    · exact hActing (by rw [hSelf]; exact List.mem_cons_self)
    · exact hKept hOld
    · exact hActing (List.mem_cons_of_mem _ hMem)

/-- The count is 0 where nobody has an `Arc` and nobody borrows one: no `Arc` is leaked. -/
theorem strong_eq_zero_iff (h : (M.shared K).Reaches (Refcounted.initial mem) s) :
    s.mem.strong = 0 ↔ ∀ o ∈ s.pool, o.Apart := by
  have hs := refs_counted h
  constructor
  · intro hZero o ho
    by_contra hApart
    have := hs.strong_pos ho hApart
    omega
  · intro hAll
    rw [hs.strong]
    refine census_eq_zero fun o ho => ?_
    have hApart := hAll o ho
    cases o with
    | op o stake => cases stake <;> first | rfl | cases hApart
    | gone => rfl
    | arc => cases hApart

/-- Who touches the memory does so while there is an `Arc`, or has given up his own. -/
theorem strong_pos_of_touch (h : (M.shared K).Reaches (Refcounted.initial mem) s) {o : Party ω}
    {c : PartyChoice κ χ} (hGet : s.pool[i]? = some o)
    (hNext : (M.shared K).next s (.act i c) = some t) (hTouch : t.mem.mem ≠ s.mem.mem) :
    (0 < s.mem.strong ∧ 0 < t.mem.strong) ∨ ∃ q d, o = .op q .released ∧ c = .act d ∧
      K.lets d q = true ∧ ∃ q' new, M.step i d s.mem.mem q = some (t.mem.mem, q', new) := by
  have hs := refs_counted h
  obtain ⟨m, o', new, hAct, rfl⟩ := Machine.next_act_at hGet hNext
  have hMem := List.mem_of_getElem? hGet
  have hTrades := trades_of_step hAct
  cases hTrades with
  | clone | drop | callOwner | callBorrower | release => exact absurd rfl hTouch
  | stays | shares | hands =>
    have hPos := hs.strong_pos hMem id
    exact .inl ⟨hPos, Nat.lt_of_lt_of_le hPos (by simp)⟩
  | borrows | ends | takes =>
    have hPos := hs.strong_pos hMem id
    exact .inl ⟨hPos, Nat.lt_of_lt_of_le hPos (by simp)⟩
  | leaves d q q' m' created hLets hStep =>
    exact .inr ⟨q, d, rfl, rfl, hLets, q', created, hStep⟩

end

end AsyncLock.Interleaving
