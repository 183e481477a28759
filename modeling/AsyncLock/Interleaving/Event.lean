import AsyncLock.Interleaving.Census

/-! # FIFO events

The behaviour of an event with listeners on which the results rest: `listen` appends an entry
to a queue; `notify n` marks further entries, oldest first, until at least `n` queued entries
are marked, and `notifyAdditional n` marks `n` further entries; a wait on a marked entry
removes it; dropping a marked entry forwards its notification. An entry is named by the
position of the object that holds its listener.
-/
namespace AsyncLock.Interleaving
set_option autoImplicit false

inductive Notification where
  | single
  | additional
deriving DecidableEq

structure Entry where
  owner : Nat
  mark : Option Notification
deriving DecidableEq

structure Event where
  entries : List Entry
deriving DecidableEq

def markFirst (kind : Notification) : Nat → List Entry → List Entry
  | _, [] => []
  | n, e :: rest =>
    if n = 0 ∨ e.mark.isSome then e :: markFirst kind n rest
    else { e with mark := some kind } :: markFirst kind (n - 1) rest

namespace Event

def new : Event := ⟨[]⟩

def owners (q : Event) : List Nat := q.entries.map Entry.owner

def Notified (q : Event) : Prop := ∃ e ∈ q.entries, e.mark.isSome = true

instance (q : Event) : Decidable q.Notified :=
  inferInstanceAs (Decidable (∃ e ∈ q.entries, e.mark.isSome = true))

/-- The entry held by object `i`, if it has been marked. -/
def markOf (q : Event) (i : Nat) : Option Notification :=
  (q.entries.find? fun e => e.owner = i ∧ e.mark.isSome).bind Entry.mark

def listen (q : Event) (i : Nat) : Event := ⟨q.entries ++ [⟨i, none⟩]⟩

def notify (q : Event) (n : Nat) : Event :=
  ⟨markFirst .single (n - q.entries.countP fun e => e.mark.isSome) q.entries⟩

def notifyAdditional (q : Event) (n : Nat) : Event := ⟨markFirst .additional n q.entries⟩

def remove (q : Event) (i : Nat) : Event := ⟨q.entries.filter fun e => e.owner ≠ i⟩

/-- Drops the listener held by object `i`, handing its notification on if it has one. -/
def discard (q : Event) (i : Nat) : Event :=
  match q.markOf i with
  | none => q.remove i
  | some .single => (q.remove i).notify 1
  | some .additional => (q.remove i).notifyAdditional 1

/-! ## Who is queued -/

theorem map_owner_markFirst (kind : Notification) (n : Nat) (entries : List Entry) :
    (markFirst kind n entries).map Entry.owner = entries.map Entry.owner := by
  induction entries generalizing n with
  | nil => rfl
  | cons e rest ih =>
    rw [markFirst]
    split <;> simp [ih]

@[simp] theorem owners_new : new.owners = [] := rfl

@[simp] theorem owners_listen (q : Event) (i : Nat) : (q.listen i).owners = q.owners ++ [i] := by
  simp [owners, listen]

@[simp] theorem owners_notify (q : Event) (n : Nat) : (q.notify n).owners = q.owners :=
  map_owner_markFirst _ _ _

@[simp] theorem owners_notifyAdditional (q : Event) (n : Nat) :
    (q.notifyAdditional n).owners = q.owners := map_owner_markFirst _ _ _

@[simp] theorem mem_owners_remove (q : Event) (i j : Nat) :
    j ∈ (q.remove i).owners ↔ j ≠ i ∧ j ∈ q.owners := by
  simp only [owners, remove, List.mem_map, List.mem_filter, decide_eq_true_eq]
  constructor
  · rintro ⟨e, ⟨he, hne⟩, rfl⟩
    exact ⟨hne, e, he, rfl⟩
  · rintro ⟨hne, e, he, rfl⟩
    exact ⟨e, ⟨he, hne⟩, rfl⟩

@[simp] theorem mem_owners_discard (q : Event) (i j : Nat) :
    j ∈ (q.discard i).owners ↔ j ≠ i ∧ j ∈ q.owners := by
  unfold discard
  split <;> simp

/-! ## Who is marked -/

theorem markFirst_keeps (kind : Notification) (n : Nat) {entries : List Entry} {e : Entry}
    (he : e ∈ entries) (hMark : e.mark.isSome = true) : e ∈ markFirst kind n entries := by
  induction entries generalizing n with
  | nil => cases he
  | cons d rest ih =>
    rw [markFirst]
    split
    · rcases List.mem_cons.mp he with rfl | he
      · exact List.mem_cons_self
      · exact List.mem_cons_of_mem _ (ih _ he)
    · rename_i hUnmarked
      rcases List.mem_cons.mp he with rfl | he
      · exact absurd (.inr hMark) hUnmarked
      · exact List.mem_cons_of_mem _ (ih _ he)

theorem markFirst_marks (kind : Notification) {n : Nat} (hn : 0 < n) {entries : List Entry}
    (h : entries ≠ []) : ∃ e ∈ markFirst kind n entries, e.mark.isSome = true := by
  cases entries with
  | nil => exact absurd rfl h
  | cons d rest =>
    rw [markFirst]
    split
    · rename_i hMarked
      exact ⟨d, List.mem_cons_self, hMarked.resolve_left (by omega)⟩
    · exact ⟨_, List.mem_cons_self, rfl⟩

theorem Notified.listen {q : Event} (h : q.Notified) (i : Nat) : (q.listen i).Notified := by
  obtain ⟨e, he, hMark⟩ := h
  exact ⟨e, List.mem_append_left _ he, hMark⟩

theorem Notified.notify {q : Event} (h : q.Notified) (n : Nat) : (q.notify n).Notified := by
  obtain ⟨e, he, hMark⟩ := h
  exact ⟨e, markFirst_keeps _ _ he hMark, hMark⟩

theorem Notified.notifyAdditional {q : Event} (h : q.Notified) (n : Nat) :
    (q.notifyAdditional n).Notified := by
  obtain ⟨e, he, hMark⟩ := h
  exact ⟨e, markFirst_keeps _ _ he hMark, hMark⟩

theorem notified_notify (q : Event) {n : Nat} (hn : 0 < n) (h : q.owners ≠ []) :
    (q.notify n).Notified := by
  by_cases hq : q.Notified
  · exact hq.notify n
  · have hCount : q.entries.countP (fun e => e.mark.isSome) = 0 := by
      rw [List.countP_eq_zero]
      exact fun e he hMark => hq ⟨e, he, hMark⟩
    have hEntries : q.entries ≠ [] := fun hNil => h (by simp [owners, hNil])
    have := markFirst_marks .single (n := n) hn hEntries
    simpa [Notified, Event.notify, hCount] using this

theorem markOf_eq_some {q : Event} {i : Nat} {kind : Notification} (h : q.markOf i = some kind) :
    ∃ e ∈ q.entries, e.owner = i ∧ e.mark = some kind := by
  obtain ⟨e, hFind, hMark⟩ := Option.bind_eq_some_iff.mp h
  have hOwner := List.find?_some hFind
  simp only [decide_eq_true_eq] at hOwner
  exact ⟨e, List.mem_of_find?_eq_some hFind, hOwner.1, hMark⟩

theorem markOf_eq_none {q : Event} {i : Nat} (h : q.markOf i = none) :
    ∀ e ∈ q.entries, e.owner = i → e.mark.isSome = false := by
  intro e he hOwner
  cases hFind : q.entries.find? fun e => e.owner = i ∧ e.mark.isSome with
  | none =>
    have := List.find?_eq_none.mp hFind e he
    simpa [hOwner] using this
  | some d =>
    have hd := List.find?_some hFind
    simp only [decide_eq_true_eq] at hd
    have hNone : d.mark = none := by rwa [markOf, hFind] at h
    rw [hNone] at hd
    cases hd.2

theorem markOf_isSome_iff (q : Event) (i : Nat) :
    (q.markOf i).isSome ↔ ∃ e ∈ q.entries, e.owner = i ∧ e.mark.isSome = true := by
  cases h : q.markOf i with
  | none =>
    refine ⟨nofun, ?_⟩
    rintro ⟨e, he, hOwner, hMark⟩
    rw [markOf_eq_none h e he hOwner] at hMark
    cases hMark
  | some kind =>
    obtain ⟨e, he, hOwner, hMark⟩ := markOf_eq_some h
    exact ⟨fun _ => ⟨e, he, hOwner, by simp [hMark]⟩, fun _ => rfl⟩

theorem mem_owners_of_markOf {q : Event} {i : Nat} (h : (q.markOf i).isSome) : i ∈ q.owners := by
  obtain ⟨e, he, rfl, _⟩ := (markOf_isSome_iff q i).mp h
  exact List.mem_map_of_mem he

theorem notified_of_markOf {q : Event} {i : Nat} (h : (q.markOf i).isSome) : q.Notified := by
  obtain ⟨e, he, _, hMark⟩ := (markOf_isSome_iff q i).mp h
  exact ⟨e, he, hMark⟩

theorem markOf_listen_self {q : Event} {i : Nat} (h : i ∉ q.owners) :
    (q.listen i).markOf i = none := by
  by_contra hSome
  obtain ⟨e, he, hOwner, hMark⟩ :=
    (markOf_isSome_iff _ i).mp (Option.isSome_iff_ne_none.mpr hSome)
  rcases List.mem_append.mp he with he | he
  · exact h (hOwner ▸ List.mem_map_of_mem he)
  · rw [List.mem_singleton.mp he] at hMark
    cases hMark

theorem Notified.exists_markOf {q : Event} (h : q.Notified) : ∃ i, (q.markOf i).isSome := by
  obtain ⟨e, he, hMark⟩ := h
  exact ⟨e.owner, (markOf_isSome_iff q _).mpr ⟨e, he, rfl, hMark⟩⟩

/-- A count that covers the unmarked entries leaves none of them. -/
theorem markFirst_all (kind : Notification) {n : Nat} {entries : List Entry}
    (h : entries.countP (fun e => e.mark.isNone) ≤ n) :
    ∀ e ∈ markFirst kind n entries, e.mark.isSome = true := by
  induction entries generalizing n with
  | nil => exact nofun
  | cons d rest ih =>
    intro e he
    rw [markFirst] at he
    cases hMark : d.mark with
    | none =>
      rw [List.countP_cons_of_pos (by simp [hMark])] at h
      rw [hMark, if_neg (by simp; omega)] at he
      cases he with
      | head => rfl
      | tail _ he => exact ih (by omega) e he
    | some _ =>
      rw [List.countP_cons_of_neg (by simp [hMark])] at h
      rw [hMark, if_pos (.inr rfl)] at he
      cases he with
      | head => rw [hMark]; rfl
      | tail _ he => exact ih h e he

theorem isSome_markOf_of_all {q : Event} (h : ∀ e ∈ q.entries, e.mark.isSome = true) {i : Nat}
    (hi : i ∈ q.owners) : (q.markOf i).isSome := by
  obtain ⟨e, he, rfl⟩ := List.mem_map.mp hi
  exact (markOf_isSome_iff q _).mpr ⟨e, he, rfl, h e he⟩

theorem isSome_markOf_notifyAdditional {q : Event} {i n : Nat} (hi : i ∈ q.owners)
    (hn : q.entries.length ≤ n) : ((q.notifyAdditional n).markOf i).isSome := by
  apply isSome_markOf_of_all (markFirst_all .additional (Nat.le_trans List.countP_le_length hn))
  rwa [← notifyAdditional, owners_notifyAdditional]

theorem isSome_markOf_notify {q : Event} {i n : Nat} (hi : i ∈ q.owners)
    (hn : q.entries.length ≤ n) : ((q.notify n).markOf i).isSome := by
  have hSplit := List.length_eq_countP_add_countP (fun e : Entry => e.mark.isSome)
    (l := q.entries)
  have hUnmarked : q.entries.countP (fun e => e.mark.isNone) ≤
      n - q.entries.countP fun e => e.mark.isSome := by
    simp only [Bool.not_eq_true, Option.isSome_eq_false_iff] at hSplit
    simp only [Bool.decide_eq_true] at hSplit
    omega
  apply isSome_markOf_of_all (markFirst_all .single hUnmarked)
  rwa [← notify, owners_notify]

theorem Notified.remove {q : Event} (h : q.Notified) {i : Nat} (hi : q.markOf i = none) :
    (q.remove i).Notified := by
  obtain ⟨e, he, hMark⟩ := h
  refine ⟨e, List.mem_filter.mpr ⟨he, ?_⟩, hMark⟩
  simp only [ne_eq, decide_not, Bool.not_eq_eq_eq_not, Bool.not_true, decide_eq_false_iff_not]
  intro hOwner
  rw [markOf_eq_none hi e he hOwner] at hMark
  cases hMark

/-- Dropping a listener leaves some entry marked if one was and any is left. -/
theorem Notified.discard {q : Event} (h : q.Notified) {i : Nat}
    (hLeft : (q.discard i).owners ≠ []) : (q.discard i).Notified := by
  unfold Event.discard at hLeft ⊢
  split
  · rename_i hMark
    exact h.remove hMark
  · rename_i hMark
    rw [hMark] at hLeft
    exact notified_notify _ (by decide) (by simpa using hLeft)
  · rename_i hMark
    rw [hMark] at hLeft
    have hEntries : (q.remove i).entries ≠ [] := by
      intro hNil
      rw [owners_notifyAdditional, owners, hNil] at hLeft
      exact hLeft rfl
    exact markFirst_marks .additional (by decide) hEntries

/-! ## Where a mark comes from -/

theorem Notified.of_listen {q : Event} {i : Nat} (h : (q.listen i).Notified) : q.Notified := by
  obtain ⟨e, he, hMark⟩ := h
  rcases List.mem_append.mp he with he | he
  · exact ⟨e, he, hMark⟩
  · rw [List.mem_singleton.mp he] at hMark
    cases hMark

theorem Notified.of_remove {q : Event} {i : Nat} (h : (q.remove i).Notified) : q.Notified := by
  obtain ⟨e, he, hMark⟩ := h
  exact ⟨e, (List.mem_filter.mp he).1, hMark⟩

theorem Notified.of_discard {q : Event} {i : Nat} (h : (q.discard i).Notified) : q.Notified := by
  cases hMark : q.markOf i with
  | none =>
    simp only [Event.discard, hMark] at h
    exact h.of_remove
  | some kind => exact notified_of_markOf (i := i) (by rw [hMark]; rfl)

theorem not_notified_of_owners {q : Event} (h : q.owners = []) : ¬ q.Notified := by
  rintro ⟨e, he, _⟩
  have hMem : e.owner ∈ q.owners := List.mem_map_of_mem he
  rw [h] at hMem
  cases hMem

theorem isSome_markOf_listen (q : Event) (i j : Nat) :
    ((q.listen i).markOf j).isSome = (q.markOf j).isSome := by
  rw [Bool.eq_iff_iff, markOf_isSome_iff, markOf_isSome_iff]
  constructor
  · rintro ⟨e, he, hOwner, hMark⟩
    rcases List.mem_append.mp he with he | he
    · exact ⟨e, he, hOwner, hMark⟩
    · rw [List.mem_singleton.mp he] at hMark
      cases hMark
  · rintro ⟨e, he, hMark⟩
    exact ⟨e, List.mem_append_left _ he, hMark⟩

theorem isSome_markOf_remove {q : Event} {i j : Nat} (hij : j ≠ i) :
    ((q.remove i).markOf j).isSome = (q.markOf j).isSome := by
  rw [Bool.eq_iff_iff, markOf_isSome_iff, markOf_isSome_iff]
  constructor
  · rintro ⟨e, he, hMark⟩
    exact ⟨e, (List.mem_filter.mp he).1, hMark⟩
  · rintro ⟨e, he, rfl, hMark⟩
    exact ⟨e, List.mem_filter.mpr ⟨he, decide_eq_true hij⟩, rfl, hMark⟩

/-! ## How many are marked -/

def marks (q : Event) : Nat := q.entries.countP fun e => e.mark.isSome

@[simp] theorem marks_listen (q : Event) (i : Nat) : (q.listen i).marks = q.marks := by
  simp [marks, listen]

theorem countP_markFirst_le (kind : Notification) (n : Nat) (entries : List Entry) :
    (markFirst kind n entries).countP (fun e => e.mark.isSome) ≤
      entries.countP (fun e => e.mark.isSome) + n := by
  induction entries generalizing n with
  | nil => exact Nat.zero_le _
  | cons e rest ih =>
    rw [markFirst]
    split
    · have := ih n
      rw [List.countP_cons, List.countP_cons]
      omega
    · rename_i hUnmarked
      have hRest := ih (n - 1)
      have hPos : n ≠ 0 := fun hn => hUnmarked (.inl hn)
      rw [List.countP_cons, List.countP_cons]
      simp only [Option.isSome_some, if_true]
      omega

theorem marks_notify_le (q : Event) (n : Nat) : (q.notify n).marks ≤ q.marks + n := by
  have := countP_markFirst_le .single (n - q.marks) q.entries
  unfold marks at this ⊢
  exact Nat.le_trans this (by omega)

theorem marks_notifyAdditional_le (q : Event) (n : Nat) :
    (q.notifyAdditional n).marks ≤ q.marks + n := countP_markFirst_le _ _ _

theorem marks_remove_le (q : Event) (i : Nat) : (q.remove i).marks ≤ q.marks :=
  List.filter_sublist.countP_le

/-- The consumption of an entry takes its mark away. -/
theorem marks_remove_lt {q : Event} {i : Nat} (h : (q.markOf i).isSome) :
    (q.remove i).marks < q.marks := by
  obtain ⟨e, he, rfl, hMark⟩ := (markOf_isSome_iff q i).mp h
  have hSplit := List.countP_eq_countP_filter_add q.entries (fun e => e.mark.isSome)
    (fun d => decide (d.owner ≠ e.owner))
  have hSelf : 0 < ((q.entries.filter fun d => !decide (d.owner ≠ e.owner)).countP
      fun e => e.mark.isSome) :=
    List.countP_pos_iff.mpr ⟨e, List.mem_filter.mpr ⟨he, by simp⟩, hMark⟩
  change (q.entries.filter fun d => decide (d.owner ≠ e.owner)).countP _ < q.entries.countP _
  omega

theorem marks_discard_le (q : Event) (i : Nat) : (q.discard i).marks ≤ q.marks := by
  cases hMark : q.markOf i with
  | none =>
    simp only [discard, hMark]
    exact marks_remove_le q i
  | some kind =>
    have hLess := marks_remove_lt (q := q) (i := i) (by rw [hMark]; rfl)
    cases kind with
    | single =>
      simp only [discard, hMark]
      have := marks_notify_le (q.remove i) 1
      omega
    | additional =>
      simp only [discard, hMark]
      have := marks_notifyAdditional_le (q.remove i) 1
      omega

end Event
end AsyncLock.Interleaving
