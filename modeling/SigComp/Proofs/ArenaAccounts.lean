import SigComp.Proofs.ArenaView

/-!
# Counters of an arena

An arena says how many values it holds and has held at most.  It counts, and the counters
are right.

* `Arena.Counted`: the size is the number of values, it has not been larger than the peak,
  and neither the peak nor the slots exceed the capacity.
* `Counted.insert`, `Counted.erase`, `Counted.modify`: every change keeps the count.
* `Counted.slot_lt`: a value that is held has a slot below the capacity.
* `Arena.Roomy`: a value can be put in, whichever it is.
-/

namespace SigComp.Arena

variable {α : Type} {a b : Arena α} {k : Key} {v : α}

/-- The counters of an arena are right, and no more is held than may be. -/
structure Counted (a : Arena α) : Prop where
  tidy : a.Tidy
  size : a.size = a.toList.length
  reached : a.size ≤ a.peak
  bounded : a.peak ≤ a.capacity
  grown : a.slots.size ≤ a.capacity

theorem Counted.empty (capacity : Nat) : (⟨capacity, #[], [], 0, 0⟩ : Arena α).Counted :=
  ⟨Tidy.empty capacity, rfl, Nat.le_refl 0, Nat.zero_le _, Nat.zero_le _⟩

/-- Each slot holds one value at most. -/
theorem length_toList_le (a : Arena α) : a.toList.length ≤ a.slots.size := by
  have each := List.length_filterMap_le a.getSlot? (List.range a.slots.size)
  rwa [List.length_range] at each

theorem slots_size_occupy (a : Arena α) (i : Nat) (v : α) :
    (a.occupy i v).slots.size = a.slots.size :=
  Array.size_modify

/-- What putting a value in does to the counters. -/
theorem counters_insert (h : a.insert? v = some (k, b)) :
    b.size = a.size + 1 ∧ b.peak = max a.peak (a.size + 1) ∧ b.capacity = a.capacity ∧
      (a.slots.size ≤ a.capacity → b.slots.size ≤ a.capacity) := by
  unfold insert? at h
  split at h
  · cases h
    refine ⟨rfl, rfl, rfl, fun grown => ?_⟩
    rw [slots_size_occupy]
    exact grown
  · split at h
    · next room =>
      cases h
      refine ⟨rfl, rfl, rfl, fun _ => ?_⟩
      rw [slots_size_occupy, Array.size_push]
      exact room
    · cases h

theorem Counted.insert (counted : a.Counted) (h : a.insert? v = some (k, b)) : b.Counted := by
  obtain ⟨tidy, size, reached, bounded, grown⟩ := counted
  obtain ⟨size', peak, capacity, slots⟩ := counters_insert h
  have more := (toList_insert_perm tidy h).length_eq
  rw [List.length_cons] at more
  -- there are no more values than slots, and no more slots than the capacity
  have within := Nat.le_trans (length_toList_le b) (slots grown)
  refine ⟨(insert?_eq_some tidy h).1, by omega, by omega, by omega, ?_⟩
  rw [capacity]
  exact slots grown

theorem toList_length_erase (held : a.get? k = some v) :
    a.toList.length = (a.erase k).toList.length + 1 :=
  (toList_perm held).length_eq

theorem erase_of_get? (held : a.get? k = some v) : a.erase k = a.vacate k.slot := by
  rw [erase, held]
  rfl

theorem erase_of_vacant (vacant : a.get? k = none) : a.erase k = a := by
  rw [erase, vacant]

@[simp] theorem capacity_erase (a : Arena α) (k : Key) : (a.erase k).capacity = a.capacity := by
  unfold erase
  split <;> rfl

@[simp] theorem capacity_modify (a : Arena α) (k : Key) (f : α → α) :
    (a.modify k f).capacity = a.capacity := by
  unfold modify
  split <;> rfl

@[simp] theorem size_modify (a : Arena α) (k : Key) (f : α → α) : (a.modify k f).size = a.size := by
  unfold modify
  split <;> rfl

theorem Counted.erase (counted : a.Counted) (k : Key) : (a.erase k).Counted := by
  obtain ⟨tidy, size, reached, bounded, grown⟩ := counted
  cases held : a.get? k with
  | none =>
    rw [erase_of_vacant held]
    exact ⟨tidy, size, reached, bounded, grown⟩
  | some v =>
    have fewer := toList_length_erase held
    have tidy' := tidy.erase k
    rw [erase_of_get? held] at fewer tidy' ⊢
    refine ⟨tidy', ?_, ?_, bounded, ?_⟩
    · change a.size - 1 = _
      omega
    · exact Nat.le_trans (Nat.sub_le a.size 1) reached
    · exact Nat.le_trans (Nat.le_of_eq Array.size_modify) grown

/-- A change of the value under a key puts another value there. -/
theorem modify_of_get? (held : a.get? k = some v) (f : α → α) :
    a.modify k f = a.modify k fun _ => f v := by
  simp only [modify, held]

theorem modify_of_vacant (vacant : a.get? k = none) (f : α → α) : a.modify k f = a := by
  rw [modify, vacant]

theorem Counted.modify (counted : a.Counted) (k : Key) (f : α → α) : (a.modify k f).Counted := by
  obtain ⟨tidy, size, reached, bounded, grown⟩ := counted
  cases held : a.get? k with
  | none =>
    rw [modify_of_vacant held]
    exact ⟨tidy, size, reached, bounded, grown⟩
  | some v =>
    have as_many : (a.modify k f).toList.length = a.toList.length := by
      rw [modify_of_get? held, (toList_put_perm held (f v)).length_eq, toList_length_erase held,
        List.length_cons]
    have tidy' := tidy.modify k f
    simp only [Arena.modify, held] at as_many tidy' ⊢
    exact ⟨tidy', size.trans as_many.symm, reached, bounded,
      Nat.le_trans (Nat.le_of_eq Array.size_modify) grown⟩

theorem Counted.slot_lt (counted : a.Counted) (held : a.get? k = some v) :
    k.slot < a.capacity := by
  rw [get?_eq_some_iff] at held
  obtain ⟨inside, _⟩ := Array.getElem?_eq_some_iff.1 held
  exact Nat.lt_of_lt_of_le inside counted.grown

/-! ## Room -/

/-- A slot is free, or one may be added. -/
def Roomy (a : Arena α) : Prop := a.free ≠ [] ∨ a.slots.size < a.capacity

/-- Whether there is room for a value does not depend on the value. -/
theorem exists_insert_iff (a : Arena α) (v : α) :
    (∃ k b, a.insert? v = some (k, b)) ↔ a.Roomy := by
  unfold insert? Roomy
  split
  · next free => simp [seat, free]
  · next free =>
    by_cases room : a.slots.size < a.capacity
    · simp [seat, room]
    · simp [free, room]

/-- There is room as long as there are fewer values than there may be: a slot that is not free holds
one of them. -/
theorem Counted.roomy (counted : a.Counted) (fewer : a.toList.length < a.capacity) : a.Roomy := by
  by_cases full : a.free = []
  · refine .inr ?_
    have each : ∀ i ∈ List.range a.slots.size, (a.getSlot? i).isSome = true := by
      intro i inside
      obtain ⟨⟨g, value⟩, here⟩ : ∃ slot, a.slots[i]? = some slot :=
        ⟨_, Array.getElem?_eq_getElem (List.mem_range.1 inside)⟩
      cases value with
      | some v => simp [getSlot?, here]
      | none =>
        have free := (counted.tidy.vacant i).2 ⟨g, here⟩
        rw [full] at free
        cases free
    have all := List.filterMap_length_eq_length.2 each
    rw [List.length_range] at all
    exact all ▸ fewer
  · exact .inl full

/-- The slot of a value that is taken out is free. -/
theorem roomy_erase (held : a.get? k = some v) : (a.erase k).Roomy := by
  rw [erase_of_get? held]
  exact .inl (List.cons_ne_nil _ _)

end SigComp.Arena
