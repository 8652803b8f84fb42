import SigComp.Arena

/-!
# What an arena holds

`Arena.get?` and `Arena.toList` as views of one another, and what every change does to
them.

* `Arena.Tidy`: the free slots are the vacant ones, each once.  All that a new value
  needs is that the slot it gets is vacant.
* `get?_erase`, `get?_modify`, `insert?_eq_some`: one key changes and no other does.
* `toList_perm`, `toList_put_perm`, `toList_insert_perm`: the same of the values
  taken together, in any order.
-/

namespace SigComp.Arena

open SlotNumber (ofNat_nat toNat_nat)

variable {α : Type} {a b : Arena α} {k k' : Key} {v w : α}

/-! ## One key -/

theorem get?_eq_some_iff :
    a.get? k = some v ↔ a.slots[k.slot]? = some ⟨k.generation, some v⟩ := by
  unfold get?
  cases found : a.slots[k.slot]? with
  | none => simp
  | some s =>
    obtain ⟨generation, value⟩ := s
    by_cases current : generation = k.generation
    · simp [current]
    · simp [current]

theorem get?_eq_none_of_vacant {g : UInt32} (vacant : a.slots[k.slot]? = some ⟨g, none⟩) :
    a.get? k = none := by
  simp [get?, vacant]

theorem get?_eq_none_of_beyond (beyond : a.slots.size ≤ k.slot) : a.get? k = none := by
  simp [get?, Array.getElem?_eq_none beyond]

theorem getSlot?_eq_some_iff {i : Nat} :
    a.getSlot? i = some (k, v) ↔ k.slot = i ∧ a.get? k = some v := by
  rw [get?_eq_some_iff]
  unfold getSlot?
  obtain ⟨slot, generation⟩ := k
  constructor
  · intro h
    rcases Option.bind_eq_some_iff.1 h with ⟨⟨g, value⟩, found, h⟩
    rcases Option.map_eq_some_iff.1 h with ⟨w, rfl, h⟩
    cases h
    exact ⟨rfl, found⟩
  · rintro ⟨rfl, found⟩
    simp [found]

/-- Whether a slot is in use can be seen without its key. -/
theorem occupied_eq {ι : Type} [SlotNumber ι] (a : Arena α ι) (i : Nat) :
    a.occupied i = (a.slots[i]?).any (·.value.isSome) := by
  unfold occupied getSlot?
  cases a.slots[i]? with
  | none => rfl
  | some s => cases value : s.value <;> simp [value]

/-- Erasing a key takes its value, and no other key's. -/
theorem get?_erase (a : Arena α) (k k' : Key) :
    (a.erase k).get? k' = if k' = k then none else a.get? k' := by
  unfold erase
  cases found : a.get? k with
  | none =>
    by_cases same : k' = k
    · rw [if_pos same, same]
      exact found
    · rw [if_neg same]
  | some v =>
    have held := get?_eq_some_iff.1 found
    change (a.vacate k.slot).get? k' = _
    by_cases slot : k'.slot = k.slot
    · have gone : (a.vacate k.slot).get? k' = none := by
        apply get?_eq_none_of_vacant (g := k.generation + 1)
        simp [vacate, slot, Array.getElem?_modify, held]
      rw [gone]
      split
      · rfl
      · next other =>
        -- a key of the same slot but another generation named nothing before
        symm
        simp only [get?, toNat_nat, slot, held, Option.bind_some]
        rw [if_neg]
        intro generation
        exact other (by cases k'; cases k; simp_all)
    · have other : k' ≠ k := fun same => slot (congrArg Key.slot same)
      rw [if_neg other]
      simp [get?, vacate, Array.getElem?_modify, Ne.symm slot]

/-- A change under a key is seen under that key alone. -/
theorem get?_modify (a : Arena α) (k k' : Key) (f : α → α) :
    (a.modify k f).get? k' = if k' = k then (a.get? k).map f else a.get? k' := by
  unfold modify
  cases found : a.get? k with
  | none =>
    by_cases same : k' = k
    · rw [if_pos same, same]
      exact found
    · rw [if_neg same]
  | some v =>
    have held := get?_eq_some_iff.1 found
    by_cases slot : k'.slot = k.slot
    · by_cases generation : k'.generation = k.generation
      · have same : k' = k := by
          cases k'; cases k; simp_all
        rw [if_pos same, same]
        simp [get?, Array.getElem?_modify, held]
      · have other : k' ≠ k := fun same => generation (congrArg Key.generation same)
        rw [if_neg other]
        simp [get?, slot, Array.getElem?_modify, held, Ne.symm generation]
    · have other : k' ≠ k := fun same => slot (congrArg Key.slot same)
      rw [if_neg other]
      simp [get?, Array.getElem?_modify, Ne.symm slot]

@[simp] theorem get?_erase_same (a : Arena α) (k : Key) : (a.erase k).get? k = none := by
  rw [get?_erase, if_pos rfl]

/-- A key under which there is a value has it replaced. -/
theorem get?_put (held : a.get? k = some v) (w : α) :
    (a.modify k fun _ => w).get? k' = if k' = k then some w else a.get? k' := by
  rw [get?_modify, held, Option.map_some]

/-! ## All keys -/

theorem mem_toList : (k, v) ∈ a.toList ↔ a.get? k = some v := by
  simp only [toList, List.mem_filterMap, List.mem_range, getSlot?_eq_some_iff]
  constructor
  · rintro ⟨_, _, _, found⟩
    exact found
  · intro found
    refine ⟨k.slot, ?_, rfl, found⟩
    rw [get?_eq_some_iff] at found
    rcases Array.getElem?_eq_some_iff.1 found with ⟨inside, _⟩
    exact inside

theorem nodup_toList (a : Arena α) : a.toList.Nodup := by
  refine List.Pairwise.filterMap a.getSlot? ?_ List.nodup_range
  rintro i j distinct ⟨k, v⟩ here ⟨k', w⟩ there same
  cases same
  have first := (getSlot?_eq_some_iff.1 here).1
  have second := (getSlot?_eq_some_iff.1 there).1
  exact distinct (first.symm.trans second)

/-- No key is held twice. -/
theorem nodup_keys (a : Arena α) : (a.toList.map Prod.fst).Nodup := by
  refine List.pairwise_map.2 (a.nodup_toList.imp_of_mem ?_)
  rintro ⟨k, v⟩ ⟨k', w⟩ here there distinct same
  cases same
  rw [mem_toList] at here there
  rw [here] at there
  cases there
  exact distinct rfl

/-- An arena that shows one value more than another holds that value more. -/
theorem toList_perm_cons (fresh : a.get? k = none)
    (more : ∀ k', b.get? k' = if k' = k then some v else a.get? k') :
    b.toList.Perm ((k, v) :: a.toList) := by
  have absent : (k, v) ∉ a.toList := by
    rw [mem_toList, fresh]
    intro impossible
    cases impossible
  apply (List.perm_ext_iff_of_nodup b.nodup_toList
    (List.nodup_cons.2 ⟨absent, a.nodup_toList⟩)).2
  rintro ⟨k', w⟩
  rw [List.mem_cons, mem_toList, mem_toList, more]
  by_cases same : k' = k
  · subst same
    simp [fresh, eq_comm]
  · simp [same]

/-- What an arena holds is what is under a key and what is left without it. -/
theorem toList_perm (held : a.get? k = some v) : a.toList.Perm ((k, v) :: (a.erase k).toList) := by
  apply toList_perm_cons (a.get?_erase_same k)
  intro k'
  rw [get?_erase]
  split
  · next same => rw [same, held]
  · rfl

theorem toList_put_perm (held : a.get? k = some v) (w : α) :
    (a.modify k fun _ => w).toList.Perm ((k, w) :: (a.erase k).toList) := by
  apply toList_perm_cons (a.get?_erase_same k)
  intro k'
  rw [get?_put held, get?_erase]
  split <;> rfl

/-- Under one key there is one value at most. -/
theorem filter_toList (a : Arena α) (k : Key) :
    a.toList.filter (·.1 == k) = ((a.get? k).map fun v => (k, v)).toList := by
  cases found : a.get? k with
  | none =>
    refine List.filter_eq_nil_iff.2 ?_
    intro ⟨k', v⟩ among same
    have here : k' = k := eq_of_beq same
    rw [mem_toList, here, found] at among
    cases among
  | some v =>
    have perm := (toList_perm found).filter (·.1 == k)
    have alone : (a.erase k).toList.filter (·.1 == k) = [] := by
      refine List.filter_eq_nil_iff.2 ?_
      intro ⟨k', w⟩ among same
      have here : k' = k := eq_of_beq same
      rw [mem_toList, here, get?_erase_same] at among
      cases among
    simp only [List.filter_cons, beq_self_eq_true, if_true, alone] at perm
    exact List.perm_singleton.1 perm

/-! ## New values -/

/-- The free slots are the vacant ones, and none is free twice. -/
structure Tidy (a : Arena α) : Prop where
  nodup : a.free.Nodup
  vacant : ∀ i, i ∈ a.free ↔ ∃ g, a.slots[i]? = some ⟨g, none⟩

theorem Tidy.empty (capacity : Nat) : (⟨capacity, #[], [], 0, 0⟩ : Arena α).Tidy :=
  ⟨List.nodup_nil, by simp⟩

theorem Tidy.erase (tidy : a.Tidy) (k : Key) : (a.erase k).Tidy := by
  unfold Arena.erase
  cases found : a.get? k with
  | none => exact tidy
  | some v =>
    have held := get?_eq_some_iff.1 found
    have occupied : k.slot ∉ a.free := by
      rw [tidy.vacant]
      rintro ⟨g, vacant⟩
      rw [held] at vacant
      cases vacant
    refine ⟨List.nodup_cons.2 ⟨occupied, tidy.nodup⟩, fun i => ?_⟩
    simp only [vacate, List.mem_cons, Array.getElem?_modify]
    by_cases slot : i = k.slot
    · subst slot
      simp [held]
    · simp [slot, Ne.symm slot, tidy.vacant]

theorem Tidy.modify (tidy : a.Tidy) (k : Key) (f : α → α) : (a.modify k f).Tidy := by
  unfold Arena.modify
  cases found : a.get? k with
  | none => exact tidy
  | some v =>
    have held := get?_eq_some_iff.1 found
    refine ⟨tidy.nodup, fun i => ?_⟩
    simp only [tidy.vacant, Array.getElem?_modify]
    by_cases slot : k.slot = i
    · subst slot
      simp [held]
    · simp [slot]

/-- In a vacant slot a value gets the key that is current there. -/
theorem seat_of_vacant {i : Nat} {g : UInt32} (vacant : a.slots[i]? = some ⟨g, none⟩) :
    a.seat i v = (⟨i, g⟩, a.occupy i v) := by
  simp [seat, vacant]

theorem get?_occupy {i : Nat} {g : UInt32} (vacant : a.slots[i]? = some ⟨g, none⟩) :
    (a.occupy i v).get? k' = if k' = ⟨i, g⟩ then some v else a.get? k' := by
  have here : (a.occupy i v).slots[i]? = some ⟨g, some v⟩ := by
    simp [occupy, Array.getElem?_modify, vacant]
  obtain ⟨slot, generation⟩ := k'
  by_cases same : slot = i
  · subst same
    simp [get?, here, vacant, eq_comm]
  · have there : (a.occupy i v).slots[slot]? = a.slots[slot]? := by
      simp [occupy, Array.getElem?_modify, Ne.symm same]
    simp [get?, there, same]

theorem vacant_occupy {i j : Nat} {g : UInt32} (vacant : a.slots[i]? = some ⟨g, none⟩) :
    (∃ g, (a.occupy i v).slots[j]? = some ⟨g, none⟩) ↔
      j ≠ i ∧ ∃ g, a.slots[j]? = some ⟨g, none⟩ := by
  by_cases same : i = j
  · subst same
    simp [occupy, Array.getElem?_modify, vacant]
  · simp [occupy, Array.getElem?_modify, same, Ne.symm same]

/-- A further slot, which is vacant, shows nothing. -/
theorem get?_push : ({ a with slots := a.slots.push ⟨0, none⟩ } : Arena α).get? k = a.get? k := by
  by_cases last : k.slot = a.slots.size
  · rw [get?_eq_none_of_beyond (Nat.le_of_eq last.symm)]
    apply get?_eq_none_of_vacant (g := 0)
    simp [last]
  · simp [get?, Array.getElem?_push, last]

/-- A new value gets a slot that was vacant, and the key that is current there. -/
theorem insert?_eq_some (tidy : a.Tidy) (h : a.insert? v = some (k, b)) :
    b.Tidy ∧ a.get? k = none ∧ ∀ k', b.get? k' = if k' = k then some v else a.get? k' := by
  unfold insert? at h
  split at h
  · next i free eq =>
    have isFree : i ∈ a.free := eq ▸ List.mem_cons_self
    rcases (tidy.vacant i).1 isFree with ⟨g, vacant⟩
    rcases List.nodup_cons.1 (eq ▸ tidy.nodup) with ⟨once, others⟩
    have still : ({ a with free } : Arena α).slots[i]? = some ⟨g, none⟩ := vacant
    rw [seat_of_vacant still] at h
    cases h
    refine ⟨⟨others, fun j => ?_⟩, get?_eq_none_of_vacant vacant, fun k' => get?_occupy still⟩
    rw [vacant_occupy still, ← tidy.vacant j, eq, List.mem_cons]
    constructor
    · intro free
      exact ⟨fun same => once (same ▸ free), .inr free⟩
    · rintro ⟨other, same | free⟩
      · exact absurd same other
      · exact free
  · next eq =>
    split at h
    · have last : ({ a with slots := a.slots.push ⟨0, none⟩ } : Arena α).slots[a.slots.size]? =
          some ⟨0, none⟩ := Array.getElem?_push_size
      rw [ofNat_nat, seat_of_vacant last] at h
      cases h
      refine ⟨⟨tidy.nodup, fun j => ?_⟩, get?_eq_none_of_beyond (Nat.le_refl _), fun k' => ?_⟩
      · rw [vacant_occupy last]
        refine (tidy.vacant j).trans ?_
        rw [Array.getElem?_push]
        by_cases same : j = a.slots.size
        · simp [same]
        · simp [same]
      · rw [get?_occupy last, get?_push]
    · cases h

theorem toList_insert_perm (tidy : a.Tidy) (h : a.insert? v = some (k, b)) :
    b.toList.Perm ((k, v) :: a.toList) := by
  rcases insert?_eq_some tidy h with ⟨_, fresh, more⟩
  exact toList_perm_cons fresh more

end SigComp.Arena
