import SigComp.Proofs.ArenaAccounts

/-!
# Changes of an arena one after the other

* `Arena.Vacated`: a key whose value has been taken out, until its slot is used again; the
  next value to be put in gets another key.
* `erase_modify`, `modify_modify` and `insert?_modify`: whether a value is changed before or
  after others are taken out, changed or put in makes no difference.
-/

namespace SigComp.Arena

variable {α : Type} {a b : Arena α} {k κ : Key} {v w : α} {f g : α → α}

/-! ## Keys that have served their time -/

/-- The slot of a key is vacant, and another key is the next for it. -/
def Vacated (a : Arena α) (k : Key) : Prop :=
  ∃ g, g ≠ k.generation ∧ a.slots[k.slot]? = some ⟨g, none⟩

theorem vacated_erase (held : a.get? k = some v) : (a.erase k).Vacated k := by
  have here := get?_eq_some_iff.1 held
  refine ⟨k.generation + 1, fun same => ?_, ?_⟩
  · have := congrArg UInt32.toNat same
    rw [UInt32.toNat_add] at this
    have := k.generation.toNat_lt
    simp only [UInt32.toNat_one] at *
    omega
  · rw [erase_of_get? held]
    simp [vacate, Array.getElem?_modify, here]

/-- A slot that is vacant is not vacated again. -/
theorem Vacated.erase (vacated : a.Vacated k) (k' : Key) : (a.erase k').Vacated k := by
  cases held : a.get? k' with
  | none => rwa [erase_of_vacant held]
  | some v =>
    obtain ⟨g, other, vacant⟩ := vacated
    refine ⟨g, other, ?_⟩
    have slots : k'.slot ≠ k.slot := by
      intro same
      have occupied := get?_eq_some_iff.1 held
      rw [same, vacant] at occupied
      cases occupied
    rw [erase_of_get? held]
    simp [vacate, Array.getElem?_modify, slots, vacant]

/-- A new value does not get the key that has just served its time. -/
theorem Vacated.ne_of_insert {k' : Key} (vacated : a.Vacated k) (tidy : a.Tidy)
    (h : a.insert? v = some (k', b)) : k' ≠ k := by
  rintro rfl
  obtain ⟨g, other, vacant⟩ := vacated
  unfold insert? at h
  split at h
  · cases h
    simp only [SlotNumber.toNat_nat] at vacant other
    rw [vacant] at other
    exact other rfl
  · next free =>
    have isFree := (tidy.vacant k'.slot).2 ⟨g, vacant⟩
    rw [free] at isFree
    cases isFree

/-! ## Changes that do not meet -/

theorem modify_at_once {β : Type} (xs : Array β) (i : Nat) (f g : β → β) :
    (xs.modify i f).modify i g = xs.modify i (g ∘ f) := by
  apply Array.ext_getElem?
  intro n
  by_cases here : i = n <;> simp [Array.getElem?_modify, here]

theorem modify_apart {β : Type} {i j : Nat} (apart : i ≠ j) (xs : Array β) (f g : β → β) :
    (xs.modify i f).modify j g = (xs.modify j g).modify i f := by
  apply Array.ext_getElem?
  intro n
  by_cases here : i = n
  · simp [Array.getElem?_modify, here, Ne.symm (here ▸ apart)]
  · simp [Array.getElem?_modify, here]

theorem push_modify {β : Type} {xs : Array β} {i : Nat} (inside : i < xs.size) (x : β) (f : β → β) :
    (xs.push x).modify i f = (xs.modify i f).push x := by
  refine Array.ext (by simp) fun n _ _ => ?_
  simp only [Array.getElem_modify, Array.getElem_push, Array.size_modify]
  grind

/-- Two keys under which there are values have slots of their own. -/
theorem slot_ne (held : a.get? k = some v) (held' : a.get? κ = some w) (other : k ≠ κ) :
    k.slot ≠ κ.slot := by
  intro same
  have first := get?_eq_some_iff.1 held
  have second := get?_eq_some_iff.1 held'
  rw [same, second] at first
  obtain ⟨i, generation⟩ := k
  obtain ⟨j, generation'⟩ := κ
  cases same
  cases first
  exact other rfl

/-- What a change does to the slots. -/
theorem modify_of_held (held : a.get? k = some v) (f : α → α) :
    a.modify k f =
      { a with slots := a.slots.modify k.slot fun s => { s with value := some (f v) } } := by
  rw [modify, held]
  rfl

theorem erase_modify (a : Arena α) (k κ : Key) (f : α → α) :
    (a.modify κ f).erase k = (a.erase k).modify κ f := by
  cases held : a.get? κ with
  | none =>
    have gone : (a.erase k).get? κ = none := by
      rw [get?_erase, held, ite_self]
    rw [modify_of_vacant held, modify_of_vacant gone]
  | some v =>
    by_cases same : k = κ
    · subst same
      have changed : (a.modify k f).get? k = some (f v) := by
        rw [get?_modify, if_pos rfl, held, Option.map_some]
      rw [modify_of_vacant (a.get?_erase_same k), erase_of_get? changed, erase_of_get? held,
        modify_of_held held]
      simp only [vacate, modify_at_once]
      rfl
    · have still : (a.erase k).get? κ = some v := by
        rw [get?_erase, if_neg (Ne.symm same), held]
      have seen : (a.modify κ f).get? k = a.get? k := by
        rw [get?_modify, if_neg same]
      cases other : a.get? k with
      | none => rw [erase_of_vacant other, erase_of_vacant (seen.trans other)]
      | some u =>
        rw [modify_of_held still, erase_of_get? (seen.trans other), erase_of_get? other,
          modify_of_held held]
        simp only [vacate]
        rw [modify_apart (slot_ne other held same)]

theorem modify_modify (other : k ≠ κ) (a : Arena α) (f g : α → α) :
    (a.modify κ f).modify k g = (a.modify k g).modify κ f := by
  have seen : (a.modify κ f).get? k = a.get? k := by
    rw [get?_modify, if_neg other]
  have seen' : (a.modify k g).get? κ = a.get? κ := by
    rw [get?_modify, if_neg (Ne.symm other)]
  cases held : a.get? κ with
  | none => rw [modify_of_vacant held, modify_of_vacant (seen'.trans held)]
  | some v =>
    cases held' : a.get? k with
    | none => rw [modify_of_vacant held', modify_of_vacant (seen.trans held')]
    | some u =>
      rw [modify_of_held (seen'.trans held), modify_of_held (seen.trans held'), modify_of_held held,
        modify_of_held held']
      simp only []
      rw [modify_apart (slot_ne held' held other)]

theorem occupy_modify {i : Nat} (held : a.get? κ = some v) (apart : κ.slot ≠ i) (f : α → α)
    (u : α) :
    (a.modify κ f).occupy i u = (a.occupy i u).modify κ f := by
  have still : (a.occupy i u).get? κ = some v := by
    rw [get?_eq_some_iff] at held ⊢
    simp [occupy, Array.getElem?_modify, Ne.symm apart, held]
  rw [modify_of_held held, modify_of_held still]
  simp only [occupy]
  rw [modify_apart apart]

/-- A value gets the same key whether another value has been changed before or not. -/
theorem seat_modify {i : Nat} {g : UInt32} (held : a.get? κ = some v)
    (vacant : a.slots[i]? = some ⟨g, none⟩) (f : α → α) (u : α) :
    (a.modify κ f).seat i u = ((a.seat i u).1, (a.seat i u).2.modify κ f) := by
  have apart : κ.slot ≠ i := by
    rintro rfl
    rw [get?_eq_some_iff.1 held] at vacant
    cases vacant
  have still : (a.modify κ f).slots[i]? = some ⟨g, none⟩ := by
    rw [modify_of_held held]
    simp [Array.getElem?_modify, apart, vacant]
  rw [seat_of_vacant vacant, seat_of_vacant still, occupy_modify held apart]

theorem insert?_modify (tidy : a.Tidy) (held : a.get? κ = some v) (f : α → α) (u : α) :
    (a.modify κ f).insert? u = (a.insert? u).map fun (k, b) => (k, b.modify κ f) := by
  have here := get?_eq_some_iff.1 held
  have changed := modify_of_held held f
  obtain ⟨capacity, slots, free, size, peak⟩ := a
  cases free with
  | cons i free =>
    obtain ⟨g, vacant⟩ := (tidy.vacant i).1 List.mem_cons_self
    have left : (⟨capacity, slots, free, size, peak⟩ : Arena α).get? κ = some v := held
    have seated := seat_modify left vacant f u
    rw [modify_of_held left] at seated
    simp only [changed, insert?, Option.map_some]
    exact congrArg some seated
  | nil =>
    have inside : κ.slot < slots.size := (Array.getElem?_eq_some_iff.1 here).1
    have left : (⟨capacity, slots.push ⟨0, none⟩, [], size, peak⟩ : Arena α).get? κ = some v :=
      get?_push.trans held
    have seated := seat_modify left Array.getElem?_push_size f u
    rw [modify_of_held left, push_modify inside] at seated
    simp only [changed, insert?, Array.size_modify]
    split
    · exact congrArg some seated
    · rfl

end SigComp.Arena
