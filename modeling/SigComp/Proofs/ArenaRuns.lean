import SigComp.Proofs.ArenaChanges
import SigComp.Proofs.ArenaGenerations

/-!
# Runs of an arena

Whatever is done to an arena that was empty, under whichever keys: it is a map from keys to values
that holds so many at most, and a key that has served its time stays dead.  What is done and what it
leads to is said for slots numbered in any way; what is proved here is about an arena whose numbers
do not end.

* `Arena.Act`, `Arena.answer`, `Arena.after`: what is done to an arena, what it answers, what it is
  afterwards.
* `Arena.Grows`: slots are added up to the capacity; `size_slots_run_le`: in a run never beyond it.
* `Counted.clear_eq`: emptying an arena is erasing its keys one after the other, so that what holds
  of one key taken out holds of all.
* `Counted.kept_after`: an act that gives no key erases and changes values and does nothing else.
* `Counted.get?_run`: what a run makes of the value under a key that it does not give out.
* `Counted.turns_run`: each slot is used as often as it is freed, and once more if it is in use.
* `nodup_issued`: no key is given out twice as long as the generations last.
-/

namespace SigComp.Arena

section

variable {α ι : Type} {a b c : Arena α ι}

/-! ## Growth -/

/-- The capacity stays, and slots are added up to it. -/
structure Grows (a b : Arena α ι) : Prop where
  capacity : b.capacity = a.capacity
  slots : a.slots.size ≤ b.slots.size
  bounded : b.slots.size ≤ max a.slots.size a.capacity

theorem Grows.refl (a : Arena α ι) : a.Grows a := ⟨rfl, Nat.le_refl _, Nat.le_max_left _ _⟩

theorem Grows.trans (h : a.Grows b) (h' : b.Grows c) : a.Grows c := by
  obtain ⟨capacity, slots, bounded⟩ := h
  obtain ⟨capacity', slots', bounded'⟩ := h'
  exact ⟨capacity'.trans capacity, Nat.le_trans slots slots', by omega⟩

/-- As many slots as before. -/
theorem Grows.of_size (capacity : b.capacity = a.capacity) (slots : b.slots.size = a.slots.size) :
    a.Grows b :=
  ⟨capacity, Nat.le_of_eq slots.symm, slots ▸ Nat.le_max_left _ _⟩

variable [SlotNumber ι]

theorem grows_vacate (a : Arena α ι) (i : Nat) : a.Grows (a.vacate i) :=
  .of_size rfl Array.size_modify

theorem grows_clear (a : Arena α ι) : a.Grows a.clear := by
  have swept : a.Grows (((List.range a.slots.size).filter a.occupied).foldl vacate a) :=
    List.foldlRecOn _ _ (.refl a) fun b grown i _ => grown.trans (b.grows_vacate i)
  exact ⟨swept.capacity, swept.slots, swept.bounded⟩

theorem grows_insert {v : α} {k : Key ι} (h : a.insert? v = some (k, b)) : a.Grows b := by
  unfold insert? at h
  split at h
  · cases h
    exact .of_size rfl Array.size_modify
  · split at h
    · next room =>
      cases h
      have added : ∀ f, ((a.slots.push ⟨0, none⟩).modify (SlotNumber.toNat
          (SlotNumber.ofNat a.slots.size : ι)) f).size = a.slots.size + 1 := by simp
      exact ⟨rfl, Nat.le_trans (Nat.le_succ _) (Nat.le_of_eq (added _).symm),
        Nat.le_trans (Nat.le_of_eq (added _)) (Nat.le_trans room (Nat.le_max_right _ _))⟩
    · cases h

/-! ## What is done to an arena -/

/-- What is done to an arena.  Values are looked up and changed by key or by slot. -/
inductive Act (α : Type) (ι : Type := Nat) where
  | insert (v : α)
  | remove (k : Key ι)
  | get (k : Key ι)
  | change (k : Key ι) (f : α → α)
  | getAt (i : Nat)
  | changeAt (i : Nat) (f : α → α)
  | drain

/-- What an arena answers. -/
inductive Answer (α : Type) (ι : Type := Nat) where
  | key (k : Option (Key ι))
  | value (v : Option α)
  | entry (e : Option (Key ι × α))
  | values (vs : List α)

/-- The key in an answer. -/
def Answer.key? : Answer α ι → Option (Key ι)
  | .key k => k
  | _ => none

/-- The answer to an act.  Where a value is to be changed, it is the value that there is to
change. -/
def answer (a : Arena α ι) : Act α ι → Answer α ι
  | .insert v => .key ((a.insert? v).map Prod.fst)
  | .remove k => .value (a.get? k)
  | .get k => .value (a.get? k)
  | .change k _ => .value (a.get? k)
  | .getAt i => .entry (a.getSlot? i)
  | .changeAt i _ => .entry (a.getSlot? i)
  | .drain => .values (a.toList.map Prod.snd)

/-- The arena after an act. -/
def after (a : Arena α ι) : Act α ι → Arena α ι
  | .insert v => ((a.insert? v).map Prod.snd).getD a
  | .remove k => a.erase k
  | .get _ => a
  | .change k f => a.modify k f
  | .getAt _ => a
  | .changeAt i f => a.modifyAt i f
  | .drain => a.clear

/-- The key that an act gives out, if any. -/
def gives (a : Arena α ι) (act : Act α ι) : Option (Key ι) := (a.answer act).key?

/-- An act takes the value out of a slot. -/
def frees (a : Arena α ι) (act : Act α ι) (i : Nat) : Bool :=
  a.occupied i && !(a.after act).occupied i

/-- The arena after a run. -/
def run (a : Arena α ι) : List (Act α ι) → Arena α ι
  | [] => a
  | act :: acts => (a.after act).run acts

/-- The keys that are given out in a run, in order. -/
def issued (a : Arena α ι) : List (Act α ι) → List (Key ι)
  | [] => []
  | act :: acts => (a.gives act).toList ++ (a.after act).issued acts

/-- How often a slot is freed in a run. -/
def freed (a : Arena α ι) (i : Nat) : List (Act α ι) → Nat
  | [] => 0
  | act :: acts => (a.frees act i).toNat + (a.after act).freed i acts

/-- The value under a key is taken out. -/
def Act.ends [DecidableEq ι] (k : Key ι) : Act α ι → Bool
  | .remove k' => k' = k
  | .drain => true
  | _ => false

/-- What an act makes of the value under a key, if it leaves it there. -/
def Act.image [DecidableEq ι] (k : Key ι) : Act α ι → α → α
  | .change k' f => if k' = k then f else id
  | .changeAt i f => if SlotNumber.toNat k.slot = i then f else id
  | _ => id

/-- What a run makes of the value under a key. -/
def images [DecidableEq ι] (k : Key ι) (acts : List (Act α ι)) (v : α) : α :=
  acts.foldl (fun v act => act.image k v) v

theorem run_append (a : Arena α ι) (acts acts' : List (Act α ι)) :
    a.run (acts ++ acts') = (a.run acts).run acts' := by
  induction acts generalizing a with
  | nil => rfl
  | cons act acts ih => exact ih (a.after act)

theorem issued_append (a : Arena α ι) (acts acts' : List (Act α ι)) :
    a.issued (acts ++ acts') = a.issued acts ++ (a.run acts).issued acts' := by
  induction acts generalizing a with
  | nil => rfl
  | cons act acts ih => rw [List.cons_append, issued, issued, run, ih, List.append_assoc]

/-- An act frees a slot once at most. -/
theorem freed_le_length (a : Arena α ι) (i : Nat) (acts : List (Act α ι)) :
    a.freed i acts ≤ acts.length := by
  induction acts generalizing a with
  | nil => exact Nat.le_refl 0
  | cons act acts ih =>
    have once := Bool.toNat_le (a.frees act i)
    have rest := ih (a.after act)
    simp only [freed, List.length_cons]
    omega

theorem grows_after (a : Arena α ι) (act : Act α ι) : a.Grows (a.after act) := by
  cases act with
  | insert v =>
    rw [after]
    cases inserted : a.insert? v with
    | none => exact .refl a
    | some answer => exact grows_insert inserted
  | remove k =>
    rw [after, erase]
    split
    · exact a.grows_vacate _
    · exact .refl a
  | change k f =>
    rw [after, modify]
    split
    · exact .of_size rfl Array.size_modify
    · exact .refl a
  | changeAt i f => exact .of_size rfl Array.size_modify
  | drain => exact a.grows_clear
  | get k => exact .refl a
  | getAt i => exact .refl a

theorem grows_run (a : Arena α ι) (acts : List (Act α ι)) : a.Grows (a.run acts) := by
  induction acts generalizing a with
  | nil => exact .refl a
  | cons act acts ih => exact (a.grows_after act).trans (ih (a.after act))

/-- An arena that was empty gets no more slots than it may hold values. -/
theorem size_slots_run_le (capacity : Nat) (acts : List (Act α ι)) :
    (({ capacity } : Arena α ι).run acts).slots.size ≤ capacity := by
  have bounded := (({ capacity } : Arena α ι).grows_run acts).bounded
  exact Nat.le_trans bounded (Nat.max_le.2 ⟨Nat.zero_le _, Nat.le_refl _⟩)

end

variable {α : Type} {a b : Arena α} {k : Key} {v : α} {i : Nat}

/-! ## Emptying -/

/-- The arena without the values under any of the keys. -/
def eraseAll (a : Arena α) (ks : List Key) : Arena α := ks.foldl erase a

/-- Vacating the slots of entries is erasing their keys, as long as no key comes twice. -/
theorem foldl_vacate {entries : List (Key × α)} (once : (entries.map Prod.fst).Nodup)
    (held : ∀ e ∈ entries, a.get? e.1 = some e.2) :
    (entries.map (·.1.slot)).foldl vacate a = a.eraseAll (entries.map Prod.fst) := by
  induction entries generalizing a with
  | nil => rfl
  | cons e entries ih =>
    obtain ⟨k, v⟩ := e
    obtain ⟨first, others⟩ := List.nodup_cons.1 once
    have same : a.vacate k.slot = a.erase k := (erase_of_get? (held _ List.mem_cons_self)).symm
    change (entries.map _).foldl _ (a.vacate k.slot) = _
    rw [same]
    refine ih others fun e among => ?_
    have other : e.1 ≠ k := fun same => first (List.mem_map.2 ⟨e, among, same⟩)
    rw [get?_erase, if_neg other]
    exact held e (List.mem_cons_of_mem _ among)

/-- The slots in use are those of the keys under which there is something. -/
theorem filter_occupied (a : Arena α) :
    (List.range a.slots.size).filter a.occupied = a.toList.map (·.1.slot) := by
  rw [toList, List.map_filterMap, ← List.filterMap_eq_filter]
  congr 1
  funext i
  cases there : a.getSlot? i with
  | none => simp [Option.guard, occupied, there]
  | some e => simp [Option.guard, occupied, there, (getSlot?_eq_some_iff.1 there).1]

theorem get?_eraseAll (a : Arena α) (ks : List Key) (k : Key) :
    (a.eraseAll ks).get? k = if k ∈ ks then none else a.get? k := by
  induction ks generalizing a with
  | nil => rfl
  | cons k' ks ih =>
    refine (ih (a.erase k')).trans ?_
    rw [get?_erase]
    by_cases later : k ∈ ks <;> by_cases here : k = k' <;> simp [later, here]

/-- Without its keys an arena holds nothing. -/
theorem get?_eraseAll_toList (a : Arena α) (k : Key) :
    (a.eraseAll (a.toList.map Prod.fst)).get? k = none := by
  rw [get?_eraseAll]
  split
  · rfl
  · next absent =>
    cases held : a.get? k with
    | none => rfl
    | some v => exact absurd (List.mem_map_of_mem (mem_toList.2 held)) absent

theorem clear_eq (a : Arena α) :
    a.clear = { a.eraseAll (a.toList.map Prod.fst) with size := 0 } := by
  rw [clear, filter_occupied, foldl_vacate a.nodup_keys fun _ among => mem_toList.1 among]

@[simp] theorem get?_clear (a : Arena α) (k : Key) : a.clear.get? k = none := by
  rw [clear_eq]
  exact a.get?_eraseAll_toList k

/-- An arena that counts its values has none left when all have been taken out. -/
theorem Counted.clear_eq (counted : a.Counted) :
    a.clear = a.eraseAll (a.toList.map Prod.fst) := by
  have erased : (a.eraseAll (a.toList.map Prod.fst)).Counted :=
    List.foldlRecOn _ _ counted fun _ kept k _ => kept.erase k
  have none_left : (a.eraseAll (a.toList.map Prod.fst)).toList = [] := by
    refine List.eq_nil_iff_forall_not_mem.2 fun (k, v) among => ?_
    rw [mem_toList, get?_eraseAll_toList] at among
    cases among
  have empty := erased.size
  rw [none_left, List.length_nil] at empty
  rw [Arena.clear_eq, ← empty]

/-- What erasing a key keeps, emptying keeps. -/
theorem Counted.kept_clear {P : Arena α → Prop} (counted : a.Counted)
    (erase : ∀ a k, P a → P (a.erase k)) (before : P a) : P a.clear := by
  rw [counted.clear_eq]
  exact List.foldlRecOn _ _ before fun a kept k _ => erase a k kept

/-! ## Changes by slot -/

/-- A value that is changed by its slot is changed under its key. -/
theorem modifyAt_of_getSlot? (there : a.getSlot? i = some (k, v)) (f : α → α) :
    a.modifyAt i f = a.modify k f := by
  obtain ⟨rfl, held⟩ := getSlot?_eq_some_iff.1 there
  have here := get?_eq_some_iff.1 held
  rw [modify_of_held held, modifyAt]
  congr 1
  refine Array.ext_getElem? fun n => ?_
  by_cases same : k.slot = n
  · simp [Array.getElem?_modify, ← same, here]
  · simp [Array.getElem?_modify, same]

/-- Where there is no value, none is changed. -/
theorem modifyAt_of_vacant (vacant : a.getSlot? i = none) (f : α → α) : a.modifyAt i f = a := by
  have same : a.slots.modify i (fun s => { s with value := s.value.map f }) = a.slots := by
    refine Array.ext_getElem? fun n => ?_
    rw [Array.getElem?_modify]
    split
    · next here =>
      subst here
      cases there : a.slots[i]? with
      | none => rfl
      | some s =>
        obtain ⟨g, value⟩ := s
        cases value with
        | none => rfl
        | some v => simp [getSlot?, there] at vacant
    · rfl
  rw [modifyAt, same]

theorem get?_modifyAt (a : Arena α) (i : Nat) (f : α → α) (k : Key) :
    (a.modifyAt i f).get? k = (a.get? k).map (if k.slot = i then f else id) := by
  have still : (a.get? k).map id = a.get? k := Option.map_id_fun ▸ rfl
  cases there : a.getSlot? i with
  | none =>
    rw [modifyAt_of_vacant there]
    by_cases slot : k.slot = i
    · cases held : a.get? k with
      | none => rfl
      | some v =>
        rw [getSlot?_eq_some_iff.2 ⟨slot, held⟩] at there
        cases there
    · rw [if_neg slot, still]
  | some entry =>
    obtain ⟨k', w⟩ := entry
    obtain ⟨slot', held'⟩ := getSlot?_eq_some_iff.1 there
    rw [modifyAt_of_getSlot? there, get?_modify]
    by_cases same : k = k'
    · rw [if_pos same, ← same, if_pos (same ▸ slot')]
    · rw [if_neg same]
      cases held : a.get? k with
      | none => rfl
      | some v =>
        -- a value under another key is in another slot
        have apart : k.slot ≠ i := slot' ▸ slot_ne held held' same
        rw [if_neg apart, Option.map_some, id]

/-! ## One act -/

/-- An act that gives no key erases and changes values and does nothing else. -/
theorem Counted.kept_after {P : Arena α → Prop} {act : Act α} (counted : a.Counted)
    (erase : ∀ a k, P a → P (a.erase k)) (modify : ∀ a k f, P a → P (a.modify k f))
    (quiet : a.gives act = none) (before : P a) : P (a.after act) := by
  cases act with
  | insert v =>
    have full : a.insert? v = none := Option.map_eq_none_iff.1 quiet
    rwa [after, full]
  | remove k => exact erase a k before
  | get k => exact before
  | change k f => exact modify a k f before
  | getAt i => exact before
  | changeAt i f =>
    rw [after]
    cases there : a.getSlot? i with
    | none => rwa [modifyAt_of_vacant there]
    | some entry =>
      rw [modifyAt_of_getSlot? there]
      exact modify a _ f before
  | drain => exact counted.kept_clear erase before

/-- A key is given out for a value that is put in. -/
theorem insert?_of_gives {act : Act α} (given : a.gives act = some k) :
    ∃ v, act = .insert v ∧ a.insert? v = some (k, a.after act) := by
  cases act with
  | insert v =>
    obtain ⟨⟨k', b⟩, inserted, rfl⟩ := Option.map_eq_some_iff.1 given
    refine ⟨v, rfl, ?_⟩
    rw [after, inserted]
    rfl
  | _ => cases given

theorem Counted.after (counted : a.Counted) (act : Act α) : (a.after act).Counted := by
  cases given : a.gives act with
  | none =>
    exact counted.kept_after (fun _ k kept => kept.erase k) (fun _ k f kept => kept.modify k f)
      given counted
  | some k =>
    obtain ⟨v, -, inserted⟩ := insert?_of_gives given
    exact counted.insert inserted

theorem Numbered.after {issued : List Key} (numbered : Numbered issued a) (counted : a.Counted)
    (act : Act α) : Numbered (issued ++ (a.gives act).toList) (a.after act) := by
  cases given : a.gives act with
  | none =>
    rw [Option.toList_none, List.append_nil]
    exact counted.kept_after (fun _ k kept => kept.erase k) (fun _ k f kept => kept.modify k f)
      given numbered
  | some k =>
    obtain ⟨v, -, inserted⟩ := insert?_of_gives given
    exact numbered.insert counted.tidy inserted

/-! ## The value under a key -/

/-- What an act makes of the value under a key, unless it gives this key out. -/
theorem Tidy.get?_after {act : Act α} (tidy : a.Tidy) (other : a.gives act ≠ some k) :
    (a.after act).get? k = if act.ends k then none else (a.get? k).map (act.image k) := by
  have still : (a.get? k).map id = a.get? k := Option.map_id_fun ▸ rfl
  cases act with
  | insert v =>
    refine Eq.trans ?_ still.symm
    cases inserted : a.insert? v with
    | none => rw [after, inserted]; rfl
    | some answer =>
      obtain ⟨k', b⟩ := answer
      have new : k ≠ k' := by
        rintro rfl
        exact other (congrArg (Option.map Prod.fst) inserted)
      rw [after, inserted]
      exact ((insert?_eq_some tidy inserted).2.2 k).trans (if_neg new)
  | remove k' =>
    rw [after, get?_erase]
    by_cases same : k = k'
    · simp [Act.ends, same]
    · simp [Act.ends, same, Ne.symm same, Act.image]
  | get k' => exact still.symm
  | change k' f =>
    rw [after, get?_modify]
    by_cases same : k = k'
    · simp [Act.ends, Act.image, same]
    · simp [Act.ends, Act.image, same, Ne.symm same]
  | getAt i => exact still.symm
  | changeAt i f => exact a.get?_modifyAt i f k
  | drain => exact a.get?_clear k

/-! ## Slots in use -/

theorem occupied_iff : a.occupied i = true ↔ ∃ k, k.slot = i ∧ (a.get? k).isSome := by
  rw [occupied, Option.isSome_iff_exists]
  constructor
  · rintro ⟨⟨k, v⟩, there⟩
    obtain ⟨slot, held⟩ := getSlot?_eq_some_iff.1 there
    exact ⟨k, slot, Option.isSome_iff_exists.2 ⟨v, held⟩⟩
  · rintro ⟨k, slot, held⟩
    obtain ⟨v, held⟩ := Option.isSome_iff_exists.1 held
    exact ⟨(k, v), getSlot?_eq_some_iff.2 ⟨slot, held⟩⟩

/-- No key has anything after an act that gives none, unless it had something before. -/
theorem Counted.held_of_after {act : Act α} (counted : a.Counted) (quiet : a.gives act = none)
    (held : ((a.after act).get? k).isSome = true) : (a.get? k).isSome = true := by
  refine counted.kept_after (P := fun b => (b.get? k).isSome = true → (a.get? k).isSome = true)
    (fun b k' kept held => kept ?_) (fun b k' f kept held => kept ?_) quiet id held
  · rw [get?_erase] at held
    split at held
    · cases held
    · exact held
  · rw [get?_modify] at held
    split at held
    · next same =>
      rw [Option.isSome_map] at held
      exact same ▸ held
    · exact held

/-- A slot that is not in use is not used without a key. -/
theorem Counted.occupied_of_after {act : Act α} (counted : a.Counted) (quiet : a.gives act = none)
    (used : (a.after act).occupied i = true) : a.occupied i = true := by
  obtain ⟨k, slot, held⟩ := occupied_iff.1 used
  exact occupied_iff.2 ⟨k, slot, counted.held_of_after quiet held⟩

/-- A value is put into a slot that is not in use, and all other slots are as they were. -/
theorem occupied_insert (tidy : a.Tidy) (h : a.insert? v = some (k, b)) :
    a.occupied k.slot = false ∧ ∀ i, b.occupied i = (decide (k.slot = i) || a.occupied i) := by
  obtain ⟨-, fresh, more⟩ := insert?_eq_some tidy h
  refine ⟨Bool.eq_false_iff.2 fun used => ?_, fun i => ?_⟩
  · -- the slot would hold two values afterwards
    obtain ⟨k', slot, held⟩ := occupied_iff.1 used
    obtain ⟨w, held⟩ := Option.isSome_iff_exists.1 held
    have other : k' ≠ k := by
      rintro rfl
      rw [fresh] at held
      cases held
    have here : b.get? k = some v := (more k).trans (if_pos rfl)
    have there : b.get? k' = some w := ((more k').trans (if_neg other)).trans held
    exact slot_ne there here other slot
  · rw [Bool.eq_iff_iff, Bool.or_eq_true, decide_eq_true_iff, occupied_iff, occupied_iff]
    constructor
    · rintro ⟨k', slot, held⟩
      rw [more] at held
      split at held
      · next same => exact .inl (same ▸ slot)
      · exact .inr ⟨k', slot, held⟩
    · rintro (slot | ⟨k', slot, held⟩)
      · refine ⟨k, slot, ?_⟩
        rw [more, if_pos rfl]
        rfl
      · refine ⟨k', slot, ?_⟩
        rw [more]
        split
        · rfl
        · exact held

/-- How often a slot is used and freed by one act. -/
theorem Counted.turns_after (counted : a.Counted) (act : Act α) (i : Nat) :
    turns (a.gives act).toList i + (a.occupied i).toNat =
      (a.frees act i).toNat + ((a.after act).occupied i).toNat := by
  cases given : a.gives act with
  | none =>
    have nothing : turns (none : Option Key).toList i = 0 := rfl
    have before := counted.occupied_of_after (i := i) given
    rw [nothing, frees]
    revert before
    cases a.occupied i <;> cases (a.after act).occupied i <;> simp
  | some k =>
    obtain ⟨v, -, inserted⟩ := insert?_of_gives given
    obtain ⟨vacant, slots⟩ := occupied_insert counted.tidy inserted
    have once : turns (some k).toList i = (decide (k.slot = i)).toNat := by
      by_cases here : k.slot = i <;> simp [turns, here]
    rw [once, frees, slots]
    by_cases here : k.slot = i
    · rw [← here, vacant]
      simp
    · simp [here]

/-! ## Runs -/

theorem Counted.run (counted : a.Counted) (acts : List (Act α)) : (a.run acts).Counted := by
  induction acts generalizing a with
  | nil => exact counted
  | cons act acts ih => exact ih (counted.after act)

theorem Numbered.run {issued : List Key} (numbered : Numbered issued a) (counted : a.Counted)
    (acts : List (Act α)) : Numbered (issued ++ a.issued acts) (a.run acts) := by
  induction acts generalizing a issued with
  | nil => exact (List.append_nil issued).symm ▸ numbered
  | cons act acts ih =>
    rw [Arena.issued, ← List.append_assoc]
    exact ih (numbered.after counted act) (counted.after act)

/-- What a run makes of the value under a key, unless it gives this key out. -/
theorem Counted.get?_run (counted : a.Counted) {acts : List (Act α)} (other : k ∉ a.issued acts) :
    (a.run acts).get? k = if acts.any (·.ends k) then none else (a.get? k).map (images k acts) := by
  induction acts generalizing a with
  | nil => exact (congrFun Option.map_id_fun _).symm
  | cons act acts ih =>
    rw [issued, List.mem_append, Option.mem_toList, not_or] at other
    rw [Arena.run, ih (counted.after act) other.2, counted.tidy.get?_after other.1, List.any_cons]
    by_cases now : act.ends k
    · simp [now]
    · by_cases later : acts.any (·.ends k)
      · simp [later]
      · rw [if_neg later, if_neg now, Option.map_map]
        simp only [now, later, Bool.or_self, Bool.false_eq_true, if_false]
        rfl

/-- Each slot is used as often as it is freed, and once more if it is in use. -/
theorem Counted.turns_run (counted : a.Counted) (acts : List (Act α)) (i : Nat) :
    turns (a.issued acts) i + (a.occupied i).toNat =
      a.freed i acts + ((a.run acts).occupied i).toNat := by
  induction acts generalizing a with
  | nil => rfl
  | cons act acts ih =>
    have first := counted.turns_after act i
    have rest := ih (counted.after act)
    simp only [issued, turns, List.countP_append, freed, Arena.run] at first rest ⊢
    omega

/-! ## The whole arena -/

/-- A slot that is not in use is free once, and one that is in use is not free. -/
theorem Tidy.count_free (tidy : a.Tidy) (i : Nat) :
    a.free.count i = if i < a.slots.size ∧ a.occupied i = false then 1 else 0 := by
  have vacant : i ∈ a.free ↔ i < a.slots.size ∧ a.occupied i = false := by
    rw [tidy.vacant, occupied, getSlot?]
    cases there : a.slots[i]? with
    | none => simp [Array.getElem?_eq_none_iff.1 there]
    | some s =>
      obtain ⟨g, value⟩ := s
      have inside : i < a.slots.size := (Array.getElem?_eq_some_iff.1 there).1
      cases value <;> simp [inside]
  rw [tidy.nodup.count]
  simp only [vacant]

theorem Counted.size_eq_countP (counted : a.Counted) :
    a.size = (List.range a.slots.size).countP a.occupied := by
  rw [counted.size, toList, List.length_filterMap_eq_countP]
  rfl

/-- A value can be put in unless so many are held as may be. -/
theorem Counted.insert?_eq_none_iff (counted : a.Counted) (v : α) :
    a.insert? v = none ↔ a.size = a.capacity := by
  have within : a.size ≤ a.capacity := Nat.le_trans counted.reached counted.bounded
  constructor
  · intro refused
    refine Nat.le_antisymm within (Nat.le_of_not_lt fun fewer => ?_)
    obtain ⟨k, b, inserted⟩ := (a.exists_insert_iff v).2 (counted.roomy (counted.size ▸ fewer))
    rw [refused] at inserted
    cases inserted
  · intro full
    refine Option.eq_none_iff_forall_ne_some.2 fun (k, b) inserted => ?_
    obtain ⟨size, -, capacity, -⟩ := counters_insert inserted
    have counted' := counted.insert inserted
    have := Nat.le_trans counted'.reached counted'.bounded
    omega

/-- No key is given out twice as long as no slot is freed so often that its generations begin
anew. -/
theorem nodup_issued {capacity : Nat} {acts : List (Act α)}
    (few : ∀ i, ({ capacity } : Arena α).freed i acts < 4294967296) :
    (({ capacity } : Arena α).issued acts).Nodup := by
  have fresh : ({ capacity } : Arena α).Counted := .empty capacity
  refine ((Numbered.empty capacity).run fresh acts).nodup fun i => ?_
  have used := fresh.turns_run acts i
  have once := Bool.toNat_le ((({ capacity } : Arena α).run acts).occupied i)
  have lasting := few i
  rw [List.nil_append]
  omega

/-- What a run makes of a value that is put in first, unless its key is given out again. -/
theorem Counted.get?_run_insert (counted : a.Counted) {later : List (Act α)}
    (given : a.gives (.insert v) = some k) (once : (a.issued (.insert v :: later)).Nodup) :
    (a.run (.insert v :: later)).get? k =
      if later.any (·.ends k) then none else some (images k later v) := by
  obtain ⟨_, h, inserted⟩ := insert?_of_gives given
  cases h
  rw [issued, given] at once
  have unique : k ∉ (a.after (.insert v)).issued later := (List.nodup_cons.1 once).1
  have held : (a.after (.insert v)).get? k = some v :=
    ((insert?_eq_some counted.tidy inserted).2.2 k).trans (if_pos rfl)
  rw [Arena.run, (counted.after _).get?_run unique, held, Option.map_some]

end SigComp.Arena
