import Mathlib.Data.Prod.Basic
import SigComp.Proofs.ArenaRuns

/-!
# Arenas whose slots are numbered by words

The number of a slot is written in 32 bits.  As long as there may be no more than 4294967296 slots
nothing is lost by that, and such an arena does what the arena does whose numbers do not end.  With
one slot more the last slot has the number of the first: the value that is put there takes the place
of another, under the key of the other.

* `Arena.widen`: the arena with each number as it is.
* `Narrow.after_widen`, `Narrow.answer_widen`: an act does to an arena what it does to the arena
  with each number as it is, and the answer is the same.
* `Narrow.run_widen`, `Narrow.issued_widen`, `Narrow.freed_widen`: the same of a run.
* `arena_is_a_bounded_map`: what an arena is at any point of any run in which the generations last.
* `last_slot_takes_first_number`: a run for which there are not enough numbers.
-/

namespace SigComp

/-- The key with its number as it is. -/
def Key.widen (k : Key UInt32) : Key := ⟨k.slot.toNat, k.generation⟩

theorem Key.widen_injective : Function.Injective Key.widen := by
  intro ⟨i, g⟩ ⟨j, h⟩ same
  have slots : i = j := UInt32.toNat_inj.1 (congrArg Key.slot same)
  have generations : g = h := congrArg Key.generation same
  rw [slots, generations]

namespace Arena

variable {α : Type} {a : Arena α UInt32} {i : Nat}

/-- The arena with each number as it is. -/
def widen (a : Arena α UInt32) : Arena α :=
  ⟨a.capacity, a.slots, a.free.map UInt32.toNat, a.size, a.peak⟩

/-- The act on the arena with each number as it is. -/
def Act.widen : Act α UInt32 → Act α
  | .insert v => .insert v
  | .remove k => .remove k.widen
  | .get k => .get k.widen
  | .change k f => .change k.widen f
  | .getAt i => .getAt i
  | .changeAt i f => .changeAt i f
  | .drain => .drain

/-- The answer with each number as it is. -/
def Answer.widen : Answer α UInt32 → Answer α
  | .key k => .key (k.map Key.widen)
  | .value v => .value v
  | .entry e => .entry (e.map (Prod.map Key.widen id))
  | .values vs => .values vs

/-- There are numbers enough for the slots. -/
structure Narrow (a : Arena α UInt32) : Prop where
  counted : a.widen.Counted
  enough : a.slots.size ≤ 4294967296

theorem Narrow.empty (capacity : Nat) : ({ capacity } : Arena α UInt32).Narrow :=
  ⟨.empty capacity, Nat.zero_le _⟩

/-- The number of a slot means this slot. -/
theorem Narrow.toNat_ofNat (narrow : a.Narrow) (inside : i < a.slots.size) :
    (UInt32.ofNat i).toNat = i :=
  UInt32.toNat_ofNat_of_lt' (Nat.lt_of_lt_of_le inside narrow.enough)

/-! ## Looking up -/

theorem get?_widen (a : Arena α UInt32) (k : Key UInt32) : a.widen.get? k.widen = a.get? k := rfl

theorem occupied_widen (a : Arena α UInt32) (i : Nat) : a.widen.occupied i = a.occupied i := by
  rw [occupied_eq, occupied_eq]
  rfl

theorem Narrow.getSlot?_widen (narrow : a.Narrow) (i : Nat) :
    a.widen.getSlot? i = (a.getSlot? i).map (Prod.map Key.widen id) := by
  simp only [getSlot?, widen]
  cases there : a.slots[i]? with
  | none => rfl
  | some s =>
    cases value : s.value with
    | none => simp [value]
    | some v =>
      have inside := (Array.getElem?_eq_some_iff.1 there).1
      simp [value, Key.widen, narrow.toNat_ofNat inside]

/-- The key in an entry and its value, with the number as it is. -/
theorem entry_widen_injective : Function.Injective (Prod.map Key.widen (id : α → α)) :=
  Key.widen_injective.prodMap Function.injective_id

theorem Narrow.getSlot?_eq_some_iff {k : Key UInt32} {v : α} (narrow : a.Narrow) :
    a.getSlot? i = some (k, v) ↔ k.slot.toNat = i ∧ a.get? k = some v := by
  have wide := Arena.getSlot?_eq_some_iff (a := a.widen) (k := k.widen) (i := i) (v := v)
  have entry : some (k.widen, v) = (some (k, v)).map (Prod.map Key.widen id) := rfl
  rwa [narrow.getSlot?_widen, entry,
    (Option.map_injective entry_widen_injective).eq_iff] at wide

theorem Narrow.toList_widen (narrow : a.Narrow) :
    a.widen.toList = a.toList.map (Prod.map Key.widen id) := by
  rw [toList, toList, List.map_filterMap]
  congr 1
  funext i
  exact narrow.getSlot?_widen i

theorem Narrow.mem_toList {k : Key UInt32} {v : α} (narrow : a.Narrow) :
    (k, v) ∈ a.toList ↔ a.get? k = some v := by
  have wide := Arena.mem_toList (a := a.widen) (k := k.widen) (v := v)
  have entry : (k.widen, v) = Prod.map Key.widen id (k, v) := rfl
  rwa [narrow.toList_widen, entry, List.mem_map_of_injective entry_widen_injective] at wide

/-! ## Changing -/

/-- Whether a value is refused has nothing to do with numbers. -/
theorem insert?_eq_none_widen (a : Arena α UInt32) (v : α) :
    a.widen.insert? v = none ↔ a.insert? v = none := by
  obtain ⟨capacity, slots, free, size, peak⟩ := a
  cases free with
  | cons i free => simp [insert?, widen]
  | nil => by_cases room : slots.size < capacity <;> simp [insert?, widen, room]

/-- A value is put into the same slot, as long as the number of a new slot means this slot. -/
theorem insert?_widen (a : Arena α UInt32) (v : α)
    (number : a.slots.size < (a.after (.insert v)).slots.size →
      (UInt32.ofNat a.slots.size).toNat = a.slots.size) :
    a.widen.insert? v = (a.insert? v).map (Prod.map Key.widen widen) := by
  obtain ⟨capacity, slots, free, size, peak⟩ := a
  cases free with
  | cons i free => rfl
  | nil =>
    simp only [after, insert?, widen, List.map_nil] at number ⊢
    split
    · next room =>
      have grown : (UInt32.ofNat slots.size).toNat = slots.size := by
        refine number ?_
        simp [room, seat, occupy]
      have seated : ∀ b : Arena α UInt32, b.widen.seat slots.size v =
          Prod.map Key.widen widen (b.seat (UInt32.ofNat slots.size) v) := by
        intro b
        simp only [seat, Prod.map, Key.widen, SlotNumber.toNat_word, grown]
        rfl
      exact congrArg some (seated ⟨capacity, slots.push ⟨0, none⟩, [], size, peak⟩)
    · rfl

theorem erase_widen (a : Arena α UInt32) (k : Key UInt32) :
    (a.erase k).widen = a.widen.erase k.widen := by
  unfold erase
  rw [get?_widen]
  cases a.get? k with
  | none => rfl
  | some v => simp [vacate, widen, Key.widen]

theorem modify_widen (a : Arena α UInt32) (k : Key UInt32) (f : α → α) :
    (a.modify k f).widen = a.widen.modify k.widen f := by
  unfold modify
  rw [get?_widen]
  cases a.get? k <;> rfl

theorem foldl_vacate_widen {slots : List Nat} (a : Arena α UInt32)
    (numbers : ∀ i ∈ slots, (UInt32.ofNat i).toNat = i) :
    (slots.foldl vacate a).widen = slots.foldl vacate a.widen := by
  induction slots generalizing a with
  | nil => rfl
  | cons i slots ih =>
    have first : (a.vacate i).widen = a.widen.vacate i := by
      simp [vacate, widen, numbers i List.mem_cons_self]
    rw [List.foldl_cons, List.foldl_cons, ← first]
    exact ih _ fun j among => numbers j (List.mem_cons_of_mem _ among)

theorem Narrow.clear_widen (narrow : a.Narrow) : a.clear.widen = a.widen.clear := by
  have numbers : ∀ i ∈ (List.range a.slots.size).filter a.occupied, (UInt32.ofNat i).toNat = i := by
    intro i among
    exact narrow.toNat_ofNat (List.mem_range.1 (List.mem_filter.1 among).1)
  have same := a.foldl_vacate_widen numbers
  have used : a.widen.occupied = a.occupied := funext a.occupied_widen
  rw [clear, clear, used]
  exact congrArg (fun b : Arena α => { b with size := 0 }) same

/-! ## Acts -/

section

variable {act : Act α UInt32}

/-- The number of a slot that an act adds means this slot. -/
theorem toNat_ofNat_of_grown (enough : (a.after act).slots.size ≤ 4294967296)
    (grown : a.slots.size < (a.after act).slots.size) :
    (UInt32.ofNat a.slots.size).toNat = a.slots.size :=
  UInt32.toNat_ofNat_of_lt' (Nat.lt_of_lt_of_le grown enough)

theorem Narrow.after_widen (narrow : a.Narrow) (enough : (a.after act).slots.size ≤ 4294967296) :
    (a.after act).widen = a.widen.after act.widen := by
  cases act with
  | insert v =>
    rw [Act.widen, after, after, insert?_widen a v (toNat_ofNat_of_grown enough)]
    cases a.insert? v <;> rfl
  | remove k => exact a.erase_widen k
  | get k => rfl
  | change k f => exact a.modify_widen k f
  | getAt i => rfl
  | changeAt i f => rfl
  | drain => exact narrow.clear_widen

theorem Narrow.answer_widen (narrow : a.Narrow) (enough : (a.after act).slots.size ≤ 4294967296) :
    a.widen.answer act.widen = (a.answer act).widen := by
  cases act with
  | insert v =>
    rw [Act.widen, answer, answer, insert?_widen a v (toNat_ofNat_of_grown enough)]
    cases a.insert? v <;> rfl
  | remove k => rfl
  | get k => rfl
  | change k f => rfl
  | getAt i => exact congrArg Answer.entry (narrow.getSlot?_widen i)
  | changeAt i f => exact congrArg Answer.entry (narrow.getSlot?_widen i)
  | drain =>
    rw [Act.widen, answer, narrow.toList_widen, List.map_map]
    rfl

theorem Narrow.gives_widen (narrow : a.Narrow) (enough : (a.after act).slots.size ≤ 4294967296) :
    a.widen.gives act.widen = (a.gives act).map Key.widen := by
  rw [gives, gives, narrow.answer_widen enough]
  cases a.answer act <;> rfl

theorem Narrow.frees_widen (narrow : a.Narrow) (enough : (a.after act).slots.size ≤ 4294967296)
    (i : Nat) : a.widen.frees act.widen i = a.frees act i := by
  rw [frees, frees, ← narrow.after_widen enough, occupied_widen, occupied_widen]

theorem Narrow.after (narrow : a.Narrow) (enough : (a.after act).slots.size ≤ 4294967296) :
    (a.after act).Narrow := by
  refine ⟨?_, enough⟩
  rw [narrow.after_widen enough]
  exact narrow.counted.after act.widen

theorem Act.ends_widen (act : Act α UInt32) (k : Key UInt32) :
    act.widen.ends k.widen = act.ends k := by
  cases act with
  | remove k' => simp [Act.widen, Act.ends, Key.widen_injective.eq_iff]
  | _ => rfl

theorem Act.image_widen (act : Act α UInt32) (k : Key UInt32) :
    act.widen.image k.widen = act.image k := by
  cases act with
  | change k' f => simp [Act.widen, Act.image, Key.widen_injective.eq_iff]
  | _ => rfl

end

/-! ## Runs -/

section

variable {acts : List (Act α UInt32)}

/-- There are numbers enough at each point of a run if there are in the end. -/
theorem enough_of_run {act : Act α UInt32}
    (enough : (a.run (act :: acts)).slots.size ≤ 4294967296) :
    (a.after act).slots.size ≤ 4294967296 :=
  Nat.le_trans ((a.after act).grows_run acts).slots enough

theorem Narrow.run (narrow : a.Narrow) (enough : (a.run acts).slots.size ≤ 4294967296) :
    (a.run acts).Narrow := by
  induction acts generalizing a with
  | nil => exact narrow
  | cons act acts ih => exact ih (narrow.after (enough_of_run enough)) enough

theorem Narrow.run_widen (narrow : a.Narrow) (enough : (a.run acts).slots.size ≤ 4294967296) :
    (a.run acts).widen = a.widen.run (acts.map Act.widen) := by
  induction acts generalizing a with
  | nil => rfl
  | cons act acts ih =>
    have first := enough_of_run enough
    rw [List.map_cons, Arena.run, Arena.run, ih (narrow.after first) enough,
      narrow.after_widen first]

theorem Narrow.issued_widen (narrow : a.Narrow) (enough : (a.run acts).slots.size ≤ 4294967296) :
    a.widen.issued (acts.map Act.widen) = (a.issued acts).map Key.widen := by
  induction acts generalizing a with
  | nil => rfl
  | cons act acts ih =>
    have first := enough_of_run enough
    rw [List.map_cons, issued, issued, narrow.gives_widen first, ← narrow.after_widen first,
      ih (narrow.after first) enough, List.map_append]
    cases a.gives act <;> rfl

theorem Narrow.freed_widen (narrow : a.Narrow) (enough : (a.run acts).slots.size ≤ 4294967296)
    (i : Nat) : a.widen.freed i (acts.map Act.widen) = a.freed i acts := by
  induction acts generalizing a with
  | nil => rfl
  | cons act acts ih =>
    have first := enough_of_run enough
    rw [List.map_cons, freed, freed, narrow.frees_widen first, ← narrow.after_widen first,
      ih (narrow.after first) enough]

theorem images_widen (k : Key UInt32) (acts : List (Act α UInt32)) (v : α) :
    images k.widen (acts.map Act.widen) v = images k acts v := by
  simp only [images, List.foldl_map, Act.image_widen]

theorem any_ends_widen (k : Key UInt32) (acts : List (Act α UInt32)) :
    (acts.map Act.widen).any (·.ends k.widen) = acts.any (·.ends k) := by
  simp only [List.any_map, Function.comp_def, Act.ends_widen]

/-- What a run makes of the value under a key, unless it gives this key out. -/
theorem Narrow.get?_run {k : Key UInt32} (narrow : a.Narrow)
    (enough : (a.run acts).slots.size ≤ 4294967296) (other : k ∉ a.issued acts) :
    (a.run acts).get? k =
      if acts.any (·.ends k) then none else (a.get? k).map (images k acts) := by
  have other' : k.widen ∉ a.widen.issued (acts.map Act.widen) := by
    rwa [narrow.issued_widen enough, List.mem_map_of_injective Key.widen_injective]
  have wide := narrow.counted.get?_run other'
  rwa [← narrow.run_widen enough, get?_widen, get?_widen, any_ends_widen,
    funext (images_widen k acts)] at wide

/-- What a run makes of a value that is put in first, unless its key is given out again. -/
theorem Narrow.get?_run_insert {k : Key UInt32} {v : α} (narrow : a.Narrow)
    (enough : (a.run (.insert v :: acts)).slots.size ≤ 4294967296)
    (given : a.gives (.insert v) = some k) (once : (a.issued (.insert v :: acts)).Nodup) :
    (a.run (.insert v :: acts)).get? k =
      if acts.any (·.ends k) then none else some (images k acts v) := by
  have given' : a.widen.gives (.insert v) = some k.widen := by
    have wide := narrow.gives_widen (enough_of_run enough)
    rwa [given] at wide
  have once' : (a.widen.issued (.insert v :: acts.map Act.widen)).Nodup := by
    have wide := narrow.issued_widen enough
    exact wide ▸ once.map Key.widen_injective
  have wide := narrow.counted.get?_run_insert given' once'
  have same := narrow.run_widen enough
  rw [List.map_cons] at same
  rwa [← show Act.widen (.insert v) = .insert v from rfl, ← same, get?_widen, any_ends_widen,
    images_widen] at wide

/-- No key is given out twice as long as the numbers and the generations last. -/
theorem nodup_issued_of_enough {capacity : Nat}
    (enough : (({ capacity } : Arena α UInt32).run acts).slots.size ≤ 4294967296)
    (few : ∀ i, ({ capacity } : Arena α UInt32).freed i acts < 4294967296) :
    (({ capacity } : Arena α UInt32).issued acts).Nodup := by
  have narrow : ({ capacity } : Arena α UInt32).Narrow := .empty capacity
  have wide : (({ capacity } : Arena α).issued (acts.map Act.widen)).Nodup := by
    refine nodup_issued fun i => ?_
    exact Nat.lt_of_le_of_lt (Nat.le_of_eq (narrow.freed_widen enough i)) (few i)
  have same := narrow.issued_widen enough
  exact List.Nodup.of_map Key.widen (same ▸ wide)

end

/-! ## The whole arena -/

/-- Whatever has been done to an arena that was empty, under keys that it gave out or others, as
long as it has not got more than 4294967296 slots, which a capacity of so many rules out
(`size_slots_run_le`), and no slot has been freed so often that its generations begin anew: a slot
that is not in use is free once, and one that is in use is not; the size is the number of slots in
use, at most the peak, and the peak at most the capacity.  A value is refused if and only if so many
are held as may be, and then nothing changes.  The keys that were given out are distinct; a key that
was given out has the value put in with it, as changed since, until this is taken out or all are,
and nothing ever after; a key that was not given out has nothing.  The slots and the list of all
values show what is under the keys.  A key that has nothing takes nothing out, and nothing
changes. -/
theorem arena_is_a_bounded_map (capacity : Nat) (acts : List (Act α UInt32))
    (enough : (({ capacity } : Arena α UInt32).run acts).slots.size ≤ 4294967296)
    (few : ∀ i, ({ capacity } : Arena α UInt32).freed i acts < 4294967296) :
    let start : Arena α UInt32 := { capacity }
    let a := start.run acts
    (∀ i, (a.free.map UInt32.toNat).count i =
      if i < a.slots.size ∧ a.occupied i = false then 1 else 0) ∧
    a.size = (List.range a.slots.size).countP a.occupied ∧
    a.size ≤ a.peak ∧ a.peak ≤ capacity ∧
    (∀ v, (a.answer (.insert v) = .key none ↔ a.size = capacity) ∧
      (a.size = capacity → a.after (.insert v) = a)) ∧
    (start.issued acts).Nodup ∧
    (∀ earlier v later k, acts = earlier ++ .insert v :: later →
      (start.run earlier).answer (.insert v) = .key (some k) →
      a.get? k = if later.any (·.ends k) then none else some (images k later v)) ∧
    (∀ k, k ∉ start.issued acts → a.get? k = none) ∧
    (∀ i k v, a.getSlot? i = some (k, v) ↔ k.slot.toNat = i ∧ a.get? k = some v) ∧
    (∀ k v, (k, v) ∈ a.toList ↔ a.get? k = some v) ∧
    ∀ k, a.get? k = none → a.answer (.remove k) = .value none ∧ a.after (.remove k) = a := by
  intro start a
  have fresh : start.Narrow := .empty capacity
  have narrow : a.Narrow := fresh.run enough
  have same : a.capacity = capacity := (start.grows_run acts).capacity
  have used : a.widen.occupied = a.occupied := funext a.occupied_widen
  have distinct : (start.issued acts).Nodup := nodup_issued_of_enough enough few
  refine ⟨?_, ?_, narrow.counted.reached, same ▸ narrow.counted.bounded, fun v => ?_, distinct,
    fun earlier v later k split given => ?_, fun k absent => ?_,
    fun i k v => narrow.getSlot?_eq_some_iff, fun k v => narrow.mem_toList, fun k gone => ?_⟩
  · have free := narrow.counted.tidy.count_free
    rwa [used] at free
  · have size := narrow.counted.size_eq_countP
    rwa [used] at size
  · have full := narrow.counted.insert?_eq_none_iff v
    rw [insert?_eq_none_widen, show a.widen.capacity = capacity from same] at full
    refine ⟨?_, fun all => ?_⟩
    · rw [answer, Answer.key.injEq, Option.map_eq_none_iff]
      exact full
    · rw [after, full.2 all]
      rfl
  · have ended : a = (start.run earlier).run (.insert v :: later) := by
      rw [← run_append, ← split]
    have still : ((start.run earlier).run (.insert v :: later)).slots.size ≤ 4294967296 :=
      ended ▸ enough
    have before := Nat.le_trans ((start.run earlier).grows_run _).slots still
    rw [split, issued_append] at distinct
    rw [ended]
    exact (fresh.run before).get?_run_insert still (congrArg Answer.key? given)
      (List.nodup_append.1 distinct).2.1
  · have nothing : start.get? k = none := rfl
    refine (fresh.get?_run enough absent).trans ?_
    rw [nothing]
    split <;> rfl
  · rw [answer, after, erase, gone]
    exact ⟨rfl, rfl⟩

/-- A slot is used again, and the key of its first value names nothing any more. -/
theorem stale_key_stays_dead :
    let start : Arena String UInt32 := { capacity := 1 }
    let acts : List (Act String UInt32) := [.insert "a", .remove ⟨0, 0⟩, .insert "b"]
    let a := start.run acts
    a.slots.size ≤ 4294967296 ∧ (∀ i, start.freed i acts < 4294967296) ∧
      start.issued acts = [⟨0, 0⟩, ⟨0, 1⟩] ∧ a.get? ⟨0, 0⟩ = none ∧ a.get? ⟨0, 1⟩ = some "b" ∧
      a.answer (.remove ⟨0, 0⟩) = .value none ∧ a.after (.remove ⟨0, 0⟩) = a ∧
      a.answer (.insert "c") = .key none := by
  intro start acts a
  have enough : a.slots.size ≤ 4294967296 :=
    Nat.le_trans (size_slots_run_le 1 acts) (by decide)
  have few (i : Nat) : start.freed i acts < 4294967296 :=
    Nat.lt_of_le_of_lt (start.freed_le_length i acts) (by decide)
  obtain ⟨-, -, -, -, refused, -, fate, -, -, -, dead⟩ := arena_is_a_bounded_map 1 acts enough few
  have stale : a.get? ⟨0, 0⟩ = none :=
    fate [] "a" [.remove ⟨0, 0⟩, .insert "b"] ⟨0, 0⟩ rfl rfl
  have current : a.get? ⟨0, 1⟩ = some "b" :=
    fate [.insert "a", .remove ⟨0, 0⟩] "b" [] ⟨0, 1⟩ rfl rfl
  exact ⟨enough, few, rfl, stale, current, (dead _ stale).1, (dead _ stale).2,
    (refused "c").1.2 rfl⟩

/-! ## One slot too many -/

section

variable {v w : α} {n capacity : Nat}

theorem occupied_occupy (a : Arena α UInt32) (j : Nat) (v : α) (used : a.occupied i = true) :
    (a.occupy j v).occupied i = true := by
  rw [occupied_eq] at used ⊢
  simp only [occupy, Array.getElem?_modify]
  split
  · cases there : a.slots[i]? with
    | none => simp [there] at used
    | some s => rfl
  · exact used

/-- A value that is put in frees no slot. -/
theorem frees_insert (a : Arena α UInt32) (v : α) (i : Nat) : a.frees (.insert v) i = false := by
  rw [frees, after]
  cases used : a.occupied i with
  | false => rfl
  | true =>
    suffices still : (((a.insert? v).map Prod.snd).getD a).occupied i = true by rw [still]; rfl
    unfold insert?
    split
    · exact occupied_occupy { a with free := _ } _ v used
    · split
      · refine occupied_occupy { a with slots := a.slots.push ⟨0, none⟩ } _ v ?_
        rw [occupied_eq] at used ⊢
        rw [Array.getElem?_push]
        split
        · next last => simp [last] at used
        · exact used
      · exact used

theorem freed_inserts (a : Arena α UInt32) (i : Nat) (vs : List α) :
    a.freed i (vs.map .insert) = 0 := by
  induction vs generalizing a with
  | nil => rfl
  | cons v vs ih => rw [List.map_cons, freed, frees_insert, ih]; rfl

theorem any_ends_inserts (k : Key UInt32) (vs : List α) :
    (vs.map .insert).any (Act.ends k) = false := by
  rw [List.any_map]
  exact List.any_eq_false.2 fun _ _ => Bool.false_ne_true

/-- An arena with a value in each of its slots, each in first use. -/
def filled (capacity n : Nat) (v : α) : Arena α UInt32 :=
  ⟨capacity, Array.replicate n ⟨0, some v⟩, [], n, n⟩

/-- A value is put into a further slot if the number of this slot means it. -/
theorem insert?_filled (room : n < capacity) (number : (UInt32.ofNat n).toNat = n) :
    (filled capacity n v).insert? v = some (⟨UInt32.ofNat n, 0⟩, filled capacity (n + 1) v) := by
  have slots : ((Array.replicate n ⟨0, some v⟩).push ⟨0, none⟩).modify n
      (fun s : Slot α => { s with value := some v }) = Array.replicate (n + 1) ⟨0, some v⟩ := by
    refine Array.ext_getElem? fun i => ?_
    simp only [Array.getElem?_modify, Array.getElem?_push, Array.getElem?_replicate,
      Array.size_replicate]
    grind
  simp [insert?, filled, seat, occupy, room, number, slots, Array.getElem_push]

theorem run_inserts (room : n ≤ capacity) (enough : n ≤ 4294967296) :
    ({ capacity } : Arena α UInt32).run ((List.replicate n v).map .insert) =
      filled capacity n v := by
  induction n with
  | zero => rfl
  | succ n ih =>
    have inserted := insert?_filled (v := v) (Nat.lt_of_succ_le room)
      (UInt32.toNat_ofNat_of_lt' (Nat.lt_of_succ_le enough))
    rw [List.replicate_succ', List.map_append, run_append,
      ih (Nat.le_of_succ_le room) (Nat.le_of_succ_le enough), List.map_singleton, run, run, after,
      inserted]
    rfl

/-- The first slot is the first that is used. -/
theorem first_mem_issued (used : 0 < n) (room : n ≤ capacity) :
    ⟨0, 0⟩ ∈ ({ capacity } : Arena α UInt32).issued ((List.replicate n v).map .insert) := by
  have inserted := insert?_filled (v := v) (Nat.lt_of_lt_of_le used room) (show _ = 0 from rfl)
  have given : ({ capacity } : Arena α UInt32).gives (.insert v) = some ⟨0, 0⟩ :=
    congrArg (Option.map Prod.fst) inserted
  obtain ⟨m, rfl⟩ := Nat.exists_eq_add_one.2 used
  rw [List.replicate_succ, List.map_cons, issued, given]
  exact List.mem_cons_self

/-- An arena with one slot more than numbers: the value for which there was no number is in the
first. -/
def overfilled (n : Nat) (v w : α) : Arena α UInt32 :=
  ⟨n + 1, ((Array.replicate n ⟨0, some v⟩).push ⟨0, none⟩).modify 0
    fun s => { s with value := some w }, [], n + 1, n + 1⟩

/-- A value is put into the first slot if the number of a further slot means the first. -/
theorem insert?_filled_of_wraps (used : 0 < n) (wraps : UInt32.ofNat n = 0) :
    (filled (n + 1) n v).insert? w = some (⟨0, 0⟩, overfilled n v w) := by
  simp [insert?, filled, overfilled, seat, occupy, wraps, Array.getElem_push, used]

theorem gives_filled_of_wraps (used : 0 < n) (wraps : UInt32.ofNat n = 0) :
    (filled (n + 1) n v).gives (.insert w) = some ⟨0, 0⟩ := by
  rw [gives, answer, insert?_filled_of_wraps used wraps]
  rfl

theorem after_filled_of_wraps (used : 0 < n) (wraps : UInt32.ofNat n = 0) :
    (filled (n + 1) n v).after (.insert w) = overfilled n v w := by
  rw [after, insert?_filled_of_wraps used wraps]
  rfl

theorem get?_overfilled (used : 0 < n) : (overfilled n v w).get? ⟨0, 0⟩ = some w := by
  simp [get?, overfilled, Array.getElem_modify, Array.getElem_push, used]

theorem occupied_overfilled (used : 0 < n) (i : Nat) :
    (overfilled n v w).occupied i = decide (i < n) := by
  rw [occupied_eq]
  simp only [overfilled, Array.getElem?_modify, Array.getElem?_push, Array.getElem?_replicate,
    Array.size_replicate]
  grind

theorem size_slots_overfilled : (overfilled n v w).slots.size = n + 1 := by
  simp [overfilled]

theorem countP_overfilled (used : 0 < n) :
    (List.range (n + 1)).countP (overfilled n v w).occupied = n := by
  rw [funext (occupied_overfilled used), List.range_succ, List.countP_append,
    List.countP_eq_length.2 fun i among => decide_eq_true (List.mem_range.1 among)]
  simp

end

/-- With 4294967297 slots the last has the number of the first: its value is put into the first
slot, in the place of a value that has not been taken out, under the same key, and it is itself
neither free nor in use. -/
theorem last_slot_takes_first_number :
    let start : Arena Bool UInt32 := { capacity := 4294967297 }
    let acts : List (Act Bool UInt32) := (List.replicate 4294967296 false ++ [true]).map .insert
    let a := start.run acts
    (∀ i, start.freed i acts = 0) ∧ acts.any (·.ends ⟨0, 0⟩) = false ∧
      start.answer (.insert false) = .key (some ⟨0, 0⟩) ∧ a.get? ⟨0, 0⟩ = some true ∧
      ¬ (start.issued acts).Nodup ∧
      a.slots.size = 4294967297 ∧ a.free = [] ∧ a.occupied 4294967296 = false ∧
      a.size = 4294967297 ∧ (List.range a.slots.size).countP a.occupied = 4294967296 := by
  intro start acts a
  have used : 0 < 4294967296 := by decide
  have wraps : UInt32.ofNat 4294967296 = 0 := by decide
  have split : acts = (List.replicate 4294967296 false).map .insert ++ [.insert true] :=
    List.map_append
  have full : start.run ((List.replicate 4294967296 false).map .insert) =
      filled (4294967296 + 1) 4294967296 false := run_inserts (by decide) (Nat.le_refl _)
  have ended : a = overfilled 4294967296 false true := by
    rw [show a = start.run acts from rfl, split, run_append, full, run, run,
      after_filled_of_wraps used wraps]
  have size : a.slots.size = 4294967297 := ended ▸ size_slots_overfilled
  refine ⟨fun i => start.freed_inserts i _, any_ends_inserts _ _, rfl, ?_, fun distinct => ?_, size,
    ?_, ?_, ?_, ?_⟩
  · rw [ended, get?_overfilled used]
  · have first : ⟨0, 0⟩ ∈ start.issued ((List.replicate 4294967296 false).map .insert) :=
      first_mem_issued used (by decide)
    rw [split, issued_append, full, issued, gives_filled_of_wraps used wraps] at distinct
    exact (List.nodup_append.1 distinct).2.2 _ first _ List.mem_cons_self rfl
  · rw [ended, overfilled]
  · rw [ended, occupied_overfilled used]
    exact decide_eq_false (Nat.lt_irrefl _)
  · rw [ended, overfilled]
  · rw [size, ended]
    exact countP_overfilled used

end Arena

end SigComp
