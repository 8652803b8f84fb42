import Mathlib.Data.List.Nodup
import SigComp.Proofs.ArenaAccounts

/-!
# Generations of a slot

A slot is used again and again, and each time under the key of another generation, until
the generations are used up and begin anew.

* `Arena.turns`: how often a slot has been used, by the keys that were given out.
* `Arena.Numbered issued a`: the keys of each slot have been given out in the order of their
  generations, and the next that it gives out is the next in this order.
* `Numbered.insert`, `Numbered.erase`, `Numbered.modify`: every change keeps the order.
* `Numbered.nodup`: no key is given out twice as long as there are generations left.
-/

namespace SigComp.Arena

variable {α : Type} {a b : Arena α} {issued : List Key} {k : Key} {v : α}

/-! ## Keys in the order in which they are given out -/

/-- How often a slot has been used, by the keys that were given out. -/
def turns (issued : List Key) (i : Nat) : Nat := issued.countP (·.slot == i)

theorem turns_append (issued : List Key) (k : Key) (i : Nat) :
    turns (issued ++ [k]) i = turns issued i + if k.slot = i then 1 else 0 := by
  simp [turns, List.countP_append, List.countP_cons]

/-- The keys of a slot, in the order of their generations. -/
def serial (i n : Nat) : List Key := (List.range n).map fun g => ⟨i, UInt32.ofNat g⟩

theorem serial_succ (i n : Nat) : serial i (n + 1) = serial i n ++ [⟨i, UInt32.ofNat n⟩] := by
  simp [serial, List.range_succ]

/-- There are 4294967296 generations. -/
theorem nodup_serial {n : Nat} (few : n ≤ 4294967296) (i : Nat) : (serial i n).Nodup := by
  refine List.pairwise_map.2 (List.nodup_range.imp_of_mem fun here there distinct same => ?_)
  have generation := congrArg (fun k => k.generation.toNat) same
  simp only [UInt32.toNat_ofNat', List.mem_range] at generation here there
  omega

/-- The generation of the next value that a slot gets. -/
def upcoming (s : Slot α) : UInt32 := if s.value.isSome then s.generation + 1 else s.generation

/-- Each slot has been used by the keys of its first generations, one after the other. -/
structure Numbered (issued : List Key) (a : Arena α) : Prop where
  serial : ∀ i, issued.filter (·.slot == i) = serial i (turns issued i)
  unused : ∀ i, a.slots.size ≤ i → turns issued i = 0
  upcoming : ∀ i s, a.slots[i]? = some s → upcoming s = UInt32.ofNat (turns issued i)

theorem Numbered.empty (capacity : Nat) : Numbered [] (⟨capacity, #[], [], 0, 0⟩ : Arena α) :=
  ⟨fun _ => rfl, fun _ _ => rfl, by simp⟩

/-- No key has been given out twice as long as there are generations left. -/
theorem Numbered.nodup (numbered : Numbered issued a) (few : ∀ i, turns issued i ≤ 4294967296) :
    issued.Nodup := by
  refine List.nodup_iff_count_le_one.2 fun k => ?_
  have same : (issued.filter (·.slot == k.slot)).count k = issued.count k :=
    List.count_filter (beq_self_eq_true k.slot)
  rw [← same, numbered.serial]
  exact List.nodup_iff_count_le_one.1 (nodup_serial (few k.slot) k.slot) k

/-! ## Changes -/

/-- Between one new value and the next a slot may change, as long as its next key is the same. -/
theorem Numbered.change {i : Nat} {f : Slot α → Slot α} (numbered : Numbered issued a)
    (slots : b.slots = a.slots.modify i f)
    (same : ∀ s, a.slots[i]? = some s → Arena.upcoming (f s) = Arena.upcoming s) :
    Numbered issued b := by
  refine ⟨numbered.serial, fun j beyond => ?_, fun j s there => ?_⟩
  · rw [slots, Array.size_modify] at beyond
    exact numbered.unused j beyond
  · rw [slots, Array.getElem?_modify] at there
    by_cases here : i = j
    · rw [if_pos here] at there
      obtain ⟨s', before, rfl⟩ := Option.map_eq_some_iff.1 there
      rw [same s' (here ▸ before), numbered.upcoming j s' before]
    · rw [if_neg here] at there
      exact numbered.upcoming j s there

theorem Numbered.erase (numbered : Numbered issued a) (k : Key) : Numbered issued (a.erase k) := by
  cases found : a.get? k with
  | none => rwa [erase_of_vacant found]
  | some v =>
    rw [erase_of_get? found]
    refine numbered.change (i := k.slot) (f := fun s => ⟨s.generation + 1, none⟩) rfl ?_
    intro s here
    rw [get?_eq_some_iff.1 found] at here
    cases here
    rfl

theorem Numbered.modify (numbered : Numbered issued a) (k : Key) (f : α → α) :
    Numbered issued (a.modify k f) := by
  cases found : a.get? k with
  | none => rwa [modify_of_vacant found]
  | some v =>
    simp only [Arena.modify, found]
    refine numbered.change (i := k.slot) (f := fun s => { s with value := some (f v) }) rfl
      fun s here => ?_
    rw [get?_eq_some_iff.1 found] at here
    cases here
    rfl

/-- The key that is given out next for a slot. -/
theorem Numbered.serial_append (numbered : Numbered issued a)
    (next : k.generation = UInt32.ofNat (turns issued k.slot)) (i : Nat) :
    (issued ++ [k]).filter (·.slot == i) = Arena.serial i (turns (issued ++ [k]) i) := by
  rw [List.filter_append, numbered.serial, turns_append]
  by_cases here : k.slot = i
  · subst here
    rw [if_pos rfl, serial_succ, ← next]
    simp
  · simp [here]

/-- A value in a vacant slot, under the key that is current there. -/
theorem Numbered.occupy {i : Nat} {g : UInt32} (numbered : Numbered issued a)
    (vacant : a.slots[i]? = some ⟨g, none⟩) (v : α) :
    Numbered (issued ++ [⟨i, g⟩]) (a.occupy i v) := by
  have next : g = UInt32.ofNat (turns issued i) := numbered.upcoming i _ vacant
  refine ⟨numbered.serial_append next, fun j beyond => ?_, fun j s there => ?_⟩
  · rw [slots_size_occupy] at beyond
    have inside := (Array.getElem?_eq_some_iff.1 vacant).1
    rw [turns_append, numbered.unused j beyond, if_neg (show i ≠ j by omega)]
  · simp only [Arena.occupy, Array.getElem?_modify] at there
    rw [turns_append]
    by_cases here : i = j
    · subst here
      rw [if_pos rfl, vacant] at there
      cases there
      rw [if_pos rfl, UInt32.ofNat_add, ← next]
      rfl
    · rw [if_neg here] at there
      rw [if_neg here, numbered.upcoming j s there, Nat.add_zero]

/-- A further slot, which has not been used yet. -/
theorem Numbered.push (numbered : Numbered issued a) :
    Numbered issued ({ a with slots := a.slots.push ⟨0, none⟩ } : Arena α) := by
  refine ⟨numbered.serial, fun i beyond => ?_, fun i s there => ?_⟩
  · rw [Array.size_push] at beyond
    exact numbered.unused i (by omega)
  · rw [Array.getElem?_push] at there
    split at there
    · next new =>
      cases there
      rw [numbered.unused i (Nat.le_of_eq new.symm)]
      rfl
    · exact numbered.upcoming i s there

/-- A new value gets the next key of its slot. -/
theorem Numbered.insert (numbered : Numbered issued a) (tidy : a.Tidy)
    (h : a.insert? v = some (k, b)) : Numbered (issued ++ [k]) b := by
  unfold insert? at h
  split at h
  · next i free eq =>
    obtain ⟨g, vacant⟩ := (tidy.vacant i).1 (eq ▸ List.mem_cons_self)
    have still : ({ a with free } : Arena α).slots[i]? = some ⟨g, none⟩ := vacant
    rw [seat_of_vacant still] at h
    cases h
    have same : Numbered issued ({ a with free } : Arena α) :=
      ⟨numbered.serial, numbered.unused, numbered.upcoming⟩
    exact same.occupy vacant v
  · split at h
    · rw [SlotNumber.ofNat_nat, seat_of_vacant Array.getElem?_push_size] at h
      cases h
      exact numbered.push.occupy Array.getElem?_push_size v
    · cases h

end SigComp.Arena
