import SigComp.Machine.Window

/-!
# Walking along the ring piece by piece

Instructions that move whole blocks walk along the ring in contiguous pieces.  This comes
to the same as going from address to address.

* `after_reach`: a piece without a jump ends where as many single steps lead.
* `addresses_segments?`, `read_eq`, `write_eq`, `advance_eq_after`: each traversal by pieces
  as one by single addresses.
* `traversal_is_bytewise`: all of them together, with the walks that leave memory.
-/

namespace SigComp

/-! ## Single stores -/

namespace Memory

/-- The memory with bytes stored one after the other, each at an address of its own.  Where an
address comes twice the later byte stays. -/
def storeEach (m : Memory) (stores : List (Nat × UInt8)) : Memory :=
  stores.foldl (fun m s => m.set s.1 s.2) m

/-- The byte at an address, or zero outside memory. -/
def byteAt (m : Memory) (a : Nat) : UInt8 := (m.get? a).getD 0

theorem storeEach_append (m : Memory) (first second : List (Nat × UInt8)) :
    m.storeEach (first ++ second) = (m.storeEach first).storeEach second :=
  List.foldl_append

theorem put_eq_storeEach (m : Memory) (a : Nat) (data : Bytes) :
    m.put a data = m.storeEach ((List.range' a data.length).zip data) := by
  induction data generalizing m a with
  | nil => rfl
  | cons b rest ih =>
    rw [put, ih, List.length_cons, List.range'_succ, List.zip_cons_cons]
    rfl

/-- A word is in memory if both of its bytes are. -/
theorem word?_eq_none_iff {m : Memory} {a : UInt16} :
    m.word? a = none ↔ m.size < a.toNat + 2 := by
  simp only [word?, get?, size]
  split
  · next low =>
    have inside := (Array.getElem?_eq_some_iff.1 low).1
    simp only [reduceCtorEq, false_iff]
    omega
  · next missing =>
    simp only [true_iff]
    refine Nat.lt_of_not_le fun inside => ?_
    exact missing _ _ (Array.getElem?_eq_getElem (by omega)) (Array.getElem?_eq_getElem (by omega))

/-- Bytes that lie inside memory are those at their addresses. -/
theorem bytes_eq_map {m : Memory} {a n : Nat} (inside : a + n ≤ m.size) :
    m.bytes a n = (List.range' a n).map m.byteAt := by
  have fits : a + n ≤ m.cells.size := inside
  apply List.ext_getElem
  · rw [bytes, Array.length_toList, Array.size_extract, List.length_map, List.length_range']
    omega
  · intro i within _
    rw [bytes, Array.length_toList, Array.size_extract] at within
    have here : a + i < m.cells.size := by omega
    simp [bytes, byteAt, get?, here]

end Memory

namespace Window

variable {w : Window} {a b : UInt16} {i k n size : Nat} {pieces : List (Nat × Nat)}

/-! ## Steps -/

theorem after_succ (w : Window) (a : UInt16) (n : Nat) :
    w.after a (n + 1) = w.next (w.after a n) := by
  induction n generalizing a with
  | zero => rfl
  | succ n ih => exact ih (w.next a)

theorem after_add (w : Window) (a : UInt16) (n k : Nat) :
    w.after a (n + k) = w.after (w.after a n) k := by
  induction n generalizing a with
  | zero => rw [Nat.zero_add, after]
  | succ n ih => rw [Nat.succ_add, after, after, ih]

theorem walk_add (w : Window) (a : UInt16) (n k : Nat) :
    w.walk a (n + k) = w.walk a n ++ w.walk (w.after a n) k := by
  induction n generalizing a with
  | zero => rw [Nat.zero_add, walk, after, List.nil_append]
  | succ n ih => rw [Nat.succ_add, walk, walk, after, ih, List.cons_append]

@[simp] theorem length_walk (w : Window) (a : UInt16) (n : Nat) : (w.walk a n).length = n := by
  induction n generalizing a with
  | zero => rfl
  | succ n ih => rw [walk, List.length_cons, ih]

/-! ## Pieces without a jump -/

/-- Where a piece lands depends on where it stops alone. -/
theorem land_congr (same : a.toNat + n = b.toNat + k) : w.land a n = w.land b k := by
  simp only [land, same]

theorem next_eq_land (w : Window) (a : UInt16) : w.next a = w.land a 1 := by
  have below : a.toNat < 65536 := a.toNat_lt
  have border : w.right.toNat < 65536 := w.right.toNat_lt
  have sum : a + 1 = UInt16.ofNat (a.toNat + 1) := by
    rw [UInt16.ofNat_add, UInt16.ofNat_toNat]
    rfl
  have wraps : a + 1 = w.right ↔
      a.toNat + 1 = w.right.toNat ∨ (a.toNat + 1 = 65536 ∧ w.right = 0) := by
    rw [← UInt16.toNat_inj, ← UInt16.toNat_inj (b := 0), UInt16.toNat_add]
    simp only [UInt16.toNat_one, UInt16.toNat_zero]
    omega
  simp only [next, land, wraps]
  rw [sum]

/-- Before the end of a piece each step leads to the next address. -/
theorem toNat_after (early : i < w.reach a n) : (w.after a i).toNat = a.toNat + i := by
  induction i with
  | zero => rfl
  | succ i ih =>
    have here := ih (Nat.lt_of_succ_lt early)
    have border : w.right.toNat < 65536 := w.right.toNat_lt
    have within : a.toNat + i + 1 < 65536 ∧ a.toNat + i + 1 ≠ w.right.toNat := by
      unfold reach at early
      split at early
      · next before =>
        have before := UInt16.lt_iff_toNat_lt.1 before
        omega
      · next beyond =>
        have beyond := UInt16.le_iff_toNat_le.1 (UInt16.not_lt.1 beyond)
        omega
    rw [after_succ, next_eq_land, land, here, if_neg (by omega), UInt16.toNat_ofNat']
    exact Nat.mod_eq_of_lt within.1

/-- A piece ends where as many single steps lead. -/
theorem after_reach (some : n ≠ 0) : w.after a (w.reach a n) = w.land a (w.reach a n) := by
  obtain ⟨last, whole⟩ := Nat.exists_eq_succ_of_ne_zero (Nat.ne_of_gt (w.reach_pos a some))
  have here : (w.after a last).toNat = a.toNat + last := toNat_after (n := n) (by omega)
  rw [whole, Nat.succ_eq_add_one, after_succ, next_eq_land]
  exact land_congr (by omega)

theorem map_toNat_walk (within : k ≤ w.reach a n) :
    (w.walk a k).map UInt16.toNat = List.range' a.toNat k := by
  induction k with
  | zero => rfl
  | succ k ih =>
    have here : (w.after a k).toNat = a.toNat + k := toNat_after within
    rw [walk_add, List.map_append, ih (Nat.le_of_succ_le within), List.range'_concat, Nat.one_mul,
      ← here]
    rfl

/-! ## Traversals -/

/-- The addresses that some pieces cover, in order. -/
def addresses (pieces : List (Nat × Nat)) : List Nat :=
  pieces.flatMap fun p => List.range' p.1 p.2

/-- No address of a walk lies outside memory. -/
def stays (w : Window) (size : Nat) (a : UInt16) (n : Nat) : Bool :=
  (w.walk a n).all (·.toNat < size)

/-- A walk is a piece without a jump, and the rest of the walk. -/
theorem walk_reach (some : n ≠ 0) :
    w.walk a n = w.walk a (w.reach a n) ++ w.walk (w.land a (w.reach a n)) (n - w.reach a n) := by
  have within : w.reach a n ≤ n := Nat.min_le_left _ _
  rw [← after_reach some, ← walk_add, Nat.add_sub_of_le within]

/-- A piece is inside memory if its end is. -/
theorem stays_reach (some : n ≠ 0) :
    w.stays size a n = (decide (a.toNat + w.reach a n ≤ size) &&
      w.stays size (w.land a (w.reach a n)) (n - w.reach a n)) := by
  have first : w.stays size a (w.reach a n) = decide (a.toNat + w.reach a n ≤ size) := by
    have far : 0 < w.reach a n := w.reach_pos a some
    have numbers : w.stays size a (w.reach a n) =
        ((w.walk a (w.reach a n)).map UInt16.toNat).all (· < size) := by
      rw [List.all_map]
      rfl
    rw [numbers, map_toNat_walk (Nat.le_refl _), Bool.eq_iff_iff, List.all_eq_true,
      decide_eq_true_iff]
    simp only [List.mem_range'_1, decide_eq_true_eq]
    constructor
    · intro each
      have last := each (a.toNat + w.reach a n - 1) (by omega)
      omega
    · intro fits b among
      omega
  rw [← first, stays, walk_reach some, List.all_append]
  rfl

/-- The pieces of a walk cover its addresses, in order, and there are such pieces exactly if the
walk stays in memory. -/
theorem addresses_segments? (w : Window) (size : Nat) (a : UInt16) (n : Nat) :
    (w.segments? size a n).map addresses =
      if w.stays size a n then some ((w.walk a n).map UInt16.toNat) else none := by
  induction a, n using segments?.induct w size with
  | case1 a =>
    rw [segments?, if_pos rfl]
    rfl
  | case2 a n some run inside ih =>
    rw [segments?, if_neg some, if_pos inside, Option.map_map, stays_reach some,
      decide_eq_true inside, Bool.true_and, walk_reach some, List.map_append,
      map_toNat_walk (Nat.le_refl _)]
    -- the first piece goes in front of what covers the rest
    have front : addresses ∘ ((a.toNat, w.reach a n) :: ·) =
        (List.range' a.toNat (w.reach a n) ++ ·) ∘ addresses := rfl
    rw [front, ← Option.map_map, ih]
    split <;> rfl
  | case3 a n some run outside =>
    rw [segments?, if_neg some, if_neg outside, stays_reach some, decide_eq_false outside]
    rfl

theorem advance_eq_after (w : Window) (a : UInt16) (n : Nat) : w.advance a n = w.after a n := by
  induction a, n using advance.induct w with
  | case1 a =>
    rw [advance, if_pos rfl]
    rfl
  | case2 a n some ih =>
    have within : w.reach a n ≤ n := Nat.min_le_left _ _
    rw [advance, if_neg some, ih, ← after_reach some, ← after_add, Nat.add_sub_of_le within]

/-- What is known of the pieces of a walk that stays in memory. -/
theorem exists_segments? (inside : w.stays size a n = true) :
    ∃ pieces, w.segments? size a n = some pieces ∧
      addresses pieces = (w.walk a n).map UInt16.toNat := by
  have covered := w.addresses_segments? size a n
  rw [if_pos inside] at covered
  exact Option.map_eq_some_iff.1 covered

theorem segments?_eq_none (outside : ¬ w.stays size a n = true) : w.segments? size a n = none := by
  have covered := w.addresses_segments? size a n
  rw [if_neg outside] at covered
  exact Option.map_eq_none_iff.1 covered

/-- The pieces of a walk are inside memory. -/
theorem inside_of_segments? (walked : w.segments? size a n = some pieces) :
    ∀ p ∈ pieces, p.1 + p.2 ≤ size := by
  induction a, n using segments?.induct w size generalizing pieces with
  | case1 a =>
    rw [segments?, if_pos rfl] at walked
    cases walked
    intro p among
    cases among
  | case2 a n some run inside =>
    rename_i ih
    rw [segments?, if_neg some, if_pos inside] at walked
    obtain ⟨rest, tail, rfl⟩ := Option.map_eq_some_iff.1 walked
    intro p among
    rcases List.mem_cons.1 among with rfl | later
    · exact inside
    · exact ih tail p later
  | case3 a n some run =>
    rename_i outside
    rw [segments?, if_neg some, if_neg outside] at walked
    cases walked

/-! ## Reading and writing -/

/-- Bytes that are read piece by piece are those at the addresses of the pieces. -/
theorem flatten_bytes {m : Memory} (fits : ∀ p ∈ pieces, p.1 + p.2 ≤ m.size) :
    (pieces.map fun p => m.bytes p.1 p.2).flatten = (addresses pieces).map m.byteAt := by
  induction pieces with
  | nil => rfl
  | cons p rest ih =>
    have first := fits p List.mem_cons_self
    have others := ih fun q among => fits q (List.mem_cons_of_mem p among)
    rw [List.map_cons, List.flatten_cons, others, Memory.bytes_eq_map first, addresses, addresses,
      List.flatMap_cons, List.map_append]

/-- The pieces of a walk that stays in memory hold the bytes at its addresses. -/
theorem map_flatten_pieces? (w : Window) (m : Memory) (a : UInt16) (n : Nat) :
    (w.pieces? m a n).map List.flatten =
      if w.stays m.size a n then some ((w.walk a n).map fun b => m.byteAt b.toNat) else none := by
  by_cases inside : w.stays m.size a n = true
  · obtain ⟨pieces, walked, covered⟩ := exists_segments? inside
    have bytes := flatten_bytes (inside_of_segments? walked)
    rw [covered, List.map_map] at bytes
    rw [if_pos inside, pieces?, walked]
    exact congrArg some bytes
  · rw [if_neg inside, pieces?, segments?_eq_none inside]
    rfl

/-- Bytes that are stored piece by piece go to the addresses of the pieces, one after the other. -/
theorem fill_eq_storeEach (m : Memory) (pieces : List (Nat × Nat)) (data : Bytes)
    (enough : (addresses pieces).length = data.length) :
    fill m pieces data = m.storeEach ((addresses pieces).zip data) := by
  induction pieces generalizing m data with
  | nil => rfl
  | cons p rest ih =>
    obtain ⟨start, length⟩ := p
    have whole : addresses ((start, length) :: rest) = List.range' start length ++ addresses rest :=
      List.flatMap_cons
    rw [whole, List.length_append, List.length_range'] at enough
    have first : (data.take length).length = length := List.length_take_of_le (by omega)
    have others : (addresses rest).length = (data.drop length).length := by
      rw [List.length_drop]
      omega
    have split : (List.range' start length ++ addresses rest).zip data =
        (List.range' start length).zip (data.take length) ++
          (addresses rest).zip (data.drop length) := by
      rw [← List.zip_append (by rw [List.length_range', first]), List.take_append_drop]
    rw [fill, ih _ _ others, whole, split, Memory.storeEach_append, Memory.put_eq_storeEach, first]

theorem read_eq (w : Window) (m : Memory) (a : UInt16) (n : Nat) :
    w.read a n m =
      if w.stays m.size a n then .ok ((w.walk a n).map fun b => m.byteAt b.toNat) m
      else .error .memoryAccess m := by
  have whole := w.map_flatten_pieces? m a n
  by_cases inside : w.stays m.size a n = true
  · rw [if_pos inside] at whole ⊢
    obtain ⟨pieces, found, bytes⟩ := Option.map_eq_some_iff.1 whole
    rw [read, found, ← bytes]
  · rw [if_neg inside] at whole ⊢
    rw [read, Option.map_eq_none_iff.1 whole]

theorem write_eq (w : Window) (m : Memory) (a : UInt16) (data : Bytes) :
    w.write a data m =
      if w.stays m.size a data.length then
        .ok (w.after a data.length)
          (m.storeEach (((w.walk a data.length).map UInt16.toNat).zip data))
      else .error .memoryAccess m := by
  by_cases inside : w.stays m.size a data.length = true
  · obtain ⟨pieces, walked, covered⟩ := exists_segments? inside
    have enough : (addresses pieces).length = data.length := by
      rw [covered, List.length_map, length_walk]
    rw [if_pos inside, write, walked]
    simp only [advance_eq_after, fill_eq_storeEach m pieces data enough, covered]
  · rw [if_neg inside, write, segments?_eq_none inside]

/-- Whatever the borders of the ring are, and however often a walk comes round: the pieces of a walk
cover one address after the other, and are refused exactly if one of these lies outside memory.
Reading gives the bytes at these addresses; writing stores a byte at each, where a later byte
replaces an earlier one, and leads to the address after the last; and a walk that leaves memory
fails and changes nothing. -/
theorem traversal_is_bytewise (w : Window) (m : Memory) (a : UInt16) (n : Nat) (data : Bytes) :
    (w.segments? m.size a n).map addresses =
      (if w.stays m.size a n then some ((w.walk a n).map UInt16.toNat) else none) ∧
    w.read a n m =
      (if w.stays m.size a n then .ok ((w.walk a n).map fun b => m.byteAt b.toNat) m
      else .error .memoryAccess m) ∧
    w.write a data m =
      (if w.stays m.size a data.length then
        .ok (w.after a data.length)
          (m.storeEach (((w.walk a data.length).map UInt16.toNat).zip data))
      else .error .memoryAccess m) ∧
    w.advance a n = w.after a n :=
  ⟨w.addresses_segments? m.size a n, w.read_eq m a n, w.write_eq m a data, w.advance_eq_after a n⟩

/-- A ring of two bytes is gone round again and again. -/
example : (⟨4, 6⟩ : Window).walk 5 4 = [5, 4, 5, 4] := by decide

end Window

end SigComp
