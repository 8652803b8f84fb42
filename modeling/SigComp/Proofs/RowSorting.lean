import Mathlib.Data.Nat.Log
import SigComp.Proofs.CheckedInstructions
import SigComp.Proofs.OperandScanning

/-!
# Sorting rows

A sort instruction puts several lists of words into the order of the first of them.  What it does to
a region of bytes is known from `Region.rows_eq`; here it is told word by word.

* `Sort.pairwise_order`: the positions of a list in the order of its words.  Equal words keep
  theirs, because a list of equal words is in order already (`Sort.filter_order`).
* `Memory.wordAt`: a word in memory; `Memory.words_bytes` finds it among those of a region.
* `SortOperands.place`: where the words of the lists are.
* `Memory.wordAt_sortRows`: which word is where after sorting.
* `rows_are_sorted_stably`: all that a sort instruction does.
-/

/-! ## A stable order -/

namespace SigComp.Sort

variable {descending : Bool} {first : Array UInt16}

theorem inOrder_self (a : UInt16) : inOrder descending a a = true := by
  cases descending <;> exact decide_eq_true (UInt16.le_refl a)

theorem inOrder_trans {a b c : UInt16} (ab : inOrder descending a b = true)
    (bc : inOrder descending b c = true) : inOrder descending a c = true := by
  cases descending
  · exact decide_eq_true (UInt16.le_trans (of_decide_eq_true ab) (of_decide_eq_true bc))
  · exact decide_eq_true (UInt16.le_trans (of_decide_eq_true bc) (of_decide_eq_true ab))

theorem inOrder_total (a b : UInt16) :
    (inOrder descending a b || inOrder descending b a) = true := by
  rw [Bool.or_eq_true]
  cases descending
  · exact (UInt16.le_total a b).imp decide_eq_true decide_eq_true
  · exact (UInt16.le_total b a).imp decide_eq_true decide_eq_true

/-- The word at a position comes no later than that at another one. -/
def precedes (descending : Bool) (first : Array UInt16) (i j : Nat) : Bool :=
  inOrder descending (first.getD i 0) (first.getD j 0)

theorem precedes_trans (i j k : Nat) (ij : precedes descending first i j = true)
    (jk : precedes descending first j k = true) : precedes descending first i k = true :=
  inOrder_trans ij jk

theorem precedes_total (i j : Nat) :
    (precedes descending first i j || precedes descending first j i) = true :=
  inOrder_total _ _

/-- Positions of equal words stay as they were. -/
theorem filter_order (descending : Bool) (first : Array UInt16) (v : UInt16) :
    (order descending first).filter (first.getD · 0 == v) =
      (List.range first.size).filter (first.getD · 0 == v) := by
  have equals : ((List.range first.size).filter (first.getD · 0 == v)).Pairwise fun i j =>
      precedes descending first i j = true := by
    refine List.pairwise_filter.2 (List.pairwise_of_forall fun i j hi hj => ?_)
    rw [precedes, eq_of_beq hi, eq_of_beq hj]
    exact inOrder_self v
  have kept := List.sublist_mergeSort precedes_trans precedes_total equals List.filter_sublist
  have among := kept.filter (first.getD · 0 == v)
  rw [List.filter_filter] at among
  simp only [Bool.and_self] at among
  refine (among.eq_of_length ?_).symm
  exact (((List.mergeSort_perm _ _).filter _).length_eq).symm

/-- The positions of a list stand in the order of their words, and those of equal words in their own
order. -/
theorem pairwise_order (descending : Bool) (first : Array UInt16) :
    (order descending first).Pairwise fun i j =>
      inOrder descending (first.getD i 0) (first.getD j 0) = true ∧
        (first.getD i 0 = first.getD j 0 → i < j) := by
  refine (List.pairwise_mergeSort precedes_trans precedes_total _).and ?_
  refine List.pairwise_of_forall_sublist fun {i j} pair same => ?_
  have rising :=
    (List.pairwise_lt_range (n := first.size)).filter (first.getD · 0 == first.getD j 0)
  rw [← filter_order descending] at rising
  have equal : ∀ k ∈ [i, j], (first.getD k 0 == first.getD j 0) = true := by
    intro k among
    rcases List.mem_pair.1 among with rfl | rfl
    · exact beq_iff_eq.2 same
    · exact beq_self_eq_true _
  have both := pair.filter (first.getD · 0 == first.getD j 0)
  rw [List.filter_eq_self.2 equal] at both
  exact rising.forall_sublist both

/-! ## Words behind one another -/

theorem words_flatMap_ofWord (ws : List UInt16) : words (ws.flatMap Bytes.ofWord) = ws := by
  induction ws with
  | nil => rfl
  | cons w rest ih =>
    rw [List.flatMap_cons]
    show word (highByte w) (lowByte w) :: words (rest.flatMap Bytes.ofWord) = _
    rw [word_ofWord, ih]

/-- Where lists of one length stand behind one another, each entry has its place. -/
theorem getElem?_flatMap {α : Type} {f : Nat → List α} {length n s l i : Nat}
    (each : ∀ l, (f l).length = length) (inList : l < n) (inside : i < length) :
    ((List.range' s n).flatMap f)[l * length + i]? = (f (s + l))[i]? := by
  induction n generalizing s l with
  | zero => cases inList
  | succ n ih =>
    rw [List.range'_succ, List.flatMap_cons]
    cases l with
    | zero =>
      rw [Nat.zero_mul, Nat.zero_add, List.getElem?_append_left (by rwa [each])]
      rfl
    | succ l =>
      have behind : (l + 1) * length + i = (f s).length + (l * length + i) := by
        rw [each, Nat.succ_mul]
        omega
      rw [behind, List.getElem?_append_right (Nat.le_add_right _ _), Nat.add_sub_cancel_left,
        ih (Nat.lt_of_succ_lt_succ inList), Nat.add_assoc, Nat.add_comm 1]

end SigComp.Sort

namespace SigComp

open Checked.Instruction

/-! ## Words in memory -/

namespace Memory

variable {m : Memory} {a n j : Nat}

/-- The word whose bytes stand at an address. -/
def wordAt (m : Memory) (a : Nat) : UInt16 := word (m.byteAt a) (m.byteAt (a + 1))

theorem words_bytes (inside : a + n ≤ m.size) (within : 2 * j + 1 < n) :
    (Sort.words (m.bytes a n))[j]? = some (m.wordAt (a + 2 * j)) := by
  have whole := bytes_eq_map inside
  have byte {k : Nat} (early : k < n) : (m.bytes a n)[k]? = some (m.byteAt (a + k)) := by
    rw [whole, List.getElem?_map, List.getElem?_range' early, Nat.one_mul]
    rfl
  have room : 2 * j + 1 < (m.bytes a n).length := by rwa [length_bytes inside]
  obtain ⟨high, low, first, second, found⟩ := getElem?_words room
  rw [byte (by omega)] at first
  rw [byte within] at second
  rw [found, ← Option.some.inj first, ← Option.some.inj second]
  rfl

theorem get?_put (m : Memory) {a b : Nat} {data : Bytes} (inside : a + data.length ≤ m.size) :
    (m.put a data).get? b =
      if a ≤ b ∧ b < a + data.length then data[b - a]? else m.get? b := by
  induction data generalizing m a with
  | nil =>
    rw [if_neg (by simp only [List.length_nil]; omega)]
    rfl
  | cons v rest ih =>
    rw [List.length_cons] at inside
    rw [put, ih _ (by rw [size_set]; omega), get?_set, List.length_cons]
    by_cases here : a = b
    · subst here
      rw [if_neg (by omega), if_pos ⟨rfl, by omega⟩, if_pos (by omega), Nat.sub_self]
      rfl
    · by_cases later : a + 1 ≤ b ∧ b < a + 1 + rest.length
      · have next : b - a = b - (a + 1) + 1 := by omega
        rw [if_pos later, if_pos (by omega), next]
        rfl
      · rw [if_neg later, if_neg (by omega), if_neg (by omega)]

/-- What has been stored is there. -/
theorem bytes_put {data : Bytes} (inside : a + data.length ≤ m.size) :
    (m.put a data).bytes a data.length = data := by
  have fits : a + data.length ≤ (m.put a data).size := by rwa [size_put]
  refine List.ext_getElem? fun k => ?_
  by_cases early : k < data.length
  · rw [bytes_eq_map fits, List.getElem?_map, List.getElem?_range' early, Nat.one_mul,
      Option.map_some, byteAt, get?_put m inside, if_pos (by omega), Nat.add_sub_cancel_left,
      List.getElem?_eq_getElem early]
    rfl
  · rw [List.getElem?_eq_none (by rw [length_bytes fits]; omega), List.getElem?_eq_none (by omega)]

end Memory

/-! ## Rows in memory -/

/-- The operands of a sort instruction. -/
structure SortOperands where
  start : UInt16
  lists : UInt16
  length : UInt16

namespace SortOperands

/-- The number of bytes of the lists. -/
def size (o : SortOperands) : Nat := 2 * o.lists.toNat * o.length.toNat

/-- The address of a word of a list. -/
def place (o : SortOperands) (list i : Nat) : Nat := o.start.toNat + 2 * (list * o.length.toNat + i)

end SortOperands

namespace Memory

variable {m : Memory} {o : SortOperands} {descending : Bool} {list i j : Nat}

/-- The positions of the first list, in the order of its words. -/
def order (m : Memory) (descending : Bool) (o : SortOperands) : List Nat :=
  Sort.order descending
    ((List.range' 0 o.length.toNat).map fun i => m.wordAt (o.place 0 i)).toArray

/-- The memory with its lists sorted. -/
def sortRows (m : Memory) (descending : Bool) (o : SortOperands) : Memory :=
  m.put o.start.toNat (sorted descending o.lists o.length (m.bytes o.start.toNat o.size))

theorem perm_order (m : Memory) (descending : Bool) (o : SortOperands) :
    (m.order descending o).Perm (List.range o.length.toNat) := by
  have perm := Checked.Instruction.perm_order descending
    ((List.range' 0 o.length.toNat).map fun i => m.wordAt (o.place 0 i)).toArray
  rwa [List.size_toArray, List.length_map, List.length_range'] at perm

theorem pairwise_order (m : Memory) (descending : Bool) (o : SortOperands) :
    (m.order descending o).Pairwise fun i j =>
      Sort.inOrder descending (m.wordAt (o.place 0 i)) (m.wordAt (o.place 0 j)) = true ∧
        (m.wordAt (o.place 0 i) = m.wordAt (o.place 0 j) → i < j) := by
  have value {i : Nat} (known : i ∈ m.order descending o) :
      ((List.range' 0 o.length.toNat).map fun i => m.wordAt (o.place 0 i)).toArray.getD i 0 =
        m.wordAt (o.place 0 i) := by
    have early := List.mem_range.1 ((m.perm_order descending o).mem_iff.1 known)
    rw [Array.getD_eq_getD_getElem?, List.getElem?_toArray, List.getElem?_map,
      List.getElem?_range' early, Nat.one_mul, Nat.zero_add]
    rfl
  refine List.Pairwise.imp_of_mem (fun hi hj => ?_) (Sort.pairwise_order descending _)
  rw [value hi, value hj]
  exact id

theorem length_sortedRegion (descending : Bool) (inside : o.start.toNat + o.size ≤ m.size) :
    (sorted descending o.lists o.length (m.bytes o.start.toNat o.size)).length = o.size :=
  length_sorted descending (length_bytes inside)

theorem region_bytes (inside : o.start.toNat + o.size ≤ m.size) :
    Region o.lists.toNat o.length.toNat (m.bytes o.start.toNat o.size) :=
  region_of_length (length_bytes inside)

/-- The words of a region of memory are those of its lists. -/
theorem wordAt_region (inList : list < o.lists.toNat) (early : i < o.length.toNat)
    (inside : o.start.toNat + o.size ≤ m.size) :
    Region.wordAt (m.bytes o.start.toNat o.size) o.length.toNat list i =
      m.wordAt (o.place list i) := by
  have next := ((region_bytes inside).place_lt inList early).1
  have size : o.size = 2 * (o.lists.toNat * o.length.toNat) := Nat.mul_assoc _ _ _
  rw [Region.wordAt, Array.getD_eq_getD_getElem?, List.getElem?_toArray,
    words_bytes inside (by omega)]
  rfl

/-- The words of sorted lists: those of each one, in the order of the first. -/
theorem words_rows (descending : Bool) (some : 0 < o.lists.toNat)
    (inside : o.start.toNat + o.size ≤ m.size) :
    Sort.words (Sort.rows descending o.lists.toNat o.length.toNat (m.bytes o.start.toNat o.size)) =
      (List.range' 0 o.lists.toNat).flatMap fun list => (m.order descending o).map
        (Region.wordAt (m.bytes o.start.toNat o.size) o.length.toNat list) := by
  have first : (List.range' 0 o.length.toNat).map
      (Region.wordAt (m.bytes o.start.toNat o.size) o.length.toNat 0) =
        (List.range' 0 o.length.toNat).map fun i => m.wordAt (o.place 0 i) := by
    refine List.map_congr_left fun i among => ?_
    have early := (List.mem_range'_1.1 among).2
    exact wordAt_region some (by omega) inside
  have places : Region.positions descending o.length.toNat (m.bytes o.start.toNat o.size) =
      m.order descending o := by
    rw [Region.positions, first]
    rfl
  rw [(region_bytes inside).rows_eq some, places, ← Sort.words_flatMap_ofWord (List.flatMap _ _),
    List.flatMap_assoc]
  simp only [List.flatMap_map]

/-- After sorting, each word is the one from the position that the order of the first list has in
its place. -/
theorem wordAt_sortRows (inside : o.start.toNat + o.size ≤ m.size) (inList : list < o.lists.toNat)
    (place : (m.order descending o)[i]? = some j) :
    (m.sortRows descending o).wordAt (o.place list i) = m.wordAt (o.place list j) := by
  have perm := m.perm_order descending o
  have early : i < o.length.toNat := by
    have := (List.getElem?_eq_some_iff.1 place).1
    rwa [perm.length_eq, List.length_range] at this
  have known : j < o.length.toNat :=
    List.mem_range.1 (perm.mem_iff.1 (List.mem_of_getElem? place))
  by_cases short : o.length ≤ 1
  · have one : o.length.toNat ≤ 1 := UInt16.le_iff_toNat_le.1 short
    have same : i = j := by omega
    rw [sortRows, sorted, if_pos short, put_bytes inside, same]
  · have rows : sorted descending o.lists o.length (m.bytes o.start.toNat o.size) =
        Sort.rows descending o.lists.toNat o.length.toNat (m.bytes o.start.toNat o.size) :=
      if_neg short
    have length := length_sortedRegion descending inside
    have next := ((region_bytes inside).place_lt inList early).1
    have size : o.size = 2 * (o.lists.toNat * o.length.toNat) := Nat.mul_assoc _ _ _
    have fits : o.start.toNat + (sorted descending o.lists o.length
        (m.bytes o.start.toNat o.size)).length ≤ m.size := by rwa [length]
    have found := words_bytes (m := m.sortRows descending o) (a := o.start.toNat) (n := o.size)
      (j := list * o.length.toNat + i) (by rwa [sortRows, size_put]) (by omega)
    have each (list : Nat) : ((m.order descending o).map (Region.wordAt
        (m.bytes o.start.toNat o.size) o.length.toNat list)).length = o.length.toNat := by
      rw [List.length_map, perm.length_eq, List.length_range]
    have stored : (m.sortRows descending o).bytes o.start.toNat o.size =
        Sort.rows descending o.lists.toNat o.length.toNat (m.bytes o.start.toNat o.size) := by
      rw [← rows, ← bytes_put fits, length]
      rfl
    rw [stored, words_rows descending (Nat.zero_lt_of_lt inList) inside,
      Sort.getElem?_flatMap each inList early, Nat.zero_add, List.getElem?_map, place,
      Option.map_some, wordAt_region inList known inside] at found
    exact (Option.some.inj found).symm

/-- Lists have been put into the order of the first one, each of whose words stood at the position
that is given for its place. -/
structure RowsSorted (m m' : Memory) (descending : Bool) (o : SortOperands) (positions : List Nat) :
    Prop where
  perm : positions.Perm (List.range o.length.toNat)
  /-- The first list is in order, and equal words are in the order in which they were. -/
  ordered : positions.Pairwise fun i j =>
    Sort.inOrder descending (m.wordAt (o.place 0 i)) (m.wordAt (o.place 0 j)) = true ∧
      (m.wordAt (o.place 0 i) = m.wordAt (o.place 0 j) → i < j)
  words : ∀ list < o.lists.toNat, ∀ i j, positions[i]? = some j →
    m'.wordAt (o.place list i) = m.wordAt (o.place list j)
  others : ∀ b, b < o.start.toNat ∨ o.start.toNat + o.size ≤ b → m'.get? b = m.get? b
  size : m'.size = m.size

theorem rowsSorted_sortRows (descending : Bool) (inside : o.start.toNat + o.size ≤ m.size) :
    m.RowsSorted (m.sortRows descending o) descending o (m.order descending o) where
  perm := m.perm_order descending o
  ordered := m.pairwise_order descending o
  words _ inList _ _ place := wordAt_sortRows inside inList place
  others b apart := by
    have length := length_sortedRegion descending inside
    rw [sortRows, get?_put m (by rwa [length]), length, if_neg (by omega)]
  size := size_put _ _ _

end Memory

/-! ## The instructions -/

/-- The logarithm to base 2, rounded up. -/
theorem Sort.log2Ceil_eq_clog (length : Nat) : Sort.log2Ceil length = Nat.clog 2 length := by
  refine eq_of_forall_ge_iff fun e => ?_
  rw [Nat.clog_le_iff_le_pow (by decide), Sort.log2Ceil]
  split
  · next short =>
    exact iff_of_true (Nat.zero_le e) (Nat.le_trans short Nat.one_le_two_pow)
  · next long =>
    rw [Nat.succ_le_iff, Nat.log2_lt (by omega)]
    omega

namespace Instruction

open Exec

/-- The operands are read one after the other. -/
def sortOperands : Exec SortOperands := do
  let start ← multitype
  let lists ← multitype
  let length ← multitype
  return ⟨start, lists, length⟩

theorem scans_sortOperands : Scans sortOperands :=
  .bind .multitype fun _ => .bind .multitype fun _ => .bind .multitype fun _ => .pure _

theorem looks_sortOperands : Looks sortOperands :=
  .bind .multitype fun _ => .bind .multitype fun _ => .bind .multitype fun _ => .pure _

theorem sort_eq (descending : Bool) :
    (do
      let o ← sortOperands
      let region ← onMemory (Memory.readSlice o.start.toNat o.size)
      onMemory (Memory.writeSlice o.start.toNat (sorted descending o.lists o.length region))
      charge (o.length.toNat * (Sort.log2Ceil o.length.toNat + o.lists.toNat))
      proceed) = sort descending := by
  simp only [sort, sortOperands, bind_assoc, pure_bind, SortOperands.size, sorted]

/-- What comes of a sort instruction: its operands cannot be read, or the lists do not end inside
memory, or they are sorted. -/
theorem sort_cases (descending : Bool) (f : Frame) :
    (∃ r g, sortOperands f = .error r g ∧ sort descending f = .error r g ∧ g.memory = f.memory) ∨
    (∃ o g, sortOperands f = .ok o g ∧ f.memory.size < o.start.toNat + o.size ∧
      sort descending f = .error .memoryAccess g ∧ g.memory = f.memory) ∨
    ∃ o g, sortOperands f = .ok o g ∧ o.start.toNat + o.size ≤ f.memory.size ∧
      sort descending f = .ok (.go (UInt16.ofNat g.cursor)) { g with
        memory := f.memory.sortRows descending o
        budget := { f.budget with total := f.budget.total +
          o.length.toNat * (Nat.clog 2 o.length.toNat + o.lists.toNat) } } := by
  have still := looks_sortOperands f
  rw [← sort_eq]
  cases operands : sortOperands f with
  | error r g =>
    rw [operands] at still
    exact .inl ⟨r, g, rfl, bind_of_error operands _, still⟩
  | ok o g =>
    rw [operands] at still
    have kept : g.memory = f.memory := still
    have spent : g.budget = f.budget := by rw [(scans_sortOperands f o g operands).2.1]
    rw [bind_of_ok operands]
    by_cases inside : o.start.toNat + o.size ≤ f.memory.size
    · have read : onMemory (Memory.readSlice o.start.toNat o.size) g =
          .ok (f.memory.bytes o.start.toNat o.size) g := by
        simp only [onMemory, kept, readSlice_ok inside]
        rw [← kept]
      have fits : o.start.toNat + (sorted descending o.lists o.length
          (f.memory.bytes o.start.toNat o.size)).length ≤ f.memory.size := by
        rwa [Memory.length_sortedRegion descending inside]
      have written : onMemory (Memory.writeSlice o.start.toNat
          (sorted descending o.lists o.length (f.memory.bytes o.start.toNat o.size))) g =
            .ok () { g with memory := f.memory.sortRows descending o } := by
        simp only [onMemory, kept, writeSlice_ok fits, Memory.sortRows]
      refine .inr (.inr ⟨o, g, rfl, inside, ?_⟩)
      rw [bind_of_ok read, bind_of_ok written, ← Sort.log2Ceil_eq_clog, ← spent]
      rfl
    · have refused :
          onMemory (Memory.readSlice o.start.toNat o.size) g = .error .memoryAccess g := by
        simp only [onMemory, Memory.readSlice, Memory.slice?, kept, if_neg inside]
        rw [← kept]
      exact .inr (.inl ⟨o, g, rfl, Nat.lt_of_not_le inside, bind_of_error refused _, kept⟩)

/-- Whatever the operands of a sort instruction are, and whether it sorts upwards or downwards.  It
fails for want of memory exactly if its operands cannot be read for want of it, or the lists do not
end inside memory; memory is unchanged by any failure.  Otherwise the lists end up in the order of
the first one, where equal words stay in the order in which they were: one permutation of positions
says for each list which of its words stands where.  No other byte changes, and the cycles are those
of the length, the number of lists and the logarithm of the length. -/
theorem rows_are_sorted_stably (s : Surroundings) (descending : Bool) (f : Frame) :
    let opcode : Opcode := if descending then .sortDescending else .sortAscending
    ((∃ h, execute s opcode f = .error .memoryAccess h) ↔
      (∃ g, sortOperands f = .error .memoryAccess g) ∨
        ∃ o g, sortOperands f = .ok o g ∧ f.memory.size < o.start.toNat + o.size) ∧
    (∀ r h, execute s opcode f = .error r h → h.memory = f.memory) ∧
    ∀ o g, sortOperands f = .ok o g → o.start.toNat + o.size ≤ f.memory.size →
      ∃ h positions, execute s opcode f = .ok (.go (UInt16.ofNat g.cursor)) h ∧
        f.memory.RowsSorted h.memory descending o positions ∧
        h.budget = { f.budget with total := f.budget.total +
          o.length.toNat * (Nat.clog 2 o.length.toNat + o.lists.toNat) } := by
  intro opcode
  have run : execute s opcode = sort descending := by cases descending <;> rfl
  rw [run]
  rcases sort_cases descending f with ⟨r, g, failed, done, kept⟩ |
    ⟨o, g, read, outside, done, kept⟩ | ⟨o, g, read, inside, done⟩
  · rw [failed, done]
    refine ⟨by simp, fun r' h same => ?_, fun o' g' same => ?_⟩ <;> cases same
    exact kept
  · rw [read, done]
    refine ⟨iff_of_true ⟨g, rfl⟩ (.inr ⟨o, g, rfl, outside⟩), fun r h same => ?_,
      fun o' g' same inside => ?_⟩ <;> cases same
    · exact kept
    · exact absurd inside (Nat.not_le.2 outside)
  · rw [read, done]
    refine ⟨iff_of_false (by simp) ?_, fun r h same => ?_, fun o' g' same _ => ?_⟩
    · rintro (⟨g', same⟩ | ⟨o', g', same, outside⟩) <;> cases same
      exact absurd inside (Nat.not_le.2 outside)
    · cases same
    · cases same
      exact ⟨_, _, rfl, Memory.rowsSorted_sortRows descending inside, rfl⟩

/-- Two lists of three words are sorted downwards.  The first has two equal words. -/
example : (Memory.sortRows ⟨#[0, 1, 0, 2, 0, 1, 0, 10, 0, 11, 0, 12]⟩ true ⟨0, 2, 3⟩).cells =
    #[0, 2, 0, 1, 0, 1, 0, 11, 0, 10, 0, 12] := by
  cbv

end Instruction

end SigComp
