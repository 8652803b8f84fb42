import Mathlib.Data.List.Basic
import SigComp.Checked.Instruction
import SigComp.Proofs.CheckedFrame

/-!
# Sorting is safe

A region of lists of equal length is read and written at the places of its words only,
and written once from front to back: what has been stored stands in front of what was
there before (`arrange_ok`).  So sorting in place is sorting (`rows_ok`).
-/

namespace SigComp.Checked.Instruction

/-! ## Words of a region -/

/-- Word `k` of a region is made of its bytes `2 * k` and `2 * k + 1`. -/
theorem getElem?_words {region : Bytes} {k : Nat} (inside : 2 * k + 1 < region.length) :
    ∃ high low, region[2 * k]? = some high ∧ region[2 * k + 1]? = some low ∧
      (Sort.words region)[k]? = some (word high low) := by
  induction k generalizing region with
  | zero =>
    obtain _ | ⟨high, _ | ⟨low, rest⟩⟩ := region
    · simp only [List.length_nil] at inside
      omega
    · simp only [List.length_cons, List.length_nil] at inside
      omega
    · exact ⟨high, low, rfl, rfl, rfl⟩
  | succ k ih =>
    obtain _ | ⟨high, _ | ⟨low, rest⟩⟩ := region
    · simp only [List.length_nil] at inside
      omega
    · simp only [List.length_cons, List.length_nil] at inside
      omega
    · simp only [List.length_cons] at inside
      have behind : 2 * k + 1 < rest.length := by omega
      obtain ⟨first, second, atFirst, atSecond, found⟩ := ih behind
      exact ⟨first, second, atFirst, atSecond, found⟩

theorem length_flatMap_ofWord {α : Type} (f : α → UInt16) (list : List α) :
    (list.flatMap fun a => Bytes.ofWord (f a)).length = 2 * list.length := by
  induction list with
  | nil => rfl
  | cons a rest ih =>
    rw [List.flatMap_cons, List.length_append, ih, Bytes.length_ofWord, List.length_cons]
    omega

theorem length_flatMap_const {α : Type} {f : α → Bytes} {n : Nat} {list : List α}
    (h : ∀ a ∈ list, (f a).length = n) : (list.flatMap f).length = list.length * n := by
  induction list with
  | nil => exact (Nat.zero_mul n).symm
  | cons a rest ih =>
    rw [List.flatMap_cons, List.length_append, h a List.mem_cons_self,
      ih fun b among => h b (List.mem_cons_of_mem _ among), List.length_cons, Nat.succ_mul,
      Nat.add_comm]

/-- A region of so many lists of so many words each, of numbers that an operand can have. -/
structure Region (lists length : Nat) (region : Bytes) : Prop where
  size : region.length = 2 * (lists * length)
  lists : lists ≤ 65535
  length : length ≤ 65535

namespace Region

variable {lists length list i : Nat} {region : Bytes}

/-- The words of a region are numbered by list and place. -/
theorem place_lt (h : Region lists length region) (inList : list < lists) (inside : i < length) :
    list * length + i < lists * length ∧ lists * length ≤ 65535 * 65535 := by
  refine ⟨?_, Nat.mul_le_mul h.lists h.length⟩
  have next : (list + 1) * length ≤ lists * length := Nat.mul_le_mul_right _ inList
  rw [Nat.succ_mul] at next
  omega

theorem spot_ok (h : Region lists length region) (inList : list < lists) (inside : i < length) :
    spot length list i = .ok (2 * (list * length + i)) := by
  obtain ⟨place, few⟩ := h.place_lt inList inside
  rw [spot, ok_bind (mul_ok (by omega)), ok_bind (add_ok (by omega)), mul_ok (by omega)]

/-- A word of a list, as the machine sees it. -/
def wordAt (region : Bytes) (length list i : Nat) : UInt16 :=
  (Sort.words region).toArray.getD (list * length + i) 0

theorem wordIn_ok (h : Region lists length region) (inList : list < lists) (inside : i < length) :
    wordIn region length list i = .ok (wordAt region length list i) := by
  obtain ⟨place, few⟩ := h.place_lt inList inside
  have size := h.size
  have within : 2 * (list * length + i) + 1 < region.length := by omega
  obtain ⟨high, low, first, second, found⟩ := getElem?_words within
  have value : wordAt region length list i = word high low := by
    rw [wordAt, Array.getD_eq_getD_getElem?, List.getElem?_toArray, found]
    rfl
  rw [wordIn, ok_bind (h.spot_ok inList inside), ok_bind (index_ok first),
    ok_bind (add_ok (by omega)), ok_bind (index_ok second), value]
  rfl

theorem wordsIn_ok (h : Region lists length region) (inList : list < lists) {n : Nat}
    (inside : i + n ≤ length) :
    wordsIn region length list n i =
      .ok ((List.range' i n).map (wordAt region length list)) := by
  induction n generalizing i with
  | zero => rfl
  | succ n ih =>
    rw [wordsIn, ok_bind (h.wordIn_ok inList (by omega)), ok_bind (ih (by omega)), List.range'_succ,
      List.map_cons]
    rfl

/-- What is stored from a place on is stored behind what has been stored already. -/
theorem arrange_ok (h : Region lists length region) (inList : list < lists) {sources : List Nat}
    (known : ∀ source ∈ sources, source < length) (inside : i + sources.length ≤ length)
    {done : Bytes} (place : done.length = 2 * (list * length + i)) :
    arrange region length list sources i (done ++ region.drop done.length) =
      .ok (done ++
        sources.flatMap (fun source => Bytes.ofWord (wordAt region length list source)) ++
        region.drop (2 * (list * length + (i + sources.length)))) := by
  induction sources generalizing i done with
  | nil =>
    rw [List.flatMap_nil, List.append_nil, List.length_nil, Nat.add_zero, ← place]
    rfl
  | cons source sources ih =>
    rw [List.length_cons] at inside
    have size := h.size
    have here := h.place_lt inList (i := i) (by omega)
    let stored := done ++ Bytes.ofWord (wordAt region length list source)
    have length_stored : stored.length = 2 * (list * length + (i + 1)) := by
      simp only [stored, List.length_append, Bytes.length_ofWord, place]
      omega
    have written : overwrite (done ++ region.drop done.length) (2 * (list * length + i))
        (2 * (list * length + i) + 2) (Bytes.ofWord (wordAt region length list source)) =
          .ok (stored ++ region.drop stored.length) := by
      have room : done.length + (Bytes.ofWord (wordAt region length list source)).length ≤
          (done ++ region.drop done.length).length := by
        simp only [List.length_append, List.length_drop, Bytes.length_ofWord]
        omega
      rw [← place]
      refine (overwrite_ok room).trans (congrArg _ ?_)
      rw [List.take_left, List.drop_append, List.drop_eq_nil_of_le (Nat.le_add_right _ _),
        List.drop_drop, List.nil_append, Nat.add_sub_cancel_left, length_stored, place]
      rfl
    rw [arrange, ok_bind (h.spot_ok inList (by omega)), ok_bind (add_ok (by omega)),
      ok_bind (h.wordIn_ok inList (known source List.mem_cons_self)), ok_bind written,
      ih (fun other among => known other (List.mem_cons_of_mem _ among)) (by omega) length_stored,
      List.flatMap_cons, List.length_cons, List.append_assoc done,
      show i + 1 + sources.length = i + (sources.length + 1) by omega]

/-- The lists that are left are stored behind those that have been stored already. -/
theorem arrangeAll_ok (h : Region lists length region) {positions : List Nat}
    (known : ∀ source ∈ positions, source < length) (all : positions.length = length) {n : Nat}
    (left : list + n = lists) {done : Bytes} (place : done.length = 2 * (list * length)) :
    arrangeAll region length positions n list (done ++ region.drop done.length) =
      .ok (done ++ (List.range' list n).flatMap fun list =>
        positions.flatMap fun source => Bytes.ofWord (wordAt region length list source)) := by
  induction n generalizing list done with
  | zero =>
    have full : region.length = done.length := by rw [h.size, place, ← left, Nat.add_zero]
    rw [← full, List.drop_length, List.append_nil]
    exact congrArg _ (List.append_nil _).symm
  | succ n ih =>
    have inList : list < lists := by omega
    have start : done.length = 2 * (list * length + 0) := place
    have stored := h.arrange_ok (i := 0) inList known (by omega) start
    have length_stored : (done ++ positions.flatMap fun source =>
        Bytes.ofWord (wordAt region length list source)).length = 2 * ((list + 1) * length) := by
      rw [List.length_append, length_flatMap_ofWord, place, all, Nat.succ_mul list]
      omega
    rw [Nat.zero_add, all, ← Nat.succ_mul, ← length_stored] at stored
    rw [arrangeAll, ok_bind stored, ih (by omega) length_stored, List.range'_succ,
      List.flatMap_cons, List.append_assoc]

end Region

theorem length_words (region : Bytes) : (Sort.words region).length = region.length / 2 := by
  induction region using Sort.words.induct with
  | case1 high low rest ih =>
    rw [Sort.words, List.length_cons, ih, List.length_cons, List.length_cons]
    omega
  | case2 region short =>
    obtain _ | ⟨high, _ | ⟨low, rest⟩⟩ := region
    · rfl
    · simp only [Sort.words, List.length_nil, List.length_cons]
    · exact absurd rfl (short high low rest)

namespace Region

variable {lists length list i : Nat} {region : Bytes}

/-- Word `i` of a list, as the machine takes the list out of the region. -/
theorem getD_extract (h : Region lists length region) (inList : list < lists)
    (inside : i < length) :
    ((Sort.words region).toArray.extract (list * length) (list * length + length)).getD i 0 =
      wordAt region length list i := by
  obtain ⟨place, _⟩ := h.place_lt inList inside
  have last := (h.place_lt inList (i := length - 1) (by omega)).1
  have size := h.size
  rw [wordAt, Array.getD_eq_getD_getElem?, Array.getD_eq_getD_getElem?, Array.getElem?_extract,
    if_pos]
  rw [List.size_toArray, length_words]
  omega

/-- The first list, as the machine takes it out of the region. -/
theorem extract_first (h : Region lists length region) (some : 0 < lists) :
    (Sort.words region).toArray.extract (0 * length) (0 * length + length) =
      ((List.range' 0 length).map (wordAt region length 0)).toArray := by
  have room : 1 * length ≤ lists * length := Nat.mul_le_mul_right _ some
  have size := h.size
  have size_words : (Sort.words region).length = lists * length := by
    rw [length_words]
    omega
  refine Array.ext ?_ fun k left right => ?_
  · simp only [Array.size_extract, List.size_toArray, List.length_map, List.length_range',
      size_words]
    omega
  · have inside : k < length := by
      simpa only [List.size_toArray, List.length_map, List.length_range'] using right
    rw [Array.getElem_eq_getD 0, h.getD_extract some inside, List.getElem_toArray, List.getElem_map,
      List.getElem_range', Nat.zero_add, Nat.one_mul]

end Region

/-- The positions of a list are all there, in another order. -/
theorem perm_order (descending : Bool) (first : Array UInt16) :
    (Sort.order descending first).Perm (List.range first.size) :=
  List.mergeSort_perm _ _

namespace Region

variable {lists length : Nat} {region : Bytes}

/-- The order of the first list. -/
def positions (descending : Bool) (length : Nat) (region : Bytes) : List Nat :=
  Sort.order descending ((List.range' 0 length).map (wordAt region length 0)).toArray

theorem perm_positions (descending : Bool) (length : Nat) (region : Bytes) :
    (positions descending length region).Perm (List.range length) := by
  have perm := perm_order descending ((List.range' 0 length).map (wordAt region length 0)).toArray
  rwa [List.size_toArray, List.length_map, List.length_range'] at perm

/-- What the machine makes of a region: list after list, the words of each in the order of the
first. -/
theorem rows_eq (h : Region lists length region) (some : 0 < lists) (descending : Bool) :
    Sort.rows descending lists length region =
      (List.range' 0 lists).flatMap fun list =>
        (positions descending length region).flatMap fun source =>
          Bytes.ofWord (wordAt region length list source) := by
  simp only [Sort.rows]
  rw [h.extract_first some, List.range_eq_range']
  refine List.flatMap_congr fun list among => ?_
  have inList : list < lists := by
    have := (List.mem_range'_1.1 among).2
    omega
  rw [Sort.arrange, List.flatMap_map]
  refine List.flatMap_congr fun source among => ?_
  have known := (perm_positions descending length region).mem_iff.1 among
  rw [h.getD_extract inList (List.mem_range.1 known)]

end Region

/-- A region is sorted without a trap, and is what the machine makes of it. -/
theorem rows_ok {lists length : Nat} {region : Bytes} (h : Region lists length region)
    (some : 0 < lists) (descending : Bool) :
    rows descending lists length region = .ok (Sort.rows descending lists length region) ∧
      (Sort.rows descending lists length region).length = region.length := by
  have first := h.wordsIn_ok some (i := 0) (n := length) (by omega)
  have perm := Region.perm_positions descending length region
  have all : (Region.positions descending length region).length = length := by
    rw [perm.length_eq, List.length_range]
  have known : ∀ source ∈ Region.positions descending length region, source < length :=
    fun source among => List.mem_range.1 (perm.mem_iff.1 among)
  have start : ([] : Bytes).length = 2 * (0 * length) := by rw [Nat.zero_mul]; rfl
  have stored := h.arrangeAll_ok known all (Nat.zero_add lists) start
  refine ⟨?_, ?_⟩
  · rw [rows, ok_bind first, h.rows_eq some]
    exact stored
  · have each : ∀ list ∈ List.range' 0 lists,
        ((Region.positions descending length region).flatMap fun source =>
          Bytes.ofWord (Region.wordAt region length list source)).length = 2 * length :=
      fun list _ => by rw [length_flatMap_ofWord, all]
    rw [h.rows_eq some, length_flatMap_const each, List.length_range', h.size, Nat.mul_left_comm]

/-! ## The cost of sorting -/

/-- The zeros in front of a length are counted without a trap, and a length has at most sixteen
bits. -/
theorem log2Ceil_ok {length : Nat} (few : length ≤ 65535) :
    log2Ceil length = .ok (Sort.log2Ceil length) ∧ Sort.log2Ceil length ≤ 16 := by
  rw [log2Ceil, Sort.log2Ceil]
  split
  · exact ⟨rfl, by decide⟩
  · have some : length - 1 ≠ 0 := by omega
    have bits : (length - 1).log2 < 16 := (Nat.log2_lt some).2 (by omega)
    have zeros : 64 - leadingZeros (length - 1) = (length - 1).log2 + 1 := by
      rw [leadingZeros, if_neg some]
      omega
    rw [ok_bind (sub_ok (by omega)), sub_ok, zeros]
    · exact ⟨rfl, bits⟩
    · rw [leadingZeros, if_neg some]
      omega

end SigComp.Checked.Instruction
