import SigComp.Proofs.CheckedCommitment
import SigComp.Proofs.StoreLookup

/-!
# Lists of identifiers in memory

A program points to the identifiers of states that its sender holds: entries of a length
and as many bytes, one after the other.  Where such a list ends is for the memory to say.

* `IdRun m start ids`: the entries of `ids` stand one after the other in memory.
* `Ends` and `Torn`: the two ways in which a list can stop, and `exists_run`: it stops in
  one of them.
* `idsEnd?_of_run`: a walk goes along any run that fits, so it ends where a run ends
  (`Ends.idsEnd?`) and comes to nothing where one is torn off (`Torn.idsEnd?`).
* `Ends.longest`: every other run that fits is the front of one that ends.
-/

namespace SigComp

/-- Partial identifiers, each behind its length. -/
def idList (ids : List Bytes) : Bytes := ids.flatMap fun id => UInt8.ofNat id.length :: id

/-- All of these have the length of a partial identifier. -/
def PartialIds (ids : List Bytes) : Prop := ∀ id ∈ ids, 6 ≤ id.length ∧ id.length ≤ 20

theorem idList_cons (id : Bytes) (ids : List Bytes) :
    idList (id :: ids) = [UInt8.ofNat id.length] ++ (id ++ idList ids) := by
  rw [idList, List.flatMap_cons, idList]
  rfl

theorem length_idList_cons (id : Bytes) (ids : List Bytes) :
    (idList (id :: ids)).length = 1 + id.length + (idList ids).length := by
  rw [idList_cons, List.length_append, List.length_append, List.length_singleton, Nat.add_assoc]

/-- The length of a partial identifier is told by one byte. -/
theorem toNat_length {id : Bytes} (short : id.length ≤ 20) :
    (UInt8.ofNat id.length).toNat = id.length := by
  rw [UInt8.toNat_ofNat']
  omega

variable {m : Memory} {start capacity stop : Nat} {ids others : List Bytes} {id x y : Bytes}
  {b n : UInt8}

/-! ## Slices -/

namespace Memory

theorem append_prefix_iff {l : Bytes} : x ++ y <+: l ↔ x <+: l ∧ y <+: l.drop x.length := by
  constructor
  · rintro ⟨rest, rfl⟩
    rw [List.append_assoc, List.drop_left]
    exact ⟨List.prefix_append _ _, List.prefix_append _ _⟩
  · rintro ⟨⟨rest, rfl⟩, next⟩
    rw [List.drop_left] at next
    exact (List.prefix_append_right_inj x).2 next

/-- A slice is what memory goes on with. -/
theorem slice?_eq_some_iff :
    m.slice? stop x.length = some x ↔ stop ≤ m.size ∧ x <+: m.cells.toList.drop stop := by
  rw [slice?, bytes_eq, List.prefix_iff_eq_take]
  constructor
  · intro read
    split at read
    · next inside => exact ⟨by omega, (Option.some.inj read).symm⟩
    · cases read
  · rintro ⟨inside, front⟩
    have length := congrArg List.length front
    have size : m.cells.toList.length = m.size := Array.length_toList
    rw [List.length_take, List.length_drop, size] at length
    rw [if_pos (by omega), ← front]

theorem slice?_append_iff :
    m.slice? stop (x ++ y).length = some (x ++ y) ↔
      m.slice? stop x.length = some x ∧ m.slice? (stop + x.length) y.length = some y := by
  rw [slice?_eq_some_iff, slice?_eq_some_iff, slice?_eq_some_iff, append_prefix_iff, List.drop_drop]
  constructor
  · rintro ⟨inside, first, second⟩
    have length := first.length_le
    have size : m.cells.toList.length = m.size := Array.length_toList
    rw [List.length_drop, size] at length
    exact ⟨⟨inside, first⟩, by omega, second⟩
  · rintro ⟨⟨inside, first⟩, _, second⟩
    exact ⟨inside, first, second⟩

theorem inside_of_slice? (read : m.slice? stop x.length = some x) : stop + x.length ≤ m.size := by
  rw [slice?] at read
  split at read
  · assumption
  · cases read

theorem slice?_singleton_iff : m.slice? stop [b].length = some [b] ↔ m.get? stop = some b := by
  constructor
  · intro read
    obtain ⟨_, rest, whole⟩ := slice?_eq_some_iff.1 read
    have here : (m.cells.toList.drop stop)[0]? = some b := by
      rw [← whole]
      rfl
    rwa [List.getElem?_drop, Array.getElem?_toList] at here
  · exact Checked.slice?_one

end Memory

/-! ## Runs -/

/-- Partial identifiers stand in memory one after the other, each behind its length. -/
structure IdRun (m : Memory) (start : Nat) (ids : List Bytes) : Prop where
  partials : PartialIds ids
  read : m.slice? start (idList ids).length = some (idList ids)

theorem idRun_nil_iff : IdRun m stop [] ↔ stop ≤ m.size := by
  have read : m.slice? stop (idList []).length = some (idList []) ↔
      stop ≤ m.size ∧ idList [] <+: m.cells.toList.drop stop :=
    Memory.slice?_eq_some_iff
  constructor
  · intro run
    exact (read.1 run.read).1
  · intro inside
    exact ⟨fun _ among => absurd among List.not_mem_nil, read.2 ⟨inside, List.nil_prefix⟩⟩

theorem idRun_cons_iff :
    IdRun m stop (id :: ids) ↔
      (6 ≤ id.length ∧ id.length ≤ 20) ∧ m.get? stop = some (UInt8.ofNat id.length) ∧
        m.slice? (stop + 1) id.length = some id ∧ IdRun m (stop + 1 + id.length) ids := by
  have entry : m.slice? stop (idList (id :: ids)).length = some (idList (id :: ids)) ↔
      m.get? stop = some (UInt8.ofNat id.length) ∧ m.slice? (stop + 1) id.length = some id ∧
        m.slice? (stop + 1 + id.length) (idList ids).length = some (idList ids) := by
    rw [idList_cons, Memory.slice?_append_iff, Memory.slice?_append_iff,
      Memory.slice?_singleton_iff]
    rfl
  constructor
  · rintro ⟨partials, read⟩
    obtain ⟨length, bytes, rest⟩ := entry.1 read
    exact ⟨partials id List.mem_cons_self, length, bytes,
      ⟨fun other among => partials other (List.mem_cons_of_mem id among), rest⟩⟩
  · rintro ⟨bounds, length, bytes, ⟨partials, rest⟩⟩
    exact ⟨List.forall_mem_cons.2 ⟨bounds, partials⟩, entry.2 ⟨length, bytes, rest⟩⟩

/-! ## Where a list stops -/

/-- A list ends here, either before a byte that is no length, or before an entry that is in memory
but exceeds the capacity of the list. -/
def Ends (m : Memory) (start capacity stop : Nat) : Prop :=
  ∃ n, m.get? stop = some n ∧
    (¬(6 ≤ n.toNat ∧ n.toNat ≤ 20) ∨
      (stop + 1 + n.toNat ≤ m.size ∧ start + capacity < stop + 1 + n.toNat))

/-- A list is torn off here, by the end of memory: there is no byte, or it is the length of an entry
that goes beyond. -/
def Torn (m : Memory) (stop : Nat) : Prop :=
  m.get? stop = none ∨
    ∃ n, m.get? stop = some n ∧ (6 ≤ n.toNat ∧ n.toNat ≤ 20) ∧ m.size < stop + 1 + n.toNat

theorem isEntry_iff : StateId.isPartialLength n.toNat = true ↔ 6 ≤ n.toNat ∧ n.toNat ≤ 20 :=
  Store.isPartialLength_iff

/-- Every list stops, after as many entries as there are. -/
theorem exists_run (inside : stop ≤ m.size) (within : stop ≤ start + capacity) :
    ∃ ids, IdRun m stop ids ∧ stop + (idList ids).length ≤ start + capacity ∧
      (Ends m start capacity (stop + (idList ids).length) ∨
        Torn m (stop + (idList ids).length)) := by
  have nothing : IdRun m stop [] := idRun_nil_iff.2 inside
  induction stop using Machine.idsEnd?.induct m start capacity with
  | case1 stop outside => exact ⟨[], nothing, within, .inr (.inl outside)⟩
  | case2 stop n found entry next excess =>
    exact ⟨[], nothing, within, .inr (.inr ⟨n, found, isEntry_iff.1 entry, excess⟩)⟩
  | case3 stop n found entry next inside' full =>
    refine ⟨[], nothing, within, .inl ⟨n, found, .inr ⟨Nat.not_lt.1 inside', ?_⟩⟩⟩
    change start + capacity < next
    omega
  | case4 stop n found entry next inside' room ih =>
    have bounds := isEntry_iff.1 entry
    have goesOn : next = stop + 1 + n.toNat := rfl
    obtain ⟨ids, run, fits, stops⟩ := ih (by omega) (by omega) (idRun_nil_iff.2 (by omega))
    -- the entry is read off the memory
    have length : (m.bytes (stop + 1) n.toNat).length = n.toNat := by
      have size : m.cells.toList.length = m.size := Array.length_toList
      rw [Memory.bytes_eq, List.length_take, List.length_drop, size]
      omega
    have bytes : m.slice? (stop + 1) n.toNat = some (m.bytes (stop + 1) n.toNat) :=
      if_pos (by omega)
    have total := length_idList_cons (m.bytes (stop + 1) n.toNat) ids
    rw [length] at total
    have last : stop + (idList (m.bytes (stop + 1) n.toNat :: ids)).length =
        next + (idList ids).length := by
      rw [total]
      omega
    refine ⟨m.bytes (stop + 1) n.toNat :: ids, idRun_cons_iff.2 ?_, last ▸ fits, last ▸ stops⟩
    rw [length, UInt8.ofNat_toNat]
    exact ⟨bounds, found, bytes, run⟩
  | case5 stop n found other =>
    exact ⟨[], nothing, within, .inl ⟨n, found, .inl (mt isEntry_iff.2 other)⟩⟩

/-! ## The walk -/

/-- A walk goes along a run that fits. -/
theorem idsEnd?_of_run (run : IdRun m stop ids) (after : start ≤ stop)
    (fits : stop + (idList ids).length ≤ start + capacity) :
    Machine.idsEnd? m start capacity stop =
      Machine.idsEnd? m start capacity (stop + (idList ids).length) := by
  induction ids generalizing stop with
  | nil => rfl
  | cons id ids ih =>
    obtain ⟨bounds, found, bytes, rest⟩ := idRun_cons_iff.1 run
    have inside := Memory.inside_of_slice? bytes
    rw [length_idList_cons] at fits ⊢
    have onward := ih rest (by omega) (by omega)
    rw [Checked.idsEnd?_some found, toNat_length bounds.2,
      if_pos (Store.isPartialLength_iff.2 bounds), if_neg (Nat.not_lt.2 inside), if_neg (by omega),
      onward, Nat.add_assoc stop, Nat.add_assoc stop]

theorem Ends.idsEnd? (ends : Ends m start capacity stop) :
    Machine.idsEnd? m start capacity stop = some stop := by
  obtain ⟨n, found, why⟩ := ends
  rw [Checked.idsEnd?_some found]
  rcases why with other | ⟨inside, full⟩
  · rw [if_neg (mt isEntry_iff.1 other)]
  · by_cases entry : StateId.isPartialLength n.toNat = true
    · rw [if_pos entry, if_neg (Nat.not_lt.2 inside), if_pos (by omega)]
    · rw [if_neg entry]

theorem Torn.idsEnd? (torn : Torn m stop) : Machine.idsEnd? m start capacity stop = none := by
  rcases torn with outside | ⟨n, found, entry, excess⟩
  · exact Checked.idsEnd?_none outside
  · rw [Checked.idsEnd?_some found, if_pos (isEntry_iff.2 entry), if_pos excess]

/-- No run that fits goes further than one that ends. -/
theorem Ends.longest (ends : Ends m start capacity (stop + (idList ids).length))
    (run : IdRun m stop ids) (other : IdRun m stop others)
    (fits : stop + (idList others).length ≤ start + capacity) : others <+: ids := by
  induction others generalizing stop ids with
  | nil => exact List.nil_prefix
  | cons id others ih =>
    obtain ⟨bounds, found, bytes, rest⟩ := idRun_cons_iff.1 other
    have length := toNat_length bounds.2
    rw [length_idList_cons] at fits
    cases ids with
    | nil =>
      obtain ⟨n, found', why⟩ := ends
      cases found.symm.trans found'
      rw [length] at why
      rcases why with impossible | ⟨_, full⟩
      · exact absurd bounds impossible
      · change start + capacity < stop + 1 + id.length at full
        omega
    | cons id' ids =>
      obtain ⟨bounds', found', bytes', rest'⟩ := idRun_cons_iff.1 run
      have same : id'.length = id.length := by
        rw [← length, ← toNat_length bounds'.2, Option.some.inj (found'.symm.trans found)]
      rw [same, bytes] at bytes'
      cases bytes'
      rw [length_idList_cons, ← Nat.add_assoc, ← Nat.add_assoc] at ends
      exact List.cons_prefix_cons.2 ⟨rfl, ih ends rest' rest (by omega)⟩

end SigComp
