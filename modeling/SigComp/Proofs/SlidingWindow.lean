import SigComp.Proofs.OperandScanning
import SigComp.Proofs.SteppingBack

/-!
# Copies inside a window

A window of memory is the end of a history that nobody keeps: the byte just before the destination
is the one stored last, and going round the window backwards leads to older ones.  A copy from some
steps back adds to that history, and may read what it has just added.

* `Window.history`: the bytes of a window, oldest first, as seen from the destination.
* `replay`: a history with bytes added to it, each a repetition of the one some places before.
* `toNat_after_ring`, `behind_eq_after`: addresses by their distance along the ring.
* `history_set`: a byte stored at the destination comes last in the history of the next one.
* `copy_replays_history`: a copy inside a window repeats its history.
-/

namespace SigComp

/-! ## Repetition -/

/-- A history with `n` bytes more, each the one `offset` places before it. -/
def replay (offset : Nat) : Nat → Bytes → Bytes
  | 0, s => s
  | n + 1, s => replay offset n (s ++ [s.getD (s.length - offset) 0])

section Replay

variable {offset n i k : Nat} {s : Bytes}

theorem length_replay (offset n : Nat) (s : Bytes) : (replay offset n s).length = s.length + n := by
  induction n generalizing s with
  | zero => rfl
  | succ n ih =>
    rw [replay, ih, List.length_append, List.length_singleton]
    omega

theorem prefix_replay (offset n : Nat) (s : Bytes) : s <+: replay offset n s := by
  induction n generalizing s with
  | zero => exact List.prefix_refl s
  | succ n ih => exact (List.prefix_append s _).trans (ih _)

/-- What was there before is still there. -/
theorem getElem?_replay_of_lt (early : i < s.length) : (replay offset n s)[i]? = s[i]? := by
  obtain ⟨more, whole⟩ := prefix_replay offset n s
  rw [← whole, List.getElem?_append_left early]

/-- What is added is a repetition. -/
theorem getElem?_replay (positive : offset ≠ 0) (within : offset ≤ s.length)
    (later : s.length ≤ i) (early : i < s.length + n) :
    (replay offset n s)[i]? = (replay offset n s)[i - offset]? := by
  induction n generalizing s with
  | zero => omega
  | succ n ih =>
    have length : (s ++ [s.getD (s.length - offset) 0]).length = s.length + 1 := by
      rw [List.length_append, List.length_singleton]
    rw [replay]
    by_cases next : i = s.length
    · subst next
      rw [getElem?_replay_of_lt (by omega), getElem?_replay_of_lt (by omega),
        List.getElem?_concat_length,
        List.getElem?_append_left (by omega), List.getD_eq_getElem?_getD,
        List.getElem?_eq_getElem (by omega), Option.getD_some]
    · exact ih (by omega) (by omega) (by omega)

/-- Bytes that lie too far back to be repeated do not matter. -/
theorem drop_replay (within : k + offset ≤ s.length) :
    (replay offset n s).drop k = replay offset n (s.drop k) := by
  induction n generalizing s with
  | zero => rfl
  | succ n ih =>
    have same : (s.drop k).getD ((s.drop k).length - offset) 0 = s.getD (s.length - offset) 0 := by
      have place : k + (s.length - k - offset) = s.length - offset := by omega
      rw [List.getD_eq_getElem?_getD, List.getD_eq_getElem?_getD, List.getElem?_drop,
        List.length_drop, place]
    rw [replay, ih (by rw [List.length_append]; omega), List.drop_append_of_le_length (by omega),
      replay, same]

end Replay

namespace Window

variable {w : Window} {m : Memory} {d offset : UInt16} {n k : Nat}

/-! ## Distances along the ring -/

/-- The number of bytes of a window. -/
def width (w : Window) : Nat := w.right.toNat - w.left.toNat

/-- An address lies in a window. -/
def Has (w : Window) (a : UInt16) : Prop := w.left ≤ a ∧ a < w.right

theorem has_iff {a : UInt16} : w.Has a ↔ w.left.toNat ≤ a.toNat ∧ a.toNat < w.right.toNat := by
  rw [Has, UInt16.le_iff_toNat_le, UInt16.lt_iff_toNat_lt]

theorem toNat_next {a : UInt16} (has : w.Has a) :
    (w.next a).toNat = if a.toNat + 1 = w.right.toNat then w.left.toNat else a.toNat + 1 := by
  have border : w.right.toNat < 65536 := w.right.toNat_lt
  have inside := has_iff.1 has
  have sum : (a + 1).toNat = a.toNat + 1 := by
    rw [UInt16.toNat_add]
    exact Nat.mod_eq_of_lt (by show a.toNat + 1 < 65536; omega)
  simp only [next, apply_ite UInt16.toNat, ← UInt16.toNat_inj, sum]

/-- An address by its distance from another one: going on comes round to the left border. -/
theorem toNat_after_ring (has : w.Has d) (n : Nat) :
    w.Has (w.after d n) ∧
      (w.after d n).toNat = w.left.toNat + (d.toNat - w.left.toNat + n) % w.width := by
  have inside := has_iff.1 has
  have whole : w.width = w.right.toNat - w.left.toNat := rfl
  induction n with
  | zero =>
    refine ⟨has, ?_⟩
    rw [after, Nat.add_zero, Nat.mod_eq_of_lt (by omega)]
    omega
  | succ n ih =>
    obtain ⟨there, place⟩ := ih
    have short := Nat.mod_lt (d.toNat - w.left.toNat + n) (show 0 < w.width by omega)
    have onward : (d.toNat - w.left.toNat + (n + 1)) % w.width =
        ((d.toNat - w.left.toNat + n) % w.width + 1) % w.width := by
      rw [Nat.mod_add_mod, Nat.add_assoc]
    rw [has_iff, after_succ, toNat_next there, place, onward]
    split
    · next border =>
      have round : (d.toNat - w.left.toNat + n) % w.width + 1 = w.width := by omega
      rw [round, Nat.mod_self]
      omega
    · next before =>
      rw [Nat.mod_eq_of_lt (a := (d.toNat - w.left.toNat + n) % w.width + 1) (by omega)]
      omega

/-- Within one round the ring comes to other addresses, and then to the first one again. -/
theorem after_eq_self_iff (has : w.Has d) (within : k ≤ w.width) :
    w.after d k = d ↔ k = 0 ∨ k = w.width := by
  have inside := has_iff.1 has
  have whole : w.width = w.right.toNat - w.left.toNat := rfl
  rw [← UInt16.toNat_inj, (toNat_after_ring has k).2]
  by_cases round : w.width ≤ d.toNat - w.left.toNat + k
  · rw [Nat.mod_eq_sub_mod round, Nat.mod_eq_of_lt (by omega)]
    omega
  · rw [Nat.mod_eq_of_lt (by omega)]
    omega

/-- The number of bytes between a destination and what is to be copied there.  No offset stands for
a full round. -/
def stride (w : Window) (offset : UInt16) : Nat :=
  if offset.toNat = 0 then w.width else offset.toNat

theorem stride_bounds (has : w.Has d) (near : offset.toNat ≤ w.width) :
    w.stride offset ≠ 0 ∧ w.stride offset ≤ w.width := by
  have inside := has_iff.1 has
  have whole : w.width = w.right.toNat - w.left.toNat := rfl
  rw [stride]
  split <;> omega

/-- In a window with its left border first the ring is the window. -/
theorem has_iff_onRing {a : UInt16} (upright : w.left ≤ w.right) : w.Has a ↔ w.OnRing a := by
  have order := UInt16.le_iff_toNat_le.1 upright
  have border : w.right.toNat < 65536 := w.right.toNat_lt
  have below : a.toNat < 65536 := a.toNat_lt
  rw [has_iff, OnRing, UInt16.lt_iff_toNat_lt, UInt16.toNat_sub_of_le _ _ upright, UInt16.toNat_sub]
  omega

/-- Going back some steps is going on for the rest of the round. -/
theorem behind_eq_after (has : w.Has d) (near : offset.toNat ≤ w.width) :
    w.behind d offset = w.after d (w.width - w.stride offset) := by
  have inside := has_iff.1 has
  have upright : w.left ≤ w.right := UInt16.le_iff_toNat_le.2 (by omega)
  have ring : w.OnRing d := (has_iff_onRing upright).1 has
  have source : w.Has (w.previous^[offset.toNat] d) :=
    (has_iff_onRing upright).2 (ring.iterate_previous _)
  have home : w.after (w.previous^[offset.toNat] d) offset.toNat = d :=
    ring.after_iterate_previous _
  -- Back and on again is a full round, or nothing at all if the offset is zero.
  have round : offset.toNat + (w.width - w.stride offset) = 0 ∨
      offset.toNat + (w.width - w.stride offset) = w.width := by
    rw [stride]
    split <;> omega
  have again := (after_eq_self_iff source (by omega)).2 round
  rw [after_add, home] at again
  rw [behind_eq_iterate, again]

/-! ## Histories -/

/-- The bytes of a window, oldest first, as seen from an address: the one there was stored longest
ago, and the one before it last. -/
def history (w : Window) (m : Memory) (d : UInt16) : Bytes :=
  (w.walk d w.width).map fun a => m.byteAt a.toNat

@[simp] theorem length_history (w : Window) (m : Memory) (d : UInt16) :
    (w.history m d).length = w.width := by
  rw [history, List.length_map, length_walk]

theorem getElem?_walk (w : Window) (a : UInt16) (early : k < n) :
    (w.walk a n)[k]? = some (w.after a k) := by
  obtain ⟨rest, rfl⟩ := Nat.exists_eq_add_of_lt early
  have reached : (w.walk a k).length ≤ k := Nat.le_of_eq (w.length_walk a k)
  rw [Nat.add_assoc, walk_add, List.getElem?_append_right reached, length_walk, Nat.sub_self]
  rfl

theorem getD_history (w : Window) (m : Memory) (d : UInt16) (early : k < w.width) :
    (w.history m d).getD k 0 = m.byteAt (w.after d k).toNat := by
  rw [history, List.getD_eq_getElem?_getD, List.getElem?_map, w.getElem?_walk d early]
  rfl

/-- A byte that is stored at an address is the last one as seen from the next address. -/
theorem history_set (has : w.Has d) (inside : d.toNat < m.size) (v : UInt8) :
    w.history (m.set d.toNat v) (w.next d) = (w.history m d ++ [v]).drop 1 := by
  have within := has_iff.1 has
  obtain ⟨k, whole⟩ : ∃ k, w.width = k + 1 :=
    Nat.exists_eq_succ_of_ne_zero (by rw [width]; omega)
  have round : w.after (w.next d) k = d := (after_eq_self_iff has (Nat.le_of_eq whole.symm)).2
    (.inr whole.symm)
  have others : ∀ a ∈ w.walk (w.next d) k, (m.set d.toNat v).byteAt a.toNat = m.byteAt a.toNat := by
    intro a among
    obtain ⟨j, early, there⟩ := List.mem_iff_getElem.1 among
    rw [length_walk] at early
    have place : w.after d (j + 1) = a := by
      rw [← Option.some.injEq, ← there, ← List.getElem?_eq_getElem, getElem?_walk w _ early]
      rfl
    have other : d.toNat ≠ a.toNat := by
      intro same
      have back := (after_eq_self_iff has (k := j + 1) (by omega)).1
        (place.trans (UInt16.toNat_inj.1 same.symm))
      omega
    rw [Memory.byteAt, Memory.get?_set, if_neg (fun h => other h.1)]
    rfl
  have stored : (m.set d.toNat v).byteAt d.toNat = v := by
    rw [Memory.byteAt, Memory.get?_set, if_pos ⟨rfl, inside⟩]
    rfl
  rw [history, history, whole, walk_add, walk, walk, walk, round, List.map_append,
    List.map_congr_left others, List.map_cons, List.map_cons, stored]
  rfl

/-! ## Copying -/

theorem copy_succ {source : UInt16} (n : Nat) (readable : source.toNat < m.size)
    (inside : d.toNat < m.size) :
    w.copy (n + 1) source d m =
      w.copy n (w.next source) (w.next d) (m.set d.toNat (m.byteAt source.toNat)) := by
  have read : m.get? source.toNat = some (m.byteAt source.toNat) := by
    have found : m.get? source.toNat = _ := Array.getElem?_eq_getElem readable
    rw [Memory.byteAt, found]
    rfl
  simp only [copy, bind, EStateM.bind, Memory.readByte, read, Memory.writeByte, if_pos inside]

/-- A copy from some bytes back reads its way along the history, and what it has stored comes behind
that. -/
theorem copy_ring {o : Nat} (has : w.Has d) (fits : w.right.toNat ≤ m.size) (positive : o ≠ 0)
    (near : o ≤ w.width) :
    ∃ m', w.copy n (w.after d (w.width - o)) d m = .ok (w.after d n) m' ∧ m'.size = m.size ∧
      w.history m' (w.after d n) = (replay o n (w.history m d)).drop n ∧
      ∀ b, b < w.left.toNat ∨ w.right.toNat ≤ b → m'.get? b = m.get? b := by
  induction n generalizing d m with
  | zero => exact ⟨m, rfl, rfl, rfl, fun _ _ => rfl⟩
  | succ n ih =>
    have within := has_iff.1 has
    obtain ⟨source, -⟩ := toNat_after_ring has (w.width - o)
    have readable := (has_iff.1 source).2
    have value : (w.history m d).getD ((w.history m d).length - o) 0 =
        m.byteAt (w.after d (w.width - o)).toNat := by
      rw [length_history, getD_history w m d (by omega)]
    have stored := history_set has (Nat.lt_of_lt_of_le within.2 fits)
      (m.byteAt (w.after d (w.width - o)).toNat)
    have onward : w.next (w.after d (w.width - o)) = w.after (w.next d) (w.width - o) :=
      (w.after_succ d _).symm
    obtain ⟨m', run, size, history, outside⟩ := ih (toNat_after_ring has 1).1
      (m := m.set d.toNat (m.byteAt (w.after d (w.width - o)).toNat))
      (by rwa [Memory.size_set])
    refine ⟨m', ?_, size.trans (Memory.size_set _ _ _), ?_, fun b far => ?_⟩
    · rw [copy_succ n (by omega) (by omega), onward]
      exact run
    · have room : 1 + o ≤ (w.history m d ++ [m.byteAt (w.after d (w.width - o)).toNat]).length := by
        rw [List.length_append, length_history, List.length_singleton]
        omega
      have split (s : Bytes) : s.drop (n + 1) = (s.drop 1).drop n := by
        rw [List.drop_drop, Nat.add_comm]
      rw [replay, value, split, drop_replay room, ← stored]
      exact history
    · rw [outside b far, Memory.get?_set, if_neg (by omega)]

/-- So does a copy from where so many steps lead back. -/
theorem copy_behind (n : Nat) (has : w.Has d) (fits : w.right.toNat ≤ m.size)
    (near : offset.toNat ≤ w.width) :
    ∃ m', w.copy n (w.behind d offset) d m = .ok (w.after d n) m' ∧ m'.size = m.size ∧
      w.history m' (w.after d n) = (replay (w.stride offset) n (w.history m d)).drop n ∧
      ∀ b, b < w.left.toNat ∨ w.right.toNat ≤ b → m'.get? b = m.get? b := by
  obtain ⟨positive, short⟩ := stride_bounds has near
  rw [behind_eq_after has near]
  exact copy_ring has fits positive short

/-- A copy to an address inside a window, from an address so many steps back as fit in the window,
succeeds, whatever its length.  Take the bytes of the window, oldest first, as the end of a history,
and add to it byte by byte the one so many places before: the copy stops where so many steps along
the ring lead, the window holds the end of the longer history, and no byte outside it has
changed. -/
theorem copy_replays_history (n : Nat) (has : w.Has d) (fits : w.right.toNat ≤ m.size)
    (near : offset.toNat ≤ w.width) :
    let s := replay (w.stride offset) n (w.history m d)
    (s.length = w.width + n ∧ s.take w.width = w.history m d ∧
      ∀ i, w.width ≤ i → i < w.width + n → s[i]? = s[i - w.stride offset]?) ∧
    ∃ stop m', w.copy n (w.behind d offset) d m = .ok stop m' ∧
      stop.toNat = w.left.toNat + (d.toNat - w.left.toNat + n) % w.width ∧
      w.history m' stop = s.drop n ∧ m'.size = m.size ∧
      ∀ b, b < w.left.toNat ∨ w.right.toNat ≤ b → m'.get? b = m.get? b := by
  intro s
  have length : (w.history m d).length = w.width := length_history w m d
  have stride := stride_bounds has near
  constructor
  · refine ⟨?_, ?_, fun i later early => ?_⟩
    · rw [length_replay, length]
    · rw [← length]
      exact (List.prefix_iff_eq_take.1 (prefix_replay _ _ _)).symm
    · exact getElem?_replay stride.1 (length ▸ stride.2) (length ▸ later) (length ▸ early)
  · obtain ⟨m', run, size, history, outside⟩ := copy_behind n has fits near
    exact ⟨_, m', run, (toNat_after_ring has n).2, history, size, outside⟩

/-- Six bytes from two steps back, in a window of four. -/
theorem two_bytes_repeated_thrice :
    let w : Window := ⟨2, 6⟩
    let m : Memory := ⟨#[9, 9, 1, 2, 3, 4, 9, 9]⟩
    w.history m 5 = [4, 1, 2, 3] ∧
    ∃ m', w.copy 6 (w.behind 5 2) 5 m = .ok 3 m' ∧ w.history m' 3 = [2, 3, 2, 3] ∧
      m'.get? 1 = some 9 ∧ m'.get? 6 = some 9 := by
  intro w m
  have before : w.history m 5 = [4, 1, 2, 3] := by decide
  have near : (2 : UInt16).toNat ≤ w.width := by decide
  obtain ⟨-, stop, m', run, place, history, -, outside⟩ :=
    copy_replays_history (w := w) (m := m) (d := 5) 6 ⟨by decide, by decide⟩ (by decide) near
  have ended : stop = 3 := UInt16.toNat_inj.1 (place.trans (by decide))
  have longer : (replay (w.stride 2) 6 [4, 1, 2, 3]).drop 6 = [2, 3, 2, 3] := by decide
  rw [ended, before, longer] at history
  rw [ended] at run
  exact ⟨before, m', run, history, outside 1 (.inl (by decide)), outside 6 (.inr (by decide))⟩

end Window

end SigComp
