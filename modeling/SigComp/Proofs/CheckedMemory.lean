import SigComp.Checked.Memory
import SigComp.Proofs.CommitmentLabels
import SigComp.Proofs.RingTraversal

/-!
# Walking through memory is safe

Whatever the copy window is, a walk along the ring goes on by at least one address at a
time, stays below the end of the address space and leaves memory only where it says so.
So reading and writing along the ring, and going back, are not trapped
(`pieces_eq`, `writeRing_mirrors`, `behind_ok`).
-/

namespace SigComp

namespace Checked

open Memory

/-! ## Outcomes -/

section Outcomes

variable {σ α : Type} {excuse : Prop}

/-- A checked action has the outcome of an action, unless it has an excuse; even then it can only
overflow. -/
def Mirrors (excuse : Prop) (c : EStateM Halt σ α) (x : EStateM Failure σ α) : Prop :=
  ∀ s, c s = orderly (x s) ∨ ((∃ s', c s = .error (.trap .overflow) s') ∧ excuse)

theorem Mirrors.of_eq {c : EStateM Halt σ α} {x : EStateM Failure σ α}
    (h : ∀ s, c s = orderly (x s)) : Mirrors excuse c x := fun s => .inl (h s)

theorem Mirrors.plainly (x : EStateM Failure σ α) : Mirrors excuse (plainly x) x :=
  .of_eq fun _ => rfl

/-- Without an excuse the outcomes are the same. -/
theorem Mirrors.eq {c : EStateM Halt σ α} {x : EStateM Failure σ α} (h : Mirrors False c x)
    (s : σ) :
    c s = orderly (x s) :=
  (h s).resolve_right fun excess => excess.2

protected theorem Mirrors.bind {β : Type} {c : EStateM Halt σ α} {x : EStateM Failure σ α}
    {k : α → EStateM Halt σ β} {l : α → EStateM Failure σ β} (hx : Mirrors excuse c x)
    (hk : ∀ a, Mirrors excuse (k a) (l a)) : Mirrors excuse (c >>= k) (x >>= l) := by
  intro s
  simp only [bind, EStateM.bind]
  obtain same | ⟨⟨s', excess⟩, excused⟩ := hx s
  · rw [same]
    cases x s with
    | ok a s => exact hk a s
    | error r s => exact .inl rfl
  · rw [excess]
    exact .inr ⟨⟨s', rfl⟩, excused⟩

/-- An overflow ends what follows it. -/
theorem overflow_bind {β : Type} {c : Calc α} (h : c = .error (.trap .overflow))
    (k : α → EStateM Halt σ β) (s : σ) :
    ((liftM c : EStateM Halt σ α) >>= k) s = .error (.trap .overflow) s := by
  subst h
  rfl

theorem still_bind {β : Type} {c : Calc α} {a : α} (h : c = .ok a) (k : α → EStateM Halt σ β)
    (s : σ) : ((liftM c : EStateM Halt σ α) >>= k) s = k a s := by
  subst h
  rfl

theorem run_bind {β : Type} {x : EStateM Halt σ α} {a : α} {s s' : σ} (h : x s = .ok a s')
    (k : α → EStateM Halt σ β) : (x >>= k) s = k a s' := by
  simp only [bind, EStateM.bind, h]

end Outcomes

end Checked

/-! ## Words -/

namespace Memory

theorem bytes_eq (m : Memory) (a n : Nat) : m.bytes a n = (m.cells.toList.drop a).take n := by
  rw [bytes, Array.toList_extract, List.extract_eq_take_drop, Nat.add_sub_cancel_left]

/-- Two bytes of memory are the word that they form. -/
theorem bytes_two {m : Memory} {a : Nat} (inside : a + 2 ≤ m.size) :
    ∃ high low, m.bytes a 2 = [high, low] ∧ m.get? a = some high ∧ m.get? (a + 1) = some low := by
  have first : a < m.cells.size := by
    simp only [size] at inside
    omega
  have second : a + 1 < m.cells.size := by
    simp only [size] at inside
    omega
  refine ⟨m.cells[a], m.cells[a + 1], ?_, Array.getElem?_eq_getElem first,
    Array.getElem?_eq_getElem second⟩
  rw [bytes_eq, List.drop_eq_getElem_cons (by simpa using first),
    List.drop_eq_getElem_cons (by simpa using second)]
  rfl

theorem word?_of_bytes {m : Memory} {a : UInt16} {high low : UInt8}
    (first : m.get? a.toNat = some high) (second : m.get? (a.toNat + 1) = some low) :
    m.word? a = some (word high low) := by
  rw [word?, first, second]

theorem word?_eq_none {m : Memory} {a : UInt16} (outside : ¬ a.toNat + 2 ≤ m.size) :
    m.word? a = none := by
  have gone : m.get? (a.toNat + 1) = none := by
    simp only [size] at outside
    exact Array.getElem?_eq_none (by omega)
  rw [word?, gone]
  split
  · next absent => cases absent
  · rfl

/-- A byte stored where it stands changes nothing. -/
theorem set_self {m : Memory} {a : Nat} {b : UInt8} (h : m.get? a = some b) : m.set a b = m := by
  obtain ⟨inside, rfl⟩ := Array.getElem?_eq_some_iff.1 h
  rw [set, Array.setIfInBounds, dif_pos inside, Array.set_getElem_self]

/-- Nor do bytes that are stored where they stand. -/
theorem put_bytes {m : Memory} {a n : Nat} (inside : a + n ≤ m.size) :
    m.put a (m.bytes a n) = m := by
  induction n generalizing a with
  | zero =>
    rw [bytes_eq, List.take_zero, put]
  | succ n ih =>
    have here : a < m.cells.size := by
      simp only [size] at inside
      omega
    have first : m.bytes a (n + 1) = m.cells[a] :: m.bytes (a + 1) n := by
      rw [bytes_eq, bytes_eq, List.drop_eq_getElem_cons (by simpa using here)]
      rfl
    rw [first, put, set_self (Array.getElem?_eq_getElem here)]
    exact ih (by omega)

end Memory

namespace Checked

variable {excuse : Prop}

theorem readWord_eq (a : UInt16) (m : Memory) : readWord a m = orderly (Memory.readWord a m) := by
  by_cases inside : a.toNat + 2 ≤ m.size
  · obtain ⟨high, low, raw, first, second⟩ := Memory.bytes_two inside
    have read : Memory.readSlice a.toNat 2 m = .ok [high, low] m := by
      rw [Memory.readSlice, Memory.slice?, if_pos inside, raw]
    have found : Memory.readWord a m = .ok (word high low) m := by
      rw [Memory.readWord, Memory.word?_of_bytes first second]
    rw [found]
    simp only [readWord, bind, EStateM.bind, liftM, monadLift, MonadLift.monadLift, plainly, read]
    rfl
  · have read : Memory.readSlice a.toNat 2 m = .error .memoryAccess m := by
      rw [Memory.readSlice, Memory.slice?, if_neg inside]
    have found : Memory.readWord a m = .error .memoryAccess m := by
      rw [Memory.readWord, Memory.word?_eq_none inside]
    rw [found]
    simp only [readWord, bind, EStateM.bind, liftM, monadLift, MonadLift.monadLift, plainly, read]
    rfl

theorem writeSlice_mirrors (a : Nat) {n : Nat} {data : Bytes} (h : data.length = n) :
    Mirrors excuse (writeSlice a n data) (Memory.writeSlice a data) := by
  refine .of_eq fun m => ?_
  rw [writeSlice, Memory.writeSlice, h]
  split
  · exact if_pos rfl
  · rfl

theorem writeWord_mirrors (a w : UInt16) :
    Mirrors excuse (writeWord a w) (Memory.writeWord a w) := by
  refine .of_eq fun m => ?_
  rw [writeWord, writeSlice, Memory.writeWord, if_pos (Bytes.length_ofWord w)]
  split <;> rfl

theorem window_eq (m : Memory) : window m = orderly (Window.current m) := by
  simp only [window, bind, EStateM.bind, readWord_eq, Memory.readWord, Window.current,
    Window.ofMemory?]
  cases m.word? Memory.byteCopyLeft with
  | none => rfl
  | some left =>
    dsimp only [orderly]
    cases m.word? Memory.byteCopyRight <;> rfl

/-! ## Contiguous pieces -/

/-- A piece ends at the end of the address space at the latest. -/
theorem stop_le (w : Window) (a : UInt16) (n : Nat) : a.toNat + w.reach a n ≤ 65536 := by
  have address := a.toNat_lt
  have border := w.right.toNat_lt
  unfold Window.reach
  split <;> omega

theorem run_eq (w : Window) (a : UInt16) (n : Nat) :
    run w a n = .ok (w.reach a n, w.land a (w.reach a n)) := by
  have address : a.toNat < 65536 := a.toNat_lt
  have gap : sub (if a < w.right then w.right.toNat else 65536) a.toNat =
      .ok ((if a < w.right then w.right.toNat else 65536) - a.toNat) := by
    refine sub_ok ?_
    split
    · next before => exact Nat.le_of_lt (UInt16.lt_iff_toNat_lt.1 before)
    · exact Nat.le_of_lt address
  have stop : add 64 a.toNat (w.reach a n) = .ok (a.toNat + w.reach a n) :=
    add_ok (Nat.lt_of_le_of_lt (stop_le w a n) (by decide))
  simp only [run, gap, bind, Except.bind]
  rw [show min n ((if a < w.right then w.right.toNat else 65536) - a.toNat) = w.reach a n from rfl,
    stop]
  rfl

/-- A walk is cut into ranges as the machine cuts it into pieces, each of which is inside memory. -/
theorem segments_eq (w : Window) (size : Nat) {rounds n : Nat} (a : UInt16) (enough : n ≤ rounds) :
    segments w size rounds a n =
      match w.segments? size a n with
      | some pieces => .ok (pieces.map fun p => (p.1, p.1 + p.2))
      | none => .error (.fault .memoryAccess) := by
  induction rounds generalizing a n with
  | zero =>
    rw [Nat.le_zero.1 enough, segments, Window.segments?]
    rfl
  | succ rounds ih =>
    rw [Window.segments?]
    by_cases none : n = 0
    · rw [segments, if_pos none, if_pos none]
      rfl
    · have some := w.reach_pos a none
      have left : w.reach a n ≤ n := Nat.min_le_left _ _
      have stop : add 64 a.toNat (w.reach a n) = .ok (a.toNat + w.reach a n) :=
        add_ok (Nat.lt_of_le_of_lt (stop_le w a n) (by decide))
      rw [segments, if_neg none, if_neg none]
      simp only [run_eq, stop, bind, Except.bind]
      by_cases inside : a.toNat + w.reach a n ≤ size
      · rw [if_pos inside, if_neg (Nat.not_lt.2 inside), sub_ok left]
        simp only []
        rw [ih (w.land a (w.reach a n)) (by omega)]
        cases w.segments? size (w.land a (w.reach a n)) (n - w.reach a n) <;> rfl
      · rw [if_neg inside, if_pos (Nat.lt_of_not_le inside)]

theorem advance_eq (w : Window) {rounds n : Nat} (a : UInt16) (enough : n ≤ rounds) :
    advance w rounds a n = .ok (w.advance a n) := by
  induction rounds generalizing a n with
  | zero =>
    rw [Nat.le_zero.1 enough, advance, Window.advance]
    rfl
  | succ rounds ih =>
    rw [Window.advance, advance]
    split
    · rfl
    · next none =>
      have some := w.reach_pos a none
      simp only [run_eq, bind, Except.bind]
      rw [sub_ok (show w.reach a n ≤ n from Nat.min_le_left _ _)]
      exact ih _ (by omega)

theorem slices_ok {data : Bytes} {walked : List (Nat × Nat)}
    (inside : ∀ p ∈ walked, p.1 + p.2 ≤ data.length) :
    slices data (walked.map fun p => (p.1, p.1 + p.2)) =
      .ok (walked.map fun p => (data.drop p.1).take p.2) := by
  induction walked with
  | nil => rfl
  | cons p rest ih =>
    have first := inside p List.mem_cons_self
    have others := ih fun p among => inside p (List.mem_cons_of_mem _ among)
    rw [List.map_cons, slices, slice_ok (Nat.le_add_right _ _) first, others,
      Nat.add_sub_cancel_left]
    rfl

/-- The pieces of a walk are read without a trap. -/
theorem pieces_eq (w : Window) (m : Memory) (a : UInt16) (n : Nat) :
    pieces w m a n =
      match w.pieces? m a n with
      | some read => .ok read
      | none => .error (.fault .memoryAccess) := by
  rw [pieces, segments_eq w m.size a (Nat.le_refl n), Window.pieces?]
  cases walked : w.segments? m.size a n with
  | none => rfl
  | some walked' =>
    have inside := Window.inside_of_segments? walked
    simp only [bind, Except.bind, Option.map_some]
    rw [slices_ok (by simpa only [Array.length_toList, Memory.size] using inside)]
    simp only [Memory.bytes_eq]

theorem readRing_mirrors (w : Window) (a : UInt16) (n : Nat) :
    Mirrors excuse (readRing w a n) (w.read a n) := by
  refine .of_eq fun m => ?_
  rw [readRing, Window.read, pieces_eq]
  cases w.pieces? m a n <;> rfl

/-! ## Storing piece by piece -/

/-- A piece of a walk leads to where the walk goes on. -/
theorem advance_reach (w : Window) (a : UInt16) {n : Nat} (some : n ≠ 0) :
    w.advance a (w.reach a n) = w.land a (w.reach a n) := by
  rw [Window.advance_eq_after, Window.after_reach some]

/-- The bytes that are left go where the machine puts them, and none is missing; only the number of
bytes may become too large. -/
theorem store_safe {w : Window} {size : Nat} {a : UInt16} {n : Nat} {data : Bytes} {offset : Nat}
    {m : Memory} {walked : List (Nat × Nat)} (same : m.size = size)
    (walk : w.segments? size a n = some walked) (left : offset + n = data.length) :
    store w data (walked.map fun p => (p.1, p.1 + p.2)) offset a m =
        .ok (w.advance a n) (Window.fill m walked (data.drop offset)) ∨
      ((∃ m', store w data (walked.map fun p => (p.1, p.1 + p.2)) offset a m =
        .error (.trap .overflow) m') ∧ 1 <<< 64 ≤ data.length) := by
  induction a, n using Window.segments?.induct w size generalizing walked offset m with
  | case1 a =>
    rw [Window.segments?, if_pos rfl] at walk
    cases walk
    rw [Window.advance, if_pos rfl]
    exact .inl rfl
  | case2 a n some run inside =>
    rename_i ih
    rw [Window.segments?, if_neg some, if_pos inside] at walk
    obtain ⟨rest, onward, rfl⟩ := Option.map_eq_some_iff.1 walk
    have within : w.reach a n ≤ n := Nat.min_le_left _ _
    rw [Window.advance, if_neg some, List.map_cons, store, Nat.add_sub_cancel_left]
    obtain last | ⟨excess, many⟩ : Yields (1 <<< 64 ≤ data.length)
        (add 64 offset (w.reach a n)) (offset + w.reach a n) := .add (by omega)
    case inr => exact .inr ⟨⟨m, overflow_bind excess _ _⟩, many⟩
    have part : slice data offset (offset + w.reach a n) =
        .ok ((data.drop offset).take (w.reach a n)) := by
      rw [slice_ok (Nat.le_add_right _ _) (by omega), Nat.add_sub_cancel_left]
    have length : ((data.drop offset).take (w.reach a n)).length = w.reach a n := by
      rw [List.length_take, List.length_drop]
      omega
    have written : writeSlice a.toNat (w.reach a n) ((data.drop offset).take (w.reach a n)) m =
        .ok () (m.put a.toNat ((data.drop offset).take (w.reach a n))) := by
      rw [writeSlice, if_pos (same ▸ inside), if_pos length]
    have next : advance w (w.reach a n) a (w.reach a n) = .ok (w.land a (w.reach a n)) := by
      rw [advance_eq w a (Nat.le_refl _), advance_reach w a some]
    have remains : offset + w.reach a n + (n - w.reach a n) = data.length := by omega
    have others := ih (m := m.put a.toNat ((data.drop offset).take (w.reach a n)))
      ((Memory.size_put _ _ _).trans same) onward remains
    rw [still_bind last, still_bind part, run_bind written, still_bind next, Window.fill,
      List.drop_drop]
    exact others
  | case3 a n some run =>
    rename_i outside
    rw [Window.segments?, if_neg some, if_neg outside] at walk
    cases walk

/-- Bytes are stored along the ring without a trap, unless there are more than can be counted. -/
theorem writeRing_mirrors {data : Bytes} (w : Window) (a : UInt16)
    (countable : 1 <<< 64 ≤ data.length → excuse) :
    Mirrors excuse (writeRing w a data) (w.write a data) := by
  intro m
  rw [writeRing, Window.write, segments_eq w m.size a (Nat.le_refl _)]
  cases walk : w.segments? m.size a data.length with
  | none => exact .inl rfl
  | some walked => exact (store_safe rfl walk (Nat.zero_add _)).imp id (.imp_right countable)

/-! ## Backwards -/

theorem behind_ok (w : Window) (a offset : UInt16) :
    behind w a offset = .ok (w.behind a offset) := by
  rw [behind, Window.behind]
  split
  · rfl
  · next far =>
    have width : w.right - w.left ≠ 0 := fun none => far (.inl none)
    have past : a - w.left ≤ offset :=
      UInt16.le_of_lt (UInt16.not_le.1 fun near => far (.inr near))
    have some : (w.right - w.left).toNat ≠ 0 := fun none => width (UInt16.toNat_inj.1 none)
    have rest : UInt16.ofNat ((offset - (a - w.left)).toNat % (w.right - w.left).toNat) =
        (offset - (a - w.left)) % (w.right - w.left) := by
      rw [← UInt16.toNat_mod, UInt16.ofNat_toNat]
    rw [sub16_ok past]
    simp only [bind, Except.bind, remainder_ok some, Functor.map, Except.map, rest]
    rfl

end Checked

end SigComp
