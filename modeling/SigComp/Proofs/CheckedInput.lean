import SigComp.Checked.BitStream

/-!
# Reading input is safe

A stream whose position is inside its input, and whose buffer holds fewer bits than a
byte at its upper end, reads as the input of the machine does: no shift is too long, no
position leaves the input and no count goes below zero (`takeBytes_safe`,
`takeBits_safe`).  Only an input of 2^61 bytes has too many bits to be counted.
-/

namespace SigComp

/-! ## Bits in the opposite order -/

/-- The bits of a longer reversal behind the first `n` are those of bits further up. -/
theorem reverseBits_shiftRight (n k v : Nat) : reverseBits (n + k) v >>> k = reverseBits n v := by
  induction n generalizing v with
  | zero =>
    have small := reverseBits_lt k v
    rw [Nat.zero_add, reverseBits, Nat.shiftRight_eq_div_pow, Nat.div_eq_of_lt]
    rwa [Nat.one_shiftLeft] at small
  | succ n ih =>
    have split : n + 1 + k = n + k + 1 := by omega
    rw [split, reverseBits, reverseBits, ← ih (v / 2), Nat.shiftLeft_add]
    simp only [Nat.shiftRight_eq_div_pow, Nat.shiftLeft_eq]
    rw [Nat.add_comm, Nat.add_mul_div_right _ _ (Nat.two_pow_pos k), Nat.add_comm]

/-- A number of up to sixteen bits is reversed without a trap. -/
theorem Checked.reverseBits_ok {n v : Nat} (h : n ≤ 16) :
    Checked.reverseBits n v = .ok (SigComp.reverseBits n v) := by
  unfold Checked.reverseBits
  split
  · next none =>
    subst none
    rfl
  · next some =>
    rw [sub_ok h]
    have shift := reverseBits_shiftRight n (16 - n) v
    rw [Nat.add_sub_cancel' h] at shift
    exact (shiftRight_ok (by omega)).trans (congrArg _ shift)

/-! ## Input of the machine -/

namespace BitInput

theorem fetch_of_le {n held bits : Nat} {o : Bool} (h : n ≤ held) (rest : Bytes) :
    fetch n o bits held rest = some ⟨rest, bits, held, o⟩ := by
  cases rest with
  | nil => exact if_pos h
  | cons b rest => exact if_pos h

/-- Without enough bytes nothing is fetched. -/
theorem fetch_eq_none {n held bits : Nat} {o : Bool} {rest : Bytes}
    (h : held + 8 * rest.length < n) : fetch n o bits held rest = none := by
  induction rest generalizing bits held with
  | nil => exact if_neg (by simp only [List.length_nil] at h; omega)
  | cons b rest ih =>
    rw [List.length_cons] at h
    rw [fetch, if_neg (by omega)]
    exact ih (by omega)

end BitInput

namespace BitStream

open Checked

/-! ## Sound streams -/

/-- The bits left over, as a number whose most significant bit comes first, are `v`. -/
def Holds (s : BitStream) (v : Nat) : Prop := v < 1 <<< s.held ∧ s.bits = v <<< (32 - s.held)

/-- The position is inside the input, and fewer bits are left over than a byte has. -/
structure Sound (s : BitStream) : Prop where
  position : s.position ≤ s.data.length
  held : s.held < 8
  holds : ∃ v, s.Holds v

/-- The input has more bits than can be counted. -/
def Vast (data : Bytes) : Prop := 1 <<< 63 ≤ 8 * data.length

theorem view_eq {s : BitStream} {v : Nat} (h : s.Holds v) :
    s.view = ⟨s.data.drop s.position, v, s.held, s.lsbFirst⟩ := by
  rw [view, h.2, Nat.shiftLeft_shiftRight]

/-- No bits are left over. -/
theorem holds_zero (data : Bytes) (position : Nat) (o : Bool) :
    (⟨data, position, 0, 0, o⟩ : BitStream).Holds 0 :=
  ⟨Nat.one_pos, (Nat.zero_shiftLeft _).symm⟩

theorem sound_emptied {s : BitStream} (h : s.Sound) : s.emptied.Sound :=
  ⟨h.position, (by decide : 0 < 8), 0, holds_zero _ _ _⟩

theorem sound_ordered {s : BitStream} (h : s.Sound) (o : Bool) : (s.ordered o).Sound := by
  unfold ordered
  split
  · exact h
  · exact ⟨h.position, (by decide : 0 < 8), 0, holds_zero _ _ _⟩

/-- What is left are some of the bits of the input, and those of a byte taken apart. -/
theorem unread_view_le {s : BitStream} (h : s.Sound) : s.view.unread ≤ 8 * s.data.length + 7 := by
  have held := h.held
  simp only [view, BitInput.unread, List.length_drop]
  omega

/-! ## Bytes -/

/-- Bytes are read without a trap, and are those that the machine reads. -/
theorem takeBytes_safe {s : BitStream} (sound : s.Sound) (n : Nat) :
    ∃ next, Yields (Vast s.data) (s.takeBytes n) ((s.view.takeBytes n).1, next) ∧
      next.view = (s.view.takeBytes n).2 ∧ next.Sound ∧ next.data = s.data := by
  have inside := sound.position
  have left : s.emptied.remaining = .ok (s.data.length - s.position) := sub_ok inside
  have enough : ((s.data.drop s.position).take n).length = n ↔
      ¬ s.data.length - s.position < n := by
    rw [List.length_take, List.length_drop]
    omega
  have none : s.emptied.view = ⟨s.data.drop s.position, 0, 0, s.lsbFirst⟩ :=
    view_eq (holds_zero _ _ _)
  simp only [takeBytes, left, BitInput.takeBytes, view, enough, bind, Except.bind]
  by_cases few : s.data.length - s.position < n
  · rw [if_pos few, if_neg (not_not_intro few)]
    exact ⟨s.emptied, .of_ok rfl, none, sound_emptied sound, rfl⟩
  · rw [if_neg few, if_pos few]
    have stop : s.position + n ≤ s.data.length := by omega
    have rest : (⟨s.data, s.position + n, 0, 0, s.lsbFirst⟩ : BitStream).view =
        ⟨(s.data.drop s.position).drop n, 0, 0, s.lsbFirst⟩ := by
      rw [view_eq (holds_zero _ _ _), List.drop_drop]
    refine ⟨⟨s.data, s.position + n, 0, 0, s.lsbFirst⟩, ?_, rest, ?_, rfl⟩
    · refine .bind (.add fun counted => ?_) (.of_ok ?_)
      · simp only [Vast, Nat.not_le] at counted
        exact Nat.lt_of_le_of_lt stop (by omega)
      · simp only [emptied, slice_ok (Nat.le_add_right _ _) stop, Nat.add_sub_cancel_left]
        rfl
    · exact ⟨stop, (by decide : 0 < 8), 0, holds_zero _ _ _⟩

/-! ## Bits -/

/-- A byte put behind the bits held. -/
theorem or_byte {v held byte : Nat} (room : held ≤ 24) (small : byte < 256) :
    v <<< (32 - held) ||| byte <<< (24 - held) = (v * 256 + byte) <<< (32 - (held + 8)) := by
  have up : 32 - held = 8 + (24 - held) := by omega
  have down : 32 - (held + 8) = 24 - held := by omega
  rw [up, down, Nat.shiftLeft_add, ← Nat.shiftLeft_or_distrib,
    ← Nat.shiftLeft_add_eq_or_of_lt small, Nat.shiftLeft_eq v 8]

/-- A stream that has taken a byte behind those bits that it held holds both. -/
theorem holds_byte {s next : BitStream} {v byte : Nat} (holds : s.Holds v) (room : s.held ≤ 24)
    (small : byte < 256) (bits : next.bits = s.bits ||| byte <<< (24 - s.held))
    (held : next.held = s.held + 8) : next.Holds (v * 256 + byte) := by
  have below : v * 256 + 256 ≤ 1 <<< (s.held + 8) := by
    have := Nat.mul_le_mul_right 256 (Nat.succ_le_of_lt holds.1)
    rw [Nat.shiftLeft_add, Nat.shiftLeft_eq _ 8]
    omega
  refine ⟨?_, ?_⟩
  · rw [held]
    exact Nat.lt_of_lt_of_le (Nat.add_lt_add_left small _) below
  · rw [bits, held, ← or_byte room small, ← holds.2]

/-- A byte in the buffer stays below the top of it. -/
theorem byte_shiftLeft_lt {byte place : Nat} (small : byte < 256) (room : place ≤ 24) :
    byte <<< place < 1 <<< 32 := by
  have worth : byte <<< place < 256 <<< place := by
    rw [Nat.shiftLeft_eq, Nat.shiftLeft_eq]
    exact Nat.mul_lt_mul_of_pos_right small (Nat.two_pow_pos _)
  have top : 256 <<< place ≤ 256 <<< 24 := by
    rw [Nat.shiftLeft_eq, Nat.shiftLeft_eq]
    exact Nat.mul_le_mul_left _ (Nat.pow_le_pow_right (by decide) room)
  exact Nat.lt_of_lt_of_le worth top

/-- As long as the input has enough bits, fetching puts them behind those held. -/
theorem fetch_safe {n v : Nat} {s : BitStream} (rounds : Nat) (few : n ≤ 16) (holds : s.Holds v)
    (inside : s.position ≤ s.data.length) (short : s.held < n + 8)
    (rounded : n ≤ s.held + 8 * rounds)
    (enough : n ≤ s.held + 8 * (s.data.length - s.position)) :
    ∃ next w, Yields (Vast s.data) (fetch n rounds s) (some next) ∧
      BitInput.fetch n s.lsbFirst v s.held (s.data.drop s.position) = some next.view ∧
      next.Holds w ∧ n ≤ next.held ∧ next.held < n + 8 ∧
      next.position ≤ next.data.length ∧ next.data = s.data := by
  induction rounds generalizing s v with
  | zero =>
    have done : n ≤ s.held := by omega
    refine ⟨s, v, .of_ok (if_neg (Nat.not_lt.2 done)), ?_, holds, done, short, inside, rfl⟩
    rw [view_eq holds]
    exact BitInput.fetch_of_le done _
  | succ rounds ih =>
    by_cases more : s.held < n
    · have present : s.position < s.data.length := by omega
      have byte := BitInput.byteValue_lt s.lsbFirst s.data[s.position]
      have room : s.held ≤ 24 := by omega
      let next : BitStream :=
        { s with
          position := s.position + 1
          bits := s.bits ||| BitInput.byteValue s.lsbFirst s.data[s.position] <<< (24 - s.held)
          held := s.held + 8 }
      have filled : next.Holds (v * 256 + BitInput.byteValue s.lsbFirst s.data[s.position]) :=
        holds_byte holds room byte rfl rfl
      obtain ⟨last, w, yields, fetched, rest⟩ := ih (s := next) filled present
        (show s.held + 8 < n + 8 by omega) (show n ≤ s.held + 8 + 8 * rounds by omega)
        (show n ≤ s.held + 8 + 8 * (s.data.length - (s.position + 1)) by omega)
      refine ⟨last, w, ?_, ?_, rest⟩
      · rw [fetch, if_pos more, List.getElem?_eq_getElem present]
        refine .bind (.add fun counted => ?_) ?_
        · simp only [Vast, Nat.not_le] at counted
          omega
        · refine .bind (.of_ok (sub_ok room)) <| .bind (.of_ok (shiftLeft_ok (by omega))) <|
            .bind (.of_ok (add_ok (by omega))) ?_
          rw [Nat.mod_eq_of_lt (byte_shiftLeft_lt byte (Nat.sub_le 24 s.held))]
          exact yields
      · rw [List.drop_eq_getElem_cons present, BitInput.fetch, if_neg (Nat.not_le.2 more)]
        exact fetched
    · have done : n ≤ s.held := Nat.le_of_not_lt more
      refine ⟨s, v, .of_ok (if_neg more), ?_, holds, done, short, inside, rfl⟩
      rw [view_eq holds]
      exact BitInput.fetch_of_le done _

/-- The first `n` of the bits held, cut off. -/
theorem cut_ok {n v : Nat} {s : BitStream} (positive : n ≠ 0) (few : n ≤ 16) (holds : s.Holds v)
    (enough : n ≤ s.held) (short : s.held < n + 8) :
    ∃ next, s.cut n = .ok (v >>> (s.held - n), next) ∧
      next.Holds (v % 1 <<< (s.held - n)) ∧ next.held = s.held - n ∧
      next.position = s.position ∧ next.data = s.data ∧ next.lsbFirst = s.lsbFirst ∧
      v >>> (s.held - n) < 1 <<< n := by
  have small : v >>> (s.held - n) < 1 <<< n := by
    rw [Nat.shiftRight_eq_div_pow, Nat.div_lt_iff_lt_mul (Nat.two_pow_pos _), ← Nat.shiftLeft_eq,
      ← Nat.shiftLeft_add, Nat.add_sub_cancel' enough]
    exact holds.1
  have value : s.bits >>> (32 - n) % 65536 = v >>> (s.held - n) := by
    have longer : 32 - n = (32 - s.held) + (s.held - n) := by omega
    have word : 1 <<< n ≤ 65536 := by
      have := Nat.pow_le_pow_right (n := 2) (by decide) few
      rwa [Nat.one_shiftLeft]
    rw [holds.2, longer, Nat.shiftRight_add, Nat.shiftLeft_shiftRight]
    exact Nat.mod_eq_of_lt (Nat.lt_of_lt_of_le small word)
  have bits : s.bits <<< n % 1 <<< 32 = (v % 1 <<< (s.held - n)) <<< (32 - (s.held - n)) := by
    have place : 32 - (s.held - n) = (32 - s.held) + n := by omega
    have whole : 1 <<< 32 = 1 <<< (s.held - n) <<< (32 - (s.held - n)) := by
      rw [← Nat.shiftLeft_add]
      congr 1
      omega
    rw [whole, holds.2, ← Nat.shiftLeft_add, ← place, Nat.shiftLeft_eq, Nat.shiftLeft_eq _ (32 - _),
      Nat.shiftLeft_eq _ (32 - _), Nat.mul_mod_mul_right]
  refine ⟨{ s with bits := s.bits <<< n % 1 <<< 32, held := s.held - n }, ?_, ⟨?_, bits⟩, rfl, rfl,
    rfl, rfl, small⟩
  · rw [cut, sub_ok (by omega : n ≤ 32), ← value]
    simp only [bind, Except.bind]
    rw [shiftRight_ok (by omega), shiftLeft_ok (by omega), sub_ok enough]
    rfl
  · exact Nat.mod_lt _ (by rw [Nat.one_shiftLeft]; exact Nat.two_pow_pos _)

/-- A stream in another order is what the input of the machine is in that order. -/
theorem view_ordered (s : BitStream) (o : Bool) :
    (s.ordered o).view = if o = s.lsbFirst then s.view else s.view.aligned o := by
  unfold ordered
  split
  · rfl
  · exact view_eq (holds_zero _ _ _)

theorem lsbFirst_ordered (s : BitStream) (o : Bool) : (s.ordered o).lsbFirst = o := by
  unfold ordered
  split
  · next same => exact same.symm
  · rfl

theorem held_ordered (s : BitStream) (o : Bool) : (s.ordered o).held = s.usable o := by
  unfold ordered usable
  split <;> rfl

theorem position_ordered (s : BitStream) (o : Bool) : (s.ordered o).position = s.position := by
  unfold ordered
  split <;> rfl

theorem data_ordered (s : BitStream) (o : Bool) : (s.ordered o).data = s.data := by
  unfold ordered
  split <;> rfl

/-- The reader of the machine, too, puts the stream in the order asked for. -/
theorem takeBits?_ordered (s : BitStream) (n : Nat) (o : Bool) :
    s.view.takeBits? n o = (s.ordered o).view.takeBits? n o := by
  have order : (s.ordered o).view.lsbFirst = o := lsbFirst_ordered s o
  rw [BitInput.takeBits?, BitInput.takeBits?, order, if_pos rfl, view_ordered]
  rfl

/-- What a read in the order of the stream comes down to. -/
theorem takeBits?_eq {s : BitStream} {v : Nat} (holds : s.Holds v) (n : Nat) :
    s.view.takeBits? n s.lsbFirst =
      (BitInput.fetch n s.lsbFirst v s.held (s.data.drop s.position)).map fun i =>
        (i.bits >>> (i.held - n),
          { i with bits := i.bits % 1 <<< (i.held - n), held := i.held - n }) := by
  rw [view_eq holds, BitInput.takeBits?, if_pos rfl]

/-- No bits are always there. -/
theorem takeBits?_zero {s : BitStream} (sound : s.Sound) :
    s.view.takeBits? 0 s.lsbFirst = some (0, s.view) := by
  obtain ⟨v, holds⟩ := sound.holds
  have small := holds.1
  have gone : v >>> s.held = 0 := by
    rw [Nat.one_shiftLeft] at small
    rw [Nat.shiftRight_eq_div_pow, Nat.div_eq_of_lt small]
  rw [takeBits?_eq holds, BitInput.fetch_of_le (Nat.zero_le _), Option.map_some, Nat.sub_zero, gone,
    Nat.mod_eq_of_lt small, view_eq holds]

/-- Bits that are there are read without a trap, and are those that the machine reads. -/
theorem takeOrdered_safe {s : BitStream} (sound : s.Sound) {n : Nat} (few : n ≤ 16)
    (enough : n ≤ s.held + 8 * (s.data.length - s.position)) :
    ∃ v next, Yields (Vast s.data) (s.takeOrdered n) (some (v, next)) ∧
      s.view.takeBits? n s.lsbFirst = some (v, next.view) ∧ next.Sound ∧ next.data = s.data ∧
      v < 1 <<< n := by
  by_cases none : n = 0
  · subst none
    exact ⟨0, s, .of_ok rfl, takeBits?_zero sound, sound, rfl, Nat.one_pos⟩
  obtain ⟨v, holds⟩ := sound.holds
  have held := sound.held
  obtain ⟨full, w, yields, fetched, filled, ready, tight, position, data⟩ :=
    fetch_safe n few holds sound.position (by omega) (by omega) enough
  obtain ⟨next, taken, kept, left, place, whole, order, small⟩ := cut_ok none few filled ready tight
  refine ⟨w >>> (full.held - n), next, ?_, ?_, ⟨?_, ?_, _, kept⟩, whole.trans data, small⟩
  · rw [takeOrdered, if_neg none]
    refine .bind yields (.of_ok ?_)
    dsimp only
    rw [taken]
    rfl
  · rw [takeBits?_eq holds, fetched, view_eq filled, Option.map_some, view_eq kept, left, place,
      whole, order]
  · rw [place, whole]
    exact position
  · rw [left]
    omega

/-- The bits that are left are counted, and read only if there are enough. -/
theorem takeBits_yields {s : BitStream} (sound : s.Sound) {n : Nat} {o : Bool}
    {x : Option (Nat × BitStream)}
    (read : Yields (Vast s.data)
      (if s.usable o + 8 * (s.data.length - s.position) < n then .ok none
        else (s.ordered o).takeOrdered n) x) :
    Yields (Vast s.data) (s.takeBits n o) x := by
  have bits : s.usable o < 8 := held_ordered s o ▸ (sound_ordered sound o).held
  have counted : ¬ Vast s.data → s.usable o + 8 * (s.data.length - s.position) < 1 <<< 64 := by
    intro modest
    simp only [Vast, Nat.not_le] at modest
    omega
  have whole : ¬ Vast s.data → 8 * (s.data.length - s.position) < 1 <<< 64 := fun modest =>
    Nat.lt_of_le_of_lt (Nat.le_add_left _ _) (counted modest)
  exact .bind (.of_ok (sub_ok sound.position)) <| .bind (.mul whole) <| .bind (.add counted) read

/-- Bits are read without a trap, and are those that the machine reads. -/
theorem takeBits_safe {s : BitStream} (sound : s.Sound) {n : Nat} (few : n ≤ 16) (o : Bool) :
    (s.view.takeBits? n o = none ∧ Yields (Vast s.data) (s.takeBits n o) none) ∨
      ∃ v next, s.view.takeBits? n o = some (v, next.view) ∧
        Yields (Vast s.data) (s.takeBits n o) (some (v, next)) ∧ next.Sound ∧
        next.data = s.data ∧ v < 1 <<< n := by
  have ready := sound_ordered sound o
  rw [takeBits?_ordered]
  by_cases short : s.usable o + 8 * (s.data.length - s.position) < n
  · obtain ⟨v, holds⟩ := ready.holds
    have ended : (s.ordered o).view.takeBits? n (s.ordered o).lsbFirst = none := by
      rw [takeBits?_eq holds, BitInput.fetch_eq_none, Option.map_none]
      rwa [List.length_drop, held_ordered, data_ordered, position_ordered]
    rw [lsbFirst_ordered] at ended
    exact .inl ⟨ended, takeBits_yields sound (.of_ok (if_pos short))⟩
  · have enough : n ≤ (s.ordered o).held +
        8 * ((s.ordered o).data.length - (s.ordered o).position) := by
      rw [held_ordered, data_ordered, position_ordered]
      omega
    obtain ⟨v, next, yields, read, kept, data, small⟩ := takeOrdered_safe ready few enough
    rw [lsbFirst_ordered] at read
    rw [data_ordered] at yields data
    refine .inr ⟨v, next, read, takeBits_yields sound ?_, kept, data, small⟩
    rwa [if_neg short]

end BitStream

end SigComp
