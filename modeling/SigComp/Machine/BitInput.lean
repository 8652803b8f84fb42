import SigComp.Bytes

/-!
# Bit input

The input of a machine can be read in bytes and in bits.  Bits left over from a
byte are kept for the next read of bits in the same order; a change of order and
a read of bytes discard them.

* `BitInput.takeBits?` reads up to 16 bits and changes nothing if there are fewer;
* `BitInput.takeBytes` reads whole bytes;
* `BitInput.unread` counts the bits that are still to come.  No read raises it, and
  a read of `n` bits or bytes lowers it by at least as much;
* `BitInput.Tidy` says that fewer bits are held than a byte has, and nothing above them.
  Every read leaves an input that is tidy so.
-/

namespace SigComp

/-- The lowest `n` bits of a number in the opposite order. -/
def reverseBits : Nat → Nat → Nat
  | 0, _ => 0
  | n + 1, v => (v % 2) <<< n + reverseBits n (v / 2)

theorem reverseBits_lt (n v : Nat) : reverseBits n v < 1 <<< n := by
  induction n generalizing v with
  | zero => exact Nat.one_pos
  | succ n ih =>
    have rest := ih (v / 2)
    have first : v % 2 ≤ 1 := Nat.le_of_lt_succ (Nat.mod_lt v (by decide))
    have top : (v % 2) <<< n ≤ 1 <<< n := by
      rw [Nat.shiftLeft_eq, Nat.shiftLeft_eq]
      exact Nat.mul_le_mul_right _ first
    rw [reverseBits, Nat.shiftLeft_succ]
    omega

/-- The input of a machine: whole bytes to come, and `held` bits left over from the last byte, as a
number whose most significant bit comes first. -/
structure BitInput where
  rest : Bytes
  bits : Nat := 0
  held : Nat := 0
  lsbFirst : Bool := false
  deriving DecidableEq, Repr

namespace BitInput

/-- The bits to come. -/
def unread (i : BitInput) : Nat := 8 * i.rest.length + i.held

/-- The input without bits left over, and with the given order. -/
def aligned (i : BitInput) (lsbFirst : Bool) : BitInput := ⟨i.rest, 0, 0, lsbFirst⟩

/-! ## Bytes -/

/-- The next `n` bytes, or nothing if there are fewer; either way bits left over are discarded. -/
def takeBytes (i : BitInput) (n : Nat) : Option Bytes × BitInput :=
  let taken := i.rest.take n
  if taken.length = n then (some taken, ⟨i.rest.drop n, 0, 0, i.lsbFirst⟩)
  else (none, ⟨i.rest, 0, 0, i.lsbFirst⟩)

/-! ## Bits -/

/-- The number that a byte adds to the bits, in the given order. -/
def byteValue (lsbFirst : Bool) (b : UInt8) : Nat :=
  if lsbFirst then reverseBits 8 b.toNat else b.toNat

/-- Bytes are fetched until `n` bits are held; nothing if the input ends first. -/
def fetch (n : Nat) (lsbFirst : Bool) (bits held : Nat) : Bytes → Option BitInput
  | [] => if n ≤ held then some ⟨[], bits, held, lsbFirst⟩ else none
  | b :: rest =>
    if n ≤ held then some ⟨b :: rest, bits, held, lsbFirst⟩
    else fetch n lsbFirst (bits * 256 + byteValue lsbFirst b) (held + 8) rest

/-- The next `n` bits as a number, the first of them most significant. -/
def takeBits? (i : BitInput) (n : Nat) (lsbFirst : Bool) : Option (Nat × BitInput) :=
  let i := if lsbFirst = i.lsbFirst then i else i.aligned lsbFirst
  (fetch n lsbFirst i.bits i.held i.rest).map fun i =>
    (i.bits >>> (i.held - n), { i with bits := i.bits % 1 <<< (i.held - n), held := i.held - n })

theorem byteValue_lt (lsbFirst : Bool) (b : UInt8) : byteValue lsbFirst b < 256 := by
  unfold byteValue
  split
  · exact reverseBits_lt 8 b.toNat
  · exact b.toNat_lt

/-! ## What is left -/

theorem unread_aligned_le (i : BitInput) (o : Bool) : (i.aligned o).unread ≤ i.unread := by
  simp [unread, aligned]

/-- A read of bytes never adds to what is left. -/
theorem unread_takeBytes_le (i : BitInput) (n : Nat) : (i.takeBytes n).2.unread ≤ i.unread := by
  simp only [takeBytes]
  split
  · simp only [unread, List.length_drop]
    omega
  · simp [unread]

/-- A read of `n` bytes uses up at least their bits. -/
theorem unread_takeBytes {i : BitInput} {n : Nat} {data : Bytes}
    (h : (i.takeBytes n).1 = some data) : (i.takeBytes n).2.unread + 8 * n ≤ i.unread := by
  simp only [takeBytes] at h ⊢
  split at h
  · next taken =>
    rw [if_pos taken]
    simp only [List.length_take] at taken
    simp only [unread, List.length_drop]
    omega
  · simp at h

/-- Fetching moves bits from the bytes to the bits held, and loses none. -/
theorem unread_fetch {n : Nat} {o : Bool} {bits held : Nat} {rest : Bytes} {j : BitInput}
    (h : fetch n o bits held rest = some j) : j.unread = 8 * rest.length + held ∧ n ≤ j.held := by
  induction rest generalizing bits held with
  | nil =>
    simp only [fetch] at h
    split at h
    · next le =>
      cases h
      exact ⟨rfl, le⟩
    · simp at h
  | cons b rest ih =>
    simp only [fetch] at h
    split at h
    · next le =>
      cases h
      exact ⟨rfl, le⟩
    · obtain ⟨left, le⟩ := ih h
      refine ⟨?_, le⟩
      rw [left, List.length_cons]
      omega

/-- A read of `n` bits uses up at least `n` bits. -/
theorem unread_takeBits? {i j : BitInput} {n v : Nat} {o : Bool}
    (h : i.takeBits? n o = some (v, j)) : j.unread + n ≤ i.unread := by
  have start : (if o = i.lsbFirst then i else i.aligned o).unread ≤ i.unread := by
    split
    · exact Nat.le_refl _
    · exact i.unread_aligned_le o
  simp only [takeBits?, Option.map_eq_some_iff] at h
  obtain ⟨k, fetched, pair⟩ := h
  obtain ⟨left, enough⟩ := unread_fetch fetched
  cases pair
  simp only [unread] at start left ⊢
  omega

/-! ## What is held -/

/-- The buffer holds fewer bits than a byte has, and nothing above them. -/
structure Tidy (i : BitInput) : Prop where
  small : i.bits < 1 <<< i.held
  few : i.held < 8

variable {i j : BitInput} {n v : Nat} {o : Bool}

theorem tidy_of_held_eq_zero {rest : Bytes} : (⟨rest, 0, 0, o⟩ : BitInput).Tidy :=
  ⟨Nat.one_pos, (by decide : 0 < 8)⟩

/-- Fetching puts bytes behind the bits held, and stops as soon as there are enough of them. -/
theorem small_fetch {bits held : Nat} {rest : Bytes} (small : bits < 1 <<< held)
    (few : held < n + 8)
    (h : fetch n o bits held rest = some j) : j.bits < 1 <<< j.held ∧ j.held < n + 8 := by
  induction rest generalizing bits held with
  | nil =>
    rw [fetch] at h
    split at h <;> cases h
    exact ⟨small, few⟩
  | cons b rest ih =>
    rw [fetch] at h
    split at h
    · cases h
      exact ⟨small, few⟩
    · have byte := byteValue_lt o b
      have room : bits * 256 + byteValue o b < 1 <<< (held + 8) := by
        rw [Nat.shiftLeft_add, Nat.shiftLeft_eq _ 8]
        omega
      exact ih room (by omega) h

theorem tidy_takeBytes (i : BitInput) (n : Nat) : (i.takeBytes n).2.Tidy := by
  simp only [takeBytes]
  split <;> exact tidy_of_held_eq_zero

/-- A tidy input in an order, without the bits held in the other one. -/
theorem Tidy.ordered (tidy : i.Tidy) (o : Bool) :
    (if o = i.lsbFirst then i else i.aligned o).Tidy := by
  split
  · exact tidy
  · exact tidy_of_held_eq_zero

/-- A read of `n` bits gives a number of `n` bits, and holds the rest of the last byte. -/
theorem Tidy.takeBits? (tidy : i.Tidy) (h : i.takeBits? n o = some (v, j)) :
    v < 1 <<< n ∧ j.Tidy := by
  obtain ⟨small, few⟩ := tidy.ordered o
  simp only [BitInput.takeBits?, Option.map_eq_some_iff] at h
  obtain ⟨k, fetched, pair⟩ := h
  obtain ⟨smallOn, fewOn⟩ := small_fetch small (by omega) fetched
  have enough := (unread_fetch fetched).2
  cases pair
  refine ⟨?_, Nat.mod_lt _ ?_, Nat.sub_lt_left_of_lt_add enough fewOn⟩
  · rw [Nat.shiftRight_eq_div_pow, Nat.div_lt_iff_lt_mul (Nat.two_pow_pos _), ← Nat.shiftLeft_eq,
      ← Nat.shiftLeft_add, Nat.add_sub_cancel' enough]
    exact smallOn
  · rw [Nat.one_shiftLeft]
    exact Nat.two_pow_pos _

end BitInput

end SigComp
