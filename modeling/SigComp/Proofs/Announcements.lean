import Mathlib.Algebra.Group.Nat.Defs
import Mathlib.Data.Nat.Log
import Mathlib.Order.Bounds.Basic
import Mathlib.Order.MinMax
import SigComp.Capabilities

/-!
# Announcements never overstate

The byte that announces what a side can do has room for logarithms alone.  Each is the greatest that
does not promise too much.

* `exponent`: the logarithm that a field gets, and `le_exponent_iff`: which logarithms do not
  promise too much.  So it is the greatest (`isGreatest_exponent`), and it grows with the value
  (`exponent_mono`).
* `cyclesField_encode`, `memoryField_encode`, `stateField_encode`: what each field of the byte is.
* `announcements_never_overstate`: what a peer reads out of the byte, against what there is.
-/

namespace SigComp.Capabilities

variable {c d : Capabilities} {packed version : UInt8} {unit first last k m n : Nat}

/-! ## Logarithms -/

/-- The logarithm of a value in units, or the last that a field can hold. -/
def exponent (unit last n : Nat) : Nat := min (Nat.log2 (n / unit)) last

theorem exponent_le (unit last n : Nat) : exponent unit last n ≤ last := Nat.min_le_right _ _

/-- The logarithms up to the field's own are those that do not promise too much. -/
theorem le_exponent_iff (last : Nat) (positive : 0 < unit) (enough : unit ≤ n) :
    k ≤ exponent unit last n ↔ k ≤ last ∧ unit * 2 ^ k ≤ n := by
  have nonzero : n / unit ≠ 0 := Nat.ne_of_gt (Nat.div_pos enough positive)
  rw [exponent, Nat.le_min, Nat.le_log2 nonzero, Nat.le_div_iff_mul_le positive, Nat.mul_comm unit,
    and_comm]

theorem exponent_mono (unit last : Nat) (more : m ≤ n) :
    exponent unit last m ≤ exponent unit last n := by
  rw [exponent, exponent, Nat.log2_eq_log_two, Nat.log2_eq_log_two]
  exact min_le_min_right last (Nat.log_mono_right (Nat.div_le_div_right more))

theorem exponent_eq_zero (few : n < unit * 2) : exponent unit last n = 0 := by
  have one : Nat.log 2 (n / unit) = 0 := Nat.log_of_lt (Nat.div_lt_of_lt_mul few)
  rw [exponent, Nat.log2_eq_log_two, one, Nat.zero_min]

theorem exponent_mul (positive : 0 < unit) (held : k ≤ last) :
    exponent unit last (unit * 2 ^ k) = k := by
  rw [exponent, Nat.mul_div_cancel_left _ positive, Nat.log2_two_pow, Nat.min_eq_left held]

/-- The values that a field can announce: so many units, by the powers of two from the first to the
last. -/
def announceable (unit first last : Nat) : Set Nat :=
  {x | ∃ k, first ≤ k ∧ k ≤ last ∧ x = unit * 2 ^ k}

/-- The field's own logarithm announces the greatest value that does not promise too much. -/
theorem isGreatest_exponent (last : Nat) (positive : 0 < unit) (order : first ≤ last)
    (enough : unit * 2 ^ first ≤ n) :
    IsGreatest {x | x ∈ announceable unit first last ∧ x ≤ n}
      (unit * 2 ^ exponent unit last n) := by
  have one : unit ≤ n := Nat.le_trans (Nat.le_mul_of_pos_right _ (Nat.two_pow_pos _)) enough
  have own := le_exponent_iff (k := exponent unit last n) last positive one
  have least := (le_exponent_iff last positive one).2 ⟨order, enough⟩
  obtain ⟨held, within⟩ := own.1 (Nat.le_refl _)
  refine ⟨⟨⟨_, least, held, rfl⟩, within⟩, ?_⟩
  rintro x ⟨⟨k, -, below, rfl⟩, fits⟩
  exact Nat.mul_le_mul_left _ (Nat.pow_le_pow_right Nat.two_pos
    ((le_exponent_iff last positive one).2 ⟨below, fits⟩))

/-! ## The fields of the byte -/

/-- Two bits and twice three make up the byte. -/
theorem toNat_eq_fields (packed : UInt8) :
    packed.toNat = cyclesField packed * 64 + memoryField packed * 8 + stateField packed := by
  have := packed.toNat_lt
  unfold cyclesField memoryField stateField
  omega

theorem fields_le (packed : UInt8) :
    cyclesField packed ≤ 3 ∧ memoryField packed ≤ 7 ∧ stateField packed ≤ 7 := by
  have := packed.toNat_lt
  unfold cyclesField memoryField stateField
  omega

theorem toNat_encode (c : Capabilities) :
    c.encode.toNat = exponent 16 3 (max c.cyclesPerBit.toNat 16) * 64 +
      exponent 1024 7 (max c.decompressionMemory 2048) * 8 + exponent 1024 7 c.stateMemory := by
  have state : (if c.stateMemory < 2048 then 0 else min (Nat.log2 (c.stateMemory / 1024)) 7) =
      exponent 1024 7 c.stateMemory := by
    split
    · next few => rw [exponent_eq_zero few]
    · rfl
  have := exponent_le 16 3 (max c.cyclesPerBit.toNat 16)
  have := exponent_le 1024 7 (max c.decompressionMemory 2048)
  have := exponent_le 1024 7 c.stateMemory
  simp only [encode, state]
  exact UInt8.toNat_ofNat_of_lt' (show _ < 256 by omega)

theorem cyclesField_encode (c : Capabilities) :
    cyclesField c.encode = exponent 16 3 (max c.cyclesPerBit.toNat 16) := by
  have := exponent_le 1024 7 (max c.decompressionMemory 2048)
  have := exponent_le 1024 7 c.stateMemory
  rw [cyclesField, toNat_encode]
  omega

theorem memoryField_encode (c : Capabilities) :
    memoryField c.encode = exponent 1024 7 (max c.decompressionMemory 2048) := by
  have := exponent_le 1024 7 (max c.decompressionMemory 2048)
  have := exponent_le 1024 7 c.stateMemory
  rw [memoryField, toNat_encode]
  omega

theorem stateField_encode (c : Capabilities) :
    stateField c.encode = exponent 1024 7 c.stateMemory := by
  have := exponent_le 1024 7 c.stateMemory
  rw [stateField, toNat_encode]
  omega

/-! ## Reading the byte -/

theorem cyclesPerBit_decode (packed version : UInt8) :
    (decode packed version).cyclesPerBit.toNat = 16 * 2 ^ cyclesField packed := by
  have small : 16 * 2 ^ cyclesField packed ≤ 16 * 2 ^ 3 :=
    Nat.mul_le_mul_left _ (Nat.pow_le_pow_right Nat.two_pos (fields_le packed).1)
  rw [decode, Nat.shiftLeft_eq]
  exact UInt16.toNat_ofNat_of_lt' (Nat.lt_of_le_of_lt small (by decide))

theorem decompressionMemory_decode (written : memoryField packed ≠ 0) (version : UInt8) :
    (decode packed version).decompressionMemory = 1024 * 2 ^ memoryField packed := by
  simp only [decode, if_neg written, Nat.shiftLeft_eq]

theorem stateMemory_decode (packed version : UInt8) :
    (decode packed version).stateMemory =
      if stateField packed = 0 then 0 else 1024 * 2 ^ stateField packed := by
  simp only [decode, Nat.shiftLeft_eq]

/-- A byte that an endpoint may announce is the one that announces what is read out of it. -/
theorem encode_decode (written : memoryField packed ≠ 0) (version : UInt8) :
    (decode packed version).encode = packed := by
  obtain ⟨cyclesBound, memoryBound, stateBound⟩ := fields_le packed
  have cycles : exponent 16 3 (max (16 * 2 ^ cyclesField packed) 16) = cyclesField packed := by
    rw [Nat.max_eq_left (Nat.le_mul_of_pos_right _ (Nat.two_pow_pos _)),
      exponent_mul (by decide) cyclesBound]
  have memory :
      exponent 1024 7 (max (1024 * 2 ^ memoryField packed) 2048) = memoryField packed := by
    have two : 2 ^ 1 ≤ 2 ^ memoryField packed :=
      Nat.pow_le_pow_right Nat.two_pos (Nat.pos_of_ne_zero written)
    have least : 2048 ≤ 1024 * 2 ^ memoryField packed := Nat.mul_le_mul_left 1024 two
    rw [Nat.max_eq_left least, exponent_mul (by decide) memoryBound]
  have state : exponent 1024 7 (if stateField packed = 0 then 0 else 1024 * 2 ^ stateField packed) =
      stateField packed := by
    split
    · next none => rw [none, exponent_eq_zero (by decide)]
    · exact exponent_mul (by decide) stateBound
  apply UInt8.toNat_inj.1
  rw [toNat_encode, cyclesPerBit_decode, decompressionMemory_decode written, stateMemory_decode,
    cycles, memory, state, toNat_eq_fields packed]

/-! ## What a peer is told -/

theorem isGreatest_cyclesPerBit (enough : 16 ≤ c.cyclesPerBit.toNat) (version : UInt8) :
    IsGreatest {x | x ∈ announceable 16 0 3 ∧ x ≤ c.cyclesPerBit.toNat}
      (decode c.encode version).cyclesPerBit.toNat := by
  rw [cyclesPerBit_decode, cyclesField_encode, Nat.max_eq_left enough]
  exact isGreatest_exponent 3 (by decide) (by decide) enough

theorem isGreatest_decompressionMemory (enough : 2048 ≤ c.decompressionMemory) (version : UInt8) :
    IsGreatest {x | x ∈ announceable 1024 1 7 ∧ x ≤ c.decompressionMemory}
      (decode c.encode version).decompressionMemory := by
  have field : memoryField c.encode = exponent 1024 7 c.decompressionMemory := by
    rw [memoryField_encode, Nat.max_eq_left enough]
  have least : 1 ≤ exponent 1024 7 c.decompressionMemory :=
    (le_exponent_iff 7 (by decide) (Nat.le_trans (by decide) enough)).2 ⟨by decide, enough⟩
  rw [decompressionMemory_decode (field ▸ Nat.ne_of_gt least), field]
  exact isGreatest_exponent 7 (by decide) (by decide) enough

/-- Less state memory than the least that can be announced is announced as none. -/
theorem isGreatest_stateMemory (c : Capabilities) (version : UInt8) :
    IsGreatest {x | (x = 0 ∨ x ∈ announceable 1024 1 7) ∧ x ≤ c.stateMemory}
      (decode c.encode version).stateMemory := by
  rw [stateMemory_decode, stateField_encode]
  by_cases few : c.stateMemory < 2048
  · rw [if_pos (exponent_eq_zero few)]
    refine ⟨⟨.inl rfl, Nat.zero_le _⟩, ?_⟩
    rintro x ⟨rfl | ⟨k, least, -, rfl⟩, fits⟩
    · exact Nat.le_refl _
    · have more : 1024 * 2 ^ 1 ≤ 1024 * 2 ^ k :=
        Nat.mul_le_mul_left _ (Nat.pow_le_pow_right Nat.two_pos least)
      omega
  · have enough : 1024 * 2 ^ 1 ≤ c.stateMemory := Nat.not_lt.1 few
    have least : 1 ≤ exponent 1024 7 c.stateMemory :=
      (le_exponent_iff 7 (by decide) (Nat.le_trans (by decide) enough)).2 ⟨by decide, enough⟩
    obtain ⟨⟨among, fits⟩, greatest⟩ :=
      isGreatest_exponent 7 (by decide) (by decide) enough
    rw [if_neg (Nat.ne_of_gt least)]
    refine ⟨⟨.inr among, fits⟩, ?_⟩
    rintro x ⟨rfl | among, fits⟩
    · exact Nat.zero_le _
    · exact greatest ⟨among, fits⟩

/-- More of one thing never makes its field smaller. -/
theorem fields_mono (c d : Capabilities) :
    (c.cyclesPerBit ≤ d.cyclesPerBit → cyclesField c.encode ≤ cyclesField d.encode) ∧
    (c.decompressionMemory ≤ d.decompressionMemory → memoryField c.encode ≤ memoryField d.encode) ∧
    (c.stateMemory ≤ d.stateMemory → stateField c.encode ≤ stateField d.encode) := by
  rw [cyclesField_encode, cyclesField_encode, memoryField_encode, memoryField_encode,
    stateField_encode, stateField_encode]
  exact ⟨fun more => exponent_mono 16 3 (max_le_max_right 16 (UInt16.le_iff_toNat_le.1 more)),
    fun more => exponent_mono 1024 7 (max_le_max_right 2048 more), exponent_mono 1024 7⟩

/-- Settings within their range give a message some cycles for each bit. -/
theorem cyclesPerBit_normalized (s : Settings) :
    16 ≤ (ofSettings s.normalized).cyclesPerBit.toNat := by
  change 16 ≤ (if s.cyclesPerBit ≤ 16 then (16 : UInt16) else s.cyclesPerBit).toNat
  split
  · decide
  · next more =>
    rw [UInt16.le_iff_toNat_le] at more
    exact Nat.le_of_not_le more

/-- What a peer reads out of an announcement is, of each thing, the greatest that can be announced
and that there is.  More of one thing never makes its field or the byte smaller, and a byte that an
endpoint may announce is what is announced when it has just that.  All this is of capabilities that
settings within their range give. -/
theorem announcements_never_overstate :
    (∀ (c : Capabilities) (version : UInt8),
      16 ≤ c.cyclesPerBit.toNat → 2048 ≤ c.decompressionMemory →
      IsGreatest {x | x ∈ announceable 16 0 3 ∧ x ≤ c.cyclesPerBit.toNat}
        (decode c.encode version).cyclesPerBit.toNat ∧
      IsGreatest {x | x ∈ announceable 1024 1 7 ∧ x ≤ c.decompressionMemory}
        (decode c.encode version).decompressionMemory ∧
      IsGreatest {x | (x = 0 ∨ x ∈ announceable 1024 1 7) ∧ x ≤ c.stateMemory}
        (decode c.encode version).stateMemory) ∧
    (∀ s : Settings, 16 ≤ (ofSettings s.normalized).cyclesPerBit.toNat ∧
      2048 ≤ (ofSettings s.normalized).decompressionMemory) ∧
    (∀ c d : Capabilities,
      (c.cyclesPerBit ≤ d.cyclesPerBit → cyclesField c.encode ≤ cyclesField d.encode) ∧
      (c.decompressionMemory ≤ d.decompressionMemory →
        memoryField c.encode ≤ memoryField d.encode) ∧
      (c.stateMemory ≤ d.stateMemory → stateField c.encode ≤ stateField d.encode) ∧
      (c.cyclesPerBit ≤ d.cyclesPerBit → c.decompressionMemory ≤ d.decompressionMemory →
        c.stateMemory ≤ d.stateMemory → c.encode ≤ d.encode)) ∧
    ∀ packed version, memoryField packed ≠ 0 → (decode packed version).encode = packed := by
  refine ⟨fun c version cycles memory => ⟨isGreatest_cyclesPerBit cycles version,
    isGreatest_decompressionMemory memory version, isGreatest_stateMemory c version⟩,
    fun s => ⟨cyclesPerBit_normalized s, Nat.le_max_right _ _⟩, fun c d => ?_,
    fun packed version written => encode_decode written version⟩
  obtain ⟨cycles, memory, state⟩ := fields_mono c d
  refine ⟨cycles, memory, state, fun moreCycles moreMemory moreState => ?_⟩
  have := cycles moreCycles
  have := memory moreMemory
  have := state moreState
  rw [UInt8.le_iff_toNat_le, toNat_eq_fields c.encode, toNat_eq_fields d.encode]
  omega

/-- Where there are 40 cycles for each bit and 10000 bytes of memory, 32 and 8192 are announced. -/
theorem announced_below_what_there_is :
    let c : Capabilities := ⟨40, 10000, 2048, 1⟩
    let d : Capabilities := ⟨64, 10000, 4096, 1⟩
    (16 ≤ c.cyclesPerBit.toNat ∧ 2048 ≤ c.decompressionMemory) ∧
      (decode c.encode 1 = ⟨32, 8192, 2048, 1⟩ ∧
        IsGreatest {x | x ∈ announceable 16 0 3 ∧ x ≤ 40} 32 ∧
        IsGreatest {x | x ∈ announceable 1024 1 7 ∧ x ≤ 10000} 8192 ∧
        IsGreatest {x | (x = 0 ∨ x ∈ announceable 1024 1 7) ∧ x ≤ 2048} 2048) ∧
      c.encode ≤ d.encode ∧ memoryField c.encode ≠ 0 ∧ (decode c.encode 1).encode = c.encode := by
  intro c d
  obtain ⟨greatest, -, monotone, back⟩ := announcements_never_overstate
  have enough : 16 ≤ c.cyclesPerBit.toNat ∧ 2048 ≤ c.decompressionMemory := by decide
  have told : decode c.encode 1 = ⟨32, 8192, 2048, 1⟩ := by decide
  have written : memoryField c.encode ≠ 0 := by decide
  have fields := greatest c 1 enough.1 enough.2
  rw [told] at fields
  exact ⟨enough, ⟨told, fields⟩,
    (monotone c d).2.2.2 (by decide) (by decide) (by decide), written, back _ 1 written⟩

end SigComp.Capabilities
