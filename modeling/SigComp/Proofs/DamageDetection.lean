import Mathlib.Algebra.Group.Nat.Defs
import SigComp.FrameCheck
import SigComp.Proofs.BitReading

/-!
# Damage that a frame check detects

The table of the frame check is a short cut.  The check is a division of the bits that the bytes
bring, least significant first, and nothing is lost in it.

* `divide`: the division, one bit of data after the other.  `shiftBits_xor_ofNat`: what is added to
  a remainder is divided bit by bit as it moves down, whether it came at once or not.
* `step_eq_shiftBits`: so the table may take in a byte at a time, and `accumulate_pair`: two bytes
  go through as one word.
* `shiftBit_injective`: the bit that has left can be seen in the remainder, so a bit of the division
  can be undone.
* `frame_check_detects_local_damage`: the table against the division, the check of a check, and
  damage to two neighbours, for bytes of any number.
-/

namespace SigComp.FrameCheck

variable {a b fcs : UInt16} {data : Bytes} {high low : UInt8} {n v : Nat}

/-! ## The division -/

/-- One bit of data taken into the division: the polynomial is subtracted if the bit that leaves
differs from it. -/
def divideBit (fcs : UInt16) (bit : Bool) : UInt16 :=
  if fcs.toNat.testBit 0 = bit then fcs >>> 1 else fcs >>> 1 ^^^ polynomial

/-- The bits of data taken into the division one after the other. -/
def divide (fcs : UInt16) (bits : List Bool) : UInt16 := bits.foldl divideBit fcs

theorem shiftBit_eq (a : UInt16) :
    shiftBit a = a >>> 1 ^^^ if a.toNat.testBit 0 then polynomial else 0 := by
  have low : a &&& 1 = 0 ↔ a.toNat.testBit 0 = false := by
    rw [← UInt16.toNat_inj, UInt16.toNat_and, Nat.testBit_zero]
    change a.toNat &&& 1 = 0 ↔ _
    rw [Nat.and_one_is_mod]
    simp
  unfold shiftBit
  cases bit : a.toNat.testBit 0 with
  | false => rw [if_pos (low.2 bit), if_neg Bool.false_ne_true, UInt16.xor_zero]
  | true =>
    have set : ¬ a &&& 1 = 0 := fun zero => by
      rw [low.1 zero] at bit
      cases bit
    rw [if_neg set, if_pos rfl]

/-- What is added to a remainder moves down with it, and its lowest bit is a bit of data. -/
theorem shiftBit_xor_ofNat (fcs : UInt16) (small : v < 65536) :
    shiftBit (fcs ^^^ UInt16.ofNat v) = divideBit fcs (v.testBit 0) ^^^ UInt16.ofNat (v / 2) := by
  have value : (UInt16.ofNat v).toNat = v := UInt16.toNat_ofNat_of_lt' small
  have half : UInt16.ofNat v >>> 1 = UInt16.ofNat (v / 2) := by
    apply UInt16.toNat_inj.1
    rw [UInt16.toNat_shiftRight, value, UInt16.toNat_ofNat_of_lt' (show v / 2 < 65536 by omega)]
    change v >>> 1 = v / 2
    rw [Nat.shiftRight_eq_div_pow]
  rw [shiftBit_eq, UInt16.toNat_xor, Nat.testBit_xor, value, UInt16.shiftRight_xor, half, divideBit]
  cases fcs.toNat.testBit 0 <;> cases v.testBit 0 <;>
    simp [UInt16.xor_assoc, UInt16.xor_comm]

theorem digits_succ_reverse (n v : Nat) :
    (digits (n + 1) v).reverse = v.testBit 0 :: (digits n (v / 2)).reverse := by
  rw [digits_half, List.reverse_append, digits, digits, Nat.testBit_zero, Nat.testBit_zero,
    Nat.mod_mod]
  rfl

/-- What is added to a remainder is divided bit by bit, as far as it has moved down. -/
theorem shiftBits_xor_ofNat (n : Nat) (fcs : UInt16) (small : v < 65536) :
    shiftBits n (fcs ^^^ UInt16.ofNat v) =
      divide fcs (digits n v).reverse ^^^ UInt16.ofNat (v / 2 ^ n) := by
  induction n generalizing fcs v with
  | zero => rw [Nat.pow_zero, Nat.div_one]; rfl
  | succ n ih =>
    rw [shiftBits, shiftBit_xor_ofNat fcs small, ih _ (by omega), digits_succ_reverse,
      Nat.div_div_eq_div_mul, Nat.pow_succ']
    rfl

/-- The bits that have moved down are those of the remainder below, and the rest is added. -/
theorem shiftBits_mod (n : Nat) (fcs : UInt16) (small : v < 65536) :
    shiftBits n (fcs ^^^ UInt16.ofNat v) =
      shiftBits n (fcs ^^^ UInt16.ofNat (v % 2 ^ n)) ^^^ UInt16.ofNat (v / 2 ^ n) := by
  have below : digits n (v % 2 ^ n) = digits n v := digits_congr fun i inside => by
    rw [Nat.testBit_mod_two_pow, decide_eq_true inside, Bool.true_and]
  have smaller : v % 2 ^ n < 65536 := Nat.lt_of_le_of_lt (Nat.mod_le _ _) small
  have nothing : UInt16.ofNat (v % 2 ^ n / 2 ^ n) = 0 := by
    rw [Nat.mod_div_self]
    rfl
  rw [shiftBits_xor_ofNat n fcs small, shiftBits_xor_ofNat n fcs smaller, below, nothing,
    UInt16.xor_zero]

/-! ## Bytes -/

/-- A byte is taken in with its bits. -/
theorem shiftBits_byte (fcs : UInt16) (b : UInt8) :
    shiftBits 8 (fcs ^^^ b.toUInt16) = divide fcs (byteDigits true b) := by
  have divided := shiftBits_xor_ofNat 8 fcs (Nat.lt_trans b.toNat_lt (by decide))
  rw [UInt16.ofNat_uInt8ToNat, Nat.div_eq_of_lt b.toNat_lt] at divided
  exact divided.trans UInt16.xor_zero

/-- The lower byte of a word is divided, and the upper byte comes down to be added. -/
theorem shiftBits_word (fcs : UInt16) (high low : UInt8) :
    shiftBits 8 (fcs ^^^ word high low) = shiftBits 8 (fcs ^^^ low.toUInt16) ^^^ high.toUInt16 := by
  have parted := shiftBits_mod 8 fcs (word high low).toNat_lt
  have lower : (word high low).toNat % 2 ^ 8 = low.toNat := by
    have := low.toNat_lt
    rw [toNat_word]
    omega
  have upper : (word high low).toNat / 2 ^ 8 = high.toNat := by
    have := low.toNat_lt
    rw [toNat_word]
    omega
  rw [UInt16.ofNat_toNat, lower, upper, UInt16.ofNat_uInt8ToNat, UInt16.ofNat_uInt8ToNat] at parted
  exact parted

theorem remainders_get (b : UInt8) : remainders.get b.toFin = shiftBits 8 b.toUInt16 := by
  change (Vector.ofFn _)[b.toFin.val] = _
  rw [Vector.getElem_ofFn, UInt8.toFin_val, UInt16.ofNat_uInt8ToNat]

/-- A byte is added to the lower byte of a remainder alone. -/
theorem highByte_xor (fcs : UInt16) (b : UInt8) :
    (highByte (fcs ^^^ b.toUInt16)).toUInt16 = fcs >>> 8 := by
  have nothing : b.toNat >>> 8 = 0 := Nat.shiftRight_eq_zero b.toNat 8 b.toNat_lt
  have below : fcs.toNat >>> 8 < 2 ^ 8 := by
    have := fcs.toNat_lt
    rw [Nat.shiftRight_eq_div_pow]
    omega
  apply UInt16.toNat_inj.1
  rw [highByte, UInt8.toNat_toUInt16, UInt16.toNat_toUInt8, UInt16.toNat_shiftRight,
    UInt16.toNat_xor, UInt8.toNat_toUInt16, UInt16.toNat_shiftRight]
  change (fcs.toNat ^^^ b.toNat) >>> 8 % 2 ^ 8 = fcs.toNat >>> 8
  rw [Nat.shiftRight_xor_distrib, nothing, Nat.xor_zero, Nat.mod_eq_of_lt below]

/-- The table knows what becomes of the lower byte, and the upper byte comes down to be added. -/
theorem step_eq_shiftBits (fcs : UInt16) (b : UInt8) :
    step fcs b = shiftBits 8 (fcs ^^^ b.toUInt16) := by
  have parted := shiftBits_word 0 (highByte (fcs ^^^ b.toUInt16)) (lowByte (fcs ^^^ b.toUInt16))
  rw [word_ofWord, UInt16.zero_xor, UInt16.zero_xor, highByte_xor] at parted
  rw [step, remainders_get, parted, UInt16.xor_comm]
  rfl

theorem shiftBits_add (n k : Nat) (fcs : UInt16) :
    shiftBits (n + k) fcs = shiftBits k (shiftBits n fcs) := by
  induction n generalizing fcs with
  | zero => rw [Nat.zero_add]; rfl
  | succ n ih => rw [Nat.succ_add, shiftBits, ih, shiftBits]

/-- Two bytes go through the division as one word, the first as its lower byte. -/
theorem accumulate_pair (fcs : UInt16) (high low : UInt8) :
    accumulate fcs [low, high] = shiftBits 16 (fcs ^^^ word high low) := by
  rw [shiftBits_add 8 8, shiftBits_word, ← step_eq_shiftBits fcs, ← step_eq_shiftBits]
  rfl

/-- The table against the division, byte by byte and bit by bit. -/
theorem accumulate_eq_serial (fcs : UInt16) (data : Bytes) :
    accumulate fcs data = serial fcs data := by
  have same : step = fun f b => shiftBits 8 (f ^^^ b.toUInt16) := by
    funext f b
    exact step_eq_shiftBits f b
  rw [accumulate, serial, same]

theorem serial_eq_divide (fcs : UInt16) (data : Bytes) :
    serial fcs data = divide fcs (data.flatMap (byteDigits true)) := by
  induction data generalizing fcs with
  | nil => rfl
  | cons b data ih =>
    calc serial fcs (b :: data)
      _ = serial (shiftBits 8 (fcs ^^^ b.toUInt16)) data := rfl
      _ = divide (divide fcs (byteDigits true b)) (data.flatMap (byteDigits true)) := by
        rw [shiftBits_byte, ih]
      _ = divide fcs ((b :: data).flatMap (byteDigits true)) := by
        rw [List.flatMap_cons, divide, divide, divide, List.foldl_append]

/-! ## Nothing is lost -/

/-- The bit that has left shows at the upper end, where the polynomial has a bit and what has moved
down has none. -/
theorem testBit_shiftBit (a : UInt16) : (shiftBit a).toNat.testBit 15 = a.toNat.testBit 0 := by
  have vacated : (a >>> 1).toNat.testBit 15 = false := by
    rw [UInt16.toNat_shiftRight]
    change (a.toNat >>> 1).testBit 15 = false
    rw [Nat.testBit_shiftRight]
    exact Nat.testBit_lt_two_pow a.toNat_lt
  rw [shiftBit_eq, UInt16.toNat_xor, Nat.testBit_xor, vacated, Bool.false_xor]
  cases a.toNat.testBit 0 <;> decide

theorem shiftBit_injective : Function.Injective shiftBit := by
  intro a b same
  have bit : a.toNat.testBit 0 = b.toNat.testBit 0 := by
    rw [← testBit_shiftBit, same, testBit_shiftBit]
  rw [shiftBit_eq, shiftBit_eq, bit, UInt16.xor_left_inj] at same
  have others := congrArg UInt16.toNat same
  rw [UInt16.toNat_shiftRight, UInt16.toNat_shiftRight] at others
  change a.toNat >>> 1 = b.toNat >>> 1 at others
  rw [Nat.shiftRight_eq_div_pow, Nat.shiftRight_eq_div_pow] at others
  rw [Nat.testBit_zero, Nat.testBit_zero, decide_eq_decide] at bit
  apply UInt16.toNat_inj.1
  omega

theorem shiftBits_injective (n : Nat) : Function.Injective (shiftBits n) := by
  induction n with
  | zero => exact fun a b same => same
  | succ n ih => exact fun a b same => shiftBit_injective (ih same)

/-- What has been taken in keeps remainders apart. -/
theorem accumulate_injective (data : Bytes) :
    Function.Injective fun fcs => accumulate fcs data := by
  induction data with
  | nil => exact fun a b same => same
  | cons c data ih =>
    intro a b same
    have first : step a c = step b c := ih same
    rw [step_eq_shiftBits, step_eq_shiftBits] at first
    exact (UInt16.xor_left_inj _).1 (shiftBits_injective 8 first)

/-- Two bytes or fewer are told from any others, as many, by what they leave. -/
theorem eq_of_accumulate_short : ∀ {u v : Bytes}, u.length = v.length → u.length ≤ 2 →
    accumulate fcs u = accumulate fcs v → u = v
  | [], [], _, _, _ => rfl
  | [x], [y], _, _, same => by
    have single : step fcs x = step fcs y := same
    rw [step_eq_shiftBits, step_eq_shiftBits] at single
    have bytes := (UInt16.xor_right_inj _).1 (shiftBits_injective 8 single)
    rw [UInt8.toUInt16_inj.1 bytes]
  | [x, x'], [y, y'], _, _, same => by
    rw [accumulate_pair, accumulate_pair] at same
    obtain ⟨rfl, rfl⟩ := word_injective ((UInt16.xor_right_inj _).1 (shiftBits_injective 16 same))
    rfl
  | _ :: _ :: _ :: _, _, _, short, _ => absurd short (by simp)

/-- Byte strings that differ in two neighbours at most have the same beginning and the same end. -/
theorem parts_of_local {a b : Bytes} {i : Nat}
    (elsewhere : ∀ j, j ≠ i → j ≠ i + 1 → a[j]? = b[j]?) :
    a.take i = b.take i ∧ a.drop (i + 2) = b.drop (i + 2) := by
  constructor
  · refine List.ext_getElem? fun j => ?_
    rw [List.getElem?_take, List.getElem?_take]
    split
    · exact elsewhere j (by omega) (by omega)
    · rfl
  · refine List.ext_getElem? fun j => ?_
    rw [List.getElem?_drop, List.getElem?_drop]
    exact elsewhere _ (by omega) (by omega)

/-- The check of a byte string goes through what stands before two neighbours, through these, and
through what stands behind them. -/
theorem accumulate_parts (fcs : UInt16) (a : Bytes) (i : Nat) :
    accumulate fcs a =
      accumulate (accumulate (accumulate fcs (a.take i)) ((a.drop i).take 2)) (a.drop (i + 2)) := by
  rw [← accumulate_append, ← accumulate_append, ← List.drop_drop, List.take_append_drop,
    List.take_append_drop]

/-! ## The check of a message -/

/-- The two bytes that carry a check behind its message, inverted, the lower one first. -/
def trailer (fcs : UInt16) : Bytes := [lowByte (~~~fcs), highByte (~~~fcs)]

/-- What a check and its trailer come to is what sixteen set bits leave. -/
theorem accumulate_trailer (fcs : UInt16) : accumulate fcs (trailer fcs) = 0xf0b8 := by
  have inverted : fcs ^^^ ~~~fcs = 0xffff := by
    rw [UInt16.xor_not, UInt16.xor_self]
    rfl
  rw [trailer, accumulate_pair, word_ofWord, inverted]
  decide +kernel

example : trailer (accumulate start [0x31, 0x32, 0x33, 0x34, 0x35, 0x36, 0x37, 0x38, 0x39]) =
    [0x6e, 0x90] := by decide +kernel

/-- The table does what the division does, whatever it continues from: byte by byte, and bit by bit.
Where a check is followed by its trailer the outcome is always the same.  And byte strings of one
length that differ, but in two neighbours at most, do not have the same check. -/
theorem frame_check_detects_local_damage :
    (∀ fcs data, accumulate fcs data = serial fcs data ∧
      accumulate fcs data = divide fcs (data.flatMap (byteDigits true))) ∧
    (∀ fcs data, accumulate fcs (data ++ trailer (accumulate fcs data)) = 0xf0b8) ∧
    ∀ fcs (a b : Bytes) i, a.length = b.length → a ≠ b →
      (∀ j, j ≠ i → j ≠ i + 1 → a[j]? = b[j]?) → accumulate fcs a ≠ accumulate fcs b := by
  refine ⟨fun fcs data => ⟨accumulate_eq_serial fcs data, ?_⟩, fun fcs data => ?_,
    fun fcs a b i length differ elsewhere same => ?_⟩
  · rw [accumulate_eq_serial, serial_eq_divide]
  · rw [accumulate_append, accumulate_trailer]
  · obtain ⟨before, behind⟩ := parts_of_local elsewhere
    rw [accumulate_parts fcs a i, accumulate_parts fcs b i, before, behind] at same
    have two : ((a.drop i).take 2).length ≤ 2 := List.length_take_le _ _
    have as_many : ((a.drop i).take 2).length = ((b.drop i).take 2).length := by
      rw [List.length_take, List.length_take, List.length_drop, List.length_drop, length]
    have neighbours := eq_of_accumulate_short as_many two (accumulate_injective _ same)
    refine differ ?_
    rw [← List.take_append_drop i a, ← List.take_append_drop i b, before,
      ← List.take_append_drop 2 (a.drop i), ← List.take_append_drop 2 (b.drop i), neighbours,
      List.drop_drop, List.drop_drop, behind]

/-- Two neighbours are damaged, and nothing else; the checks differ. -/
theorem damaged_neighbours_are_noticed :
    let sent : Bytes := [0x31, 0x32, 0x33, 0x34]
    let received : Bytes := [0x31, 0xff, 0x00, 0x34]
    (∀ j, j ≠ 1 → j ≠ 2 → sent[j]? = received[j]?) ∧
      accumulate start sent ≠ accumulate start received := by
  intro sent received
  have elsewhere : ∀ j, j ≠ 1 → j ≠ 2 → sent[j]? = received[j]?
    | 0, _, _ => rfl
    | 1, first, _ => absurd rfl first
    | 2, _, second => absurd rfl second
    | 3, _, _ => rfl
    | _ + 4, _, _ => rfl
  have noticed := frame_check_detects_local_damage.2.2
  exact ⟨elsewhere, noticed start sent received 1 rfl (by decide) elsewhere⟩

end SigComp.FrameCheck
