/-!
# Byte strings and big-endian words

Messages, states and identifiers are lists of bytes.  Everything SigComp writes
into memory or hashes as a number is a 16-bit word, most significant byte first.

* `word_ofWord` — the two bytes of a word give the word back;
* `Bytes.toHex` — the lower-case text of a byte string, two digits a byte.
-/

namespace SigComp

/-- A byte string. -/
abbrev Bytes := List UInt8

/-! ## Words -/

/-- The word with the given most and least significant bytes. -/
def word (high low : UInt8) : UInt16 := high.toUInt16 <<< 8 ||| low.toUInt16

/-- The most significant byte of a word. -/
def highByte (w : UInt16) : UInt8 := (w >>> 8).toUInt8

/-- The least significant byte of a word. -/
def lowByte (w : UInt16) : UInt8 := w.toUInt8

/-- The two bytes of a word in the order in which they are stored. -/
def Bytes.ofWord (w : UInt16) : Bytes := [highByte w, lowByte w]

@[simp] theorem Bytes.length_ofWord (w : UInt16) : (Bytes.ofWord w).length = 2 := rfl

/-- A word is its two bytes: the shift by eight loses nothing. -/
theorem word_ofWord (w : UInt16) : word (highByte w) (lowByte w) = w := by
  apply UInt16.toBitVec_inj.1
  simp only [word, highByte, lowByte, UInt16.toBitVec_or, UInt16.toBitVec_shiftLeft,
    UInt8.toBitVec_toUInt16, UInt16.toBitVec_toUInt8, UInt16.toBitVec_shiftRight]
  ext i hi
  simp
  grind

theorem toNat_word (high low : UInt8) : (word high low).toNat = high.toNat * 256 + low.toNat := by
  have top : high.toNat <<< 8 < 65536 := by
    have := high.toNat_lt
    rw [Nat.shiftLeft_eq]
    omega
  rw [word, UInt16.toNat_or, UInt16.toNat_shiftLeft, UInt8.toNat_toUInt16, UInt8.toNat_toUInt16]
  show high.toNat <<< 8 % 65536 ||| low.toNat = _
  rw [Nat.mod_eq_of_lt top, ← Nat.shiftLeft_add_eq_or_of_lt low.toNat_lt, Nat.shiftLeft_eq]

/-- Different bytes make different words. -/
theorem word_injective {high low high' low' : UInt8} (same : word high low = word high' low') :
    high = high' ∧ low = low' := by
  have value := congrArg UInt16.toNat same
  rw [toNat_word, toNat_word] at value
  have := low.toNat_lt
  have := low'.toNat_lt
  exact ⟨UInt8.toNat_inj.1 (by omega), UInt8.toNat_inj.1 (by omega)⟩

/-! ## Text -/

/-- The lower-case hexadecimal text of a byte string, two digits a byte. -/
def Bytes.toHex (bytes : Bytes) : String :=
  String.ofList (bytes.flatMap fun b => [(b.toNat / 16).digitChar, (b.toNat % 16).digitChar])

end SigComp
