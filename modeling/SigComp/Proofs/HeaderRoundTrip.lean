import SigComp.Message.Header

/-!
# Headers are read as they were written

What the format can express is written, and what was written is read back, whatever the
feedback item and the body are and whatever follows the header.

* `Body.Expressible` and `encode_eq_ok_iff`: what a header can express.
* `feedback?_encodeFeedback` and `body?_stateId`, `body?_bytecode`: the parts of a header,
  each followed by anything.
* `parse?_encode`: a header is read back, up to where it ends.
* `header_round_trip`: the two together, over a buffer that may hold something already.
-/

namespace SigComp

/-- The bodies that a header can express: a partial identifier of a length that has a class, or
bytecode whose length fits twelve bits and whose destination fits four. -/
def Body.Expressible : Body → Prop
  | .stateId p => p.length = 6 ∨ p.length = 9 ∨ p.length = 12
  | .bytecode code destination =>
    (1 ≤ code.length ∧ code.length ≤ 4095) ∧
      destination.toNat % 64 = 0 ∧ 128 ≤ destination.toNat ∧ destination.toNat ≤ 1024

/-- The feedback item of a message that was written with this one: an empty item is none. -/
def Header.item? (feedback : Bytes) : Option Bytes :=
  if feedback = [] then none else some feedback

variable {feedback code p header input rest : Bytes} {first : UInt8} {body : Body}
  {destination : UInt16} {item : Option Bytes} {n : Nat}

namespace Header

/-! ## What can be written -/

theorem encode_stateId (short : feedback.length ≤ maxFeedback)
    (form : p.length = 6 ∨ p.length = 9 ∨ p.length = 12) :
    encode feedback (.stateId p) =
      .ok ((lead feedback ||| UInt8.ofNat (p.length / 3 - 1)) ::
        (encodeFeedback feedback ++ p)) := by
  rw [encode, if_neg (Nat.not_lt.2 short)]
  exact if_pos form

theorem encode_bytecode (short : feedback.length ≤ maxFeedback)
    (nonempty : 1 ≤ code.length) (fits : code.length ≤ maxCode)
    (aligned : destination.toNat % 64 = 0) (low : 128 ≤ destination.toNat)
    (high : destination.toNat ≤ 1024) :
    encode feedback (.bytecode code destination) =
      .ok (lead feedback :: (encodeFeedback feedback ++
        UInt8.ofNat (code.length / 16) ::
        UInt8.ofNat (code.length % 16 * 16 + (destination.toNat / 64 - 1)) :: code)) := by
  have lengthFits : ¬(code.isEmpty = true ∨ code.length > maxCode) := by
    rw [List.isEmpty_iff_length_eq_zero]
    omega
  have destinationFits :
      ¬(destination.toNat % 64 ≠ 0 ∨ destination.toNat < 128 ∨ 1024 < destination.toNat) := by
    omega
  rw [encode, if_neg (Nat.not_lt.2 short), if_neg lengthFits, if_neg destinationFits]

/-- A header is written exactly if the format can express it. -/
theorem encode_eq_ok_iff :
    (∃ header, encode feedback body = .ok header) ↔
      feedback.length ≤ maxFeedback ∧ body.Expressible := by
  constructor
  · rintro ⟨header, written⟩
    rw [encode.eq_def] at written
    split at written
    · cases written
    · next short =>
      refine ⟨Nat.not_lt.1 short, ?_⟩
      cases body with
      | stateId p =>
        dsimp only at written
        split at written
        · next form => exact form
        · cases written
      | bytecode code destination =>
        dsimp only at written
        split at written
        · cases written
        · next lengthFits =>
          split at written
          · cases written
          · next destinationFits =>
            rw [List.isEmpty_iff_length_eq_zero] at lengthFits
            have codeBound : maxCode = 4095 := rfl
            simp only [Body.Expressible]
            omega
  · rintro ⟨short, expressible⟩
    cases body with
    | stateId p => exact ⟨_, encode_stateId short expressible⟩
    | bytecode code destination =>
      obtain ⟨⟨nonempty, fits⟩, aligned, low, high⟩ := expressible
      exact ⟨_, encode_bytecode short nonempty fits aligned low high⟩

end Header

namespace Message

open Header

/-! ## The first byte -/

/-- The length class is in the two low bits and leaves the five high bits and the feedback bit as
they are. -/
theorem lead_class (feedback : Bytes) (small : n < 4) :
    isMarked (lead feedback ||| UInt8.ofNat n) = true ∧
      (lead feedback ||| UInt8.ofNat n) &&& 3 = UInt8.ofNat n ∧
      ((lead feedback ||| UInt8.ofNat n) &&& feedbackBit = 0 ↔ feedback = []) := by
  cases feedback with
  | nil =>
    have bits : ∀ n < 4, isMarked (marker ||| UInt8.ofNat n) = true ∧
        (marker ||| UInt8.ofNat n) &&& 3 = UInt8.ofNat n ∧
        (marker ||| UInt8.ofNat n) &&& feedbackBit = 0 := by decide
    obtain ⟨marked, lengthClass, bit⟩ := bits n small
    exact ⟨marked, lengthClass, ⟨fun _ => rfl, fun _ => bit⟩⟩
  | cons b feedback =>
    have bits : ∀ n < 4, isMarked (marker ||| feedbackBit ||| UInt8.ofNat n) = true ∧
        (marker ||| feedbackBit ||| UInt8.ofNat n) &&& 3 = UInt8.ofNat n ∧
        (marker ||| feedbackBit ||| UInt8.ofNat n) &&& feedbackBit ≠ 0 := by decide
    obtain ⟨marked, lengthClass, bit⟩ := bits n small
    exact ⟨marked, lengthClass,
      ⟨fun unset => absurd unset bit, fun empty => absurd empty (List.cons_ne_nil b feedback)⟩⟩

/-! ## The parts of a header -/

theorem splitAt?_append (front back : Bytes) :
    Bytes.splitAt? front.length (front ++ back) = some (front, back) := by
  simp only [Bytes.splitAt?, List.take_left, if_true, List.drop_left]

/-- The length of a feedback item is in the seven low bits of the byte before it, and the high bit
tells that byte from an item that stands for itself. -/
theorem length_byte (short : n ≤ maxFeedback) :
    ¬((0x80 ||| UInt8.ofNat n).toNat ≤ 127) ∧
      ((0x80 ||| UInt8.ofNat n) &&& 0x7f : UInt8).toNat = n := by
  have bits : ∀ n < 128, ¬((0x80 ||| UInt8.ofNat n).toNat ≤ 127) ∧
      ((0x80 ||| UInt8.ofNat n) &&& 0x7f : UInt8).toNat = n := by decide
  exact bits n (Nat.lt_succ_of_le short)

/-- An item behind its length. -/
theorem feedback?_length (announced : first &&& feedbackBit ≠ 0)
    (short : feedback.length ≤ maxFeedback) (rest : Bytes) :
    feedback? first ((0x80 ||| UInt8.ofNat feedback.length) :: (feedback ++ rest)) =
      some (some feedback, rest) := by
  obtain ⟨long, length⟩ := length_byte short
  rw [feedback?, if_neg announced, if_neg long, length, splitAt?_append,
    Option.map_some]

/-- The feedback item is read in either of its forms. -/
theorem feedback?_encodeFeedback
    (announced : first &&& feedbackBit = 0 ↔ feedback = [])
    (short : feedback.length ≤ maxFeedback) (rest : Bytes) :
    feedback? first (encodeFeedback feedback ++ rest) = some (item? feedback, rest) := by
  cases feedback with
  | nil =>
    rw [feedback?.eq_def, if_pos (announced.2 rfl)]
    rfl
  | cons single more =>
    have present : first &&& feedbackBit ≠ 0 := mt announced.1 (List.cons_ne_nil single more)
    have behindLength := feedback?_length present short rest
    cases more with
    | nil =>
      have lengthByte : (0x80 ||| UInt8.ofNat 1 : UInt8) = 0x81 := by decide
      rw [encodeFeedback]
      split
      · next small =>
        rw [List.singleton_append, feedback?, if_neg present, if_pos small]
        rfl
      · rw [List.length_singleton, lengthByte] at behindLength
        exact behindLength
    | cons second more => exact behindLength

/-- A partial identifier of the length that the class gives. -/
theorem body?_stateId (lengthClass : first &&& 3 = UInt8.ofNat n) (small : n < 4) (positive : 0 < n)
    (length : p.length = 3 + 3 * n) (rest : Bytes) :
    body? first (p ++ rest) = some (.stateId p, rest) := by
  have value : (UInt8.ofNat n).toNat = n := by
    rw [UInt8.toNat_ofNat']
    omega
  have nonzero : UInt8.ofNat n ≠ 0 := by
    intro zero
    rw [zero] at value
    exact absurd value (Nat.ne_of_lt positive)
  rw [body?.eq_def, lengthClass, if_neg nonzero, value, ← length, splitAt?_append, Option.map_some]

/-- A length of twelve bits and a destination of four, packed in two bytes. -/
theorem body?_bytecode (lengthClass : first &&& 3 = 0) (nonempty : 1 ≤ code.length)
    (fits : code.length ≤ maxCode) (aligned : destination.toNat % 64 = 0)
    (low : 128 ≤ destination.toNat) (high : destination.toNat ≤ 1024) (rest : Bytes) :
    body? first (UInt8.ofNat (code.length / 16) ::
        UInt8.ofNat (code.length % 16 * 16 + (destination.toNat / 64 - 1)) :: (code ++ rest)) =
      some (.bytecode code destination, rest) := by
  have bound : maxCode = 4095 := rfl
  have firstByte : (UInt8.ofNat (code.length / 16)).toNat = code.length / 16 := by
    rw [UInt8.toNat_ofNat']
    omega
  have secondByte : (UInt8.ofNat (code.length % 16 * 16 + (destination.toNat / 64 - 1))).toNat =
      code.length % 16 * 16 + (destination.toNat / 64 - 1) := by
    rw [UInt8.toNat_ofNat']
    omega
  have length : code.length / 16 * 16 +
      (code.length % 16 * 16 + (destination.toNat / 64 - 1)) / 16 = code.length := by omega
  have nibble : (code.length % 16 * 16 + (destination.toNat / 64 - 1)) % 16 =
      destination.toNat / 64 - 1 := by omega
  have written : ¬(destination.toNat / 64 - 1 = 0 ∨ code.length = 0) := by omega
  have same : UInt16.ofNat ((destination.toNat / 64 - 1 + 1) * 64) = destination := by
    rw [show (destination.toNat / 64 - 1 + 1) * 64 = destination.toNat by omega,
      UInt16.ofNat_toNat]
  rw [body?, if_pos lengthClass]
  dsimp only
  rw [firstByte, secondByte, length, nibble, if_neg written, splitAt?_append, Option.map_some,
    same]

/-- A message is put together from its parts. -/
theorem parse?_cons {parts : Bytes} (marked : isMarked first = true)
    (itemRead : feedback? first (parts ++ input) = some (item, rest))
    (bodyRead : body? first rest = some (body, input)) :
    parse? (first :: parts ++ input) = some ⟨item, body, input, (first :: parts).length⟩ := by
  rw [List.cons_append, parse?, if_pos marked, itemRead]
  simp only [Option.bind_eq_bind, Option.bind_some, bodyRead, List.length_append, List.length_cons]
  congr 2
  omega

/-- A header is read back as it was written, and the input begins where it ends. -/
theorem parse?_encode (written : encode feedback body = .ok header) (input : Bytes) :
    parse? (header ++ input) = some ⟨item? feedback, body, input, header.length⟩ := by
  obtain ⟨short, expressible⟩ := encode_eq_ok_iff.1 ⟨header, written⟩
  cases body with
  | stateId p =>
    have form : p.length = 6 ∨ p.length = 9 ∨ p.length = 12 := expressible
    rw [encode_stateId short form] at written
    cases written
    have small : p.length / 3 - 1 < 4 := by omega
    have positive : 0 < p.length / 3 - 1 := by omega
    have length : p.length = 3 + 3 * (p.length / 3 - 1) := by omega
    obtain ⟨marked, lengthClass, announced⟩ := lead_class feedback small
    refine parse?_cons marked ?_ (body?_stateId lengthClass small positive length input)
    rw [List.append_assoc, feedback?_encodeFeedback announced short]
  | bytecode code destination =>
    obtain ⟨⟨nonempty, fits⟩, aligned, low, high⟩ := expressible
    rw [encode_bytecode short nonempty fits aligned low high] at written
    cases written
    obtain ⟨marked, lengthClass, announced⟩ := lead_class feedback (n := 0) (by decide)
    have plain : lead feedback ||| UInt8.ofNat 0 = lead feedback := UInt8.or_zero
    rw [plain] at marked lengthClass announced
    refine parse?_cons marked ?_ (body?_bytecode lengthClass nonempty fits aligned low high input)
    rw [List.append_assoc, feedback?_encodeFeedback announced short]
    rfl

end Message

namespace Header

/-- A header is written exactly if its feedback item has at most 127 bytes and its body can be
expressed.  It is put behind what the buffer holds, and reading it gives the body, the feedback item
unless it is empty, and what follows the header as the input; a header that is not written leaves
the buffer as it was. -/
theorem header_round_trip (buffer feedback : Bytes) (body : Body) :
    ((append buffer feedback body).1 = .ok () ↔ feedback.length ≤ 127 ∧ body.Expressible) ∧
    ((∃ header, append buffer feedback body = (.ok (), buffer ++ header) ∧
        ∀ input, Message.parse? (header ++ input) =
          some ⟨item? feedback, body, input, header.length⟩) ∨
      ∃ r, append buffer feedback body = (.error r, buffer)) := by
  have expressed : (∃ header, encode feedback body = .ok header) ↔
      feedback.length ≤ maxFeedback ∧ body.Expressible := encode_eq_ok_iff
  cases written : encode feedback body with
  | ok header =>
    have appended : append buffer feedback body = (.ok (), buffer ++ header) := by
      rw [append, written]
    rw [appended]
    exact ⟨⟨fun _ => expressed.1 ⟨header, written⟩, fun _ => rfl⟩,
      .inl ⟨header, rfl, Message.parse?_encode written⟩⟩
  | error r =>
    have refused : append buffer feedback body = (.error r, buffer) := by
      rw [append, written]
    rw [refused]
    refine ⟨⟨?_, ?_⟩, .inr ⟨r, rfl⟩⟩
    · intro done
      cases done
    · intro fits
      obtain ⟨header, done⟩ := expressed.2 fits
      rw [written] at done
      cases done

end Header

end SigComp
