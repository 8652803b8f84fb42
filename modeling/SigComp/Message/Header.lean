import SigComp.Fault

/-!
# Message headers

A SigComp message starts with a byte `11111Tll`.  If `T` is set a returned feedback
item follows; `ll` is the length class of a partial state identifier, or zero if
the message brings its bytecode along.  What follows the header is the input of
the machine.

* `Header.encode` writes a header and refuses what the format cannot express;
* `Message.parse?` reads one, and has one way to fail;
* `Message.headerLength_add_length_input` — the header and the input are the message.
-/

namespace SigComp

/-- Where the decompression bytecode of a message comes from. -/
inductive Body where
  | bytecode (code : Bytes) (destination : UInt16)
  | stateId (partialId : Bytes)
  deriving DecidableEq, Repr

namespace Header

/-- The five bits that open every message. -/
def marker : UInt8 := 0xf8

/-- The bit that announces a feedback item. -/
def feedbackBit : UInt8 := 0x04

/-- The longest feedback item. -/
def maxFeedback : Nat := 127

/-- The longest bytecode that a header can carry: twelve bits hold the length. -/
def maxCode : Nat := 4095

/-- A byte that opens a message. -/
def isMarked (first : UInt8) : Bool := first &&& marker == marker

/-! ## Writing -/

/-- A feedback item: a byte below 128 stands for itself, all else follows its length. -/
def encodeFeedback : Bytes → Bytes
  | [] => []
  | [single] => if single.toNat ≤ 127 then [single] else [0x81, single]
  | item => (0x80 ||| UInt8.ofNat item.length) :: item

/-- The first byte of a header, without the length class. -/
def lead (feedback : Bytes) : UInt8 := if feedback.isEmpty then marker else marker ||| feedbackBit

/-- The header of a message; what the format cannot express is refused, the feedback item first. -/
def encode (feedback : Bytes) (body : Body) : Except Error Bytes :=
  if feedback.length > maxFeedback then .error (.badParam .feedbackLength)
  else match body with
    | .stateId p =>
      if p.length = 6 ∨ p.length = 9 ∨ p.length = 12 then
        .ok ((lead feedback ||| UInt8.ofNat (p.length / 3 - 1)) :: (encodeFeedback feedback ++ p))
      else .error (.badParam .partialIdForm)
    | .bytecode code destination =>
      if code.isEmpty ∨ code.length > maxCode then .error (.badParam .codeLength)
      else if destination.toNat % 64 ≠ 0 ∨ destination.toNat < 128 ∨ 1024 < destination.toNat then
        .error (.badParam .destination)
      else
        .ok (lead feedback :: (encodeFeedback feedback ++
          UInt8.ofNat (code.length / 16) ::
          UInt8.ofNat (code.length % 16 * 16 + (destination.toNat / 64 - 1)) :: code))

/-- A buffer with a header put behind it; a refused header leaves the buffer as it was. -/
def append (buffer feedback : Bytes) (body : Body) : Except Error Unit × Bytes :=
  match encode feedback body with
  | .ok header => (.ok (), buffer ++ header)
  | .error e => (.error e, buffer)

end Header

/-! ## Reading -/

/-- A message taken apart. -/
structure Message where
  feedback : Option Bytes
  body : Body
  input : Bytes
  headerLength : Nat
  deriving DecidableEq, Repr

/-- The first `n` bytes and the rest, if there are that many. -/
def Bytes.splitAt? (n : Nat) (bytes : Bytes) : Option (Bytes × Bytes) :=
  let taken := bytes.take n
  if taken.length = n then some (taken, bytes.drop n) else none

namespace Message

/-- A message for this protocol, by its first byte. -/
def isSigComp : Bytes → Bool
  | first :: _ => Header.isMarked first
  | [] => false

/-- The feedback item that the first byte announces, and what follows it. -/
def feedback? (first : UInt8) (rest : Bytes) : Option (Option Bytes × Bytes) :=
  if first &&& Header.feedbackBit = 0 then some (none, rest)
  else match rest with
    | [] => none
    | lead :: rest =>
      if lead.toNat ≤ 127 then some (some [lead], rest)
      else (Bytes.splitAt? (lead &&& 0x7f).toNat rest).map fun (item, rest) => (some item, rest)

/-- The body of the class that the first byte announces, and what follows it.  A length of zero
and a destination below 128 cannot be written. -/
def body? (first : UInt8) (rest : Bytes) : Option (Body × Bytes) :=
  if first &&& 3 = 0 then
    match rest with
    | high :: low :: rest =>
      let length := high.toNat * 16 + low.toNat / 16
      let nibble := low.toNat % 16
      if nibble = 0 ∨ length = 0 then none
      else (Bytes.splitAt? length rest).map fun (code, rest) =>
        (.bytecode code (UInt16.ofNat ((nibble + 1) * 64)), rest)
    | _ => none
  else (Bytes.splitAt? (3 + 3 * (first &&& 3).toNat) rest).map fun (p, rest) => (.stateId p, rest)

/-- A message taken apart; nothing if its header is malformed or cut short. -/
def parse? : Bytes → Option Message
  | [] => none
  | first :: rest =>
    if Header.isMarked first then do
      let (feedback, afterFeedback) ← feedback? first rest
      let (body, input) ← body? first afterFeedback
      some ⟨feedback, body, input, rest.length + 1 - input.length⟩
    else none

/-! ## What a header takes up -/

theorem length_splitAt? {n : Nat} {bytes front back : Bytes}
    (h : bytes.splitAt? n = some (front, back)) : front.length + back.length = bytes.length := by
  simp only [Bytes.splitAt?] at h
  split at h
  · cases h
    rw [← List.length_append, List.take_append_drop]
  · cases h

/-- What follows the feedback item is no longer than what follows the first byte. -/
theorem length_feedback? {first : UInt8} {rest after : Bytes} {item : Option Bytes}
    (h : feedback? first rest = some (item, after)) : after.length ≤ rest.length := by
  simp only [feedback?] at h
  split at h
  · cases h
    exact Nat.le_refl _
  · cases rest with
    | nil => cases h
    | cons lead rest =>
      dsimp only at h
      rw [List.length_cons]
      split at h
      · cases h
        exact Nat.le_succ _
      · obtain ⟨⟨front, back⟩, cut, pair⟩ := Option.map_eq_some_iff.1 h
        cases pair
        have := length_splitAt? cut
        dsimp only
        omega

/-- What follows the body is no longer than what follows the feedback item. -/
theorem length_body? {first : UInt8} {rest after : Bytes} {body : Body}
    (h : body? first rest = some (body, after)) : after.length ≤ rest.length := by
  simp only [body?] at h
  split at h
  · split at h
    · next high low rest _ =>
      rw [List.length_cons, List.length_cons]
      split at h
      · cases h
      · obtain ⟨⟨front, back⟩, cut, pair⟩ := Option.map_eq_some_iff.1 h
        cases pair
        have := length_splitAt? cut
        dsimp only
        omega
    · cases h
  · obtain ⟨⟨front, back⟩, cut, pair⟩ := Option.map_eq_some_iff.1 h
    cases pair
    have := length_splitAt? cut
    dsimp only
    omega

/-- A message is its header and the input of the machine, and nothing else. -/
theorem headerLength_add_length_input {data : Bytes} {m : Message} (h : parse? data = some m) :
    m.headerLength + m.input.length = data.length := by
  cases data with
  | nil => cases h
  | cons first rest =>
    simp only [parse?] at h
    split at h
    · simp only [Option.bind_eq_bind, Option.bind_eq_some_iff, Option.some.injEq] at h
      obtain ⟨⟨item, afterItem⟩, itemRead, ⟨body, input⟩, bodyRead, rfl⟩ := h
      have itemLength := length_feedback? itemRead
      have bodyLength := length_body? bodyRead
      simp only [List.length_cons] at itemLength bodyLength ⊢
      omega
    · cases h

end Message

end SigComp
