import SigComp.Proofs.CheckedHeader
import SigComp.Proofs.HeaderRoundTrip
import SigComp.Proofs.PendingFrame

/-!
# The grammar of headers

What is accepted as a header is exactly what the format spells, and the format leaves a choice in
one place alone: a short feedback item may stand behind its length although it could do without.

* `splitAt?_eq_some_iff`, `feedback?_eq_some_iff`, `body?_eq_some_iff`: the bytes of each part of a
  header, and nothing else, are read as that part.
* `Spelled`: the spellings of a feedback item, and `encodeFeedback_eq_iff`: which of them is the one
  that is written.
* `heads_of_parse?`: what is accepted begins with a header, and `encode_eq_iff`: when the header is
  written again as it was read.
* `header_grammar_is_exact`: whatever is received is told apart.
-/

namespace SigComp

/-- The bytes of a body in a header. -/
def Body.written : Body → Bytes
  | .stateId p => p
  | .bytecode code destination =>
    UInt8.ofNat (code.length / 16) ::
      UInt8.ofNat (code.length % 16 * 16 + (destination.toNat / 64 - 1)) :: code

/-- The length class of a body, which is zero for bytecode. -/
def Body.lengthClass : Body → UInt8
  | .stateId p => UInt8.ofNat (p.length / 3 - 1)
  | .bytecode .. => 0

variable {m feedback code p header input rest after front back spelled : Bytes} {first : UInt8}
  {body : Body} {item : Option Bytes} {n : Nat}

namespace Header

/-- A header is a byte with the length class, the feedback item, and the body. -/
theorem encode_of_expressible (short : feedback.length ≤ maxFeedback)
    (expressible : body.Expressible) :
    encode feedback body =
      .ok ((lead feedback ||| body.lengthClass) :: (encodeFeedback feedback ++ body.written)) := by
  cases body with
  | stateId p => exact encode_stateId short expressible
  | bytecode code destination =>
    obtain ⟨⟨nonempty, fits⟩, aligned, low, high⟩ := expressible
    rw [encode_bytecode short nonempty fits aligned low high, Body.lengthClass, UInt8.or_zero]
    rfl

end Header

namespace Message

open Header

/-! ## The parts of a header -/

theorem splitAt?_eq_some_iff :
    Bytes.splitAt? n rest = some (front, back) ↔ front.length = n ∧ rest = front ++ back := by
  constructor
  · intro cut
    simp only [Bytes.splitAt?] at cut
    split at cut
    · next whole =>
      cases cut
      exact ⟨whole, (List.take_append_drop n rest).symm⟩
    · cases cut
  · rintro ⟨rfl, rfl⟩
    exact splitAt?_append front back

/-- The spellings of the feedback item that the first byte announces. -/
inductive Spelled (first : UInt8) : Option Bytes → Bytes → Prop where
  | none : first &&& feedbackBit = 0 → Spelled first none []
  | single {b : UInt8} : first &&& feedbackBit ≠ 0 → b.toNat ≤ 127 → Spelled first (some [b]) [b]
  | counted {item : Bytes} : first &&& feedbackBit ≠ 0 → item.length ≤ maxFeedback →
    Spelled first (some item) ((0x80 ||| UInt8.ofNat item.length) :: item)

theorem Spelled.short (spelling : Spelled first item spelled) :
    (item.getD []).length ≤ maxFeedback := by
  cases spelling with
  | none _ => exact Nat.zero_le _
  | single _ _ => exact show 1 ≤ 127 by decide
  | counted _ short => exact short

/-- What holds of the 256 values of a byte holds of every byte. -/
theorem forall_byte {P : UInt8 → Prop} (each : ∀ n < 256, P (UInt8.ofNat n)) (b : UInt8) : P b := by
  have this := each b.toNat b.toNat_lt
  rwa [UInt8.ofNat_toNat] at this

/-- A byte that does not stand for itself has its high bit set, and a length in the others. -/
theorem length_of_byte : ∀ b : UInt8, ¬ b.toNat ≤ 127 →
    (b &&& 0x7f).toNat ≤ maxFeedback ∧ b = 0x80 ||| UInt8.ofNat (b &&& 0x7f).toNat :=
  forall_byte (by decide +kernel)

theorem feedback?_eq_some_iff :
    feedback? first rest = some (item, after) ↔
      ∃ spelled, Spelled first item spelled ∧ rest = spelled ++ after := by
  constructor
  · intro read
    rw [feedback?.eq_def] at read
    split at read
    · next absent =>
      cases read
      exact ⟨[], .none absent, rfl⟩
    · next present =>
      cases rest with
      | nil => cases read
      | cons b rest =>
        dsimp only at read
        split at read
        · next small =>
          cases read
          exact ⟨[b], .single present small, rfl⟩
        · next long =>
          obtain ⟨⟨front, back⟩, cut, pair⟩ := Option.map_eq_some_iff.1 read
          cases pair
          obtain ⟨length, rfl⟩ := splitAt?_eq_some_iff.1 cut
          obtain ⟨short, byte⟩ := length_of_byte b long
          rw [← length] at short byte
          rw [byte]
          exact ⟨_, .counted present short, rfl⟩
  · rintro ⟨spelled, spelling, rfl⟩
    cases spelling with
    | none absent => exact if_pos absent
    | single present small =>
      rw [List.singleton_append, feedback?, if_neg present, if_pos small]
    | counted present short => exact feedback?_length present short after

/-- The destination that four bits select. -/
theorem toNat_destination (low : UInt8) :
    (UInt16.ofNat ((low.toNat % 16 + 1) * 64)).toNat = (low.toNat % 16 + 1) * 64 :=
  UInt16.toNat_ofNat_of_lt' (show _ < 65536 by omega)

/-- Bytecode behind its length and its destination: twelve bits and four. -/
theorem written_bytecode {high low : UInt8}
    (length : code.length = high.toNat * 16 + low.toNat / 16) :
    (Body.bytecode code (UInt16.ofNat ((low.toNat % 16 + 1) * 64))).written =
      high :: low :: code := by
  have := high.toNat_lt
  have := low.toNat_lt
  have upper : code.length / 16 = high.toNat := by omega
  have lower : code.length % 16 * 16 + ((low.toNat % 16 + 1) * 64 / 64 - 1) = low.toNat := by omega
  rw [Body.written, toNat_destination, upper, lower, UInt8.ofNat_toNat, UInt8.ofNat_toNat]

/-- What is read as a body is one that can be written, of the class that the first byte
announces. -/
theorem written_of_body? (read : body? first rest = some (body, after)) :
    body.Expressible ∧ first &&& 3 = body.lengthClass ∧ rest = body.written ++ after := by
  rw [body?.eq_def] at read
  split at read
  · next bytecode =>
    split at read
    · next high low rest =>
      dsimp only at read
      split at read
      · cases read
      · next written =>
        obtain ⟨⟨code, back⟩, cut, pair⟩ := Option.map_eq_some_iff.1 read
        cases pair
        obtain ⟨length, rfl⟩ := splitAt?_eq_some_iff.1 cut
        have := high.toNat_lt
        have := low.toNat_lt
        refine ⟨?_, bytecode, ?_⟩
        · simp only [Body.Expressible, toNat_destination]
          omega
        · rw [written_bytecode (by omega)]
          rfl
    · cases read
  · next class' =>
    obtain ⟨⟨p, back⟩, cut, pair⟩ := Option.map_eq_some_iff.1 read
    cases pair
    obtain ⟨length, rfl⟩ := splitAt?_eq_some_iff.1 cut
    have few : (first &&& 3).toNat ≤ 3 := Checked.toNat_and_le first 3
    have positive : (first &&& 3).toNat ≠ 0 := fun zero => class' (UInt8.toNat_inj.1 zero)
    have length' : p.length / 3 - 1 = (first &&& 3).toNat := by omega
    refine ⟨?_, ?_, rfl⟩
    · simp only [Body.Expressible]
      omega
    · rw [Body.lengthClass, length', UInt8.ofNat_toNat]

/-- The bytes of a body of the class that the first byte announces. -/
theorem body?_eq_some_iff :
    body? first rest = some (body, after) ↔
      body.Expressible ∧ first &&& 3 = body.lengthClass ∧ rest = body.written ++ after := by
  refine ⟨written_of_body?, ?_⟩
  rintro ⟨expressible, class', rfl⟩
  cases body with
  | stateId p =>
    have form : p.length = 6 ∨ p.length = 9 ∨ p.length = 12 := expressible
    have length : p.length = 3 + 3 * (p.length / 3 - 1) := by omega
    exact body?_stateId class' (by omega) (by omega) length after
  | bytecode code destination =>
    obtain ⟨⟨nonempty, fits⟩, aligned, low, high⟩ := expressible
    exact body?_bytecode class' nonempty fits aligned low high after

/-! ## Headers -/

/-- The bytes of a header that are read, and how: the first byte with the mark and the length class,
a spelling of the feedback item, and the body. -/
structure Heads (header : Bytes) (r : Message) (first : UInt8) (spelled : Bytes) : Prop where
  bytes : header = first :: (spelled ++ r.body.written)
  marked : isMarked first = true
  spelling : Spelled first r.feedback spelled
  expressible : r.body.Expressible
  lengthClass : first &&& 3 = r.body.lengthClass

/-- A message that is read begins with a header, and what follows it is the input. -/
theorem heads_of_parse? {r : Message} (read : parse? m = some r) :
    ∃ header first spelled, Heads header r first spelled ∧ m = header ++ r.input ∧
      r.headerLength = header.length := by
  cases m with
  | nil => cases read
  | cons first rest =>
    rw [parse?] at read
    split at read
    · next marked =>
      simp only [Option.bind_eq_bind, Option.bind_eq_some_iff, Option.some.injEq] at read
      obtain ⟨⟨item, after⟩, itemRead, ⟨body, input⟩, bodyRead, rfl⟩ := read
      obtain ⟨spelled, spelling, rfl⟩ := feedback?_eq_some_iff.1 itemRead
      obtain ⟨expressible, lengthClass, rfl⟩ := body?_eq_some_iff.1 bodyRead
      refine ⟨_, first, spelled, ⟨rfl, marked, spelling, expressible, lengthClass⟩, ?_, ?_⟩
      · rw [List.cons_append, List.append_assoc]
      · simp only [List.length_append, List.length_cons]
        omega
    · cases read

/-- The first byte is the mark, the feedback bit and the length class, and nothing else. -/
theorem first_eq : ∀ first : UInt8, isMarked first = true →
    first =
      (if first &&& feedbackBit = 0 then marker else marker ||| feedbackBit) ||| (first &&& 3) :=
  forall_byte (by decide +kernel)

/-- The message spells its feedback item behind a length although it could do without: an item of no
bytes, or a byte that stands for itself. -/
def Redundant : Bytes → Prop
  | first :: lead :: rest => first &&& feedbackBit ≠ 0 ∧
    (lead = 0x80 ∨ lead = 0x81 ∧ ∃ b ∈ rest.head?, b.toNat ≤ 127)
  | _ => False

/-- All other spellings are those that are written. -/
theorem encodeFeedback_eq_iff (spelling : Spelled first item spelled) (rest : Bytes) :
    encodeFeedback (item.getD []) = spelled ↔ ¬ Redundant (first :: (spelled ++ rest)) := by
  cases spelling with
  | none absent =>
    cases rest with
    | nil => simp [Redundant, encodeFeedback]
    | cons b rest => simp [Redundant, encodeFeedback, absent]
  | @single b _ small =>
    have itself : encodeFeedback [b] = [b] := if_pos small
    have apart : b ≠ 0x80 ∧ b ≠ 0x81 := by
      constructor <;> rintro rfl <;> exact absurd small (by decide)
    simp [Redundant, itself, apart]
  | @counted item present short =>
    obtain ⟨_, length⟩ := length_byte short
    rcases item with _ | ⟨b, _ | ⟨b', more⟩⟩
    · simp [Redundant, encodeFeedback, present]
    · have byte : (0x80 ||| UInt8.ofNat 1 : UInt8) = 0x81 := by decide
      rw [List.length_singleton, byte]
      by_cases small : b.toNat ≤ 127
      · simp [Redundant, encodeFeedback, present, small]
      · simp [Redundant, encodeFeedback, small]
    · have itself : encodeFeedback (b :: b' :: more) =
          (0x80 ||| UInt8.ofNat (b :: b' :: more).length) :: b :: b' :: more := rfl
      rw [Option.getD_some, itself]
      generalize (0x80 ||| UInt8.ofNat (b :: b' :: more).length : UInt8) = byte at length ⊢
      have apart : byte ≠ 0x80 ∧ byte ≠ 0x81 := by
        constructor <;> rintro rfl <;> cases length
      simp [Redundant, apart]

/-- Where a feedback item is spelled as it is written, the first byte is the one that is written. -/
theorem first_of_spelled (marked : isMarked first = true) (spelling : Spelled first item spelled)
    (same : encodeFeedback (item.getD []) = spelled) :
    lead (item.getD []) ||| (first &&& 3) = first := by
  have bits := first_eq first marked
  cases spelling with
  | none absent =>
    rw [if_pos absent] at bits
    exact bits.symm
  | single present _ =>
    rw [if_neg present] at bits
    exact bits.symm
  | @counted item present _ =>
    rw [if_neg present] at bits
    cases item with
    | nil => cases same
    | cons b more => exact bits.symm

/-- A header is written again as it was read, unless its feedback item was redundant. -/
theorem encode_eq_iff {r : Message} (heads : Heads header r first spelled) (rest : Bytes) :
    encode (r.feedback.getD []) r.body = .ok header ↔ ¬ Redundant (header ++ rest) := by
  obtain ⟨rfl, marked, spelling, expressible, lengthClass⟩ := heads
  have short : (r.feedback.getD []).length ≤ maxFeedback := spelling.short
  rw [encode_of_expressible short expressible, ← lengthClass, List.cons_append, List.append_assoc,
    ← encodeFeedback_eq_iff spelling, Except.ok.injEq, List.cons.injEq, List.append_left_inj]
  exact ⟨And.right, fun same => ⟨first_of_spelled marked spelling same, same⟩⟩

/-- A message that is not read is answered with its malformed header, whoever receives it and in
whatever state, unless there is no place for its machine. -/
theorem decompress_malformed (refused : parse? m = none) {e : Engine} (t : Transport)
    (place : e.reap.pending.machines.isFull = false) :
    Engine.decompress m t e = .error (.malformed .messageFormat) e.reap := by
  have read : e.reading m t = ([], .error (.malformed .messageFormat)) := by
    rw [Engine.reading, refused]
  rw [Engine.decompress_eq, if_neg (Bool.eq_false_iff.1 place), read, Engine.warned_nil]
  rfl

theorem append_eq_ok_iff {buffer : Bytes} :
    Header.append buffer feedback body = (.ok (), buffer ++ header) ↔
      encode feedback body = .ok header := by
  rw [Header.append]
  cases encode feedback body with
  | ok header => simp
  | error r => simp

/-- A message that is accepted is a header and its input: the body can be written, with whatever
feedback item, and the item has at most 127 bytes.  What is written of the two is the header again,
unless the item was redundant, and only then it is not.  A message that is not accepted is refused
for its format, and no header that can be written stands in front of it. -/
theorem header_grammar_is_exact (m : Bytes) :
    (∀ r, parse? m = some r →
      r.headerLength + r.input.length = m.length ∧ r.input = m.drop r.headerLength ∧
      (∀ feedback : Bytes, feedback.length ≤ 127 →
        ∃ header, Header.append [] feedback r.body = (.ok (), header)) ∧
      (∀ item ∈ r.feedback, item.length ≤ 127) ∧
      (Header.append [] (r.feedback.getD []) r.body = (.ok (), m.take r.headerLength) ↔
        ¬ Redundant m)) ∧
    (parse? m = none →
      Checked.parse m = .error (.fault .messageFormat) ∧
      (∀ (e : Engine) (t : Transport), e.reap.pending.machines.isFull = false →
        Engine.decompress m t e = .error (.malformed .messageFormat) e.reap) ∧
      ∀ feedback body header rest, Header.append [] feedback body = (.ok (), header) →
        m ≠ header ++ rest) := by
  constructor
  · intro r read
    obtain ⟨header, first, spelled, heads, bytes, length⟩ := heads_of_parse? read
    refine ⟨headerLength_add_length_input read, ?_, fun feedback short => ?_, fun item among => ?_,
      ?_⟩
    · rw [bytes, length, List.drop_left]
    · obtain ⟨written, done⟩ := encode_eq_ok_iff.2 ⟨short, heads.expressible⟩
      exact ⟨written, append_eq_ok_iff.2 done⟩
    · have short := heads.spelling.short
      rw [Option.mem_def.1 among] at short
      exact short
    · rw [bytes, length, List.take_left, ← encode_eq_iff heads r.input]
      exact append_eq_ok_iff
  · intro refused
    refine ⟨?_, fun e t => decompress_malformed refused t, ?_⟩
    · rw [Checked.parse_eq, refused]
      rfl
    · rintro feedback body header rest written rfl
      rw [parse?_encode (append_eq_ok_iff.1 written) rest] at refused
      cases refused

/-- A feedback item of no bytes is read, but not written again; where the item is cut short nothing
is read. -/
theorem empty_item_is_not_written_again :
    let accepted : Bytes := [0xfd, 0x80, 1, 2, 3, 4, 5, 6, 7]
    let refused : Bytes := [0xfd, 0x85, 1]
    parse? accepted = some ⟨some [], .stateId [1, 2, 3, 4, 5, 6], [7], 8⟩ ∧
      Header.append [] [] (.stateId [1, 2, 3, 4, 5, 6]) ≠ (.ok (), accepted.take 8) ∧
      parse? refused = none ∧ Checked.parse refused = .error (.fault .messageFormat) := by
  intro accepted refused
  have read : parse? accepted = some ⟨some [], .stateId [1, 2, 3, 4, 5, 6], [7], 8⟩ := by decide
  have unread : parse? refused = none := by decide
  obtain ⟨-, -, -, -, again⟩ := (header_grammar_is_exact accepted).1 _ read
  have redundant : Redundant accepted := ⟨by decide, .inl rfl⟩
  exact ⟨read, fun same => again.1 same redundant, unread,
    ((header_grammar_is_exact refused).2 unread).1⟩

end Message

end SigComp
