import SigComp.Message.Stream

/-!
# Streams are self-delimiting

A run of bytes that stand for themselves may hold the two bytes that end a message, and
its count may be anything up to the longest run; still a reader finds each message where
it was written.

* `read?_mark`: a reader that stands at the front of a message reads all of it, whatever
  it has read before and whatever follows.
* `read?_append`: what it has read does not change when more bytes arrive, so nothing can
  be read of a message that is cut short.
* `stream_is_self_delimiting`: many messages are read one after the other.
-/

namespace SigComp.Stream

variable {acc message stream rest run : Bytes} {b count : UInt8} {n : Nat}

theorem read?_plain (plain : b ≠ escape) : read? acc (b :: rest) = read? (b :: acc) rest := by
  rw [read?.eq_def]
  simp only [if_neg plain]

theorem read?_end (acc rest : Bytes) :
    read? acc (escape :: escape :: rest) = some (acc.reverse, rest) := by
  rw [read?.eq_def]
  simp only [if_true]

theorem read?_run (small : run.length ≤ maxRun) (length : count.toNat = run.length)
    (acc rest : Bytes) :
    read? acc (escape :: count :: (run ++ rest)) = read? (run.reverse ++ escape :: acc) rest := by
  have continues : count ≠ escape := by
    rintro rfl
    exact absurd (length ▸ small) (by decide)
  rw [read?.eq_def]
  simp only [if_true, if_neg continues, length, if_neg (Nat.not_lt.2 small), List.take_left,
    List.drop_left]

/-- A run is short enough for its length to be a count. -/
theorem toNat_count (bytes : Bytes) :
    (UInt8.ofNat (bytes.take maxRun).length).toNat = (bytes.take maxRun).length := by
  have short : (bytes.take maxRun).length ≤ maxRun := List.length_take_le _ _
  rw [UInt8.toNat_ofNat']
  exact Nat.mod_eq_of_lt (Nat.lt_of_le_of_lt short (by decide))

/-- The message at the front is read, whatever it consists of and whatever follows. -/
theorem read?_mark (acc message rest : Bytes) :
    read? acc (mark message ++ rest) = some (acc.reverse ++ message, rest) := by
  induction message using mark.induct generalizing acc with
  | case1 =>
    rw [mark, List.cons_append, List.singleton_append, read?_end, List.append_nil]
  | case2 bytes ih =>
    rw [mark, if_pos rfl, List.cons_append, List.cons_append, List.append_assoc,
      read?_run (List.length_take_le _ _) (toNat_count bytes), ih]
    simp only [List.reverse_append, List.reverse_reverse, List.reverse_cons, List.append_assoc,
      List.nil_append, List.cons_append, List.take_append_drop]
  | case3 b bytes plain ih =>
    rw [mark, if_neg plain, List.cons_append, read?_plain plain, ih, List.reverse_cons,
      List.append_assoc, List.singleton_append]

/-- What has been read off the front of a stream does not depend on the end of the stream. -/
theorem read?_append (h : read? acc stream = some (message, rest)) (more : Bytes) :
    read? acc (stream ++ more) = some (message, rest ++ more) := by
  fun_induction read? acc stream with
  | case1 => cases h
  | case2 => cases h
  | case3 acc bytes =>
    cases h
    exact read?_end acc _
  | case4 => cases h
  | case5 acc count bytes continues small run length ih =>
    have parted : run ++ bytes.drop count.toNat = bytes := List.take_append_drop _ _
    rw [← parted, List.cons_append, List.cons_append, List.append_assoc,
      read?_run (length ▸ Nat.not_lt.1 small) length.symm]
    exact ih h
  | case6 => cases h
  | case7 acc b bytes plain ih =>
    rw [List.cons_append, read?_plain plain]
    exact ih h

/-- A message is read back, and takes up what was written of it. -/
theorem unmark?_mark (message rest : Bytes) :
    unmark? (mark message ++ rest) = some (message, (mark message).length) := by
  rw [unmark?, read?_mark, Option.map_some]
  simp only [List.reverse_nil, List.nil_append, List.length_append, Nat.add_sub_cancel]

/-- Nothing can be read of a message that is cut short. -/
theorem unmark?_take_eq_none_iff (message : Bytes) (n : Nat) :
    unmark? ((mark message).take n) = none ↔ n < (mark message).length := by
  constructor
  · intro nothing
    apply Nat.lt_of_not_le
    intro whole
    have read := unmark?_mark message []
    rw [List.append_nil] at read
    rw [List.take_of_length_le whole, read] at nothing
    cases nothing
  · intro short
    rw [unmark?, Option.map_eq_none_iff, Option.eq_none_iff_forall_ne_some]
    rintro ⟨front, rest⟩ read
    -- what is cut off would have to be left over when the whole message is read
    have again := read?_append read ((mark message).drop n)
    have whole := read?_mark [] message []
    rw [List.append_nil] at whole
    rw [List.take_append_drop, whole] at again
    have left : ([] : Bytes) = rest ++ (mark message).drop n :=
      congrArg Prod.snd (Option.some.inj again)
    have none := (List.append_eq_nil_iff.1 left.symm).2
    exact absurd (List.drop_eq_nil_iff.1 none) (Nat.not_le.2 short)

/-- The first messages of a stream, so many of them, each with the number of bytes that it takes up
there, and what follows them; nothing if one of them cannot be read. -/
def unmarkEach? : Nat → Bytes → Option (List (Bytes × Nat) × Bytes)
  | 0, stream => some ([], stream)
  | n + 1, stream => do
    let (message, length) ← unmark? stream
    let (others, rest) ← unmarkEach? n (stream.drop length)
    some ((message, length) :: others, rest)

theorem unmarkEach?_cons (message rest : Bytes) (n : Nat) :
    unmarkEach? (n + 1) (mark message ++ rest) =
      (unmarkEach? n rest).map fun read =>
        ((message, (mark message).length) :: read.1, read.2) := by
  simp only [unmarkEach?, unmark?_mark, List.drop_left, Option.bind_eq_bind, Option.bind_some]
  cases unmarkEach? n rest <;> rfl

/-- Messages on a stream, whatever they consist of and whatever follows them, are read one after the
other as they were written, each taking up what was written of it, and what follows them is left.
Of a message that is cut short nothing is read. -/
theorem stream_is_self_delimiting (messages : List Bytes) (tail : Bytes) :
    unmarkEach? messages.length (messages.flatMap mark ++ tail) =
      some (messages.map fun message => (message, (mark message).length), tail) ∧
    ∀ message n, unmark? ((mark message).take n) = none ↔ n < (mark message).length := by
  refine ⟨?_, unmark?_take_eq_none_iff⟩
  induction messages with
  | nil => rfl
  | cons message messages ih =>
    rw [List.flatMap_cons, List.append_assoc, List.length_cons, unmarkEach?_cons, ih, List.map_cons]
    rfl

end SigComp.Stream
