import SigComp.Checked.Decompression
import SigComp.Proofs.CheckedFrame

/-!
# Reading headers is safe

A position in a message stands for what follows it there.  Reading at a position
therefore agrees with taking the rest of the message apart: `parse_eq`.

A header is short: no position in it is beyond 4226, whatever the length of the message.
-/

namespace SigComp.Checked

variable {α : Type} {message : Bytes} {limit : Nat}

/-- A reading at positions and one of the rest that say the same; a position stays inside the
message and within a limit. -/
inductive Reads (message : Bytes) (limit : Nat) : Calc (α × Nat) → Option (α × Bytes) → Prop where
  | ok (a : α) {q : Nat} : q ≤ message.length → q ≤ limit →
    Reads message limit (.ok (a, q)) (some (a, message.drop q))
  | malformed : Reads message limit malformed none

/-- What has been read is turned into something else. -/
theorem Reads.map {β : Type} {c : Calc (α × Nat)} {x : Option (α × Bytes)}
    {k : α × Nat → Calc (β × Nat)} {l : α × Bytes → β × Bytes} (h : Reads message limit c x)
    (f : α → β) (hk : ∀ a q, k (a, q) = .ok (f a, q)) (hl : ∀ a rest, l (a, rest) = (f a, rest)) :
    Reads message limit (c >>= k) (x.map l) := by
  cases h with
  | ok a inside small =>
    rw [ok_bind rfl, hk, Option.map_some, hl]
    exact .ok (f a) inside small
  | malformed => exact .malformed

/-- The rest from a position on begins with the byte there. -/
theorem byteAt_none {position : Nat} (h : message.drop position = []) :
    byteAt message position = malformed := by
  rw [byteAt, List.getElem?_eq_none (List.drop_eq_nil_iff.1 h)]

theorem byteAt_cons {position : Nat} {b : UInt8} {rest : Bytes}
    (h : message.drop position = b :: rest) (small : position < 65536) :
    byteAt message position = .ok (b, position + 1) ∧ message.drop (position + 1) = rest ∧
      position + 1 ≤ message.length := by
  have here : message[position]? = some b := by
    rw [← List.head?_drop, h, List.head?_cons]
  have inside : position < message.length := (List.getElem?_eq_some_iff.1 here).1
  refine ⟨?_, ?_, inside⟩
  · rw [byteAt, here]
    exact ok_bind (add_ok (by omega)) _
  · rw [← List.drop_drop, h, List.drop_one, List.tail_cons]

theorem bytesAt_reads {position n : Nat} (inside : position ≤ message.length)
    (small : position + n ≤ limit) (few : limit < 65536) :
    Reads message limit (bytesAt message position n)
      (Bytes.splitAt? n (message.drop position)) := by
  rw [bytesAt, Bytes.splitAt?]
  by_cases whole : position + n ≤ message.length
  · have taken : ((message.drop position).take n).length = n := by
      rw [List.length_take, List.length_drop]
      omega
    rw [if_pos ⟨by omega, whole⟩, if_pos taken, ok_bind (slice_ok (Nat.le_add_right _ _) whole),
      Nat.add_sub_cancel_left, List.drop_drop]
    exact .ok _ whole small
  · have short : ¬ ((message.drop position).take n).length = n := by
      rw [List.length_take, List.length_drop]
      omega
    rw [if_neg fun both => whole both.2, if_neg short]
    exact .malformed

/-- A feedback item takes up 128 bytes at most. -/
theorem feedbackAt_reads (limit : Nat) (first : UInt8) {position : Nat}
    (inside : position ≤ message.length) (small : position + 128 ≤ limit) (few : limit < 65536) :
    Reads message limit (feedbackAt message first position)
      (Message.feedback? first (message.drop position)) := by
  rw [feedbackAt, Message.feedback?.eq_def]
  split
  · exact .ok none inside (by omega)
  · cases rest : message.drop position with
    | nil =>
      rw [byteAt_none rest]
      exact .malformed
    | cons lead tail =>
      obtain ⟨read, after, within⟩ := byteAt_cons rest (by omega)
      rw [ok_bind read]
      dsimp only
      split
      · rw [← after]
        exact .ok (some [lead]) within (by omega)
      · have item : (lead &&& 0x7f).toNat ≤ 127 := toNat_and_le lead 0x7f
        rw [← after]
        exact (bytesAt_reads within (by omega) few).map some (fun _ _ => rfl) fun _ _ => rfl

/-- The two bytes in front of a bytecode hold its length in twelve bits. -/
theorem codeLength (high low : UInt8) :
    high.toNat <<< 4 ||| low.toNat >>> 4 = high.toNat * 16 + low.toNat / 16 := by
  have small : low.toNat >>> 4 < 1 <<< 4 := by
    have := low.toNat_lt
    rw [Nat.shiftRight_eq_div_pow]
    omega
  rw [← Nat.shiftLeft_add_eq_or_of_lt (by simpa using small), Nat.shiftLeft_eq,
    Nat.shiftRight_eq_div_pow]

theorem codeLength_ok (high low : UInt8) :
    shiftLeft 64 high.toNat 4 = .ok (high.toNat <<< 4) ∧
      shiftRight 8 low.toNat 4 = .ok (low.toNat >>> 4) := by
  have top : high.toNat <<< 4 < 1 <<< 64 := by
    have := high.toNat_lt
    rw [Nat.shiftLeft_eq]
    omega
  rw [shiftLeft_ok (by decide), shiftRight_ok (by decide), Nat.mod_eq_of_lt top]
  exact ⟨rfl, rfl⟩

/-- A body takes up 4097 bytes at most: two for the length of the bytecode, and the bytecode. -/
theorem bodyAt_reads (limit : Nat) (first : UInt8) {position : Nat}
    (inside : position ≤ message.length) (small : position + 4097 ≤ limit) (few : limit < 65536) :
    Reads message limit (bodyAt message first position)
      (Message.body? first (message.drop position)) := by
  rw [bodyAt, Message.body?.eq_def]
  split
  · cases rest : message.drop position with
    | nil =>
      rw [byteAt_none rest]
      exact .malformed
    | cons high tail =>
      obtain ⟨read, after, within⟩ := byteAt_cons rest (by omega)
      rw [ok_bind read]
      dsimp only
      cases rest' : message.drop (position + 1) with
      | nil =>
        rw [byteAt_none rest', ← after, rest']
        exact .malformed
      | cons low tail' =>
        obtain ⟨read', after', within'⟩ := byteAt_cons rest' (by omega)
        obtain ⟨upper, lower⟩ := codeLength_ok high low
        rw [ok_bind read', ok_bind upper, ok_bind lower, codeLength, ← after, rest']
        dsimp only
        split
        · exact .malformed
        · have length : high.toNat * 16 + low.toNat / 16 ≤ 4095 := by
            have := high.toNat_lt
            have := low.toNat_lt
            omega
          have blocks : add 16 (low.toNat % 16) 1 = .ok (low.toNat % 16 + 1) := add_ok (by omega)
          have destination : mul 16 (low.toNat % 16 + 1) 64 = .ok ((low.toNat % 16 + 1) * 64) :=
            mul_ok (by omega)
          rw [← after']
          refine (bytesAt_reads within' (by omega) few).map (Body.bytecode · _)
            (fun code q => ?_) fun _ _ => rfl
          rw [ok_bind blocks, ok_bind destination]
          rfl
  · have class' : (first &&& 3).toNat ≤ 3 := toNat_and_le first 3
    rw [ok_bind (mul_ok (by omega)), ok_bind (add_ok (by omega))]
    exact (bytesAt_reads inside (by omega) few).map Body.stateId (fun _ _ => rfl) fun _ _ => rfl

/-- A header is read as it should be, whatever the message. -/
theorem parse_eq (message : Bytes) :
    parse message =
      match Message.parse? message with
      | some m => .ok m
      | none => malformed := by
  cases message with
  | nil => rfl
  | cons first rest =>
    have whole : (first :: rest).drop 0 = first :: rest := List.drop_zero
    obtain ⟨read, after, within⟩ := byteAt_cons whole (by decide)
    rw [parse, ok_bind read, Message.parse?]
    dsimp only
    by_cases marked : Header.isMarked first = true
    case neg => rw [if_neg marked, if_neg marked]
    rw [if_pos marked, if_pos marked]
    have item := feedbackAt_reads 129 first within (by omega) (by decide)
    rw [after] at item
    generalize feedbackAt _ first _ = c, Message.feedback? first rest = x at item
    cases item with
    | malformed => rfl
    | ok item inside small =>
      rw [ok_bind rfl]
      dsimp only [Option.bind_eq_bind, Option.bind_some]
      have body := bodyAt_reads 4226 first inside (by omega) (by decide)
      generalize bodyAt _ first _ = c, Message.body? first _ = x at body
      cases body with
      | malformed => rfl
      | @ok body q inside small =>
        have input : slice (first :: rest) q (first :: rest).length =
            .ok ((first :: rest).drop q) := by
          rw [slice_ok inside (Nat.le_refl _), ← List.length_drop, List.take_length]
        have header : rest.length + 1 - ((first :: rest).drop q).length = q := by
          rw [List.length_drop]
          exact Nat.sub_sub_self inside
        rw [ok_bind rfl, ok_bind input]
        dsimp only [Option.bind_some]
        rw [header]
        rfl

end SigComp.Checked
