import SigComp.Checked.Commitment
import SigComp.Compartment.Settlement
import SigComp.Proofs.CheckedMemory
import SigComp.Proofs.CommitmentLabels

/-!
# Reading commitments is safe

What a machine leaves to be done is read from its memory without a trap, whatever the
program has left there: `commitments_eq`.  No address is more than a few hundred bytes
beyond those that a word can name.

A state that is to be saved can be compared with any other and be copied, piece by
piece: `agrees_eq` and `copied_eq`.
-/

namespace SigComp.Checked

/-! ## Returned parameters -/

theorem idsEnd?_none {m : Memory} {start capacity stop : Nat} (h : m.get? stop = none) :
    SigComp.Machine.idsEnd? m start capacity stop = none := by
  rw [SigComp.Machine.idsEnd?]
  split
  · rfl
  · next found =>
    rw [h] at found
    cases found

theorem idsEnd?_some {m : Memory} {start capacity stop : Nat} {n : UInt8}
    (h : m.get? stop = some n) :
    SigComp.Machine.idsEnd? m start capacity stop =
      if StateId.isPartialLength n.toNat then
        if m.size < stop + 1 + n.toNat then none
        else if capacity < stop + 1 + n.toNat - start then some stop
        else SigComp.Machine.idsEnd? m start capacity (stop + 1 + n.toNat)
      else some stop := by
  rw [SigComp.Machine.idsEnd?]
  split
  · next found =>
    rw [h] at found
    cases found
  · next found =>
    rw [h] at found
    cases found
    rfl

/-- The list is walked to its end or to its capacity, and every entry takes up some of that. -/
theorem idsEnd_eq {m : Memory} {start capacity rounds stop : Nat} (after : start ≤ stop)
    (within : stop ≤ start + capacity) (small : start + capacity < 1 <<< 32)
    (enough : start + capacity - stop < rounds) :
    idsEnd m start capacity rounds stop = .ok (SigComp.Machine.idsEnd? m start capacity stop) := by
  induction rounds generalizing stop with
  | zero => omega
  | succ rounds ih =>
    rw [idsEnd]
    cases found : m.get? stop with
    | none =>
      rw [idsEnd?_none found]
      rfl
    | some n =>
      have byte := n.toNat_lt
      rw [idsEnd?_some found]
      dsimp only
      split
      · rw [ok_bind (add_ok (by omega)), ok_bind (add_ok (by omega))]
        split
        · rfl
        · rw [ok_bind (sub_ok (by omega))]
          split
          · rfl
          · exact ih (by omega) (by omega) (by omega)
      · rfl

/-- The end of the identifiers is not before their beginning. -/
theorem le_of_idsEnd? {m : Memory} {start capacity stop last : Nat} (after : start ≤ stop)
    (h : SigComp.Machine.idsEnd? m start capacity stop = some last) : start ≤ last := by
  induction stop using SigComp.Machine.idsEnd?.induct m start capacity with
  | case1 stop outside =>
    rw [idsEnd?_none outside] at h
    cases h
  | case2 stop n found entry next excess =>
    rw [idsEnd?_some found, if_pos entry, if_pos excess] at h
    cases h
  | case3 stop n found entry next inside full =>
    rw [idsEnd?_some found, if_pos entry, if_neg inside, if_pos full] at h
    cases h
    exact after
  | case4 stop n found entry next inside room ih =>
    rw [idsEnd?_some found, if_pos entry, if_neg inside, if_neg room] at h
    exact ih (by omega) h
  | case5 stop n found other =>
    rw [idsEnd?_some found, if_neg other] at h
    cases h
    exact after

theorem ids_eq {m : Memory} {start capacity : Nat} (small : start + capacity < 1 <<< 32) :
    ids m start capacity =
      .ok ((SigComp.Machine.idsEnd? m start capacity start).bind fun stop =>
        m.slice? start (stop - start)) := by
  rw [ids, ok_bind (idsEnd_eq (Nat.le_refl _) (Nat.le_add_right _ _) small (by omega))]
  cases walked : SigComp.Machine.idsEnd? m start capacity start with
  | none => rfl
  | some stop => exact ok_bind (sub_ok (le_of_idsEnd? (Nat.le_refl _) walked)) _

theorem returnedParameters_eq (m : Memory) {location capacity : Nat} (word : location < 65536)
    (few : capacity < 65536) :
    returnedParameters m location capacity =
      .ok (SigComp.Machine.returnedParameters m location capacity) := by
  rw [returnedParameters, SigComp.Machine.returnedParameters, ok_bind (add_ok (by omega))]
  cases m.get? location with
  | none => rfl
  | some packed =>
    cases m.get? (location + 1) with
    | none => rfl
    | some version =>
      dsimp only
      rw [ok_bind (add_ok (by omega)), ok_bind (ids_eq (by omega))]
      rfl

/-! ## Requested feedback -/

theorem slice?_one {m : Memory} {a : Nat} {b : UInt8} (h : m.get? a = some b) :
    m.slice? a 1 = some [b] := by
  have inside : a < m.cells.size := (Array.getElem?_eq_some_iff.1 h).1
  have here : m.cells.toList[a]? = some b := by
    rw [Array.getElem?_toList]
    exact h
  rw [Memory.slice?, if_pos (show a + 1 ≤ m.size from inside), Memory.bytes_eq, List.take_one,
    List.head?_drop, here]
  rfl

theorem feedbackItem_eq {m : Memory} {location : Nat} (word : location < 65536) :
    feedbackItem m location = .ok (SigComp.Machine.feedbackItem? m (location + 1)) := by
  rw [feedbackItem, SigComp.Machine.feedbackItem?, ok_bind (add_ok (by omega))]
  cases second : m.get? (location + 1) with
  | none => rfl
  | some first =>
    rw [Option.bind_some]
    dsimp only
    split
    · rw [slice?_one second]
      rfl
    · rw [ok_bind (add_ok (by omega))]
      rfl

theorem requestedFeedback_eq (m : Memory) {location : Nat} (word : location < 65536) :
    requestedFeedback m location = .ok (SigComp.Machine.requestedFeedback m location) := by
  rw [requestedFeedback, SigComp.Machine.requestedFeedback]
  cases m.get? location with
  | none => rfl
  | some flags =>
    dsimp only
    split
    · rfl
    · rw [ok_bind (feedbackItem_eq word)]
      cases SigComp.Machine.feedbackItem? m (location + 1) <;> rfl

/-! ## States -/

theorem region_eq (m : Memory) (a : UInt16) (n : Nat) :
    region m a n =
      match (Window.ofMemory? m).bind fun w => w.pieces? m a n with
      | some pieces => .ok pieces
      | none => .error (.fault .memoryAccess) := by
  rw [region, window_eq, Window.current]
  cases Window.ofMemory? m with
  | none => rfl
  | some w => exact pieces_eq w m a n

theorem saveRegion_eq (m : Memory) (r : SaveRequest) (length : Nat) :
    saveRegion m r length =
      .ok (match (Window.ofMemory? m).bind fun w => w.pieces? m r.address length with
        | some pieces => [.save (SigComp.Machine.labelOf r length pieces) ⟨pieces⟩]
        | none => [.skipSave .memoryAccess r.address length]) := by
  rw [saveRegion, region_eq]
  cases (Window.ofMemory? m).bind fun w => w.pieces? m r.address length <;> rfl

/-- A state is cut to what there is room for before its pieces are looked up. -/
theorem saveCommitment_eq (m : Memory) (stateMemory : Nat) (r : SaveRequest) :
    saveCommitment m stateMemory r = .ok (SigComp.Machine.saveCommitment m stateMemory r) := by
  have operand := r.length.toNat_lt
  have cost : add 64 r.length.toNat stateOverhead = .ok (r.length.toNat + stateOverhead) :=
    add_ok (by simp only [stateOverhead]; omega)
  rw [saveCommitment, ok_bind cost, SigComp.Machine.saveCommitment, SigComp.Machine.fittingLength?]
  by_cases whole : r.length.toNat + stateOverhead ≤ stateMemory
  · rw [if_neg (Nat.not_lt.2 whole), if_pos whole]
    exact saveRegion_eq m r _
  · rw [if_pos (Nat.lt_of_not_le whole), if_neg whole]
    by_cases some : stateOverhead ≤ stateMemory
    · rw [if_neg (Nat.not_lt.2 some), if_pos some, ok_bind (sub_ok some)]
      exact saveRegion_eq m r _
    · rw [if_pos (Nat.lt_of_not_le some), if_neg some]
      rfl

theorem freeCommitment_eq (m : Memory) (r : FreeRequest) :
    freeCommitment m r = .ok (SigComp.Machine.freeCommitment m r) := by
  rw [freeCommitment, SigComp.Machine.freeCommitment, region_eq]
  cases (Window.ofMemory? m).bind fun w => w.pieces? m r.start r.length.toNat <;> rfl

theorem requestCommitments_eq (m : Memory) (stateMemory : Nat) (requests : Requests) :
    requestCommitments m stateMemory requests =
      .ok (requests.flatMap (SigComp.Machine.requestCommitment m stateMemory)) := by
  induction requests with
  | nil => rfl
  | cons r rest ih =>
    have first : requestCommitment m stateMemory r =
        .ok (SigComp.Machine.requestCommitment m stateMemory r) := by
      cases r with
      | save r => exact saveCommitment_eq m stateMemory r
      | free r => exact ok_bind (freeCommitment_eq m r) _
    rw [requestCommitments, ok_bind first, ok_bind ih, List.flatMap_cons]
    rfl

theorem located_eq (location : UInt16) {c : Nat → Calc (List Commitment)}
    {x : Nat → List Commitment} (h : ∀ a < 65536, c a = .ok (x a)) :
    located location c = .ok (if location = 0 then [] else x location.toNat) := by
  rw [located]
  split
  · rfl
  · exact h _ location.toNat_lt

/-- All that a machine leaves to be done is read without a trap. -/
theorem commitments_eq (m : SigComp.Machine) (stateMemory : Nat) :
    commitments m stateMemory Compartment.remoteIdsCapacity =
      .ok (m.commitments stateMemory Compartment.remoteIdsCapacity) := by
  have few : Compartment.remoteIdsCapacity < 65536 := by decide
  have parameters := located_eq m.parametersAt fun _ word => returnedParameters_eq m.memory word few
  have feedback := located_eq m.feedbackAt fun _ word => requestedFeedback_eq m.memory word
  rw [commitments, ok_bind parameters, ok_bind feedback, ok_bind (requestCommitments_eq _ _ _)]
  rfl

/-! ## Content -/

theorem agreesFrom_eq {stored : Bytes} {ps : List Bytes} {offset : Nat}
    (all : stored.length = offset + ps.flatten.length) (small : stored.length < 1 <<< 64) :
    agreesFrom stored ps offset = .ok (Content.agreesFrom ps (stored.drop offset)) := by
  induction ps generalizing offset with
  | nil =>
    rw [List.flatten_nil, List.length_nil, Nat.add_zero] at all
    rw [agreesFrom, Content.agreesFrom,
      List.isEmpty_iff.2 (List.drop_eq_nil_iff.2 (Nat.le_of_eq all))]
    rfl
  | cons p ps ih =>
    rw [List.flatten_cons, List.length_append] at all
    have part : slice stored offset (offset + p.length) =
        .ok ((stored.drop offset).take p.length) := by
      rw [slice_ok (Nat.le_add_right _ _) (by omega), Nat.add_sub_cancel_left]
    rw [agreesFrom, Content.agreesFrom, ok_bind (add_ok (by omega)), ok_bind part, List.drop_drop]
    cases (stored.drop offset).take p.length == p with
    | true => exact ih (by omega)
    | false => rfl

/-- Content is compared with a stored byte string without a trap. -/
theorem agrees_eq {c : Content} (small : c.length < 1 <<< 64) (stored : Bytes) :
    agrees c stored = .ok (c.agrees stored) := by
  rw [agrees, Content.agrees]
  split
  · next same =>
    have whole : c.pieces.flatten.length = c.length := c.length_bytes
    rw [agreesFrom_eq (by omega) (by omega), beq_iff_eq.2 same, Bool.true_and, List.drop_zero]
  · next other => rw [beq_eq_false_iff_ne.2 other, Bool.false_and]
                  rfl

/-- The pieces take the place of what is behind the offset. -/
theorem copiedFrom_eq {ps : List Bytes} {offset : Nat} {target : Bytes}
    (all : target.length = offset + ps.flatten.length) (small : target.length < 1 <<< 64) :
    copiedFrom ps offset target = .ok (target.take offset ++ ps.flatten) := by
  induction ps generalizing offset target with
  | nil =>
    rw [List.flatten_nil, List.length_nil, Nat.add_zero] at all
    rw [copiedFrom, List.flatten_nil, List.append_nil, List.take_of_length_le (Nat.le_of_eq all)]
    rfl
  | cons p ps ih =>
    rw [List.flatten_cons, List.length_append] at all
    have front : (target.take offset ++ p).length = offset + p.length := by
      rw [List.length_append, List.length_take]
      omega
    have kept : (target.take offset ++ p ++ target.drop (offset + p.length)).length =
        target.length := by
      rw [List.length_append, front, List.length_drop]
      omega
    rw [copiedFrom, ok_bind (add_ok (by omega)), ok_bind (overwrite_ok (by omega)),
      ih (by omega) (by omega), List.take_append_of_le_length (Nat.le_of_eq front.symm),
      List.take_of_length_le (Nat.le_of_eq front), List.flatten_cons, List.append_assoc]

/-- Content is copied into a buffer of its length without a trap. -/
theorem copied_eq {c : Content} (small : c.length < 1 <<< 64) : copied c = .ok c.bytes := by
  have whole : c.pieces.flatten.length = c.length := c.length_bytes
  have room : (List.replicate c.length (0 : UInt8)).length = c.length := List.length_replicate
  rw [copied, copiedFrom_eq (by omega) (by omega), List.take_zero, List.nil_append, Content.bytes]

end SigComp.Checked
