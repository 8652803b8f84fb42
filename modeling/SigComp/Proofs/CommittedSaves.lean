import SigComp.Proofs.CheckedCommitment
import SigComp.Proofs.RingTraversal
import SigComp.Proofs.StoreLookup

/-!
# What a committed state consists of

A program asks for a stretch of the ring to be saved, and whoever sent the message computes the
identifier of the same bytes on its own.  So identifier, comparison, copy and what is found
later must all be of the bytes at the addresses of the stretch, however often it goes round.

* `Machine.Started`: machines as they come about; their requests have been admitted.
* `Window.ringBytes`: the bytes at the addresses of a walk.
* `Machine.saveCommitment_cases`: when nothing is saved, and which bytes are otherwise.
* `Store.lookup_of_inserted`: what a store finds once a state is new in it.
* `Machine.SavesExactly`: what is handed over with the bytes of a state.
* `committed_save_is_ring_content`: all of this of every request of every machine.
-/

namespace SigComp

/-! ## Registers and bytes -/

namespace Window

/-- The borders can be read if the registers that hold them are in memory. -/
theorem ofMemory?_eq_none_iff {m : Memory} : ofMemory? m = none ↔ m.size < 68 := by
  have left : m.word? Memory.byteCopyLeft = none ↔ m.size < 66 := Memory.word?_eq_none_iff
  have right : m.word? Memory.byteCopyRight = none ↔ m.size < 68 := Memory.word?_eq_none_iff
  rw [← right]
  unfold ofMemory?
  cases second : m.word? Memory.byteCopyRight with
  | none => simp
  | some r =>
    rw [second] at right
    simp only [reduceCtorEq, false_iff] at right
    obtain ⟨l, first⟩ := Option.ne_none_iff_exists'.1 (mt left.1 (by omega))
    simp [first]

/-- The bytes at the `n` addresses of the ring from `a` on. -/
def ringBytes (w : Window) (m : Memory) (a : UInt16) (n : Nat) : Bytes :=
  (w.walk a n).map fun b => m.byteAt b.toNat

@[simp] theorem length_ringBytes (w : Window) (m : Memory) (a : UInt16) (n : Nat) :
    (w.ringBytes m a n).length = n := by
  rw [ringBytes, List.length_map, length_walk]

theorem not_stays_iff {w : Window} {size : Nat} {a : UInt16} {n : Nat} :
    ¬ w.stays size a n = true ↔ ∃ b ∈ w.walk a n, size ≤ b.toNat := by
  simp [stays]

end Window

/-! ## Machines as they come about -/

namespace Machine

/-- A machine that a program has been loaded into, and what becomes of it when it runs, when its
output is taken and when its requests are dealt with. -/
inductive Started : Machine → Prop
  | load {s : Setup} {partialLength stateLength destination entry : UInt16} {data : Bytes}
      {m : Machine} : load s partialLength stateLength data destination entry = .ok m → Started m
  | run {m : Machine} (cycles : Nat) (store : Store) : Started m → Started (m.run cycles store).1
  | takeOutput {m : Machine} : Started m → Started m.takeOutput.2
  | settled {m : Machine} : Started m → Started m.settled

theorem Started.lawful {m : Machine} (started : m.Started) : m.requests.Lawful := by
  induction started with
  | load loaded =>
    rw [(fresh_of_load loaded).requests]
    exact Requests.lawful_nil
  | run cycles store _ ih => exact lawful_run store cycles ih
  | takeOutput _ ih => exact ih
  | settled _ _ => exact Requests.lawful_nil

theorem Started.tidy {m : Machine} (started : m.Started) : m.input.Tidy := by
  induction started with
  | load loaded =>
    rw [(fresh_of_load loaded).input]
    exact BitInput.tidy_of_held_eq_zero
  | run cycles store _ ih => exact tidy_run store cycles ih
  | takeOutput _ ih => exact ih
  | settled _ ih => exact ih

/-! ## One request -/

/-- The length of a committed state: what is asked for, or what there is room for. -/
theorem fittingLength?_eq (stateMemory length : Nat) :
    fittingLength? stateMemory length =
      if stateMemory < stateOverhead then none
      else some (min length (stateMemory - stateOverhead)) := by
  simp only [fittingLength?]
  split
  · rw [if_neg (by omega), Nat.min_eq_left (by omega)]
  · split
    · rw [if_neg (by omega), Nat.min_eq_right (by omega)]
    · rw [if_pos (by omega)]

/-- The label of a state with the bytes `data`. -/
def labelFor (r : SaveRequest) (data : Bytes) : Label where
  id := .ofData data r.address r.instruction r.access
  address := r.address
  instruction := r.instruction
  access := r.access
  priority := r.priority

/-- It does not matter in which pieces the bytes come. -/
theorem labelOf_eq_labelFor (r : SaveRequest) (pieces : List Bytes) :
    labelOf r pieces.flatten.length pieces = labelFor r pieces.flatten := by
  simp only [labelOf, labelFor, StateId.ofData, StateId.ofPieces, List.flatten_cons,
    List.flatten_nil, List.append_nil]

section Request

variable {memory : Memory} {stateMemory n : Nat} {r : SaveRequest} {w : Window}

/-- The memory does not hold all bytes of a stretch of the ring, or does not say where the ring
is. -/
def OutOfMemory (memory : Memory) (a : UInt16) (n : Nat) : Prop :=
  memory.size < 68 ∨
    ∃ w, Window.ofMemory? memory = some w ∧ ∃ b ∈ w.walk a n, memory.size ≤ b.toNat

theorem not_outOfMemory_iff {a : UInt16} :
    ¬ OutOfMemory memory a n ↔
      ∃ w, Window.ofMemory? memory = some w ∧ w.stays memory.size a n = true := by
  constructor
  · intro inside
    obtain ⟨long, places⟩ := not_or.1 inside
    obtain ⟨w, registers⟩ := Option.ne_none_iff_exists'.1 (mt Window.ofMemory?_eq_none_iff.1 long)
    refine ⟨w, registers, Decidable.byContradiction fun leaves => ?_⟩
    exact places ⟨w, registers, Window.not_stays_iff.1 leaves⟩
  · rintro ⟨w, registers, inside⟩ (short | ⟨w', known, place⟩)
    · rw [Window.ofMemory?_eq_none_iff.2 short] at registers
      cases registers
    · cases registers.symm.trans known
      exact Window.not_stays_iff.2 place inside

theorem saveCommitment_of_outOfMemory (fits : fittingLength? stateMemory r.length.toNat = some n)
    (outside : OutOfMemory memory r.address n) :
    saveCommitment memory stateMemory r = [.skipSave .memoryAccess r.address n] := by
  have nothing : ((Window.ofMemory? memory).bind fun w => w.pieces? memory r.address n) = none := by
    rcases outside with short | ⟨w, registers, place⟩
    · rw [Window.ofMemory?_eq_none_iff.2 short]
      rfl
    · have whole := w.map_flatten_pieces? memory r.address n
      rw [if_neg (Window.not_stays_iff.2 place)] at whole
      rw [registers]
      exact Option.map_eq_none_iff.1 whole
  simp only [saveCommitment, fits, nothing]

theorem saveCommitment_of_stays (fits : fittingLength? stateMemory r.length.toNat = some n)
    (registers : Window.ofMemory? memory = some w)
    (inside : w.stays memory.size r.address n = true) :
    ∃ pieces, pieces.flatten = w.ringBytes memory r.address n ∧
      saveCommitment memory stateMemory r =
        [.save (labelFor r (w.ringBytes memory r.address n)) ⟨pieces⟩] := by
  have whole := w.map_flatten_pieces? memory r.address n
  rw [if_pos inside] at whole
  obtain ⟨pieces, found, bytes⟩ := Option.map_eq_some_iff.1 whole
  have same : pieces.flatten = w.ringBytes memory r.address n := bytes
  have label := labelOf_eq_labelFor r pieces
  rw [same, Window.length_ringBytes] at label
  refine ⟨pieces, same, ?_⟩
  simp only [saveCommitment, fits, registers, Option.bind_some, found, label]

/-- What becomes of a request: nothing, or one state that is skipped or saved. -/
theorem saveCommitment_cases (memory : Memory) (stateMemory : Nat) (r : SaveRequest) :
    let n := min r.length.toNat (stateMemory - stateOverhead)
    (stateMemory < stateOverhead ∧ saveCommitment memory stateMemory r = []) ∨
    (OutOfMemory memory r.address n ∧
      saveCommitment memory stateMemory r = [.skipSave .memoryAccess r.address n]) ∨
    (stateOverhead ≤ stateMemory ∧ ¬ OutOfMemory memory r.address n ∧
      ∃ w pieces, Window.ofMemory? memory = some w ∧
        pieces.flatten = w.ringBytes memory r.address n ∧
        saveCommitment memory stateMemory r =
          [.save (labelFor r (w.ringBytes memory r.address n)) ⟨pieces⟩]) := by
  intro n
  have length := fittingLength?_eq stateMemory r.length.toNat
  by_cases small : stateMemory < stateOverhead
  · rw [if_pos small] at length
    exact .inl ⟨small, by simp only [saveCommitment, length]⟩
  · rw [if_neg small] at length
    refine .inr ?_
    by_cases outside : OutOfMemory memory r.address n
    · exact .inl ⟨outside, saveCommitment_of_outOfMemory length outside⟩
    · refine .inr ⟨Nat.not_lt.1 small, outside, ?_⟩
      obtain ⟨w, registers, inside⟩ := not_outOfMemory_iff.1 outside
      obtain ⟨pieces, bytes, saved⟩ := saveCommitment_of_stays length registers inside
      exact ⟨w, pieces, registers, bytes, saved⟩

end Request

end Machine

/-! ## What a store that takes a state in finds -/

/-- A state that has just been inserted is found by every prefix that is long enough. -/
theorem Store.lookup_of_inserted {s s' : Store} {d : Draft} {l : Label} {content : Content}
    {k : Key}
    {partialId : Bytes} (sound : s.Sound) (done : Store.save d l content s = .ok (.inserted k) s')
    (front : partialId <+: l.id.toBytes) (long : 6 ≤ partialId.length)
    (access : l.access.toNat ≤ partialId.length) :
    s'.lookup partialId false = .ok { l with data := content.bytes } := by
  have short : partialId.length ≤ 20 := by
    have whole := front.length_le
    rwa [StateId.length_toBytes] at whole
  unfold Store.save at done
  split at done
  · cases done
  split at done
  · cases done
  split at done
  · cases done
  · cases done
  · next unknown =>
    split at done
    · next inserted =>
      cases done
      obtain ⟨after, gains, _⟩ := gains_insert sound (probe_eq_none unknown) inserted
      exact (lookup_eq_ok_iff after).2 ⟨k, ⟨long, short⟩, gains.state, front, .inr access⟩
    · cases done

namespace Machine

/-! ## What is handed over -/

/-- A state with the bytes `data` is handed over as a request asks. -/
structure SavesExactly (r : SaveRequest) (data : Bytes) (l : Label) (content : Content) : Prop where
  /-- The length is that of the bytes. -/
  length : content.length = data.length
  /-- The identifier is computed from the bytes, and the rest of the label is what was asked for. -/
  label : l = labelFor r data
  /-- Compared piece by piece, only these bytes are the same. -/
  agrees : ∀ stored, Checked.agrees content stored = .ok (decide (stored = data))
  /-- Copied piece by piece, the bytes are these. -/
  copied : Checked.copied content = .ok data
  /-- Once the state is new in a store, every prefix of its identifier that is long enough finds the
  bytes with their label. -/
  found : ∀ (settings : Settings) (operations : List Store.Operation) (d : Draft) (k : Key)
    (s : Store), Store.save d l content ((Store.ofSettings settings).run operations) =
      .ok (.inserted k) s →
    ∀ partialId, partialId <+: l.id.toBytes → r.access.toNat ≤ partialId.length →
      s.lookup partialId false = .ok { l with data }

theorem savesExactly_of_pieces {r : SaveRequest} {data : Bytes} {pieces : List Bytes}
    (admissible : r.admissible = true) (bytes : pieces.flatten = data)
    (small : data.length < 1 <<< 64) : SavesExactly r data (labelFor r data) ⟨pieces⟩ := by
  have whole : (Content.mk pieces).bytes = data := bytes
  have length : (Content.mk pieces).length = data.length := by
    rw [← Content.length_bytes, whole]
  rw [← length] at small
  refine ⟨length, rfl, fun stored => ?_, ?_, ?_⟩
  · have same : (Content.mk pieces).agrees stored = decide (stored = data) := by
      rw [Bool.eq_iff_iff, Content.agrees_iff, whole, decide_eq_true_eq]
    rw [Checked.agrees_eq small, same]
  · rw [Checked.copied_eq small, whole]
  · intro settings operations d k s done partialId front access
    have sound := Store.sound_run (Store.sound_ofSettings settings) operations
    have long : 6 ≤ r.access.toNat := by
      rw [SaveRequest.admissible, Bool.and_eq_true] at admissible
      exact (Store.isPartialLength_iff.1 admissible.1).1
    have found := Store.lookup_of_inserted sound done front (Nat.le_trans long access) access
    rw [whole] at found
    exact found

/-- Whatever machine asks for a state to be saved, it is not saved exactly if there is no room for
the overhead of a state, or not all of its bytes are in memory, or the registers that say where the
ring is are not.  Otherwise one state is handed over, with the bytes at the addresses of the ring
from the one asked for on, as many as were asked for or there is room for. -/
theorem committed_save_is_ring_content {m : Machine} {r : SaveRequest} (started : m.Started)
    (asked : .save r ∈ m.requests) (stateMemory : Nat) :
    let n := min r.length.toNat (stateMemory - stateOverhead)
    let todo := requestCommitment m.memory stateMemory (.save r)
    ((∀ l content, .save l content ∉ todo) ↔
      stateMemory < stateOverhead ∨ OutOfMemory m.memory r.address n) ∧
    ∀ l content, .save l content ∈ todo →
      todo = [.save l content] ∧ ∃ w, Window.ofMemory? m.memory = some w ∧
        SavesExactly r (w.ringBytes m.memory r.address n) l content := by
  intro n todo
  have admissible : r.admissible = true := started.lawful.admissible _ asked
  have few : n < 1 <<< 64 := by
    have word := r.length.toNat_lt
    have cut : n ≤ r.length.toNat := Nat.min_le_left _ _
    omega
  rcases saveCommitment_cases m.memory stateMemory r with
    ⟨small, nothing⟩ | ⟨outside, skipped⟩ | ⟨room, inside, w, pieces, registers, bytes, saved⟩
  · have todo_eq : todo = [] := nothing
    rw [todo_eq]
    refine ⟨iff_of_true (by simp) (.inl small), fun l content among => ?_⟩
    cases among
  · have todo_eq : todo = [.skipSave .memoryAccess r.address n] := skipped
    rw [todo_eq]
    refine ⟨iff_of_true (by simp) (.inr outside), fun l content among => ?_⟩
    cases List.mem_singleton.1 among
  · have todo_eq : todo =
        [.save (labelFor r (w.ringBytes m.memory r.address n)) ⟨pieces⟩] := saved
    rw [todo_eq]
    refine ⟨iff_of_false ?_ ?_, fun l content among => ?_⟩
    · intro never
      exact never _ _ (List.mem_singleton.2 rfl)
    · rintro (small | outside)
      · exact absurd small (Nat.not_lt.2 room)
      · exact inside outside
    · cases List.mem_singleton.1 among
      refine ⟨rfl, w, registers, savesExactly_of_pieces admissible bytes ?_⟩
      rwa [Window.length_ringBytes]

/-- Five bytes are saved of a ring of four, from its third byte on. -/
theorem third_byte_is_saved_twice :
    ∃ m r l content, Started m ∧ .save r ∈ m.requests ∧
      requestCommitment m.memory 2048 (.save r) = [.save l content] ∧
      SavesExactly r [0, 68, 0, 64, 0] l content := by
  -- the borders of the ring at 64 and 66, and END-MESSAGE from 68 on
  let program : Bytes := [0, 64, 0, 68, 0x23, 0, 0, 5, 0xa0, 66, 0, 6, 0]
  let r : SaveRequest := ⟨5, 66, 0, 6, 0⟩
  let w : Window := ⟨64, 68⟩
  have course : ((load ⟨256, 16, 16, []⟩ 0 0 program 64 68).map fun m =>
      let m := (m.run 100 (.ofSettings {})).1
      (m.requests, Window.ofMemory? m.memory, w.stays m.memory.size 66 5,
        w.ringBytes m.memory 66 5)).toOption =
      some ([.save r], some w, true, [0, 68, 0, 64, 0]) := by
    decide +kernel
  cases loaded : load ⟨256, 16, 16, []⟩ 0 0 program 64 68 with
  | error f =>
    rw [loaded] at course
    cases course
  | ok m =>
    rw [loaded] at course
    simp only [Except.map, Except.toOption, Option.some.injEq, Prod.mk.injEq] at course
    obtain ⟨requests, registers, stays, ring⟩ := course
    have started : Started (m.run 100 (.ofSettings {})).1 := .run 100 _ (.load loaded)
    have asked : .save r ∈ (m.run 100 (.ofSettings {})).1.requests := by
      rw [requests]
      exact List.mem_singleton.2 rfl
    obtain ⟨never, saves⟩ := committed_save_is_ring_content started asked 2048
    have inside : ¬ OutOfMemory (m.run 100 (.ofSettings {})).1.memory 66 5 :=
      not_outOfMemory_iff.2 ⟨w, registers, stays⟩
    have handed : ∃ l content, .save l content ∈
        requestCommitment (m.run 100 (.ofSettings {})).1.memory 2048 (.save r) := by
      refine Classical.byContradiction fun nothing => ?_
      rcases never.1 fun l content among => nothing ⟨l, content, among⟩ with small | outside
      · revert small
        decide
      · exact inside outside
    obtain ⟨l, content, among⟩ := handed
    obtain ⟨alone, w', known, exactly⟩ := saves l content among
    cases registers.symm.trans known
    exact ⟨_, r, l, content, started, asked, alone, ring ▸ exactly⟩

end Machine

end SigComp
