import SigComp.Proofs.CommitmentLabels
import SigComp.Proofs.StoreLookup

/-!
# Bounds of what programs ask for

Where a program is not careful the reading of what it asks for is, so that nothing is
asked of a compartment which it would have to refuse for its form.

* `Commitment.Admissible stateMemory`: a state fits into the state memory when there is no
  other, an identifier is neither too short nor too long, and so on.
* `Machine.admissible_commitments`: all that a machine with lawful requests leaves to be done
  is admissible.
* `Message.Brief` and `brief_of_parse?`: the feedback that comes with a message is short
  enough to be passed on.
-/

namespace SigComp

/-- A feedback item is short enough to be passed on, if there is one. -/
def Message.Brief (feedback : Option Bytes) : Prop :=
  ∀ item, feedback = some item → item.length ≤ Header.maxFeedback

/-- A commitment is such as no compartment with the state memory refuses for its form. -/
def Commitment.Admissible (stateMemory : Nat) : Commitment → Prop
  | capabilities _ _ | remoteIds _ => True
  | feedback _ _ item => Message.Brief item
  | save l content =>
    content.length + stateOverhead ≤ stateMemory ∧ StateId.isPartialLength l.access.toNat = true ∧
      ∃ text, l.id = ⟨Sha1.digest text⟩
  | free partialId => StateId.isPartialLength partialId.length = true
  | skipSave reason _ _ | skipFree reason => reason = .memoryAccess

/-! ## Messages -/

namespace Message

variable {item : Option Bytes} {n : Nat}

/-- Seven bits tell the length of an item. -/
theorem length_le_of_lead {lead : UInt8} {item : Bytes}
    (told : item.length = (lead &&& 0x7f).toNat) : item.length ≤ Header.maxFeedback := by
  rw [told, UInt8.toNat_and]
  exact Nat.and_le_right

theorem length_of_splitAt? {bytes front back : Bytes}
    (cut : bytes.splitAt? n = some (front, back)) : front.length = n := by
  simp only [Bytes.splitAt?] at cut
  split at cut
  · next whole =>
    cases cut
    exact whole
  · cases cut

theorem brief_of_feedback? {first : UInt8} {rest after : Bytes}
    (read : feedback? first rest = some (item, after)) : Brief item := by
  rintro item rfl
  simp only [feedback?] at read
  split at read
  · cases read
  cases rest with
  | nil => cases read
  | cons lead rest =>
    dsimp only at read
    split at read
    · cases read
      exact Nat.succ_le_succ (Nat.zero_le 126)
    · obtain ⟨⟨front, back⟩, cut, pair⟩ := Option.map_eq_some_iff.1 read
      cases pair
      exact length_le_of_lead (length_of_splitAt? cut)

theorem brief_of_parse? {data : Bytes} {message : Message} (parsed : parse? data = some message) :
    Brief message.feedback := by
  cases data with
  | nil => cases parsed
  | cons first rest =>
    simp only [parse?] at parsed
    split at parsed
    · simp only [Option.bind_eq_bind, Option.bind_eq_some_iff, Option.some.injEq] at parsed
      obtain ⟨⟨item, afterItem⟩, itemRead, ⟨body, input⟩, _, rfl⟩ := parsed
      exact brief_of_feedback? itemRead
    · cases parsed

end Message

/-! ## Commitments -/

namespace Machine

variable {m : Machine} {memory : Memory} {todo : Commitment} {stateMemory capacity location : Nat}

theorem admissible_of_returnedParameters
    (among : todo ∈ returnedParameters memory location capacity) : todo.Admissible stateMemory := by
  unfold returnedParameters at among
  split at among
  · rcases List.mem_cons.1 among with rfl | ids
    · trivial
    · obtain ⟨_, _, rfl⟩ := Option.map_eq_some_iff.1 (Option.mem_toList.1 ids)
      trivial
  · cases among

theorem brief_of_feedbackItem? (memory : Memory) (location : Nat) :
    Message.Brief (feedbackItem? memory location) := by
  intro item read
  obtain ⟨first, _, found⟩ := Option.bind_eq_some_iff.1 read
  split at found
  · cases found
    exact Nat.succ_le_succ (Nat.zero_le 126)
  · rw [Memory.slice?] at found
    split at found
    · next inside =>
      cases found
      exact Message.length_le_of_lead (Memory.length_bytes inside)
    · cases found

theorem admissible_of_requestedFeedback (among : todo ∈ requestedFeedback memory location) :
    todo.Admissible stateMemory := by
  have brief := brief_of_feedbackItem? memory (location + 1)
  unfold requestedFeedback at among
  simp only [] at among
  split at among
  · cases among
  split at among
  · cases List.mem_singleton.1 among
    exact fun item present => absurd present (Option.some_ne_none item).symm
  split at among
  · next read =>
    cases List.mem_singleton.1 among
    rw [read] at brief
    exact brief
  · cases among

/-- A state is cut to what fits. -/
theorem fits_of_fittingLength? {length n : Nat} (cut : fittingLength? stateMemory length = some n) :
    n + stateOverhead ≤ stateMemory := by
  unfold fittingLength? at cut
  split at cut
  · cases cut
    assumption
  · split at cut
    · cases cut
      omega
    · cases cut

theorem admissible_of_saveCommitment {r : SaveRequest}
    (access : StateId.isPartialLength r.access.toNat = true)
    (among : todo ∈ saveCommitment memory stateMemory r) : todo.Admissible stateMemory := by
  unfold saveCommitment at among
  split at among
  · cases among
  next length fits =>
  split at among
  · next pieces read =>
    obtain ⟨w, _, found⟩ := Option.bind_eq_some_iff.1 read
    cases List.mem_singleton.1 among
    have cut : (Content.mk pieces).length = length :=
      (Content.length_bytes _).symm.trans (Window.length_pieces? found)
    refine ⟨?_, access, _, rfl⟩
    rw [cut]
    exact fits_of_fittingLength? fits
  · cases List.mem_singleton.1 among
    rfl

theorem admissible_of_freeCommitment {r : FreeRequest}
    (length : StateId.isPartialLength r.length.toNat = true) :
    (freeCommitment memory r).Admissible stateMemory := by
  unfold freeCommitment
  split
  · next pieces read =>
    obtain ⟨w, _, found⟩ := Option.bind_eq_some_iff.1 read
    rw [Commitment.Admissible, Window.length_pieces? found]
    exact length
  · rfl

/-- What a machine leaves to be done is admissible if its requests are lawful. -/
theorem admissible_commitments (lawful : m.requests.Lawful) (stateMemory capacity : Nat) :
    ∀ todo ∈ m.commitments stateMemory capacity, todo.Admissible stateMemory := by
  intro todo among
  simp only [commitments, List.mem_append, List.mem_flatMap] at among
  rcases among with (parameters | feedback) | ⟨r, requested, request⟩
  · split at parameters
    · cases parameters
    · exact admissible_of_returnedParameters parameters
  · split at feedback
    · cases feedback
    · exact admissible_of_requestedFeedback feedback
  · cases r with
    | save r =>
      exact admissible_of_saveCommitment (admissible_of_lawful lawful requested).1 request
    | free r =>
      cases List.mem_singleton.1 request
      exact admissible_of_freeCommitment (lawful.admissible _ requested)

end Machine

end SigComp
