import SigComp.Proofs.RequestAdmission
import SigComp.Machine.Commitment

/-!
# What programs ask to have saved

The labels of the states that the program of a message asks to have saved.

* `Machine.save_of_commitments`: a state is to be saved only where a request says so, and
  under the label that is computed from the request and the bytes.
* `ordinary_commitments`: so no program asks for a permanent state, and
  `honest_commitments`: every state that it asks for is named after its own digest.
-/

namespace SigComp

/-- A state is known by the digest of its label and bytes, and asks for no shorter or longer prefix
than there can be. -/
structure State.Honest (state : State) : Prop where
  named : state.id = .ofData state.data state.address state.instruction state.access
  access : StateId.isPartialLength state.access.toNat = true

/-- A commitment does not ask for a permanent state. -/
def Commitment.Ordinary : Commitment → Prop
  | save l _ => l.priority ≠ permanentPriority
  | _ => True

/-- A commitment does not ask for a dishonest state. -/
def Commitment.Honest : Commitment → Prop
  | save l content => State.Honest { l with data := content.bytes }
  | _ => True

/-! ## Requests and labels -/

namespace Machine

variable {m : Machine} {memory : Memory} {l : Label} {content : Content}

theorem save_not_mem_returnedParameters {location capacity : Nat} :
    .save l content ∉ returnedParameters memory location capacity := by
  intro among
  unfold returnedParameters at among
  split at among
  · rcases List.mem_cons.1 among with impossible | rest
    · cases impossible
    · obtain ⟨ids, _, impossible⟩ := Option.map_eq_some_iff.1 (Option.mem_toList.1 rest)
      cases impossible
  · cases among

theorem save_not_mem_requestedFeedback {location : Nat} :
    .save l content ∉ requestedFeedback memory location := by
  intro among
  unfold requestedFeedback at among
  simp only [] at among
  split at among
  · cases among
  split at among
  · cases List.mem_singleton.1 among
  split at among
  · cases List.mem_singleton.1 among
  · cases among

/-- The label of a state that is to be saved is that of the request, for the bytes that there
are. -/
theorem label_of_saveCommitment {r : SaveRequest} {stateMemory : Nat}
    (among : .save l content ∈ saveCommitment memory stateMemory r) :
    l = labelOf r content.bytes.length content.pieces := by
  unfold saveCommitment at among
  split at among
  · cases among
  split at among
  · next pieces read =>
    obtain ⟨w, _, found⟩ := Option.bind_eq_some_iff.1 read
    cases List.mem_singleton.1 among
    rw [Content.bytes, Window.length_pieces? found]
  · cases List.mem_singleton.1 among

theorem le_of_fittingLength? {stateMemory length n : Nat}
    (h : fittingLength? stateMemory length = some n) : n ≤ length := by
  unfold fittingLength? at h
  split at h
  · cases h
    exact Nat.le_refl _
  · split at h
    · cases h
      omega
    · cases h

/-- A state is no longer than the request says. -/
theorem length_of_saveCommitment {r : SaveRequest} {stateMemory : Nat}
    (among : .save l content ∈ saveCommitment memory stateMemory r) :
    content.bytes.length ≤ r.length.toNat := by
  unfold saveCommitment at among
  split at among
  · cases among
  next length fits =>
  split at among
  · next pieces read =>
    obtain ⟨w, _, found⟩ := Option.bind_eq_some_iff.1 read
    cases List.mem_singleton.1 among
    rw [Content.bytes, Window.length_pieces? found]
    exact le_of_fittingLength? fits
  · cases List.mem_singleton.1 among

/-- A state is to be saved only where a request of the program says so. -/
theorem request_of_commitments {stateMemory capacity : Nat}
    (among : .save l content ∈ m.commitments stateMemory capacity) :
    ∃ r, .save r ∈ m.requests ∧ .save l content ∈ saveCommitment m.memory stateMemory r := by
  simp only [commitments, List.mem_append, List.mem_flatMap] at among
  rcases among with (parameters | feedback) | ⟨r, requested, request⟩
  · split at parameters
    · cases parameters
    · exact absurd parameters save_not_mem_returnedParameters
  · split at feedback
    · cases feedback
    · exact absurd feedback save_not_mem_requestedFeedback
  · cases r with
    | save r => exact ⟨r, requested, request⟩
    | free r =>
      have free := List.mem_singleton.1 request
      unfold freeCommitment at free
      split at free <;> cases free

/-- And under the label that the request asks for. -/
theorem save_of_commitments {stateMemory capacity : Nat}
    (among : .save l content ∈ m.commitments stateMemory capacity) :
    ∃ r, .save r ∈ m.requests ∧ l = labelOf r content.bytes.length content.pieces := by
  obtain ⟨r, requested, request⟩ := request_of_commitments among
  exact ⟨r, requested, label_of_saveCommitment request⟩

theorem admissible_of_lawful {r : SaveRequest} (lawful : m.requests.Lawful)
    (requested : .save r ∈ m.requests) :
    StateId.isPartialLength r.access.toNat = true ∧ r.priority ≠ permanentPriority := by
  have admissible := lawful.admissible _ requested
  simpa only [Request.Admissible, SaveRequest.admissible, Bool.and_eq_true, bne_iff_ne]
    using admissible

/-- Requests that have been admitted do not ask for permanent states. -/
theorem ordinary_commitments (lawful : m.requests.Lawful) (stateMemory capacity : Nat) :
    ∀ todo ∈ m.commitments stateMemory capacity, todo.Ordinary := by
  intro todo among
  cases todo with
  | save l content =>
    obtain ⟨r, requested, rfl⟩ := save_of_commitments among
    exact (admissible_of_lawful lawful requested).2
  | _ => trivial

/-- Nor do they ask for states that are named after the digest of anything else. -/
theorem honest_commitments (lawful : m.requests.Lawful) (stateMemory capacity : Nat) :
    ∀ todo ∈ m.commitments stateMemory capacity, todo.Honest := by
  intro todo among
  cases todo with
  | save l content =>
    obtain ⟨r, requested, rfl⟩ := save_of_commitments among
    refine ⟨?_, (admissible_of_lawful lawful requested).1⟩
    simp only [labelOf, StateId.ofData, StateId.ofPieces, List.flatten_cons, List.flatten_nil,
      List.append_nil, Content.bytes]
  | _ => trivial

end Machine

end SigComp
