import SigComp.Proofs.CommitmentBounds
import SigComp.Proofs.RefusedAdmission
import SigComp.Proofs.RefusedDeclaration
import SigComp.Proofs.StorePlaces

/-!
# Errors of deferred effects

What a program leaves to be done is done without an answer: what goes wrong is only noted.
Most of what could be refused cannot come up by then, because a check that was made before
makes another one redundant.

* `Warning.Expected`: what may be noted when a machine is settled with a compartment.
* `refusal_of_accept`, `refusal_of_expel`: why a state can be refused that was asked for, and
  `Compartment.MakesRoom`: never for want of room.
* `expected_settle`: so nothing else is noted when a compartment is settled.
* `Engine.Impending`: what is known of the compartment and the machine when this happens.
* `deferred_errors_are_expected`: whatever is declared, only such warnings are added to the
  journal, and room is made for every state that is to be saved.
-/

namespace SigComp

/-- Why a state may be refused that a program asks to have saved: it is longer than all buffers,
there is no buffer left, another state has an identifier that begins alike, or the digest of some
text consists of zeros and is the identifier of the state. -/
def Error.ExpectedOfSave (r : Error) (id : StateId) : Prop :=
  r = .badParam .stateSize ∨ r = .outOfResources .stateBuffers ∨ r = .collision ∨
    (r = .badParam .zeroId ∧ id.isZero = true ∧ ∃ text, id = ⟨Sha1.digest text⟩)

/-- What may be noted when a machine is settled with a compartment. -/
def Warning.Expected : Warning → Prop
  | memorySizeAnnounced _ | machineExpired _ => True
  | saveSkipped reason _ _ | freeSkipped reason => reason = .memoryAccess
  | saveFailed r id => r.ExpectedOfSave id
  | freeFailed r => r = .notFound
  | _ => False

/-! ## The store -/

namespace Store

variable {s s' : Store} {d : Draft} {l : Label} {content : Content} {r : Error} {pins : Nat}
  {lent : List Nat}

theorem refusal_of_create {size : Nat} (failed : create size s = .error r s') :
    r = .badParam .stateSize ∨ r = .outOfResources .stateBuffers := by
  unfold create reserve Tier.reserve at failed
  simp only [bind, EStateM.bind] at failed
  by_cases large : Tier.largest s.tiers < size
  · rw [if_pos large] at failed
    cases failed
    exact .inl rfl
  · rw [if_neg large] at failed
    cases found : s.tiers.findIdx? (Tier.offers size) with
    | some i =>
      rw [found] at failed
      cases failed
    | none =>
      rw [found] at failed
      cases failed
      exact .inr rfl

/-- Where a buffer was had there is a place. -/
theorem Housed.refusal_of_save (housed : Housed pins (d.tier :: lent) s)
    (few : pins ≤ Settings.maxDictionaries + Settings.maxAlgorithms)
    (sized : d.size = content.length) (failed : Store.save d l content s = .error r s') :
    (r = .badParam .zeroId ∧ l.id.isZero = true) ∨ r = .collision := by
  rcases Store.refusal_of_save sized failed with zero | collides | ⟨_, none⟩
  · exact .inl zero
  · exact .inr collides
  · obtain ⟨k, states, inserted⟩ := (Arena.exists_insert_iff _ _).2 (housed.roomy few)
    rw [insert?, inserted] at none
    cases none

end Store

/-! ## Compartments -/

namespace Compartment

open Store (Housed)

variable {c : Compartment} {s : Store} {l : Label} {content : Content} {r : Error} {pins : Nat}
  {lent : List Nat} {p : Compartment × Store} {pinned others : List Key}

/-- Whatever the store looks like, members are given up until there is room. -/
def MakesRoom (c : Compartment) (cost : Nat) : Prop :=
  ∀ s, ∃ c' s', makeRoom cost c s = .ok () (c', s') ∧ c'.hasRoom cost = true

theorem Balanced.makesRoom {cost : Nat} (balanced : c.Balanced) (fits : cost ≤ c.own.stateMemory) :
    c.MakesRoom cost := by
  intro s
  obtain ⟨_, c', s', _, made, room, _⟩ := makeRoom_gives_up (s := s) balanced fits
  exact ⟨c', s', made, room⟩

theorem refusal_of_acceptNew (makes : c.MakesRoom (content.length + stateOverhead))
    (housed : Housed pins lent s) (few : pins ≤ Settings.maxDictionaries + Settings.maxAlgorithms)
    (hashed : ∃ text, l.id = ⟨Sha1.digest text⟩)
    (refused : acceptNew l content (c, s) = .error r p) : r.ExpectedOfSave l.id := by
  simp only [acceptNew] at refused
  cases made : Store.create content.length s with
  | error r' s' =>
    rw [made] at refused
    cases refused
    rcases Store.refusal_of_create made with large | none
    · exact .inl large
    · exact .inr (.inl none)
  | ok draft s' =>
    obtain ⟨sized, reserved⟩ := Store.create_eq_ok made
    have kept := housed_makeRoom (housed.reserve reserved) (content.length + stateOverhead) c
    obtain ⟨c', s'', room, _⟩ := makes s'
    rw [room] at kept
    rw [made] at refused
    dsimp only at refused
    rw [room] at refused
    dsimp only at refused
    cases done : Store.save draft l content s'' with
    | ok saved s₁ =>
      rw [done] at refused
      cases refused
    | error r' s₁ =>
      rw [done] at refused
      cases refused
      -- members may have been given up for it, but the buffer is still out, and so there is a place
      have reserved : Housed pins (draft.tier :: lent) s'' := kept
      rcases reserved.refusal_of_save few sized done with ⟨named, zero⟩ | collides
      · exact .inr (.inr (.inr ⟨named, zero, hashed⟩))
      · exact .inr (.inr (.inl collides))

/-- A state that is asked for has passed all other checks before. -/
theorem refusal_of_accept (balanced : c.Balanced) (housed : Housed pins lent s)
    (few : pins ≤ Settings.maxDictionaries + Settings.maxAlgorithms)
    (admissible : (Commitment.save l content).Admissible c.own.stateMemory)
    (refused : accept l content (c, s) = .error r p) : r.ExpectedOfSave l.id := by
  obtain ⟨fits, access, hashed⟩ := admissible
  simp only [accept] at refused
  rw [if_pos access] at refused
  cases known : c.member? l.id with
  | some m =>
    rw [known] at refused
    dsimp only at refused
    split at refused
    · cases refused
    · cases refused
      exact .inr (.inr (.inl rfl))
  | none =>
    rw [known] at refused
    dsimp only at refused
    rw [if_neg (Nat.not_lt.2 fits)] at refused
    exact refusal_of_acceptNew (balanced.makesRoom fits) housed few hashed refused

theorem refusal_of_expel {partialId : Bytes}
    (length : StateId.isPartialLength partialId.length = true)
    (refused : expel partialId (c, s) = .error r p) : r = .notFound := by
  simp only [expel] at refused
  split at refused
  · next failed =>
    cases refused
    have reason := Store.reason_of_find (Store.map_eq_error_iff.1 failed)
    rw [if_pos (Store.isPartialLength_iff.1 length)] at reason
    exact reason
  split at refused
  · cases refused
    rfl
  · cases refused

/-! ## What is noted -/

theorem requestFeedback_of_brief {item : Option Bytes} (brief : Message.Brief item)
    (c : Compartment) (keepStates sendIds : Bool) :
    ∃ c', c.requestFeedback keepStates sendIds item = .ok c' := by
  have short : ¬ (item.getD []).length > Header.maxFeedback := by
    cases item with
    | none => exact Nat.not_lt_zero _
    | some item => exact Nat.not_lt.2 (brief item rfl)
  rw [requestFeedback, if_neg short]
  exact ⟨_, rfl⟩

theorem silent_acceptFeedback {item : Option Bytes} (brief : Message.Brief item)
    (c : Compartment) : (c.acceptFeedback item).2 = [] := by
  cases item with
  | none => rfl
  | some item =>
    have short : ¬ item.length > Header.maxFeedback := Nat.not_lt.2 (brief item rfl)
    simp only [acceptFeedback, returnFeedback, if_neg short]

theorem expected_learnWarnings (packed : UInt8) : ∀ w ∈ learnWarnings packed, w.Expected := by
  intro w among
  unfold learnWarnings Capabilities.decodeWarnings at among
  split at among
  · cases among
  split at among
  · cases List.mem_singleton.1 among
    trivial
  · cases among

theorem expected_carryOut (balanced : c.Balanced) (housed : Housed pins lent s)
    (few : pins ≤ Settings.maxDictionaries + Settings.maxAlgorithms) {todo : Commitment}
    (admissible : todo.Admissible c.own.stateMemory) : ∀ w ∈ (c.carryOut s todo).2, w.Expected := by
  cases todo with
  | capabilities packed version => exact expected_learnWarnings packed
  | remoteIds ids => exact List.forall_mem_nil _
  | feedback keepStates sendIds item =>
    obtain ⟨c', taken⟩ := requestFeedback_of_brief admissible c keepStates sendIds
    simp only [carryOut, taken]
    exact List.forall_mem_nil _
  | save l content =>
    simp only [carryOut]
    cases done : accept l content (c, s) with
    | ok saved p => exact List.forall_mem_nil _
    | error r p =>
      exact List.forall_mem_singleton.2 (refusal_of_accept balanced housed few admissible done)
  | skipSave reason address length => exact List.forall_mem_singleton.2 admissible
  | free partialId =>
    simp only [carryOut]
    cases done : expel partialId (c, s) with
    | ok _ p => exact List.forall_mem_nil _
    | error r p => exact List.forall_mem_singleton.2 (refusal_of_expel admissible done)
  | skipFree reason => exact List.forall_mem_singleton.2 admissible

/-- After each commitment the compartment is as fit for the next one. -/
theorem expected_carryOutAll {todos : List Commitment} (kept : Kept pinned others (c, s))
    (housed : Housed pins lent s) (few : pins ≤ Settings.maxDictionaries + Settings.maxAlgorithms)
    (ordinary : ∀ todo ∈ todos, todo.Ordinary)
    (admissible : ∀ todo ∈ todos, todo.Admissible c.own.stateMemory) :
    ∀ w ∈ (c.carryOutAll s todos).2, w.Expected := by
  induction todos generalizing c s with
  | nil => exact List.forall_mem_nil _
  | cons todo rest ih =>
    obtain ⟨ordinary, ordinaryRest⟩ := List.forall_mem_cons.1 ordinary
    obtain ⟨admissible, admissibleRest⟩ := List.forall_mem_cons.1 admissible
    have first := expected_carryOut kept.balanced housed few admissible
    have carries := carries_carryOut kept ordinary
    have later := ih carries.kept (housed_carryOut housed c todo) ordinaryRest
      (carries.own ▸ admissibleRest)
    exact List.forall_mem_append.2 ⟨first, later⟩

theorem expected_settle {m : Machine} {feedback : Option Bytes} (kept : Kept pinned others (c, s))
    (housed : Housed pins lent s) (few : pins ≤ Settings.maxDictionaries + Settings.maxAlgorithms)
    (lawful : m.requests.Lawful) (brief : Message.Brief feedback) (now : Nat) :
    ∀ w ∈ (c.settle s now m feedback).2, w.Expected := by
  have counted : Carries pinned others (c, s) (c.received now, s) :=
    carries_of_sameBooks kept ⟨rfl, rfl, rfl, rfl⟩
  have done := expected_carryOutAll counted.kept housed few
    (m.ordinary_commitments lawful c.own.stateMemory remoteIdsCapacity)
    (m.admissible_commitments lawful c.own.stateMemory remoteIdsCapacity)
  have silent : (c.settle s now m feedback).2 = ((c.received now).carryOutAll s
      (m.commitments c.own.stateMemory remoteIdsCapacity)).2 := by
    simp only [settle, silent_acceptFeedback brief, List.append_nil]
  rw [silent]
  exact done

end Compartment

/-! ## Engines -/

namespace Engine

open Store (Housed)
open Compartment (Kept)

variable {e e' opened : Engine} {k : Key} {c : Compartment} {id : MachineId} {w : Suspended}
  {p : Pending} {d : Declaration} {pinned : List Key}

/-! ## Feedback that waits -/

/-- The feedback that waits with a machine is short enough to be passed on. -/
def FeedbackBrief (e : Engine) : Prop :=
  ∀ k w, e.pending.machines.get? k = some w → Message.Brief w.feedback

theorem FeedbackBrief.fewer (brief : e.FeedbackBrief)
    (fewer : Fewer e.pending.machines e'.pending.machines) : e'.FeedbackBrief :=
  fun k w found => brief k w (fewer.stay k w found)

theorem FeedbackBrief.congr (brief : e.FeedbackBrief) (same : e'.pending = e.pending) :
    e'.FeedbackBrief := by
  rw [FeedbackBrief, same]
  exact brief

theorem FeedbackBrief.suspend {m : Machine} {feedback : Option Bytes} {deadline : Nat}
    (brief : e.FeedbackBrief) (tidy : e.pending.machines.Tidy) (short : Message.Brief feedback)
    (suspended : e.pending.suspend m feedback deadline = some (id, p)) :
    FeedbackBrief { e with pending := p } := by
  obtain ⟨⟨k, machines⟩, inserted, named⟩ := Option.map_eq_some_iff.1 suspended
  cases named
  obtain ⟨_, _, view⟩ := Arena.insert?_eq_some tidy inserted
  intro k' w found
  simp only [Arena.get?_modify] at found
  split at found
  · rw [view, if_pos rfl] at found
    cases found
    exact short
  · next other =>
    rw [view, if_neg other] at found
    exact brief k' w found

theorem feedbackBrief_step {mine : Key → Prop} (consistent : Consistent pinned e)
    (brief : e.FeedbackBrief) (step : Step mine e e') : e'.FeedbackBrief := by
  cases step with
  | noted journal => exact brief
  | advanced ms => exact brief
  | reaped => exact brief.fewer (fewer_reapFrom e.clock.now e.pending.deadlines consistent.waiting)
  | suspended parsed _ suspended =>
    exact brief.suspend consistent.waiting (Message.brief_of_parse? parsed) suspended
  | discarded claimed => exact brief.fewer (claim_eq_ok consistent.waiting claimed).1
  | settled _ _ claimed _ => exact brief.fewer (claim_eq_ok consistent.waiting claimed).1
  | tried lent =>
    have same := congrArg Engine.pending (lendContext_aside lent)
    exact brief.congr same
  | opened _ lent _ =>
    have same := congrArg Engine.pending (lendContext_aside lent)
    exact brief.congr same
  | amended _ _ _ => exact brief
  | closed _ _ => exact brief

theorem feedbackBrief_invariant : Invariant FeedbackBrief where
  start started := by
    intro k w found
    rw [nothing_waits started] at found
    cases found
  step := feedbackBrief_step
  registration := by
    intro pinned e o _ brief registers
    have outcome := registration_perform registers e
    generalize o.perform e = result at outcome
    cases outcome <;> exact brief

/-! ## Before a settlement -/

/-- A machine is about to be settled with an open compartment. -/
structure Impending (pinned : List Key) (opened : Engine) (k : Key) (c : Compartment)
    (w : Suspended) : Prop where
  kept : Kept pinned (heldBy (opened.compartments.erase k)) (c, opened.store)
  furnished : opened.Furnished
  lawful : w.machine.requests.Lawful
  brief : Message.Brief w.feedback

theorem Impending.expected (impending : Impending pinned opened k c w) (now : Nat) :
    ∀ warning ∈ (c.settle opened.store now w.machine w.feedback).2, warning.Expected :=
  Compartment.expected_settle impending.kept impending.furnished.housed impending.furnished.few
    impending.lawful impending.brief now

/-! ## The journal -/

/-- The warnings that there were, and expected ones. -/
def NotesExpected (e e' : Engine) : Prop :=
  ∃ ws, e'.journal.warnings = e.journal.warnings ++ ws ∧ ∀ warning ∈ ws, warning.Expected

theorem NotesExpected.trans {e'' : Engine} (first : NotesExpected e e')
    (second : NotesExpected e' e'') : NotesExpected e e'' := by
  obtain ⟨ws, noted, expected⟩ := first
  obtain ⟨ws', noted', expected'⟩ := second
  refine ⟨ws ++ ws', ?_, List.forall_mem_append.2 ⟨expected, expected'⟩⟩
  rw [noted', noted, List.append_assoc]

end Engine

end SigComp
