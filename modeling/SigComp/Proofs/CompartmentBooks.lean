import SigComp.Compartment.Settlement
import SigComp.Proofs.StoreReferences

/-!
# The books of a compartment

What a compartment has left to spend on members, and all that can come of an admission.

* `Compartment.Balanced`: what is available and what the members cost is the whole state
  memory, and there are no more members than allowed.  It is a matter of the compartment
  alone and survives whatever may be asked of it.
* `Compartment.GivesUp`: members are given up one after the other, the weakest first;
  `makeRoom_gives_up` says that this is all that making room does, and that a balanced
  compartment can always be made room in.
* `Compartment.Admission`: the outcomes of `accept`, each with what has happened before.
-/

namespace SigComp.Compartment

variable {c c' : Compartment} {s : Store} {m : Member} {ms : List Member} {cost : Nat}
  {partialId : Bytes} {r : Error} {p q : Compartment × Store}

/-! ## Balance -/

/-- What the members cost together. -/
def spent (c : Compartment) : Nat := c.members.foldr (fun m rest => m.cost + rest) 0

/-- The states that the members stand for, one for each. -/
def keys (c : Compartment) : List Key := c.members.map Member.key

/-- What is available and what is spent make up the state memory, and there are no more members
than allowed, of which there is at least one. -/
structure Balanced (c : Compartment) : Prop where
  budget : c.available + c.spent = c.own.stateMemory
  bounded : c.members.length ≤ c.maxStates
  allowed : 0 < c.maxStates

/-- The members and their cost are kept alike. -/
structure SameBooks (c c' : Compartment) : Prop where
  members : c'.members = c.members
  available : c'.available = c.available
  own : c'.own = c.own
  maxStates : c'.maxStates = c.maxStates

theorem Balanced.congr (balanced : c.Balanced) (same : SameBooks c c') : c'.Balanced := by
  obtain ⟨members, available, own, maxStates⟩ := same
  refine ⟨?_, ?_, ?_⟩
  · rw [available, own, spent, members]
    exact balanced.budget
  · rw [members, maxStates]
    exact balanced.bounded
  · rw [maxStates]
    exact balanced.allowed

theorem members_perm_without (among : m ∈ c.members) :
    c.members.Perm (m :: (c.without m).members) :=
  List.perm_cons_erase among

/-- What one member more costs does not depend on its place. -/
theorem spent_of_perm (perm : c'.members.Perm (m :: c.members)) : c'.spent = m.cost + c.spent := by
  have sum := perm.foldr_eq' (f := fun m rest => m.cost + rest)
    (fun _ _ _ _ _ => Nat.add_left_comm _ _ _) 0
  rwa [List.foldr_cons] at sum

theorem spent_without (among : m ∈ c.members) : c.spent = m.cost + (c.without m).spent :=
  spent_of_perm (members_perm_without among)

theorem keys_perm_without (among : m ∈ c.members) : c.keys.Perm (m.key :: (c.without m).keys) :=
  (members_perm_without among).map Member.key

theorem Balanced.without (balanced : c.Balanced) (among : m ∈ c.members) :
    (c.without m).Balanced := by
  have cost := spent_without among
  have fewer := length_members_without among
  obtain ⟨budget, bounded, allowed⟩ := balanced
  refine ⟨?_, ?_, allowed⟩
  · change c.available + m.cost + (c.without m).spent = c.own.stateMemory
    omega
  · exact Nat.le_trans (Nat.le_of_lt fewer) bounded

theorem Balanced.enroll (balanced : c.Balanced) {length : Nat}
    (room : c.hasRoom (length + stateOverhead) = true) (k : Key) (l : Label) :
    (c.enroll k l length).Balanced := by
  obtain ⟨budget, bounded, allowed⟩ := balanced
  simp only [hasRoom, Bool.and_eq_true, decide_eq_true_eq] at room
  obtain ⟨affordable, free⟩ := room
  refine ⟨?_, ?_, allowed⟩
  · have cost : (c.enroll k l length).spent = length + stateOverhead + c.spent := by
      have last : (c.enroll k l length).members.Perm (⟨k, l.id, length, l.priority, _⟩ :: _) :=
        List.perm_append_singleton _ c.members
      exact spent_of_perm last
    change c.available - (length + stateOverhead) + (c.enroll k l length).spent = c.own.stateMemory
    omega
  · simp only [Compartment.enroll, List.length_append, List.length_singleton]
    exact free

theorem members_reprioritize (c : Compartment) (id : StateId) (priority : UInt16) :
    (c.reprioritize id priority).members =
      c.members.map fun m => if m.id = id then { m with priority } else m :=
  rfl

theorem Balanced.reprioritize (balanced : c.Balanced) (id : StateId) (priority : UInt16) :
    (c.reprioritize id priority).Balanced := by
  obtain ⟨budget, bounded, allowed⟩ := balanced
  have cost : (c.reprioritize id priority).spent = c.spent := by
    unfold spent
    rw [members_reprioritize, List.foldr_map]
    congr 1
    funext m rest
    split <;> rfl
  refine ⟨?_, ?_, allowed⟩
  · rw [cost]
    exact budget
  · rw [members_reprioritize, List.length_map]
    exact bounded

/-! ## Making room -/

/-- Members are given up in this order: each is the weakest at its time, and the store releases its
state. -/
inductive GivesUp : List Member → Compartment × Store → Compartment × Store → Prop
  | nobody (p : Compartment × Store) : GivesUp [] p p
  | next {m : Member} {ms : List Member} {c : Compartment} {s : Store} {q : Compartment × Store} :
    c.weakest? = some m → GivesUp ms (c.without m, s.release m.key true) q →
      GivesUp (m :: ms) (c, s) q

theorem mem_of_weakest? (weakest : c.weakest? = some m) : m ∈ c.members :=
  List.minOn?_mem weakest

theorem weakest?_eq_none (nobody : c.weakest? = none) : c.members = [] := by
  by_cases empty : c.members = []
  · exact empty
  · have found : c.weakest?.isSome := List.isSome_minOn?_iff.2 empty
    rw [nobody] at found
    cases found

/-- Making room is giving members up until there is room.  In a balanced compartment there is room
in the end for whatever the state memory holds: when all members are gone, all of it. -/
theorem makeRoom_gives_up (balanced : c.Balanced) (fits : cost ≤ c.own.stateMemory) :
    ∃ ms c' s', GivesUp ms (c, s) (c', s') ∧ makeRoom cost c s = .ok () (c', s') ∧
      c'.hasRoom cost = true ∧ (ms = [] ↔ c.hasRoom cost = true) := by
  induction c, s using makeRoom.induct cost with
  | case1 c s room =>
    refine ⟨[], c, s, .nobody _, ?_, room, by simp [room]⟩
    rw [makeRoom, if_pos room]
  | case2 c s full nobody =>
    have empty := weakest?_eq_none nobody
    obtain ⟨budget, _, allowed⟩ := balanced
    simp only [spent, empty, List.foldr_nil, Nat.add_zero] at budget
    simp [hasRoom, empty, allowed, budget, fits] at full
  | case3 c s full m weakest ih =>
    rcases ih (balanced.without (mem_of_weakest? weakest)) fits with
      ⟨ms, c', s', gives, made, room, _⟩
    refine ⟨m :: ms, c', s', .next weakest gives, ?_, room, by simp [full]⟩
    rw [makeRoom, if_neg full]
    split
    · next nobody =>
      rw [weakest] at nobody
      cases nobody
    · next m' weakest' =>
      rw [weakest] at weakest'
      cases weakest'
      exact made

theorem GivesUp.balanced (gives : GivesUp ms p q) (balanced : p.1.Balanced) : q.1.Balanced := by
  induction gives with
  | nobody p => exact balanced
  | next weakest _ ih => exact ih (balanced.without (mem_of_weakest? weakest))

theorem GivesUp.same (gives : GivesUp ms p q) :
    q.1.own = p.1.own ∧ q.1.maxStates = p.1.maxStates := by
  induction gives with
  | nobody p => exact ⟨rfl, rfl⟩
  | next _ _ ih => exact ih

/-- The members that stay keep their order. -/
theorem GivesUp.sublist (gives : GivesUp ms p q) : q.1.members.Sublist p.1.members := by
  induction gives with
  | nobody p => exact .refl _
  | next _ _ ih => exact ih.trans List.erase_sublist

/-- The members given up and those that stay are the members that there were. -/
theorem GivesUp.perm (gives : GivesUp ms p q) : p.1.members.Perm (ms ++ q.1.members) := by
  induction gives with
  | nobody p => exact .refl _
  | next weakest _ ih => exact (members_perm_without (mem_of_weakest? weakest)).trans (ih.cons _)

/-! ## Admission -/

/-- A state that is new to the compartment passes all that is checked before room is made for it,
and a buffer is reserved. -/
structure Admissible (l : Label) (content : Content) (p : Compartment × Store) (d : Draft)
    (s : Store) : Prop where
  access : StateId.isPartialLength l.access.toNat = true
  unknown : p.1.member? l.id = none
  fits : content.length + stateOverhead ≤ p.1.own.stateMemory
  reserved : Store.create content.length p.2 = .ok d s

/-- All that can come of a state that is to become a member.  A member is given up only for a state
that was found admissible. -/
inductive Admission (l : Label) (content : Content) (p : Compartment × Store) :
    EStateM.Result Error (Compartment × Store) Saved → Prop
  | refused (r : Error) : (∀ d s, ¬ Admissible l content p d s) → Admission l content p (.error r p)
  | refreshed {m : Member} {state : State} :
    p.1.member? l.id = some m → p.2.state? m.key = some state → state.data = content.bytes →
      Admission l content p (.ok (.duplicate m.key) (p.1.reprioritize l.id l.priority, p.2))
  | saved {d : Draft} {ms : List Member} {c : Compartment} {s s₁ s' : Store} {saved : Saved} :
    Admissible l content p d s → GivesUp ms (p.1, s) (c, s₁) →
      c.hasRoom (content.length + stateOverhead) = true →
      Store.save d l content s₁ = .ok saved s' →
      Admission l content p (.ok saved (c.enroll saved.key l content.length, s'))
  | unsaved {d : Draft} {ms : List Member} {c : Compartment} {s s₁ s' : Store} {r : Error} :
    Admissible l content p d s → GivesUp ms (p.1, s) (c, s₁) →
      (ms = [] ↔ p.1.hasRoom (content.length + stateOverhead) = true) →
      Store.save d l content s₁ = .error r s' → Admission l content p (.error r (c, s'))

theorem accept_admission (balanced : c.Balanced) (l : Label) (content : Content) (s : Store) :
    Admission l content (c, s) (accept l content (c, s)) := by
  simp only [accept]
  split
  · next access =>
    split
    · next m known =>
      split
      · next same =>
        cases live : s.state? m.key with
        | none => simp [live] at same
        | some state =>
          rw [live] at same
          exact .refreshed known live (Content.agrees_iff.1 same)
      · refine .refused _ fun d s' admissible => ?_
        have unknown := admissible.unknown
        rw [known] at unknown
        cases unknown
    · next unknown =>
      split
      · next large =>
        refine .refused _ fun d s' admissible => ?_
        exact absurd admissible.fits (Nat.not_le.2 large)
      · next small =>
        have fits : content.length + stateOverhead ≤ c.own.stateMemory := Nat.not_lt.1 small
        simp only [acceptNew]
        split
        · next r s' none =>
          rw [Store.create_eq_error none]
          refine .refused _ fun d s'' admissible => ?_
          have reserved := admissible.reserved
          rw [none] at reserved
          cases reserved
        · next d s' reserved =>
          have admissible : Admissible l content (c, s) d s' := ⟨access, unknown, fits, reserved⟩
          rcases makeRoom_gives_up balanced fits with ⟨ms, c', s₁, gives, made, room, needed⟩
          split
          · next failed =>
            rw [made] at failed
            cases failed
          · next made' =>
            rw [made] at made'
            cases made'
            split
            · next unsaved => exact .unsaved admissible gives needed unsaved
            · next saved => exact .saved admissible gives room saved
  · next short =>
    refine .refused _ fun d s' admissible => ?_
    exact absurd admissible.access short

/-- What is left of a compartment and its store after an operation, whatever came of it. -/
def after {α : Type} : EStateM.Result Error (Compartment × Store) α → Compartment × Store
  | .ok _ p => p
  | .error _ p => p

theorem Balanced.accept (balanced : c.Balanced) (l : Label) (content : Content) (s : Store) :
    (after (accept l content (c, s))).1.Balanced := by
  have outcome := accept_admission balanced l content s
  generalize Compartment.accept l content (c, s) = result at outcome
  cases outcome with
  | refused r _ => exact balanced
  | refreshed known _ _ => exact balanced.reprioritize l.id l.priority
  | saved _ gives room _ => exact (gives.balanced balanced).enroll room _ _
  | unsaved _ gives _ _ => exact gives.balanced balanced

/-! ## Expulsion -/

/-- The member that is given up is named by a live state. -/
theorem expel_eq_ok (h : expel partialId (c, s) = .ok () p) :
    ∃ m ∈ c.members, p = (c.without m, s.release m.key true) := by
  simp only [expel] at h
  split at h
  · cases h
  split at h
  · cases h
  · next k _ _ m found =>
    cases h
    have key : m.key = k := by simpa using List.find?_some found
    exact ⟨m, List.mem_of_find?_eq_some found, by rw [key]⟩

theorem expel_eq_error (h : expel partialId (c, s) = .error r p) : p = (c, s) := by
  simp only [expel] at h
  split at h
  · cases h
    rfl
  split at h
  · cases h
    rfl
  · cases h

theorem Balanced.expel (balanced : c.Balanced) (partialId : Bytes) (s : Store) :
    (after (expel partialId (c, s))).1.Balanced := by
  cases done : Compartment.expel partialId (c, s) with
  | ok _ p =>
    rcases expel_eq_ok done with ⟨m, among, rfl⟩
    exact balanced.without among
  | error r p =>
    rw [expel_eq_error done]
    exact balanced

/-! ## Settlement -/

/-- Whatever comes of a state that is to be saved, the compartment goes on with it. -/
theorem carryOut_save (c : Compartment) (s : Store) (l : Label) (content : Content) :
    (c.carryOut s (.save l content)).1 = after (accept l content (c, s)) := by
  simp only [carryOut]
  cases accept l content (c, s) <;> rfl

theorem carryOut_free (c : Compartment) (s : Store) (partialId : Bytes) :
    (c.carryOut s (.free partialId)).1 = after (expel partialId (c, s)) := by
  simp only [carryOut]
  cases expel partialId (c, s) <;> rfl

end SigComp.Compartment
