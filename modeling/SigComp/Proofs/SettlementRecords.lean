import SigComp.Proofs.CompartmentBooks

/-!
# What a settlement records

A compartment records feedback, identifiers and capabilities of its peer, besides the
states that it holds for it.

* `Compartment.Restocks`: states that come and go leave all of this as it is.
* `Machine.filterMap_commitments`: what a program announces is where its parameters are.
* `Compartment.Recorded`: what one commitment makes of the records, `recorded_carryOut`.
* `remoteIds_carryOutAll`, `requested_carryOutAll`, `returned_carryOutAll`: what any number
  of commitments make of them.
* `Compartment.Notified`: it is noted when the capabilities become others,
  `notified_carryOutAll`; they are announced at most once.
* `context_settle`, `notified_settle`, `returned_settle`: what a settlement comes to.
-/

namespace SigComp

/-! ## Records -/

namespace Compartment

variable {c c' c'' : Compartment} {s : Store} {todo : Commitment} {m : Machine}

/-- The feedback and the identifiers that are recorded are the same, and so is the context. -/
structure SameRecords (c c' : Compartment) : Prop where
  context : c'.context = c.context
  requested : c'.requestedFeedback = c.requestedFeedback
  returned : c'.returnedFeedback = c.returnedFeedback
  remote : c'.remoteIds = c.remoteIds

theorem SameRecords.refl (c : Compartment) : SameRecords c c := ⟨rfl, rfl, rfl, rfl⟩

/-- Only the states that are held and the memory that they leave are others. -/
def Restocks (c c' : Compartment) : Prop :=
  ∃ members admitted available, c' = { c with members, admitted, available }

theorem Restocks.refl (c : Compartment) : Restocks c c := ⟨_, _, _, rfl⟩

theorem Restocks.trans (first : Restocks c c') (second : Restocks c' c'') : Restocks c c'' := by
  obtain ⟨_, _, _, rfl⟩ := first
  obtain ⟨_, _, _, rfl⟩ := second
  exact ⟨_, _, _, rfl⟩

theorem Restocks.sameRecords (restocks : Restocks c c') : SameRecords c c' := by
  obtain ⟨_, _, _, rfl⟩ := restocks
  exact ⟨rfl, rfl, rfl, rfl⟩

theorem restocks_makeRoom (cost : Nat) (c : Compartment) (s : Store) :
    Restocks c (after (makeRoom cost c s)).1 := by
  induction c, s using makeRoom.induct cost with
  | case1 c s room =>
    rw [makeRoom, if_pos room]
    exact .refl c
  | case2 c s full nobody =>
    rw [makeRoom, if_neg full]
    split
    · exact .refl c
    · next some => exact absurd (nobody.symm.trans some) (Option.some_ne_none _).symm
  | case3 c s full m weakest ih =>
    rw [makeRoom, if_neg full]
    split
    · exact .refl c
    · next weakest' =>
      cases weakest.symm.trans weakest'
      have fewer : Restocks c (c.without m) := ⟨_, _, _, rfl⟩
      exact fewer.trans ih

theorem restocks_acceptNew (l : Label) (content : Content) (c : Compartment) (s : Store) :
    Restocks c (after (acceptNew l content (c, s))).1 := by
  simp only [acceptNew]
  cases Store.create content.length s with
  | error r s => exact .refl c
  | ok draft s =>
    have made := restocks_makeRoom (content.length + stateOverhead) c s
    dsimp only
    cases room : makeRoom (content.length + stateOverhead) c s with
    | error r p =>
      rw [room] at made
      exact made
    | ok _ p =>
      rw [room] at made
      dsimp only
      cases Store.save draft l content p.2 with
      | error r s => exact made
      | ok saved s => exact made.trans ⟨_, _, _, rfl⟩

theorem restocks_accept (l : Label) (content : Content) (c : Compartment) (s : Store) :
    Restocks c (after (accept l content (c, s))).1 := by
  simp only [accept]
  split
  · split
    · split
      · exact ⟨_, _, _, rfl⟩
      · exact .refl c
    · split
      · exact .refl c
      · exact restocks_acceptNew l content c s
  · exact .refl c

theorem restocks_expel (partialId : Bytes) (c : Compartment) (s : Store) :
    Restocks c (after (expel partialId (c, s))).1 := by
  cases done : expel partialId (c, s) with
  | ok _ p =>
    rcases expel_eq_ok done with ⟨m, among, rfl⟩
    exact ⟨_, _, _, rfl⟩
  | error r p =>
    rw [expel_eq_error done]
    exact .refl c

end Compartment

/-- The identifiers that are to be recorded, if it is that. -/
def Commitment.ids? : Commitment → Option Bytes
  | remoteIds ids => some ids
  | _ => none

/-- The capabilities that are announced, if it is that. -/
def Commitment.announced? : Commitment → Option (UInt8 × UInt8)
  | capabilities packed version => some (packed, version)
  | _ => none

/-- The commitment is about the parameters that a program returns. -/
def Commitment.isParameter : Commitment → Bool
  | capabilities .. | remoteIds .. => true
  | _ => false

/-! ## Returned parameters -/

namespace Machine

variable {β : Type} {f : Commitment → Option β}

theorem filterMap_requestedFeedback (silent : ∀ todo, todo.isParameter = false → f todo = none)
    (memory : Memory) (location : Nat) : (requestedFeedback memory location).filterMap f = [] := by
  have feedback := fun keepStates sendIds item => silent (.feedback keepStates sendIds item) rfl
  unfold requestedFeedback
  simp only []
  split
  · rfl
  split
  · simp [feedback]
  split
  · simp [feedback]
  · rfl

theorem filterMap_requestCommitment (silent : ∀ todo, todo.isParameter = false → f todo = none)
    (memory : Memory) (stateMemory : Nat) (r : Request) :
    (requestCommitment memory stateMemory r).filterMap f = [] := by
  rw [List.filterMap_eq_nil_iff]
  intro todo among
  apply silent
  cases r with
  | save r =>
    simp only [requestCommitment, saveCommitment] at among
    split at among
    · cases among
    split at among <;> rw [List.mem_singleton.1 among] <;> rfl
  | free r =>
    simp only [requestCommitment, freeCommitment] at among
    split at among <;> rw [List.mem_singleton.1 among] <;> rfl

/-- Only where the parameters are said to be can there be any. -/
theorem filterMap_commitments (silent : ∀ todo, todo.isParameter = false → f todo = none)
    (m : Machine) (stateMemory capacity : Nat) : (m.commitments stateMemory capacity).filterMap f =
      if m.parametersAt = 0 then []
      else (returnedParameters m.memory m.parametersAt.toNat capacity).filterMap f := by
  have requests :
      (m.requests.flatMap (requestCommitment m.memory stateMemory)).filterMap f = [] := by
    rw [List.filterMap_flatMap, List.flatMap_eq_nil_iff]
    exact fun r _ => filterMap_requestCommitment silent m.memory stateMemory r
  have feedback : (if m.feedbackAt = 0 then [] else
      requestedFeedback m.memory m.feedbackAt.toNat).filterMap f = [] := by
    split
    · rfl
    · exact filterMap_requestedFeedback silent _ _
  rw [commitments, List.filterMap_append, List.filterMap_append, feedback, requests,
    List.append_nil, List.append_nil]
  split <;> rfl

/-- A program announces its sender's capabilities at most once. -/
theorem announced_commitments (m : Machine) (stateMemory capacity : Nat) :
    ((m.commitments stateMemory capacity).filterMap Commitment.announced?).length ≤ 1 := by
  rw [filterMap_commitments (fun todo => by cases todo <;> simp [Commitment.isParameter,
    Commitment.announced?])]
  split
  · exact Nat.zero_le 1
  unfold returnedParameters
  split
  · simp only []
    cases (idsEnd? m.memory (m.parametersAt.toNat + 2) capacity (m.parametersAt.toNat + 2)).bind
      fun stop => m.memory.slice? (m.parametersAt.toNat + 2) (stop - (m.parametersAt.toNat + 2)) <;>
        exact Nat.le_refl 1
  · exact Nat.zero_le 1

end Machine

namespace Compartment

variable {c c' c'' : Compartment} {s : Store} {todo : Commitment} {m : Machine}

/-! ## Settlement -/

/-- What a commitment makes of the records. -/
structure Recorded (todo : Commitment) (c c' : Compartment) : Prop where
  context : c'.context = c.context
  requested : c.requestedFeedback.length ≤ 127 → c'.requestedFeedback.length ≤ 127
  returned : c'.returnedFeedback = c.returnedFeedback
  remote : c'.remoteIds = todo.ids?.getD c.remoteIds

theorem SameRecords.recorded (same : SameRecords c c') (silent : todo.ids? = none) :
    Recorded todo c c' := by
  refine ⟨same.context, fun short => ?_, same.returned, ?_⟩
  · rw [same.requested]
    exact short
  · rw [silent]
    exact same.remote

theorem restocks_carryOut_save (c : Compartment) (s : Store) (l : Label) (content : Content) :
    Restocks c (c.carryOut s (.save l content)).1.1 := by
  rw [carryOut_save]
  exact restocks_accept l content c s

theorem restocks_carryOut_free (c : Compartment) (s : Store) (partialId : Bytes) :
    Restocks c (c.carryOut s (.free partialId)).1.1 := by
  rw [carryOut_free]
  exact restocks_expel partialId c s

theorem recorded_carryOut (c : Compartment) (s : Store) (todo : Commitment) :
    Recorded todo c (c.carryOut s todo).1.1 := by
  cases todo with
  | capabilities packed version =>
    refine SameRecords.recorded ?_ rfl
    simp only [carryOut, learn]
    split <;> exact ⟨rfl, rfl, rfl, rfl⟩
  | remoteIds ids => exact ⟨rfl, id, rfl, rfl⟩
  | feedback keepStates sendIds item =>
    simp only [carryOut, requestFeedback]
    by_cases long : (item.getD []).length > Header.maxFeedback
    · rw [if_pos long]
      exact (SameRecords.refl c).recorded rfl
    · rw [if_neg long]
      exact ⟨rfl, fun _ => Nat.not_lt.1 long, rfl, rfl⟩
  | save l content => exact (restocks_carryOut_save c s l content).sameRecords.recorded rfl
  | skipSave reason address length => exact (SameRecords.refl c).recorded rfl
  | free partialId => exact (restocks_carryOut_free c s partialId).sameRecords.recorded rfl
  | skipFree reason => exact (SameRecords.refl c).recorded rfl

theorem carryOutAll_cons (c : Compartment) (s : Store) (todo : Commitment)
    (rest : List Commitment) : (c.carryOutAll s (todo :: rest)).1 =
      ((c.carryOut s todo).1.1.carryOutAll (c.carryOut s todo).1.2 rest).1 :=
  rfl

theorem requested_carryOutAll (todos : List Commitment) (c : Compartment) (s : Store)
    (short : c.requestedFeedback.length ≤ 127) :
    (c.carryOutAll s todos).1.1.requestedFeedback.length ≤ 127 := by
  induction todos generalizing c s with
  | nil => exact short
  | cons todo rest ih =>
    rw [carryOutAll_cons]
    exact ih _ _ ((recorded_carryOut c s todo).requested short)

theorem returned_carryOutAll (todos : List Commitment) (c : Compartment) (s : Store) :
    (c.carryOutAll s todos).1.1.returnedFeedback = c.returnedFeedback := by
  induction todos generalizing c s with
  | nil => rfl
  | cons todo rest ih => rw [carryOutAll_cons, ih, (recorded_carryOut c s todo).returned]

/-- The last identifiers that were to be recorded are those that are known. -/
theorem remoteIds_carryOutAll (todos : List Commitment) (c : Compartment) (s : Store) :
    (c.carryOutAll s todos).1.1.remoteIds =
      (todos.filterMap Commitment.ids?).getLast?.getD c.remoteIds := by
  induction todos generalizing c s with
  | nil => rfl
  | cons todo rest ih =>
    rw [carryOutAll_cons, ih, (recorded_carryOut c s todo).remote, List.filterMap_cons]
    cases todo.ids? with
    | none => rfl
    | some ids => rw [List.getLast?_cons, Option.getD_some, Option.getD_some]

theorem context_carryOutAll (todos : List Commitment) (c : Compartment) (s : Store) :
    (c.carryOutAll s todos).1.1.context = c.context := by
  induction todos generalizing c s with
  | nil => rfl
  | cons todo rest ih => rw [carryOutAll_cons, ih, (recorded_carryOut c s todo).context]

/-! ## News of the peer -/

/-- What becomes of the rest of what an algorithm is told: it is noted when the capabilities of the
peer become others, which they only do if they are announced. -/
structure Notified (announced : Bool) (c c' : Compartment) : Prop where
  algorithm : c'.algorithm = c.algorithm
  sendBytecode : c'.sendBytecode = c.sendBytecode
  incoming : c'.incoming = c.incoming
  changed : c'.remoteChanged = (c.remoteChanged || decide (c'.remote ≠ c.remote))
  silent : announced = false → c'.remote = c.remote

theorem Notified.of_same (algorithm : c'.algorithm = c.algorithm)
    (sendBytecode : c'.sendBytecode = c.sendBytecode) (incoming : c'.incoming = c.incoming)
    (changed : c'.remoteChanged = c.remoteChanged) (remote : c'.remote = c.remote)
    (announced : Bool) : Notified announced c c' := by
  refine ⟨algorithm, sendBytecode, incoming, ?_, fun _ => remote⟩
  simp [changed, remote]

theorem Notified.refl (announced : Bool) (c : Compartment) : Notified announced c c :=
  .of_same rfl rfl rfl rfl rfl announced

/-- Two announcements could undo one another. -/
theorem Notified.trans {first second : Bool} (before : Notified first c c')
    (after : Notified second c' c'') (once : first = false ∨ second = false) :
    Notified (first || second) c c'' := by
  refine ⟨after.algorithm.trans before.algorithm, after.sendBytecode.trans before.sendBytecode,
    after.incoming.trans before.incoming, ?_, fun neither => ?_⟩
  · rcases once with silent | silent
    · have same := before.silent silent
      rw [after.changed, before.changed, same]
      simp
    · have same := after.silent silent
      rw [after.changed, before.changed, same]
      simp
  · rw [Bool.or_eq_false_iff] at neither
    exact (after.silent neither.2).trans (before.silent neither.1)

theorem notified_carryOut (c : Compartment) (s : Store) (todo : Commitment) :
    Notified todo.announced?.isSome c (c.carryOut s todo).1.1 := by
  cases todo with
  | capabilities packed version =>
    simp only [carryOut, learn]
    split
    · exact .refl _ c
    · next other => exact ⟨rfl, rfl, rfl, by simp [other], fun silent => by cases silent⟩
  | remoteIds ids => apply Notified.of_same <;> rfl
  | feedback keepStates sendIds item =>
    simp only [carryOut, requestFeedback]
    by_cases long : (item.getD []).length > Header.maxFeedback
    · rw [if_pos long]
      exact .refl _ c
    · rw [if_neg long]
      apply Notified.of_same <;> rfl
  | save l content =>
    obtain ⟨_, _, _, eq⟩ := restocks_carryOut_save c s l content
    rw [eq]
    apply Notified.of_same <;> rfl
  | skipSave reason address length => exact .refl _ c
  | free partialId =>
    obtain ⟨_, _, _, eq⟩ := restocks_carryOut_free c s partialId
    rw [eq]
    apply Notified.of_same <;> rfl
  | skipFree reason => exact .refl _ c

/-- If the capabilities are announced at most once, it is noted whether they are others in the
end. -/
theorem notified_carryOutAll (todos : List Commitment) (c : Compartment) (s : Store)
    (once : (todos.filterMap Commitment.announced?).length ≤ 1) :
    Notified (todos.any fun todo => todo.announced?.isSome) c (c.carryOutAll s todos).1.1 := by
  induction todos generalizing c s with
  | nil => exact .refl _ c
  | cons todo rest ih =>
    rw [carryOutAll_cons, List.any_cons]
    rw [List.filterMap_cons] at once
    have one := notified_carryOut c s todo
    cases announced : todo.announced? with
    | none =>
      rw [announced] at once one
      exact one.trans (ih _ _ once) (.inl rfl)
    | some news =>
      rw [announced] at once one
      have nothing : rest.filterMap Commitment.announced? = [] := by
        rw [← List.length_eq_zero_iff]
        exact Nat.le_zero.1 (Nat.le_of_succ_le_succ once)
      refine one.trans (ih _ _ (by rw [nothing]; exact Nat.zero_le 1)) (.inr ?_)
      rw [List.any_eq_false]
      intro todo among
      rw [List.filterMap_eq_nil_iff.1 nothing todo among]
      exact Bool.false_ne_true

/-- What the feedback that came with a message makes of the records. -/
structure Takes (c c' : Compartment) : Prop where
  context : c'.context = c.context
  requested : c'.requestedFeedback = c.requestedFeedback
  returned : c.returnedFeedback.length ≤ 127 → c'.returnedFeedback.length ≤ 127
  remote : c'.remoteIds = c.remoteIds

theorem takes_acceptFeedback (c : Compartment) (item : Option Bytes) :
    Takes c (c.acceptFeedback item).1 := by
  cases item with
  | none => exact ⟨rfl, rfl, id, rfl⟩
  | some item =>
    simp only [acceptFeedback, returnFeedback]
    by_cases long : item.length > Header.maxFeedback
    · rw [if_pos long]
      exact ⟨rfl, rfl, id, rfl⟩
    · rw [if_neg long]
      exact ⟨rfl, rfl, fun _ => Nat.not_lt.1 long, rfl⟩

theorem notified_acceptFeedback (c : Compartment) (item : Option Bytes) :
    Notified false c (c.acceptFeedback item).1 := by
  cases item with
  | none => exact .refl _ c
  | some item =>
    simp only [acceptFeedback, returnFeedback]
    by_cases long : item.length > Header.maxFeedback
    · rw [if_pos long]
      exact .refl _ c
    · rw [if_neg long]
      apply Notified.of_same <;> rfl

theorem context_settle (c : Compartment) (s : Store) (now : Nat) (m : Machine)
    (feedback : Option Bytes) : (c.settle s now m feedback).1.1.context = c.context :=
  (takes_acceptFeedback _ feedback).context.trans (context_carryOutAll _ (c.received now) s)

/-- One message more has come, and it is noted if the capabilities of the peer have become
others. -/
theorem notified_settle (c : Compartment) (s : Store) (now : Nat) (m : Machine)
    (feedback : Option Bytes) :
    ∃ announced, Notified announced (c.received now) (c.settle s now m feedback).1.1 := by
  have notified := notified_carryOutAll (m.commitments c.own.stateMemory remoteIdsCapacity)
    (c.received now) s (m.announced_commitments _ _)
  exact ⟨_, notified.trans (notified_acceptFeedback _ feedback) (.inr rfl)⟩

/-- Feedback that came with a message waits to be passed on instead of what waited before. -/
theorem returned_settle (c : Compartment) (s : Store) (now : Nat) (m : Machine)
    {feedback : Option Bytes} (brief : ∀ item, feedback = some item → item.length ≤ 127) :
    (c.settle s now m feedback).1.1.returnedFeedback = feedback.getD c.returnedFeedback := by
  have same : ((c.received now).carryOutAll s
      (m.commitments c.own.stateMemory remoteIdsCapacity)).1.1.returnedFeedback =
        c.returnedFeedback :=
    returned_carryOutAll _ (c.received now) s
  cases feedback with
  | none => exact same
  | some item =>
    have short : ¬ item.length > Header.maxFeedback := Nat.not_lt.2 (brief item rfl)
    simp only [settle, acceptFeedback, returnFeedback]
    rw [if_neg short]
    rfl

end Compartment

end SigComp
