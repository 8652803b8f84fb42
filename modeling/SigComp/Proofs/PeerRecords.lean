import SigComp.Proofs.EngineInvariants
import SigComp.Proofs.HeaderRoundTrip
import SigComp.Proofs.IdentifierLists
import SigComp.Proofs.SettlementRecords

/-!
# What a compartment records of its peer

Feedback and identifiers come from peers, and go into headers and to algorithms.  Whatever
the programs of peers have left in memory, what is recorded of it has the form that it
should have.

* `Machine.ids_of_commitments`: the identifiers that a program has recorded.
* `Machine.HandsOver`, `Machine.TearsOff` and `Machine.PointsNowhere`: what can be in memory
  where a program says that its identifiers are.
* `Compartment.Presentable` is an invariant of open compartments.
* `peer_records_are_presentable`: so headers can be written, and read back.
-/

namespace SigComp

/-! ## What a program hands over -/

namespace Machine

variable {m : Machine} {memory : Memory} {ids others : List Bytes} {capacity stateMemory : Nat}

/-- Only where the parameters are said to be can there be identifiers. -/
theorem ids_of_commitments (m : Machine) (stateMemory capacity : Nat) :
    (m.commitments stateMemory capacity).filterMap Commitment.ids? =
      if m.parametersAt = 0 then []
      else
        (returnedParameters m.memory m.parametersAt.toNat capacity).filterMap Commitment.ids? :=
  filterMap_commitments
    (fun todo => by cases todo <;> simp [Commitment.isParameter, Commitment.ids?])
    m stateMemory capacity

theorem get?_of_lt {a : Nat} (inside : a < memory.size) : ∃ b, memory.get? a = some b :=
  ⟨_, Array.getElem?_eq_getElem inside⟩

/-- The identifiers are looked for behind the two bytes of the capabilities. -/
theorem ids_of_returnedParameters {location : Nat} (inside : location + 2 ≤ memory.size) :
    (returnedParameters memory location capacity).filterMap Commitment.ids? =
      ((idsEnd? memory (location + 2) capacity (location + 2)).bind fun stop =>
        memory.slice? (location + 2) (stop - (location + 2))).toList := by
  obtain ⟨packed, first⟩ := get?_of_lt (show location < memory.size by omega)
  obtain ⟨version, second⟩ := get?_of_lt (show location + 1 < memory.size by omega)
  simp only [returnedParameters, first, second]
  cases (idsEnd? memory (location + 2) capacity (location + 2)).bind fun stop =>
      memory.slice? (location + 2) (stop - (location + 2)) <;> rfl

/-- If there are no two such bytes nothing is looked for. -/
theorem returnedParameters_of_short {location : Nat} (short : memory.size < location + 2) :
    returnedParameters memory location capacity = [] := by
  have outside : memory.get? (location + 1) = none :=
    Array.getElem?_eq_none (show memory.size ≤ location + 1 by omega)
  unfold returnedParameters
  split
  · next second =>
    rw [outside] at second
    cases second
  · rfl

/-- Where the identifiers of a program's sender begin in memory. -/
def idsStart (m : Machine) : Nat := m.parametersAt.toNat + 2

/-- The program points to memory where these identifiers stand one after the other, and they are not
too many to be recorded. -/
structure ReadsIds (m : Machine) (ids : List Bytes) : Prop where
  pointed : m.parametersAt ≠ 0
  run : IdRun m.memory m.idsStart ids
  fits : (idList ids).length ≤ 512

/-- And with them the list ends. -/
structure HandsOver (m : Machine) (ids : List Bytes) : Prop extends ReadsIds m ids where
  ends : Ends m.memory m.idsStart 512 (m.idsStart + (idList ids).length)

/-- And behind them the list is torn off. -/
structure TearsOff (m : Machine) (ids : List Bytes) : Prop extends ReadsIds m ids where
  torn : Torn m.memory (m.idsStart + (idList ids).length)

/-- The program points nowhere, or to where the memory ends before there are identifiers. -/
def PointsNowhere (m : Machine) : Prop := m.parametersAt = 0 ∨ m.memory.size < m.idsStart

/-- There are no other cases. -/
theorem ids_cases (m : Machine) :
    (∃ ids, m.HandsOver ids) ∨ (∃ ids, m.TearsOff ids) ∨ m.PointsNowhere := by
  by_cases nowhere : m.PointsNowhere
  · exact .inr (.inr nowhere)
  · obtain ⟨pointed, inside⟩ := not_or.1 nowhere
    obtain ⟨ids, run, fits, stops⟩ :=
      exists_run (Nat.not_lt.1 inside) (Nat.le_add_right m.idsStart 512)
    have reads : m.ReadsIds ids := ⟨pointed, run, Nat.le_of_add_le_add_left fits⟩
    rcases stops with ends | torn
    · exact .inl ⟨ids, reads, ends⟩
    · exact .inr (.inl ⟨ids, reads, torn⟩)

/-- The list that is handed over is the longest: any other that fits is the front of it. -/
theorem HandsOver.longest (hands : m.HandsOver ids) (other : m.ReadsIds others) : others <+: ids :=
  hands.ends.longest hands.run other.run (Nat.add_le_add_left other.fits _)

theorem ReadsIds.inside (reads : m.ReadsIds ids) : m.parametersAt.toNat + 2 ≤ m.memory.size := by
  have inside := Memory.inside_of_slice? reads.run.read
  exact Nat.le_of_add_right_le inside

theorem ReadsIds.ids_of_commitments (reads : m.ReadsIds ids) (stateMemory : Nat) :
    (m.commitments stateMemory 512).filterMap Commitment.ids? =
      ((idsEnd? m.memory m.idsStart 512 (m.idsStart + (idList ids).length)).bind fun stop =>
        m.memory.slice? m.idsStart (stop - m.idsStart)).toList := by
  have walked := idsEnd?_of_run reads.run (Nat.le_refl _) (Nat.add_le_add_left reads.fits _)
  rw [Machine.ids_of_commitments, if_neg reads.pointed, ids_of_returnedParameters reads.inside,
    ← walked]
  rfl

theorem HandsOver.ids_of_commitments (hands : m.HandsOver ids) (stateMemory : Nat) :
    (m.commitments stateMemory 512).filterMap Commitment.ids? = [idList ids] := by
  rw [hands.toReadsIds.ids_of_commitments, hands.ends.idsEnd?, Option.bind_some,
    Nat.add_sub_cancel_left, hands.run.read]
  rfl

theorem TearsOff.ids_of_commitments (tears : m.TearsOff ids) (stateMemory : Nat) :
    (m.commitments stateMemory 512).filterMap Commitment.ids? = [] := by
  rw [tears.toReadsIds.ids_of_commitments, tears.torn.idsEnd?]
  rfl

theorem PointsNowhere.ids_of_commitments (nowhere : m.PointsNowhere) (stateMemory capacity : Nat) :
    (m.commitments stateMemory capacity).filterMap Commitment.ids? = [] := by
  rw [Machine.ids_of_commitments]
  rcases nowhere with none | short
  · rw [if_pos none]
  · rw [returnedParameters_of_short short]
    exact ite_self []

end Machine

namespace Compartment

variable {c c' : Compartment} {m : Machine} {ids : List Bytes}

/-! ## What is recorded -/

theorem remoteIds_settle (c : Compartment) (s : Store) (now : Nat) (m : Machine)
    (feedback : Option Bytes) :
    (c.settle s now m feedback).1.1.remoteIds =
      ((m.commitments c.own.stateMemory 512).filterMap Commitment.ids?).getLast?.getD
        c.remoteIds := by
  refine (takes_acceptFeedback _ feedback).remote.trans ?_
  rw [remoteIds_carryOutAll]
  rfl

/-- Feedback items of at most 127 bytes, and identifiers one after the other, each behind its
length, of at most 512 bytes together. -/
structure Presentable (c : Compartment) : Prop where
  requested : c.requestedFeedback.length ≤ 127
  returned : c.returnedFeedback.length ≤ 127
  remote : ∃ ids, PartialIds ids ∧ c.remoteIds = idList ids ∧ c.remoteIds.length ≤ 512

theorem Presentable.amends (presentable : c.Presentable) (amends : c.Amends c') :
    c'.Presentable := by
  cases amends with
  | written data => exact ⟨presentable.requested, presentable.returned, presentable.remote⟩
  | sent data => exact ⟨presentable.requested, Nat.zero_le _, presentable.remote⟩
  | resends => exact ⟨presentable.requested, presentable.returned, presentable.remote⟩

/-- Whatever a machine leaves to be settled, and whatever feedback came with its message. -/
theorem Presentable.settle (presentable : c.Presentable) (s : Store) (now : Nat) (m : Machine)
    (feedback : Option Bytes) : (c.settle s now m feedback).1.1.Presentable := by
  have takes := takes_acceptFeedback ((c.received now).carryOutAll s
    (m.commitments c.own.stateMemory remoteIdsCapacity)).1.1 feedback
  refine ⟨?_, ?_, ?_⟩
  · have short := requested_carryOutAll (m.commitments c.own.stateMemory remoteIdsCapacity)
      (c.received now) s presentable.requested
    rw [← takes.requested] at short
    exact short
  · refine takes.returned ?_
    rw [returned_carryOutAll]
    exact presentable.returned
  · rw [remoteIds_settle]
    rcases m.ids_cases with ⟨ids, hands⟩ | ⟨ids, tears⟩ | nowhere
    · rw [hands.ids_of_commitments]
      exact ⟨ids, hands.run.partials, rfl, hands.fits⟩
    · rw [tears.ids_of_commitments]
      exact presentable.remote
    · rw [nowhere.ids_of_commitments]
      exact presentable.remote

end Compartment

/-! ## Engines -/

namespace Engine

variable {e : Engine} {k : Key} {c : Compartment}

/-- All open compartments are presentable. -/
def Presentable (e : Engine) : Prop := ∀ k c, e.compartments.get? k = some c → c.Presentable

theorem presentable_founding (e : Engine) (a : Algorithm) (context : Option Context) :
    (e.founding a context).Presentable :=
  ⟨Nat.zero_le _, Nat.zero_le _, [], fun _ among => absurd among List.not_mem_nil, rfl,
    Nat.zero_le _⟩

theorem presentable_step {e' : Engine} {pinned : List Key} {mine : Key → Prop}
    (consistent : Consistent pinned e) (presentable : e.Presentable) (step : Step mine e e') :
    e'.Presentable := by
  intro k c found
  cases formerly_of_step consistent.tidy step found with
  | same before => exact presentable k c before
  | founded e₁ a context => exact presentable_founding e₁ a context
  | amended before amends => exact (presentable k _ before).amends amends
  | @settled c _ now m feedback _ before settled =>
    have changed := (presentable k c before).settle e.store now m feedback
    rw [settled] at changed
    exact changed

theorem presentable_registration {o : Operation} (presentable : e.Presentable)
    (registers : o.registers = true) : (after (o.perform e)).Presentable := by
  have outcome := registration_perform registers e
  generalize o.perform e = result at outcome
  cases outcome <;> exact presentable

theorem presentable_invariant : Invariant Presentable where
  start started := by
    intro k c found
    rw [nothing_open started] at found
    cases found
  step := presentable_step
  registration _ := presentable_registration

/-- Whatever peers and their programs have done, the feedback of an open compartment and the
identifiers that it knows can be presented, so that every header that can be written at all can be
written for it, and is read back.  If a machine is settled with it that points to a list of
identifiers in its memory it knows those from then on, as many as there are up to 512 bytes; if the
list is torn off by the end of memory, or there is none, it knows those that it has known. -/
theorem peer_records_are_presentable (reachable : Reachable e) (opened : e.compartment k = .ok c) :
    c.Presentable ∧
    (∀ body, (∃ feedback header, Header.encode feedback body = .ok header) →
      ∃ header, e.header k body = .ok header ∧ ∀ input, Message.parse? (header ++ input) =
        some ⟨Header.item? c.requestedFeedback, body, input, header.length⟩) ∧
    ∀ (s : Store) (now : Nat) (m : Machine) (feedback : Option Bytes),
      let known := (c.settle s now m feedback).1.1.remoteIds
      (∀ ids, m.HandsOver ids →
        known = idList ids ∧ ∀ others, m.ReadsIds others → others <+: ids) ∧
      (∀ ids, m.TearsOff ids → known = c.remoteIds) ∧
      (m.PointsNowhere → known = c.remoteIds) ∧
      ((∃ ids, m.HandsOver ids) ∨ (∃ ids, m.TearsOff ids) ∨ m.PointsNowhere) := by
  have presentable := presentable_invariant.reachable reachable k c (compartment_eq_ok opened)
  refine ⟨presentable, ?_, ?_⟩
  · rintro body ⟨feedback, first, written⟩
    have expressible := (Header.encode_eq_ok_iff.1 ⟨first, written⟩).2
    obtain ⟨header, encoded⟩ := Header.encode_eq_ok_iff.2 ⟨presentable.requested, expressible⟩
    have answered : e.header k body = .ok header := by
      rw [Engine.header, opened]
      exact encoded
    exact ⟨header, answered, Message.parse?_encode encoded⟩
  · intro s now m feedback known
    have remote : known = _ := c.remoteIds_settle s now m feedback
    refine ⟨fun ids hands => ⟨?_, fun others other => hands.longest other⟩, fun ids tears => ?_,
      fun nowhere => ?_, m.ids_cases⟩
    · rw [remote, hands.ids_of_commitments]
      rfl
    · rw [remote, tears.ids_of_commitments]
      rfl
    · rw [remote, nowhere.ids_of_commitments]
      rfl

/-- A peer asks for a byte of feedback and tells of one state that it holds. -/
def introduction : List Operation :=
  [.addAlgorithm { name := "a", code := [0] }
      ⟨fun _ context => (.ok [], context), fun _ context => context⟩,
    .decompress [0xf8, 0x01, 0x61, 0x23, 0xa0, 0x8a, 0xa0, 0x8c, 0x00, 0x00, 0x00, 0x00, 0x00,
      0x04, 0x05, 0x00, 0x02, 0x06, 0x01, 0x02, 0x03, 0x04, 0x05, 0x06, 0x00] .message,
    .declare 1024 (.fresh none)]

/-- The state is known, and a header brings the feedback along. -/
theorem records_of_introduction :
    ∃ e c header, Reachable e ∧ e.compartment ⟨0, 0⟩ = .ok c ∧ c.Presentable ∧
      c.remoteIds = idList [[1, 2, 3, 4, 5, 6]] ∧
      e.header ⟨0, 0⟩ (.stateId [1, 2, 3, 4, 5, 6]) = .ok header ∧
      Message.parse? header =
        some ⟨some [5], .stateId [1, 2, 3, 4, 5, 6], [], header.length⟩ := by
  let first : Engine := ⟨{}, {}, .ofSettings {}, { capacity := 10 }, .ofSettings {}, {}, {}⟩
  let e := first.run introduction
  have reachable : Reachable e := (Reachable.start (s := {}) rfl).run introduction
  have course : (e.compartments.get? ⟨0, 0⟩).map (fun c => (c.remoteIds, c.requestedFeedback)) =
      some (idList [[1, 2, 3, 4, 5, 6]], [5]) := by
    decide +kernel
  obtain ⟨c, found, same⟩ := Option.map_eq_some_iff.1 course
  obtain ⟨ids, requested⟩ := Prod.mk.inj same
  have opened : e.compartment ⟨0, 0⟩ = .ok c := compartment_of_get? found
  obtain ⟨presentable, headers, _⟩ := peer_records_are_presentable reachable opened
  obtain ⟨header, written, read⟩ := headers (.stateId [1, 2, 3, 4, 5, 6]) ⟨[], _, rfl⟩
  have alone := read []
  rw [List.append_nil, requested] at alone
  exact ⟨e, c, header, reachable, opened, presentable, ids, written, alone⟩

end Engine

end SigComp
