import SigComp.Proofs.EngineOperations

/-!
# Reference counts and budgets

Two accounts that are right in every engine that can come about: how many hold a state,
and what a compartment has spent on its members.

* `Engine.registrations`: the states that a history has registered, one for each
  registration that was new and not refused.
* `consistent_run`: histories keep engines consistent, and pin what they register.
* `uses_eq_memberships_add_registrations`: the count of a state is the number of its
  memberships and registrations, so no state is lost and none outlives its holders.
* `compartment_books_balance`: what a compartment has left and what its members cost is
  its state memory, and its members are different live states.
-/

namespace SigComp

/-- The state that an operation has registered, if it is a registration, not refused, and not of
something known already: the one that is then found under the identifier answered. -/
def Operation.registered? (o : Operation) (e : Engine) : Option Key :=
  match o.perform e with
  | .ok (.registered id) e' =>
    if e'.entries = e.entries then none else (e'.store.findKey id.toBytes true).toOption
  | _ => none

namespace Engine

variable {settings : Settings} {e e' : Engine} {k : Key} {c : Compartment} {pinned : List Key}

/-- The states that operations register as they are done one after the other, one for each
registration. -/
def registrations (e : Engine) : List Operation → List Key
  | [] => []
  | o :: rest => (o.registered? e).toList ++ (after (o.perform e)).registrations rest

/-! ## Histories -/

/-- Only a registration is answered as one. -/
theorem answered_ordinarily {o : Operation} (ordinary : o.registers = false) :
    Leaves (fun _ => True) (fun a _ => ∀ id, a ≠ .registered id) (o.perform e) := by
  have trivially {α : Type} {x : EStateM.Result Error Engine α} :
      Leaves (fun _ => True) (fun _ _ => True) x := .of_forall (fun _ => trivial) fun _ _ => trivial
  cases o with
  | addAlgorithm d compressor => cases ordinary
  | addDictionary data access => cases ordinary
  | create algorithm => exact Leaves.map Answer.opened (trivially.imp fun _ _ _ _ => nofun)
  | close k => exact Leaves.bind trivially fun _ _ _ _ => nofun
  | resendBytecode k => exact Leaves.bind trivially fun _ _ _ _ => nofun
  | decompress data t => exact Leaves.bind trivially fun _ _ _ _ => nofun
  | declare id d => exact Leaves.map Answer.declared (trivially.imp fun _ _ _ _ => nofun)
  | compress k algorithm plain t => exact Leaves.bind trivially fun _ _ _ _ => nofun
  | advance ms => exact fun _ => nofun

theorem registered?_eq_none {o : Operation} (ordinary : o.registers = false) :
    o.registered? e = none := by
  have answered := answered_ordinarily (e := e) ordinary
  unfold Operation.registered?
  cases performed : o.perform e with
  | error r e' => rfl
  | ok a e' =>
    rw [performed] at answered
    cases a with
    | registered id => exact absurd rfl (answered id)
    | _ => rfl

theorem registered?_of_known {o : Operation} {id : StateId}
    (performed : o.perform e = .ok (.registered id) e') (same : e'.entries = e.entries) :
    o.registered? e = none := by
  simp only [Operation.registered?, performed, if_pos same]

theorem registered?_of_new {o : Operation} {id : StateId} {key : Key}
    (performed : o.perform e = .ok (.registered id) e') (grown : e'.entries = e.entries + 1)
    (found : e'.store.findKey id.toBytes true = .ok key) : o.registered? e = some key := by
  have more : e'.entries ≠ e.entries := by omega
  simp only [Operation.registered?, performed, if_neg more, found, Except.toOption]

theorem registered?_of_refused {o : Operation} {r : Error} (performed : o.perform e = .error r e') :
    o.registered? e = none := by
  simp only [Operation.registered?, performed]

/-- A registration pins what it registers, and nothing else pins a state. -/
theorem consistent_perform (consistent : Consistent pinned e) (o : Operation) :
    Consistent (pinned ++ (o.registered? e).toList) (after (o.perform e)) := by
  cases ordinary : o.registers with
  | false =>
    rw [registered?_eq_none ordinary, Option.toList_none, List.append_nil]
    exact (spares_perform consistent ordinary).consistent
  | true =>
    have outcome := registration_perform ordinary e
    generalize performed : o.perform e = result at outcome
    cases outcome with
    | refused o r =>
      rw [registered?_of_refused performed, Option.toList_none, List.append_nil]
      exact consistent
    | known _ =>
      rw [registered?_of_known performed rfl, Option.toList_none, List.append_nil]
      exact consistent
    | @algorithm d compressor saved s _ done =>
      have pins := consistent.pin done
      rw [registered?_of_new performed (entries_algorithmAdded e d compressor s) pins.found]
      exact pins.consistent.congr rfl rfl rfl rfl
    | @dictionary data access saved s done =>
      have pins := consistent.pin done
      rw [registered?_of_new performed (entries_dictionaryAdded e _ s) pins.found]
      exact pins.consistent.congr rfl rfl rfl rfl

theorem consistent_run (consistent : Consistent pinned e) (operations : List Operation) :
    Consistent (pinned ++ e.registrations operations) (e.run operations) := by
  induction operations generalizing e pinned with
  | nil =>
    rw [registrations, List.append_nil]
    exact consistent
  | cons o rest ih =>
    have first := consistent_perform consistent o
    rw [registrations, ← List.append_assoc]
    exact ih first

/-- The reachable engines are those that histories lead to. -/
theorem reachable_iff_run :
    Reachable e ↔ ∃ settings first operations, start settings = .ok first ∧
      e = first.run operations := by
  constructor
  · intro reachable
    induction reachable with
    | @start settings e started => exact ⟨settings, e, [], started, rfl⟩
    | @perform e o _ ih =>
      obtain ⟨settings, first, operations, started, rfl⟩ := ih
      refine ⟨settings, first, operations ++ [o], started, ?_⟩
      simp only [run, List.foldl_append, List.foldl_cons, List.foldl_nil]
  · rintro ⟨settings, first, operations, started, rfl⟩
    exact (Reachable.start started).run operations

theorem consistent_of_reachable (reachable : Reachable e) : ∃ pinned, Consistent pinned e := by
  rcases reachable_iff_run.1 reachable with ⟨settings, first, operations, started, rfl⟩
  exact ⟨_, consistent_run (consistent_of_start started) operations⟩

/-! ## Reference counts -/

/-- Whatever has been done to an engine, the count of a live state is the number of memberships of
open compartments and of registrations that refer to it, and there is at least one.  So the key of
a member is never left dangling, and when all compartments are closed the live states are those that
have been registered. -/
theorem uses_eq_memberships_add_registrations (started : start settings = .ok e)
    (operations : List Operation) :
    let now := e.run operations
    let registered := e.registrations operations
    (∀ k state, now.store.state? k = some state →
      now.store.uses? k = some (now.memberships.count k + registered.count k) ∧
        0 < now.memberships.count k + registered.count k) ∧
    (∀ k c, now.compartment k = .ok c →
      ∀ m ∈ c.members, ∃ state, now.store.state? m.key = some state) ∧
    ((∀ k, now.compartment k = .error .destructed) →
      ∀ k, (∃ state, now.store.state? k = some state) ↔ k ∈ registered) := by
  intro now registered
  have consistent : Consistent registered now :=
    consistent_run (consistent_of_start started) operations
  have refs := consistent.referenced
  refine ⟨?_, ?_, ?_⟩
  · intro k state live
    have among := List.count_pos_iff.2 (refs.mem_of_live k state live)
    rw [List.count_append, Nat.add_comm] at among
    refine ⟨?_, among⟩
    rw [Store.uses?_eq_useCount live, refs.uses, List.count_append, Nat.add_comm]
  · intro k c opened m among
    rcases (consistent.opened k c (compartment_eq_ok opened)).backed.live m among with
      ⟨state, live, _⟩
    exact ⟨state, live⟩
  · intro closed k
    have nobody : now.memberships = [] := by
      rw [List.eq_nil_iff_forall_not_mem]
      intro key held
      rcases mem_heldBy.1 held with ⟨k, c, found, _⟩
      have shut := closed k
      rw [compartment, found] at shut
      cases shut
    constructor
    · rintro ⟨state, live⟩
      have among := refs.mem_of_live k state live
      rwa [nobody, List.append_nil] at among
    · intro among
      exact refs.live (List.mem_append_left _ among)

/-- A peer has the text of a dictionary saved: the two bytes with which the memory of the machine
begins that runs the message. -/
def sharedText : List Operation :=
  [.addAlgorithm { name := "a", code := [0] }
      ⟨fun _ context => (.ok [], context), fun _ context => context⟩,
    .addDictionary [0x1f, 0xf5] 6,
    .decompress [0xf8, 0x00, 0x81, 0x23, 0x00, 0x00, 0x02, 0x00, 0x00, 0x06, 0x00] .message,
    .declare 1024 (.fresh none)]

/-- The shared state has two uses, by the dictionary and by the peer's compartment. -/
theorem uses_of_sharedText :
    ∃ e, start {} = .ok e ∧ (e.run sharedText).memberships = [⟨1, 0⟩] ∧
      e.registrations sharedText = [⟨0, 0⟩, ⟨1, 0⟩] ∧
      (e.run sharedText).store.uses? ⟨1, 0⟩ = some 2 := by
  let e : Engine := ⟨{}, {}, .ofSettings {}, { capacity := 10 }, .ofSettings {}, {}, {}⟩
  have started : start {} = .ok e := rfl
  have course : (e.run sharedText).memberships = [⟨1, 0⟩] ∧
      e.registrations sharedText = [⟨0, 0⟩, ⟨1, 0⟩] ∧
      ((e.run sharedText).store.state? ⟨1, 0⟩).isSome = true := by
    decide +kernel
  obtain ⟨memberships, registered, there⟩ := course
  rcases Option.isSome_iff_exists.1 there with ⟨state, live⟩
  have counted := ((uses_eq_memberships_add_registrations started sharedText).1 _ state live).1
  rw [memberships, registered] at counted
  exact ⟨e, started, memberships, registered, counted⟩

/-! ## Budgets -/

/-- In every reachable engine an open compartment keeps its books: what is available and what the
members cost is the state memory of the settings, the members are no more than the settings allow
and have different identifiers and keys, and the key of each is that of a live state with the
member's identifier and length. -/
theorem compartment_books_balance (reachable : Reachable e) (opened : e.compartment k = .ok c) :
    (c.available + c.members.foldr (fun m rest => m.length + 64 + rest) 0 = c.own.stateMemory ∧
      c.own.stateMemory = e.settings.stateMemory) ∧
    c.members.length ≤ e.settings.statesPerCompartment ∧
    (c.members.map Member.id).Nodup ∧ (c.members.map Member.key).Nodup ∧
    ∀ m ∈ c.members,
      ∃ state, e.store.state? m.key = some state ∧ state.id = m.id ∧
      state.data.length = m.length := by
  rcases consistent_of_reachable reachable with ⟨pinned, consistent⟩
  rcases consistent.opened k c (compartment_eq_ok opened) with ⟨balanced, backed, own, maxStates⟩
  refine ⟨⟨balanced.budget, ?_⟩, ?_, backed.distinct, backed.nodup_keys, backed.live⟩
  · rw [own]
    rfl
  · rw [← maxStates]
    exact balanced.bounded

/-- The compartment of the peer that had two bytes saved has spent 66 on them. -/
theorem books_of_sharedText :
    ∃ e c, Reachable e ∧ e.compartment ⟨0, 0⟩ = .ok c ∧ c.members.map Member.length = [2] ∧
      c.available + 66 = 2048 := by
  let first : Engine := ⟨{}, {}, .ofSettings {}, { capacity := 10 }, .ofSettings {}, {}, {}⟩
  have reachable : Reachable (first.run sharedText) :=
    (Reachable.start (s := {}) rfl).run sharedText
  have course : ((first.run sharedText).compartments.get? ⟨0, 0⟩).map
      (fun c => (c.members.map Member.length, c.own.stateMemory)) = some ([2], 2048) := by
    decide +kernel
  rcases Option.map_eq_some_iff.1 course with ⟨c, found, same⟩
  rcases Prod.mk.inj same with ⟨lengths, memory⟩
  have opened : (first.run sharedText).compartment ⟨0, 0⟩ = .ok c := by
    rw [compartment, found]
  have budget := (compartment_books_balance reachable opened).1.1
  have cost : c.members.foldr (fun m rest => m.length + 64 + rest) 0 = 66 := by
    have each := congrArg (List.foldr (fun n rest => n + 64 + rest) 0) lengths
    rwa [List.foldr_map] at each
  rw [cost, memory] at budget
  exact ⟨_, c, reachable, opened, lengths, budget⟩

end Engine

end SigComp
