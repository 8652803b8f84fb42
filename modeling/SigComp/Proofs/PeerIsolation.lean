import SigComp.Proofs.RegisteredStates

/-!
# Isolation of peers

The compartments of all peers share one store, and yet nothing that is done for one peer
is noticed by another.

* `Engine.Undisturbed k c`: the compartment under `k` is `c` still, and the states of its
  members are what they were.
* `undisturbed_perform`: this is so after any operation that is not addressed to it, and
  `undisturbed_run`: after any number of them.
* `peers_are_isolated`: so its members are found as before, by their full identifiers and
  under the same keys, whoever else has saved, freed or given up the same states.
-/

namespace SigComp.Engine

open Store (Keeps)

variable {e e' : Engine} {k : Key} {c : Compartment} {m : Member} {pinned : List Key}

/-! ## Bystanders -/

/-- The compartment is the same, in all that is recorded of it, and so are the states that it
holds. -/
structure Undisturbed (k : Key) (c : Compartment) (e e' : Engine) : Prop where
  same : e'.compartments.get? k = some c
  keeps : Keeps c.keys e.store e'.store

theorem Undisturbed.trans {e'' : Engine} (first : Undisturbed k c e e')
    (second : Undisturbed k c e' e'') : Undisturbed k c e e'' :=
  ⟨second.same, first.keeps.trans second.keeps⟩

/-- What compartments hold is not changed by what is saved for good. -/
theorem keeps_of_savePermanent {l : Label} {data : Bytes} {saved : Saved} {s : Store}
    (consistent : Consistent pinned e) (found : e.compartments.get? k = some c)
    (done : Store.savePermanent l data e.store = .ok saved s) : Keeps c.keys e.store s := by
  obtain ⟨_, state, gains, _⟩ := Store.savePermanent_eq_ok consistent.referenced.sound done
  refine (consistent.referenced.keeps_of_gains gains).mono fun key among => ?_
  exact List.mem_append_right _ (mem_heldBy.2 ⟨k, c, found, among⟩)

theorem undisturbed_registration (consistent : Consistent pinned e)
    (found : e.compartments.get? k = some c) {o : Operation} (registers : o.registers = true) :
    Undisturbed k c e (after (o.perform e)) := by
  have outcome := registration_perform registers e
  generalize o.perform e = result at outcome
  cases outcome with
  | refused o r => exact ⟨found, .refl _ _⟩
  | known _ => exact ⟨found, .refl _ _⟩
  | algorithm _ done => exact ⟨found, keeps_of_savePermanent consistent found done⟩
  | dictionary done => exact ⟨found, keeps_of_savePermanent consistent found done⟩

/-- An operation that is addressed to another compartment, or to none, leaves an open compartment
and its states as they are. -/
theorem undisturbed_perform (consistent : Consistent pinned e)
    (found : e.compartments.get? k = some c) {o : Operation} (other : o.addressee? ≠ some k) :
    Undisturbed k c e (after (o.perform e)) := by
  cases ordinary : o.registers with
  | true => exact undisturbed_registration consistent found ordinary
  | false =>
    have spares := spares_perform consistent ordinary
    have bystander : ¬ Concerns o e k := by
      rintro (addressed | vacant)
      · exact other addressed
      · rw [found] at vacant
        cases vacant
    refine ⟨(spares.bystanders k bystander).trans found, fun key held => ?_⟩
    exact spares.keeps key (.inr ⟨k, c, bystander, found, held⟩)

theorem undisturbed_run (consistent : Consistent pinned e) (found : e.compartments.get? k = some c)
    {operations : List Operation} (others : ∀ o ∈ operations, o.addressee? ≠ some k) :
    Undisturbed k c e (e.run operations) := by
  induction operations generalizing e pinned with
  | nil => exact ⟨found, .refl _ _⟩
  | cons o rest ih =>
    have first := undisturbed_perform consistent found (others o List.mem_cons_self)
    refine first.trans (ih (consistent_perform consistent o) first.same fun other among => ?_)
    exact others other (List.mem_cons_of_mem o among)

/-! ## Members and their identifiers -/

/-- The states of a reachable engine are consistent and honest. -/
theorem stocked_of_reachable (reachable : Reachable e) : ∃ pinned, Stocked pinned e := by
  obtain ⟨settings, first, operations, started, rfl⟩ := reachable_iff_run.1 reachable
  exact ⟨_, (stocked_run (stocked_of_start started) operations).stocked⟩

/-- A live state is found by its full identifier, whatever the access length. -/
theorem Stocked.find {key : Key} {state : State} (stocked : Stocked pinned e)
    (live : e.store.state? key = some state) (ignoreAccess : Bool) :
    e.store.find state.id.toBytes ignoreAccess = .ok (key, state) := by
  have whole : state.id.toBytes.length = 20 := StateId.length_toBytes _
  have access := Store.isPartialLength_iff.1 (stocked.honest key state live).access
  refine (Store.find_eq_ok_iff stocked.consistent.referenced.sound).2
    ⟨?_, live, List.prefix_refl _, .inr ?_⟩
  · rw [whole]
    decide
  · rw [whole]
    exact access.2

/-- Whatever is done without being addressed to a compartment, be it messages, declarations for
others with all that these save, give up and free, or the closing of others: the compartment stays
open with everything that is recorded of it, and each of its members is found by its full identifier
as before, under the same key and with the same bytes, address, instruction and access length. -/
theorem peers_are_isolated (reachable : Reachable e) (opened : e.compartment k = .ok c)
    (operations : List Operation) (others : ∀ o ∈ operations, o.addressee? ≠ some k) :
    (e.run operations).compartment k = .ok c ∧
    ∀ m ∈ c.members, ∃ state, state.id = m.id ∧ state.data.length = m.length ∧
      ∀ ignoreAccess, e.store.find m.id.toBytes ignoreAccess = .ok (m.key, state) ∧
        (e.run operations).store.find m.id.toBytes ignoreAccess = .ok (m.key, state) := by
  obtain ⟨_, stocked⟩ := stocked_of_reachable reachable
  obtain ⟨_, later⟩ := stocked_of_reachable (reachable.run operations)
  have found := compartment_eq_ok opened
  have undisturbed := undisturbed_run stocked.consistent found others
  refine ⟨compartment_of_get? undisturbed.same, fun m among => ?_⟩
  obtain ⟨state, live, named, length⟩ := (stocked.consistent.opened k c found).backed.live m among
  have stays : (e.run operations).store.state? m.key = some state :=
    (undisturbed.keeps m.key (List.mem_map_of_mem among)).trans live
  refine ⟨state, named, length, fun ignoreAccess => ?_⟩
  rw [← named]
  exact ⟨stocked.find live ignoreAccess, later.find stays ignoreAccess⟩

/-- Two peers have the same two bytes saved. -/
def twinPeers : List Operation :=
  [.addAlgorithm { name := "a", code := [0] }
      ⟨fun _ context => (.ok [], context), fun _ context => context⟩,
    .decompress [0xf8, 0x00, 0x81, 0x23, 0x00, 0x00, 0x02, 0x00, 0x00, 0x06, 0x00] .message,
    .declare 1024 (.fresh none),
    .decompress [0xf8, 0x00, 0x81, 0x23, 0x00, 0x00, 0x02, 0x00, 0x00, 0x06, 0x00] .message,
    .declare 2048 (.fresh none)]

/-- The first peer has the state freed that it shares with the second, and its compartment is
closed. -/
def firstPeerLeaves : List Operation :=
  [.decompress [0xf8, 0x01, 0x21, 0x21, 0xa0, 0x8c, 0x06, 0x23, 0x00, 0x00, 0x00, 0x00, 0x00, 0x00,
      0x00, 0xa7, 0x17, 0xfa, 0x31, 0x28, 0xac] .message,
    .declare 3072 (.existing ⟨0, 0⟩), .close ⟨0, 0⟩]

/-- The second peer's state outlasts the first peer's request to free it, which takes the state from
the first peer's compartment. -/
theorem second_peer_keeps_state :
    ∃ e c m, Reachable e ∧ e.memberships = [⟨1, 0⟩, ⟨1, 0⟩] ∧
      (e.run (firstPeerLeaves.take 2)).memberships = [⟨1, 0⟩] ∧
      e.compartment ⟨1, 0⟩ = .ok c ∧ (e.run firstPeerLeaves).compartment ⟨1, 0⟩ = .ok c ∧
      c.members = [m] ∧ m.key = ⟨1, 0⟩ ∧ ∃ state, state.data.length = m.length ∧
        (e.run firstPeerLeaves).store.find m.id.toBytes true = .ok (⟨1, 0⟩, state) := by
  let first : Engine := ⟨{}, {}, .ofSettings {}, { capacity := 10 }, .ofSettings {}, {}, {}⟩
  let e := first.run twinPeers
  have reachable : Reachable e := (Reachable.start (s := {}) rfl).run twinPeers
  have course : e.memberships = [⟨1, 0⟩, ⟨1, 0⟩] ∧
      (e.run (firstPeerLeaves.take 2)).memberships = [⟨1, 0⟩] ∧
      (e.compartments.get? ⟨1, 0⟩).map (fun c => c.members.map Member.key) = some [⟨1, 0⟩] := by
    decide +kernel
  obtain ⟨shared, freed, held⟩ := course
  obtain ⟨c, found, keys⟩ := Option.map_eq_some_iff.1 held
  obtain ⟨m, members, key⟩ := List.map_eq_singleton_iff.1 keys
  have opened : e.compartment ⟨1, 0⟩ = .ok c := compartment_of_get? found
  have others : ∀ o ∈ firstPeerLeaves, o.addressee? ≠ some ⟨1, 0⟩ := by
    simp [firstPeerLeaves, Operation.addressee?]
  obtain ⟨stays, each⟩ := peers_are_isolated reachable opened firstPeerLeaves others
  obtain ⟨state, _, length, finds⟩ := each m (members ▸ List.mem_singleton_self m)
  refine ⟨e, c, m, reachable, shared, freed, opened, stays, members, key, state, length, ?_⟩
  exact key ▸ (finds true).2

end SigComp.Engine
