import SigComp.Proofs.EngineMoves

/-!
# Operations keep engines consistent

Whatever an operation of an engine answers, or whatever it is refused for, it leaves a
consistent engine behind.

* `Engine.Spares pinned mine`: what becomes of an engine by moves: it is consistent, and
  neither the states of `pinned` nor other compartments than those of `mine` and their
  states have changed.
* `spares_move`, one case for each kind of move, and `spares_moves`.
* `Engine.Registration` and `registration_perform`: all that can come of a registration.
* `Consistent.pin`: what is saved for good is pinned from then on.
-/

namespace SigComp.Engine

open Compartment (SameBooks)
open Store (Keeps)

variable {e e' e'' : Engine} {k : Key} {c : Compartment} {s : Store} {pinned : List Key}
  {mine : Key → Prop}

/-! ## Machines that wait -/

/-- Some of the machines that waited still wait. -/
structure Fewer (before after : Arena Suspended) : Prop where
  tidy : after.Tidy
  stay : ∀ k w, after.get? k = some w → before.get? k = some w

theorem fewer_erase {machines : Arena Suspended} (tidy : machines.Tidy) (k : Key) :
    Fewer machines (machines.erase k) := by
  refine ⟨tidy.erase k, fun k' w found => ?_⟩
  rw [Arena.get?_erase] at found
  split at found
  · cases found
  · exact found

theorem fewer_reapFrom (now : Nat) (deadlines : List (Key × Nat)) {machines : Arena Suspended}
    (tidy : machines.Tidy) : Fewer machines (Pending.reapFrom now deadlines machines).2.1 := by
  induction deadlines generalizing machines with
  | nil => exact ⟨tidy, fun _ _ found => found⟩
  | cons first rest ih =>
    obtain ⟨k, deadline⟩ := first
    simp only [Pending.reapFrom]
    split
    · exact ⟨tidy, fun _ _ found => found⟩
    · have one := fewer_erase tidy k
      have others := ih one.tidy
      exact ⟨others.tidy, fun k' w found => one.stay k' w (others.stay k' w found)⟩

theorem claim_eq_ok {p p' : Pending} {id : MachineId} {w : Suspended} (tidy : p.machines.Tidy)
    (h : p.claim id = .ok (w, p')) :
    Fewer p.machines p'.machines ∧ ∃ k, p.machines.get? k = some w := by
  unfold Pending.claim at h
  split at h
  · cases h
  split at h
  · cases h
  · next k s found =>
    split at h
    · cases h
      exact ⟨fewer_erase tidy k, k, (Arena.getSlot?_eq_some_iff.1 found).2⟩
    · cases h

theorem Consistent.fewer {p : Pending} (consistent : Consistent pinned e)
    (fewer : Fewer e.pending.machines p.machines) : Consistent pinned { e with pending := p } :=
  consistent.withPending fewer.tidy fun k w found => consistent.lawful k w (fewer.stay k w found)

theorem Consistent.reap (consistent : Consistent pinned e) : Consistent pinned e.reap :=
  (consistent.fewer (fewer_reapFrom e.clock.now e.pending.deadlines consistent.waiting)).warned _

theorem Consistent.suspend {m : Machine} {feedback : Option Bytes} {deadline : Nat} {id : MachineId}
    {p : Pending} (consistent : Consistent pinned e) (lawful : m.requests.Lawful)
    (suspended : e.pending.suspend m feedback deadline = some (id, p)) :
    Consistent pinned { e with pending := p } := by
  rcases Option.map_eq_some_iff.1 suspended with ⟨⟨k, machines⟩, inserted, named⟩
  cases named
  rcases Arena.insert?_eq_some consistent.waiting inserted with ⟨tidy, _, view⟩
  refine consistent.withPending (tidy.modify k _) fun k' w found => ?_
  rw [Arena.get?_modify] at found
  split at found
  · rw [view, if_pos rfl] at found
    cases found
    exact lawful
  · next other =>
    rw [view, if_neg other] at found
    exact consistent.lawful k' w found

/-! ## Moves -/

/-- A state is held by a compartment that is not to be changed. -/
def HeldElsewhere (mine : Key → Prop) (e : Engine) (key : Key) : Prop :=
  ∃ k c, ¬ mine k ∧ e.compartments.get? k = some c ∧ key ∈ c.keys

/-- The second engine is consistent, and what was not to be changed is as it is in the first. -/
structure Spares (pinned : List Key) (mine : Key → Prop) (e e' : Engine) : Prop where
  consistent : Consistent pinned e'
  bystanders : ∀ k, ¬ mine k → e'.compartments.get? k = e.compartments.get? k
  keeps : ∀ key, key ∈ pinned ∨ HeldElsewhere mine e key → e'.store.state? key = e.store.state? key
  catalogue : e'.catalogue = e.catalogue
  settings : e'.settings = e.settings

theorem Spares.refl (consistent : Consistent pinned e) : Spares pinned mine e e :=
  ⟨consistent, fun _ _ => rfl, fun _ _ => rfl, rfl, rfl⟩

theorem Spares.trans (first : Spares pinned mine e e') (second : Spares pinned mine e' e'') :
    Spares pinned mine e e'' := by
  refine ⟨second.consistent, fun k other => ?_, fun key among => ?_,
    second.catalogue.trans first.catalogue, second.settings.trans first.settings⟩
  · rw [second.bystanders k other, first.bystanders k other]
  · rw [second.keeps key ?_, first.keeps key among]
    rcases among with pinned | ⟨k, c, other, found, held⟩
    · exact .inl pinned
    · exact .inr ⟨k, c, other, (first.bystanders k other).trans found, held⟩

/-- What is done for one compartment spares the others. -/
theorem Consistent.spares (after : Consistent pinned e') (here : mine k)
    (others : ∀ k', k' ≠ k → e'.compartments.get? k' = e.compartments.get? k')
    (keeps : Keeps (pinned ++ heldBy (e.compartments.erase k)) e.store e'.store)
    (catalogue : e'.catalogue = e.catalogue) (settings : e'.settings = e.settings) :
    Spares pinned mine e e' := by
  refine ⟨after, fun k' other => others k' ?_, fun key among => keeps key ?_, catalogue, settings⟩
  · rintro rfl
    exact other here
  · rcases among with pinned | ⟨k', c, other, found, held⟩
    · exact List.mem_append_left _ pinned
    · refine List.mem_append_right _ (mem_heldBy.2 ⟨k', c, ?_, held⟩)
      rw [Arena.get?_erase, if_neg, found]
      rintro rfl
      exact other here

/-- What is no matter of compartments and states spares all of them. -/
theorem Consistent.sparesAll (after : Consistent pinned e')
    (compartments : e'.compartments = e.compartments)
    (states : e'.store.states = e.store.states) (catalogue : e'.catalogue = e.catalogue)
    (settings : e'.settings = e.settings) : Spares pinned mine e e' :=
  ⟨after, fun _ _ => by rw [compartments], fun _ _ => Store.state?_congr states, catalogue,
    settings⟩

theorem Consistent.close (consistent : Consistent pinned e)
    (found : e.compartments.get? k = some c) (here : mine k) :
    Spares pinned mine e
      { e with compartments := e.compartments.erase k, store := c.releaseAll e.store } := by
  rcases c.referenced_releaseAll (consistent.focus found).referenced with ⟨released, keeps⟩
  have after : Consistent pinned
      { e with compartments := e.compartments.erase k, store := c.releaseAll e.store } := by
    refine ⟨consistent.tidy.erase k, released, fun k' c' found' => ?_, consistent.waiting,
      consistent.lawful, consistent.allowed⟩
    simp only [Arena.get?_erase] at found'
    split at found'
    · cases found'
    · next other => exact consistent.bystander keeps found' other
  exact after.spares here (fun k' other => (Arena.get?_erase _ k k').trans (if_neg other)) keeps
    rfl rfl

theorem spares_move (consistent : Consistent pinned e) (move : Move mine e e') :
    Spares pinned mine e e' := by
  cases move with
  | noted settings store compartments pending catalogue =>
    have after := consistent.congr settings store compartments pending
    exact after.sparesAll compartments (by rw [store]) catalogue settings
  | buffered states index =>
    exact (consistent.withStore states index).sparesAll rfl states rfl rfl
  | reaped => exact consistent.reap.sparesAll rfl rfl rfl rfl
  | suspended lawful suspended =>
    exact (consistent.suspend lawful suspended).sparesAll rfl rfl rfl rfl
  | discarded claimed =>
    have fewer := (claim_eq_ok consistent.waiting claimed).1
    exact (consistent.fewer fewer).sparesAll rfl rfl rfl rfl
  | @settled k c c' id w p s warnings here found claimed settled =>
    rcases claim_eq_ok consistent.waiting claimed with ⟨fewer, key, waited⟩
    have lawful := consistent.lawful key w waited
    have carries :=
      Compartment.carries_settle (consistent.focus found) lawful e.clock.now w.feedback
    rw [settled] at carries
    have after := (consistent.fewer fewer).putBack found carries
    exact after.spares here (fun k' other => (Arena.get?_put found c').trans (if_neg other))
      carries.keeps rfl rfl
  | @opened k c compartments here inserted empty available own maxStates =>
    have after := consistent.openNew inserted empty available own maxStates
    obtain ⟨_, _, view⟩ := Arena.insert?_eq_some consistent.tidy inserted
    exact after.spares here (fun k' other => (view k').trans (if_neg other)) (.refl _ _) rfl rfl
  | @amended k c c' here found same =>
    exact (consistent.putSame found same).spares here
      (fun k' other => (Arena.get?_put found c').trans (if_neg other)) (.refl _ _) rfl rfl
  | closed here found => exact consistent.close found here

theorem spares_moves (consistent : Consistent pinned e) (moves : Moves mine e e') :
    Spares pinned mine e e' := by
  induction moves with
  | refl => exact .refl consistent
  | tail _ move ih => exact ih.trans (spares_move ih.consistent move)

/-- The compartments that an operation may change: the one that it is addressed to, and those that
are not open yet. -/
def Concerns (o : Operation) (e : Engine) (k : Key) : Prop :=
  o.addressee? = some k ∨ e.compartments.get? k = none

/-- An operation that registers nothing spares all compartments that it does not concern. -/
theorem spares_perform (consistent : Consistent pinned e) {o : Operation}
    (ordinary : o.registers = false) : Spares pinned (Concerns o e) e (after (o.perform e)) := by
  have moving : Moving (Concerns o e) e (o.perform e) :=
    moves_perform consistent.tidy ordinary fun _ among => among
  exact spares_moves consistent moving.after

/-! ## Registration -/

/-- The number of algorithms and dictionaries. -/
def entries (e : Engine) : Nat := e.catalogue.algorithms.length + e.catalogue.dictionaries.length

/-- The engine after an algorithm has been added, with the store that holds its bytecode. -/
def algorithmAdded (e : Engine) (d : Descriptor) (compressor : Compressor) (s : Store) : Engine :=
  ({ e with store := s }.withAlgorithm ⟨d, compressor⟩).called (.initialized d.name)

/-- The engine after a dictionary has been added, with the store that holds its text. -/
def dictionaryAdded (e : Engine) (d : Dictionary) (s : Store) : Engine :=
  { e with store := s }.withDictionary d

theorem entries_algorithmAdded (e : Engine) (d : Descriptor) (compressor : Compressor) (s : Store) :
    (e.algorithmAdded d compressor s).entries = e.entries + 1 := by
  simp only [entries, algorithmAdded, withAlgorithm, called, List.length_append,
    List.length_singleton]
  omega

theorem entries_dictionaryAdded (e : Engine) (d : Dictionary) (s : Store) :
    (e.dictionaryAdded d s).entries = e.entries + 1 := by
  simp only [entries, dictionaryAdded, withDictionary, List.length_append, List.length_singleton]
  omega

/-- All that can come of a registration. -/
inductive Registration (e : Engine) : Operation → EStateM.Result Error Engine Answer → Prop
  | refused (o : Operation) (r : Error) : Registration e o (.error r e)
  | known {d : Descriptor} {compressor : Compressor} {a : Algorithm} :
    e.catalogue.find? d.name = some a →
    Registration e (.addAlgorithm d compressor) (.ok (.registered a.descriptor.codeId) e)
  | algorithm {d : Descriptor} {compressor : Compressor} {saved : Saved} {s : Store} :
    e.catalogue.find? d.name = none →
    Store.savePermanent d.codeLabel d.code e.store = .ok saved s →
    Registration e (.addAlgorithm d compressor)
      (.ok (.registered d.codeId) (e.algorithmAdded d compressor s))
  | dictionary {data : Bytes} {access : UInt16} {saved : Saved} {s : Store} :
    Store.savePermanent (Dictionary.ofData data access).label data e.store = .ok saved s →
    Registration e (.addDictionary data access)
      (.ok (.registered (Dictionary.ofData data access).id)
        (e.dictionaryAdded (Dictionary.ofData data access) s))

theorem registration_addAlgorithm (d : Descriptor) (compressor : Compressor) (e : Engine) :
    Registration e (.addAlgorithm d compressor)
      (Operation.perform (.addAlgorithm d compressor) e) := by
  simp only [Operation.perform, Functor.map, EStateM.map, addAlgorithm, onStore]
  by_cases nameless : d.name.isEmpty = true
  · rw [if_pos nameless]
    exact .refused _ _
  rw [if_neg nameless]
  cases found : e.catalogue.find? d.name with
  | some a => exact .known found
  | none =>
    simp only []
    by_cases full : Settings.maxAlgorithms ≤ e.catalogue.algorithms.length
    · rw [if_pos full]
      exact .refused _ _
    rw [if_neg full]
    by_cases empty : d.code.isEmpty = true
    · rw [if_pos empty]
      exact .refused _ _
    rw [if_neg empty]
    cases done : Store.savePermanent d.codeLabel d.code e.store with
    | ok saved s => exact .algorithm found done
    | error r s =>
      rw [Store.savePermanent_eq_error done]
      exact .refused _ r

theorem registration_addDictionary (data : Bytes) (access : UInt16) (e : Engine) :
    Registration e (.addDictionary data access)
      (Operation.perform (.addDictionary data access) e) := by
  simp only [Operation.perform, Functor.map, EStateM.map, addDictionary, onStore]
  by_cases length : data.isEmpty = true ∨ maxDictionaryLength < data.length
  · rw [if_pos length]
    exact .refused _ _
  rw [if_neg length]
  by_cases full : Settings.maxDictionaries ≤ e.catalogue.dictionaries.length
  · rw [if_pos full]
    exact .refused _ _
  rw [if_neg full]
  cases done : Store.savePermanent (Dictionary.ofData data access).label data e.store with
  | ok saved s => exact .dictionary done
  | error r s =>
    rw [Store.savePermanent_eq_error done]
    exact .refused _ r

theorem registration_perform {o : Operation} (registers : o.registers = true) (e : Engine) :
    Registration e o (o.perform e) := by
  cases o with
  | addAlgorithm d compressor => exact registration_addAlgorithm d compressor e
  | addDictionary data access => exact registration_addDictionary data access e
  | _ => cases registers

theorem compartments_of_registers {o : Operation} (registers : o.registers = true) (e : Engine) :
    (after (o.perform e)).compartments = e.compartments := by
  have outcome := registration_perform registers e
  generalize o.perform e = result at outcome
  cases outcome <;> rfl

/-- A state that is saved for good is pinned from then on, under the key that its identifier is
answered with. -/
structure Pins (pinned : List Key) (e : Engine) (l : Label) (data : Bytes) (key : Key) (s : Store) :
    Prop where
  consistent : Consistent (pinned ++ [key]) { e with store := s }
  keeps : Keeps pinned e.store s
  found : s.findKey l.id.toBytes true = .ok key
  state : ∃ state, s.state? key = some state ∧ state.id = l.id ∧ state.data = data

theorem Consistent.pin {l : Label} {data : Bytes} {saved : Saved} (consistent : Consistent pinned e)
    (done : Store.savePermanent l data e.store = .ok saved s) :
    Pins pinned e l data saved.key s := by
  obtain ⟨tidy, referenced, opened, waiting, lawful, allowed⟩ := consistent
  rcases Store.savePermanent_eq_ok referenced.sound done with
    ⟨sound, state, gains, named, bytes, _⟩
  have keeps := referenced.keeps_of_gains gains
  refine ⟨⟨tidy, referenced.pin sound gains, fun k c found => ?_, waiting, lawful, allowed⟩, ?_, ?_,
    state, gains.state, named, bytes⟩
  · rcases opened k c found with ⟨balanced, backed, own, maxStates⟩
    refine ⟨balanced, backed.fewer (.refl _) (keeps.mono ?_), own, maxStates⟩
    intro key among
    exact List.mem_append_right _ (mem_heldBy.2 ⟨k, c, found, among⟩)
  · exact keeps.mono fun key among => List.mem_append_left _ among
  · rw [← named]
    exact sound.findKey gains.state

end SigComp.Engine
