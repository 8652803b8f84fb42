import SigComp.Proofs.StoreReferences
import SigComp.Store.Operation

/-!
# Looking states up

Whatever has been done to a store, a prefix names the live state that begins with it, if
there is one, and nothing else.

* `Store.Shift`: all that an operation can do to the states: nothing, or one state is held
  once more, or one that is released is held once less.
* `sound_run`: so the index and the states agree after any history.
* `Store.Names` and `find_eq_ok_iff`, `find_eq_error_iff`: in a store where they agree,
  what a prefix is answered with.
* `stays_until_released`: a live state is what it is until a release ends it.
* `lookup_names_live_states`: all of this of any history of any store.
-/

namespace SigComp.Store

variable {s s' : Store} {k k' : Key} {state : State} {o : Operation} {partialId : Bytes}
  {ignoreAccess : Bool} {r : Error}

/-! ## Histories -/

/-- All that an operation can do to the states and the index.  Only a release can end a state. -/
inductive Shift (s : Store) : Operation → Store → Prop
  | idle {o : Operation} {s' : Store} : s'.states = s.states → s'.index = s.index → Shift s o s'
  | gains {o : Operation} {s' : Store} {k : Key} {state : State} :
    s'.Sound → Gains k state s s' → Shift s o s'
  | loses {s' : Store} {k : Key} {state : State} :
    s'.Sound → Loses k state s s' → Shift s (.release k) s'

theorem shift_perform (sound : s.Sound) (o : Operation) : Shift s o (o.perform s) := by
  have idle_reserve {o : Operation} {size tier : Nat} {s' : Store}
      (reserved : reserve size s = .ok tier s') : Shift s o s' := by
    obtain ⟨_, rfl⟩ := reserve_eq_ok reserved
    exact .idle rfl rfl
  cases o with
  | create size =>
    simp only [Operation.perform]
    cases made : Store.create size s with
    | ok d s' => exact idle_reserve (create_eq_ok made).2
    | error r s' =>
      rw [create_eq_error made]
      exact .idle rfl rfl
  | drop d => exact .idle rfl rfl
  | save d l c =>
    simp only [Operation.perform]
    cases saved : Store.save d l c s with
    | ok saved s' =>
      obtain ⟨sound, state, gains, _⟩ := save_eq_ok sound saved
      exact .gains sound gains
    | error r s' =>
      rw [save_eq_error saved]
      exact .idle rfl rfl
  | savePermanent l data =>
    simp only [Operation.perform]
    cases saved : Store.savePermanent l data s with
    | ok saved s' =>
      obtain ⟨sound, state, gains, _⟩ := savePermanent_eq_ok sound saved
      exact .gains sound gains
    | error r s' =>
      rw [savePermanent_eq_error saved]
      exact .idle rfl rfl
  | release k =>
    simp only [Operation.perform]
    cases found : s.states.get? k with
    | none =>
      have nothing : s.release k true = s := by simp only [Store.release, found]
      rw [nothing]
      exact .idle rfl rfl
    | some e =>
      have live : s.state? k = some e.state := state?_eq_some_iff.2 ⟨e, found, rfl⟩
      exact .loses (sound_release sound live) (loses_release live true)
  | allocContext size =>
    simp only [Operation.perform]
    cases lent : Store.allocContext size s with
    | ok context s' => exact idle_reserve (allocContext_eq_ok lent).2
    | error r s' =>
      rw [allocContext_eq_error lent]
      exact .idle rfl rfl
  | dropContext context => exact .idle rfl rfl
  | find partialId ignoreAccess => exact .idle rfl rfl

theorem sound_perform (sound : s.Sound) (o : Operation) : (o.perform s).Sound := by
  cases shift_perform sound o with
  | idle states index => exact sound.congr states index
  | gains after _ => exact after
  | loses after _ => exact after

theorem sound_run (sound : s.Sound) (operations : List Operation) : (s.run operations).Sound := by
  induction operations generalizing s with
  | nil => exact sound
  | cons o rest ih => exact ih (sound_perform sound o)

/-! ## Stability -/

/-- An operation leaves a live state what it is, or is the release that ends it. -/
theorem stays_or_released (sound : s.Sound) (live : s.state? k = some state) (o : Operation) :
    (o.perform s).state? k = some state ∨ (o = .release k ∧ (o.perform s).state? k = none) := by
  cases shift_perform sound o with
  | idle states _ => exact .inl ((state?_congr states).trans live)
  | gains _ gains => exact .inl (gains.stays live)
  | @loses s' k' state' _ loses =>
    by_cases same : k = k'
    · subst same
      have known := loses.before.symm.trans live
      have left := loses.state
      split at left
      · exact .inl (left.trans known)
      · exact .inr ⟨rfl, left⟩
    · exact .inl ((loses.others k same).trans live)

/-- A live state is what it is until a release ends it. -/
theorem stays_until_released (sound : s.Sound) (live : s.state? k = some state)
    (later : List Operation) :
    (s.run later).state? k = some state ∨
      ∃ front, front ++ [.release k] <+: later ∧ (s.run front).state? k = some state ∧
        (s.run (front ++ [.release k])).state? k = none := by
  induction later generalizing s with
  | nil => exact .inl live
  | cons o rest ih =>
    rcases stays_or_released sound live o with stays | ⟨rfl, ended⟩
    · rcases ih (sound_perform sound o) stays with still | ⟨front, first, before, after⟩
      · exact .inl still
      · exact .inr ⟨o :: front, List.cons_prefix_cons.2 ⟨rfl, first⟩, before, after⟩
    · exact .inr ⟨[], List.prefix_append _ rest, live, ended⟩

/-! ## What a prefix names -/

/-- A prefix that is neither too short nor too long names the live state that begins with it, unless
it is too short for that state and this is not to be ignored. -/
structure Names (s : Store) (partialId : Bytes) (ignoreAccess : Bool) (k : Key) (state : State) :
    Prop where
  length : 6 ≤ partialId.length ∧ partialId.length ≤ 20
  live : s.state? k = some state
  front : partialId <+: state.id.toBytes
  access : ignoreAccess = true ∨ state.access.toNat ≤ partialId.length

theorem isPartialLength_iff {n : Nat} : StateId.isPartialLength n = true ↔ 6 ≤ n ∧ n ≤ 20 := by
  rw [StateId.isPartialLength, Bool.and_eq_true, decide_eq_true_eq, decide_eq_true_eq]
  exact Iff.rfl

/-- A live state stands in the index under the front of each prefix that it begins with. -/
theorem Sound.get?_of_front (sound : s.Sound) (long : 6 ≤ partialId.length)
    (live : s.state? k = some state) (front : partialId <+: state.id.toBytes) :
    s.index.get? (partialId.take StateId.minPartial) = some k := by
  rw [sound.indexed]
  refine ⟨state, live, ?_⟩
  obtain ⟨rest, whole⟩ := front
  have six : StateId.minPartial ≤ partialId.length := long
  rw [StateId.indexKey, ← whole, List.take_append_of_le_length six]

/-- No two live states begin alike. -/
theorem Sound.unique {other : State} (sound : s.Sound) (here : s.state? k = some state)
    (there : s.state? k' = some other) (same : state.id.indexKey = other.id.indexKey) : k = k' := by
  have first := (sound.indexed _ k).2 ⟨state, here, same⟩
  have second := (sound.indexed _ k').2 ⟨other, there, rfl⟩
  exact Option.some.inj (first.symm.trans second)

theorem find_eq_ok_iff (sound : s.Sound) :
    s.find partialId ignoreAccess = .ok (k, state) ↔ s.Names partialId ignoreAccess k state := by
  constructor
  · intro found
    unfold find at found
    split at found
    · next length =>
      split at found
      · cases found
      · next key known =>
        split at found
        · cases found
        · next e there =>
          split at found
          · next named =>
            cases found
            rw [Bool.and_eq_true, Bool.or_eq_true, decide_eq_true_eq] at named
            exact ⟨isPartialLength_iff.1 length, state?_eq_some_iff.2 ⟨e, there, rfl⟩,
              List.isPrefixOf_iff_prefix.1 named.1, named.2⟩
          · cases found
    · cases found
  · rintro ⟨length, live, front, access⟩
    have known := sound.get?_of_front length.1 live front
    obtain ⟨e, found, rfl⟩ := state?_eq_some_iff.1 live
    have named : (partialId.isPrefixOf e.state.id.toBytes &&
        (ignoreAccess || e.state.access.toNat ≤ partialId.length)) = true := by
      rw [Bool.and_eq_true, Bool.or_eq_true, decide_eq_true_eq]
      exact ⟨List.isPrefixOf_iff_prefix.2 front, access⟩
    simp only [find, isPartialLength_iff.2 length, known, found, named, if_true]

theorem reason_of_find (refused : s.find partialId ignoreAccess = .error r) :
    if 6 ≤ partialId.length ∧ partialId.length ≤ 20 then r = .notFound
    else r = .badParam .partialIdLength := by
  unfold find at refused
  split at refused
  · next length =>
    rw [if_pos (isPartialLength_iff.1 length)]
    split at refused
    · cases refused
      rfl
    split at refused
    · cases refused
      rfl
    split at refused
    · cases refused
    · cases refused
      rfl
  · next length =>
    rw [if_neg fun fits => length (isPartialLength_iff.2 fits)]
    cases refused
    rfl

/-- A prefix that names no state is refused, for its length if that is wrong. -/
theorem find_eq_error_iff (sound : s.Sound) :
    s.find partialId ignoreAccess = .error r ↔
      (¬ ∃ k state, s.Names partialId ignoreAccess k state) ∧
        if 6 ≤ partialId.length ∧ partialId.length ≤ 20 then r = .notFound
        else r = .badParam .partialIdLength := by
  constructor
  · intro refused
    refine ⟨?_, reason_of_find refused⟩
    rintro ⟨k, state, names⟩
    rw [(find_eq_ok_iff sound).2 names] at refused
    cases refused
  · rintro ⟨nothing, reason⟩
    cases found : s.find partialId ignoreAccess with
    | ok named => exact absurd ⟨named.1, named.2, (find_eq_ok_iff sound).1 found⟩ nothing
    | error r' =>
      have other := reason_of_find found
      split at reason
      · next length =>
        rw [if_pos length] at other
        rw [reason, other]
      · next length =>
        rw [if_neg length] at other
        rw [reason, other]

/-! ## Keys and states -/

theorem map_eq_ok_iff {ε α β : Type} {x : Except ε α} {f : α → β} {b : β} :
    x.map f = .ok b ↔ ∃ a, x = .ok a ∧ f a = b := by
  cases x with
  | error r =>
    constructor
    · intro impossible
      cases impossible
    · rintro ⟨a, impossible, _⟩
      cases impossible
  | ok a =>
    constructor
    · intro same
      cases same
      exact ⟨a, rfl, rfl⟩
    · rintro ⟨_, same, rfl⟩
      cases same
      rfl

theorem map_eq_error_iff {ε α β : Type} {x : Except ε α} {f : α → β} {r : ε} :
    x.map f = .error r ↔ x = .error r := by
  cases x with
  | error r' =>
    constructor
    · intro same
      cases same
      rfl
    · intro same
      cases same
      rfl
  | ok a =>
    constructor
    · intro impossible
      cases impossible
    · intro impossible
      cases impossible

theorem findKey_eq_ok_iff (sound : s.Sound) :
    s.findKey partialId ignoreAccess = .ok k ↔ ∃ state, s.Names partialId ignoreAccess k state := by
  rw [findKey, map_eq_ok_iff]
  constructor
  · rintro ⟨⟨_, state⟩, found, rfl⟩
    exact ⟨state, (find_eq_ok_iff sound).1 found⟩
  · rintro ⟨state, names⟩
    exact ⟨(k, state), (find_eq_ok_iff sound).2 names, rfl⟩

theorem lookup_eq_ok_iff (sound : s.Sound) :
    s.lookup partialId ignoreAccess = .ok state ↔ ∃ k, s.Names partialId ignoreAccess k state := by
  rw [lookup, map_eq_ok_iff]
  constructor
  · rintro ⟨⟨k, _⟩, found, rfl⟩
    exact ⟨k, (find_eq_ok_iff sound).1 found⟩
  · rintro ⟨k, names⟩
    exact ⟨(k, state), (find_eq_ok_iff sound).2 names, rfl⟩

theorem sound_ofSettings (settings : Settings) : (ofSettings settings).Sound :=
  (referenced_ofSettings settings).sound

/-- In a store with any history, the index knows the live states and no others, and no two of them
begin alike.  A prefix is answered with the live state that it names, refused for its length, or not
found; `findKey` and `lookup` agree on that.  And a live state keeps its identifier, bytes, address,
instruction, access length and priority until a release ends it. -/
theorem lookup_names_live_states (settings : Settings) (operations : List Operation) :
    let s := (ofSettings settings).run operations
    (∀ p k, s.index.get? p = some k ↔ ∃ state, s.state? k = some state ∧ state.id.indexKey = p) ∧
    (∀ k k' state other, s.state? k = some state → s.state? k' = some other →
      state.id.indexKey = other.id.indexKey → k = k') ∧
    (∀ partialId ignoreAccess,
      (∀ k, s.findKey partialId ignoreAccess = .ok k ↔
        ∃ state, s.Names partialId ignoreAccess k state) ∧
      (∀ state, s.lookup partialId ignoreAccess = .ok state ↔
        ∃ k, s.Names partialId ignoreAccess k state) ∧
      ∀ r, (s.findKey partialId ignoreAccess = .error r ↔
          s.lookup partialId ignoreAccess = .error r) ∧
        (s.lookup partialId ignoreAccess = .error r ↔
          (¬ ∃ k state, s.Names partialId ignoreAccess k state) ∧
            if 6 ≤ partialId.length ∧ partialId.length ≤ 20 then r = .notFound
            else r = .badParam .partialIdLength)) ∧
    ∀ k state, s.state? k = some state → ∀ later,
      (s.run later).state? k = some state ∨
        ∃ front, front ++ [.release k] <+: later ∧ (s.run front).state? k = some state ∧
          (s.run (front ++ [.release k])).state? k = none := by
  intro s
  have sound : s.Sound := sound_run (sound_ofSettings settings) operations
  refine ⟨sound.indexed, fun _ _ _ _ => sound.unique, fun partialId ignoreAccess => ?_,
    fun k state live later => stays_until_released sound live later⟩
  refine ⟨fun k => findKey_eq_ok_iff sound, fun state => lookup_eq_ok_iff sound, fun r => ⟨?_, ?_⟩⟩
  · rw [findKey, lookup, map_eq_error_iff, map_eq_error_iff]
  · rw [lookup, map_eq_error_iff]
    exact find_eq_error_iff sound

/-- The slot of a released state is used again, and a prefix of six bytes is too short for the state
that is there now. -/
example :
    let id (octet : UInt8) : StateId := ⟨Vector.replicate 20 octet⟩
    let s := (ofSettings {}).run
      [.create 1, .save ⟨0, 1⟩ ⟨id 1, 0, 0, 6, 0⟩ (.ofBytes [7]), .release ⟨0, 0⟩,
        .create 1, .save ⟨0, 1⟩ ⟨id 2, 0, 0, 7, 0⟩ (.ofBytes [8])]
    (s.findKey [1, 1, 1, 1, 1, 1] true).toOption = none ∧
      (s.findKey [2, 2, 2, 2, 2, 2] true).toOption = some ⟨0, 1⟩ ∧
      (s.findKey [2, 2, 2, 2, 2, 2] false).toOption = none := by
  decide +kernel

end SigComp.Store
