import SigComp.Proofs.ArenaView
import SigComp.Store.Basic

/-!
# References to states

Who holds a state, and what an operation of the store does to the others.

* `Store.Sound`: the index knows exactly the live states, each under its own prefix.
* `Store.Gains` and `Store.Loses`: all that saving and releasing do to the states, key
  by key.  Everything below is derived from these two.
* `Store.Referenced pinned held`: every use of a live state is one of the references
  `pinned ++ held`, and only a pinned state is permanent.  A reference in `pinned` is
  never given up; those in `held` may be.
* `Store.Keeps`: the states under some keys stay what they are.
-/

namespace SigComp.Store

variable {s s' s'' : Store} {k k' : Key} {state : State} {l : Label} {c : Content} {d : Draft}
  {saved : Saved} {pinned held : List Key}

/-! ## Views -/

/-- How many hold the state under a key; nobody holds what is not there. -/
def useCount (s : Store) (k : Key) : Nat := (s.uses? k).getD 0

theorem state?_eq_some_iff :
    s.state? k = some state ↔ ∃ e, s.states.get? k = some e ∧ e.state = state :=
  Option.map_eq_some_iff

theorem uses?_eq_useCount (live : s.state? k = some state) : s.uses? k = some (s.useCount k) := by
  obtain ⟨e, found, _⟩ := state?_eq_some_iff.1 live
  simp [useCount, uses?, found]

theorem exists_state_of_useCount (held : 0 < s.useCount k) : ∃ state, s.state? k = some state := by
  unfold useCount uses? at held
  cases found : s.states.get? k with
  | none => simp [found] at held
  | some e => exact ⟨e.state, state?_eq_some_iff.2 ⟨e, found, rfl⟩⟩

theorem useCount_eq_zero (vacant : s.states.get? k = none) : s.useCount k = 0 := by
  simp [useCount, uses?, vacant]

theorem state?_congr (same : s'.states = s.states) : s'.state? k = s.state? k := by
  unfold state?
  rw [same]

theorem useCount_congr (same : s'.states = s.states) : s'.useCount k = s.useCount k := by
  unfold useCount uses?
  rw [same]

/-! ## Buffers -/

/-- A buffer that is taken and given back is not in use, whatever the peak was. -/
theorem inUse_giveBack_take (tiers : List Tier) (i : Nat) :
    ((tiers.modify i Tier.take).modify i Tier.giveBack).map Tier.inUse = tiers.map Tier.inUse := by
  apply List.ext_getElem?
  intro j
  simp only [List.getElem?_map, List.getElem?_modify]
  cases tiers[j]? with
  | none => rfl
  | some t =>
    by_cases same : i = j
    · simp [same, Tier.take, Tier.giveBack]
    · simp [same]

@[simp] theorem index_giveBack (s : Store) (tier : Nat) : (s.giveBack tier).index = s.index := rfl

theorem reserve_eq_ok {size tier : Nat} (h : reserve size s = .ok tier s') :
    tier < s.tiers.length ∧ s' = { s with tiers := s.tiers.modify tier Tier.take } := by
  unfold reserve Tier.reserve at h
  split at h
  · next i tiers reserved =>
    cases h
    split at reserved
    · cases reserved
    split at reserved
    · next first =>
      cases reserved
      exact ⟨(List.findIdx?_eq_some_iff_getElem.1 first).1, rfl⟩
    · cases reserved
  · cases h

/-- A buffer that comes back is not in use. -/
theorem inUse_giveBack_of_reserve {size tier : Nat} (reserved : reserve size s = .ok tier s') :
    (s'.giveBack tier).tiers.map Tier.inUse = s.tiers.map Tier.inUse := by
  obtain ⟨_, rfl⟩ := reserve_eq_ok reserved
  exact inUse_giveBack_take s.tiers tier

/-- A buffer that cannot be had takes nothing from the others. -/
theorem reserve_eq_error {size : Nat} {r : Error} (h : reserve size s = .error r s') : s' = s := by
  unfold reserve Tier.reserve at h
  split at h
  · cases h
  · next refused =>
    cases h
    split at refused
    · cases refused
      rfl
    split at refused
    · cases refused
    · cases refused
      rfl

theorem create_eq_ok {size : Nat} (h : create size s = .ok d s') :
    d.size = size ∧ reserve size s = .ok d.tier s' := by
  unfold create at h
  simp only [bind, EStateM.bind] at h
  split at h
  · next reserved =>
    cases h
    exact ⟨rfl, reserved⟩
  · cases h

theorem create_eq_error {size : Nat} {r : Error} (h : create size s = .error r s') : s' = s := by
  unfold create at h
  simp only [bind, EStateM.bind] at h
  split at h
  · cases h
  · next refused =>
    cases h
    exact reserve_eq_error refused

theorem allocContext_eq_ok {size : Nat} {context : Context}
    (h : allocContext size s = .ok context s') :
    context.bytes = List.replicate size 0 ∧ reserve size s = .ok context.tier s' := by
  unfold allocContext at h
  simp only [bind, EStateM.bind] at h
  split at h
  · next reserved =>
    cases h
    exact ⟨rfl, reserved⟩
  · cases h

theorem allocContext_eq_error {size : Nat} {r : Error} (h : allocContext size s = .error r s') :
    s' = s := by
  unfold allocContext at h
  simp only [bind, EStateM.bind] at h
  split at h
  · cases h
  · next refused =>
    cases h
    exact reserve_eq_error refused

/-! ## The index -/

/-- The arena of states is in order, and a prefix stands in the index for the live state that begins
with it. -/
structure Sound (s : Store) : Prop where
  tidy : s.states.Tidy
  indexed :
    ∀ p k, s.index.get? p = some k ↔ ∃ state, s.state? k = some state ∧ state.id.indexKey = p

theorem Sound.of_same (sound : s.Sound) (tidy : s'.states.Tidy) (index : s'.index = s.index)
    (same : ∀ k, s'.state? k = s.state? k) : s'.Sound := by
  refine ⟨tidy, fun p k => ?_⟩
  rw [index, sound.indexed, same]

theorem Sound.congr (sound : s.Sound) (states : s'.states = s.states) (index : s'.index = s.index) :
    s'.Sound :=
  sound.of_same (states ▸ sound.tidy) index fun _ => state?_congr states

/-- A full identifier finds the state that has it. -/
theorem Sound.findKey (sound : s.Sound) (live : s.state? k = some state) :
    s.findKey state.id.toBytes true = .ok k := by
  have known : s.index.get? (state.id.toBytes.take StateId.minPartial) = some k :=
    (sound.indexed _ k).2 ⟨state, live, rfl⟩
  obtain ⟨e, found, rfl⟩ := state?_eq_some_iff.1 live
  have whole : StateId.isPartialLength e.state.id.toBytes.length = true := by
    rw [StateId.length_toBytes]
    rfl
  have itself : e.state.id.toBytes.isPrefixOf e.state.id.toBytes = true :=
    List.isPrefixOf_iff_prefix.2 (List.prefix_refl _)
  simp only [Store.findKey, find, whole, known, found, itself, if_true, Bool.true_or, Bool.and_self]
  rfl

/-! ## Saving -/

/-- The state under `k` is held once more, or for the first time, and is `state`; nothing else has
changed. -/
structure Gains (k : Key) (state : State) (s s' : Store) : Prop where
  before : s.state? k = none ∨ s.state? k = some state
  state : s'.state? k = some state
  others : ∀ k', k' ≠ k → s'.state? k' = s.state? k'
  uses : ∀ k', s'.useCount k' = s.useCount k' + if k' = k then 1 else 0

/-- A live state stays when one is saved, that one or another. -/
theorem Gains.stays {other : State} (gains : Gains k state s s') (live : s.state? k' = some other) :
    s'.state? k' = some other := by
  by_cases same : k' = k
  · subst same
    rcases gains.before with absent | present
    · rw [absent] at live
      cases live
    · rw [gains.state, ← present, live]
  · rw [gains.others k' same, live]

theorem gains_retain (live : s.state? k = some state) : Gains k state s (s.retain k) := by
  obtain ⟨e, found, rfl⟩ := state?_eq_some_iff.1 live
  have view : ∀ k', (s.retain k).states.get? k' =
      if k' = k then some { e with uses := e.uses + 1 } else s.states.get? k' := by
    intro k'
    simp only [retain, Arena.get?_modify, found, Option.map_some]
  refine ⟨.inr live, ?_, ?_, ?_⟩
  · simp [state?, view]
  · intro k' other
    simp [state?, view, other]
  · intro k'
    by_cases same : k' = k
    · subst same
      simp [useCount, uses?, view, found]
    · simp [useCount, uses?, view, same]

theorem sound_retain (sound : s.Sound) (live : s.state? k = some state) : (s.retain k).Sound := by
  have gains := gains_retain live
  refine sound.of_same (sound.tidy.modify k _) rfl fun k' => ?_
  by_cases here : k' = k
  · rw [here, gains.state, live]
  · exact gains.others k' here

/-- A new state stands under a key under which there was none. -/
theorem gains_insert {tier : Option Nat} (sound : s.Sound)
    (fresh : s.index.get? state.id.indexKey = none) (h : s.insert? state tier = some (k, s')) :
    s'.Sound ∧ Gains k state s s' ∧ s.state? k = none := by
  obtain ⟨⟨k₀, states⟩, inserted, h⟩ := Option.map_eq_some_iff.1 h
  cases h
  obtain ⟨tidy, vacant, view⟩ := Arena.insert?_eq_some sound.tidy inserted
  have before : s.state? k = none := by simp [state?, vacant]
  have gains : Gains k state s { s with
      states, index := s.index.insert state.id.indexKey k,
      indexPeak := max s.indexPeak (s.index.insert state.id.indexKey k).size } := by
    refine ⟨.inl before, ?_, ?_, ?_⟩
    · simp [state?, view]
    · intro k' other
      simp [state?, view, other]
    · intro k'
      by_cases same : k' = k
      · subst same
        simp [useCount, uses?, view, vacant]
      · simp [useCount, uses?, view, same]
  refine ⟨⟨tidy, fun p k' => ?_⟩, gains, before⟩
  -- the prefix of the new state was in the index for nobody, so it belongs to no other live state
  by_cases prefixed : p = state.id.indexKey
  · subst prefixed
    have only : ∀ k' other, s.state? k' = some other → other.id.indexKey ≠ state.id.indexKey := by
      intro k' other live same
      have known := (sound.indexed _ k').2 ⟨other, live, same⟩
      rw [fresh] at known
      cases known
    rw [Index.get?_insert_self, Option.some.injEq]
    constructor
    · rintro rfl
      exact ⟨state, gains.state, rfl⟩
    · rintro ⟨other, live, same⟩
      by_cases here : k = k'
      · exact here
      · rw [gains.others k' (Ne.symm here)] at live
        exact absurd same (only k' other live)
  · rw [Index.get?_insert_of_ne prefixed, sound.indexed]
    by_cases same : k' = k
    · subst same
      rw [gains.state, before]
      simp [eq_comm, prefixed]
    · rw [gains.others k' same]

/-- What the store already holds under the prefix of a new state is that state, if it is not a
collision. -/
theorem probe_eq_ok (h : s.probe l c = some (.ok k)) :
    ∃ state, s.state? k = some state ∧ state.id = l.id ∧ state.data = c.bytes := by
  unfold probe at h
  rcases Option.map_eq_some_iff.1 h with ⟨k₀, _, h⟩
  split at h
  · cases h
  · next e found =>
    split at h
    · next same =>
      cases h
      exact ⟨e.state, state?_eq_some_iff.2 ⟨e, found, rfl⟩, same.1, Content.agrees_iff.1 same.2⟩
    · cases h

theorem probe_eq_none (h : s.probe l c = none) : s.index.get? l.id.indexKey = none :=
  Option.map_eq_none_iff.1 h

/-- A saved state stands under the answered key, with the identifier and the bytes it was saved
with; if it is new it also has the rest of the label it was saved with. -/
theorem save_eq_ok (sound : s.Sound) (h : save d l c s = .ok saved s') :
    s'.Sound ∧ ∃ state, Gains saved.key state s s' ∧ state.id = l.id ∧ state.data = c.bytes ∧
      (s.state? saved.key = none → state = { l with data := c.bytes }) := by
  unfold save at h
  split at h
  · cases h
  split at h
  · cases h
  split at h
  · next k probed =>
    cases h
    rcases probe_eq_ok probed with ⟨state, live, named, bytes⟩
    have dropped : (s.drop d).state? k = some state := live
    have gains := gains_retain dropped
    refine ⟨sound_retain (sound.congr rfl rfl) dropped, state,
      ⟨.inr live, gains.state, gains.others, gains.uses⟩, named, bytes, fun vacant => ?_⟩
    have absent : s.state? k = none := vacant
    rw [live] at absent
    cases absent
  · cases h
  · next probed =>
    split at h
    · next k after inserted =>
      cases h
      rcases gains_insert sound (probe_eq_none probed) inserted with ⟨after, gains, _⟩
      exact ⟨after, _, gains, rfl, rfl, fun _ => rfl⟩
    · cases h

/-- What cannot be saved leaves the states as they are. -/
theorem save_eq_error {r : Error} (h : save d l c s = .error r s') : s' = s.drop d := by
  unfold save at h
  split at h
  · cases h
    rfl
  split at h
  · cases h
    rfl
  split at h
  · cases h
  · cases h
    rfl
  · split at h
    · cases h
    · cases h
      rfl

theorem savePermanent_eq_ok {data : Bytes} (sound : s.Sound)
    (h : savePermanent l data s = .ok saved s') :
    s'.Sound ∧ ∃ state, Gains saved.key state s s' ∧ state.id = l.id ∧ state.data = data ∧
      (s.state? saved.key = none → state = { l with priority := permanentPriority, data }) := by
  unfold savePermanent at h
  split at h
  · cases h
  split at h
  · next k probed =>
    cases h
    rcases probe_eq_ok probed with ⟨state, live, named, bytes⟩
    refine ⟨sound_retain sound live, state, gains_retain live, named,
      bytes.trans (Content.bytes_ofBytes data), fun vacant => ?_⟩
    have absent : s.state? k = none := vacant
    rw [live] at absent
    cases absent
  · cases h
  · next probed =>
    split at h
    · next k after inserted =>
      cases h
      rcases gains_insert sound (probe_eq_none probed) inserted with ⟨after, gains, _⟩
      exact ⟨after, _, gains, rfl, rfl, fun _ => rfl⟩
    · cases h

theorem savePermanent_eq_error {data : Bytes} {r : Error}
    (h : savePermanent l data s = .error r s') : s' = s := by
  unfold savePermanent at h
  split at h
  · cases h
    rfl
  split at h
  · cases h
  · cases h
    rfl
  · split at h
    · cases h
    · cases h
      rfl

/-! ## Releasing -/

/-- The state under `k` is held once less.  It ends if nobody else holds it and it is not
permanent; nothing else has changed. -/
structure Loses (k : Key) (state : State) (s s' : Store) : Prop where
  before : s.state? k = some state
  state : s'.state? k =
    if 1 < s.useCount k ∨ state.priority = permanentPriority then some state else none
  others : ∀ k', k' ≠ k → s'.state? k' = s.state? k'
  uses : ∀ k', s'.useCount k' = s.useCount k' - if k' = k then 1 else 0

theorem states_remove (s : Store) (k : Key) (e : Entry) (indexed : Bool) :
    (s.remove k e indexed).states = s.states.erase k := by
  unfold remove
  cases e.tier <;> rfl

theorem index_remove (s : Store) (k : Key) (e : Entry) :
    (s.remove k e true).index =
      if s.index.get? e.state.id.indexKey = some k then s.index.erase e.state.id.indexKey
      else s.index := by
  unfold remove
  cases e.tier <;> simp

theorem state?_remove (s : Store) (k k' : Key) (e : Entry) (indexed : Bool) :
    (s.remove k e indexed).state? k' = if k' = k then none else s.state? k' := by
  simp only [state?, states_remove, Arena.get?_erase]
  split <;> rfl

theorem loses_release (live : s.state? k = some state) (indexed : Bool) :
    Loses k state s (s.release k indexed) := by
  rcases state?_eq_some_iff.1 live with ⟨e, found, rfl⟩
  have count : s.useCount k = e.uses := by simp [useCount, uses?, found]
  unfold release
  rw [found]
  by_cases stays : 1 < e.uses ∨ e.state.priority = permanentPriority
  · have view : ∀ k', (s.states.modify k fun e => { e with uses := e.uses - 1 }).get? k' =
        if k' = k then some { e with uses := e.uses - 1 } else s.states.get? k' := by
      intro k'
      simp only [Arena.get?_modify, found, Option.map_some]
    simp only [if_pos stays]
    refine ⟨live, ?_, ?_, ?_⟩
    · simp only [count, if_pos stays, state?, view, if_true, Option.map_some]
    · intro k' other
      simp [state?, view, other]
    · intro k'
      by_cases same : k' = k
      · subst same
        simp [useCount, uses?, view, found]
      · simp [useCount, uses?, view, same]
  · simp only [if_neg stays]
    refine ⟨live, ?_, ?_, ?_⟩
    · rw [state?_remove, if_pos rfl, count, if_neg stays]
    · intro k' other
      rw [state?_remove, if_neg other]
    · intro k'
      by_cases same : k' = k
      · subst same
        have gone : (s.remove k' e indexed).useCount k' = 0 := by
          apply useCount_eq_zero
          rw [states_remove, Arena.get?_erase_same]
        rw [gone, count, if_pos rfl]
        omega
      · simp [useCount, uses?, states_remove, Arena.get?_erase, same]

theorem sound_remove (sound : s.Sound) {e : Entry} (found : s.states.get? k = some e) :
    (s.remove k e true).Sound := by
  have live : s.state? k = some e.state := state?_eq_some_iff.2 ⟨e, found, rfl⟩
  have known : s.index.get? e.state.id.indexKey = some k :=
    (sound.indexed _ k).2 ⟨e.state, live, rfl⟩
  refine ⟨?_, fun p k' => ?_⟩
  · rw [states_remove]
    exact sound.tidy.erase k
  rw [index_remove, if_pos known, state?_remove]
  by_cases prefixed : p = e.state.id.indexKey
  · -- whoever had the prefix is the state that has gone
    subst prefixed
    rw [Index.get?_erase_self]
    constructor
    · intro impossible
      cases impossible
    · rintro ⟨other, after, same⟩
      split at after
      · cases after
      · next distinct =>
        have there := (sound.indexed _ k').2 ⟨other, after, same⟩
        exact absurd (Option.some.inj (there.symm.trans known)) distinct
  · rw [Index.get?_erase_of_ne prefixed, sound.indexed p k']
    by_cases same : k' = k
    · subst same
      simp [live, eq_comm, prefixed]
    · rw [if_neg same]

theorem sound_release (sound : s.Sound) (live : s.state? k = some state) :
    (s.release k true).Sound := by
  have loses := loses_release live true
  rcases state?_eq_some_iff.1 live with ⟨e, found, rfl⟩
  have count : s.useCount k = e.uses := by simp [useCount, uses?, found]
  unfold release at loses ⊢
  rw [found] at loses ⊢
  by_cases stays : 1 < e.uses ∨ e.state.priority = permanentPriority
  · simp only [if_pos stays] at loses ⊢
    refine sound.of_same (sound.tidy.modify k _) rfl fun k' => ?_
    by_cases same : k' = k
    · rw [same, loses.state, count, if_pos stays, live]
    · exact loses.others k' same
  · simp only [if_neg stays]
    exact sound_remove sound found

/-! ## References -/

/-- The states under the keys stay what they are. -/
def Keeps (keys : List Key) (s s' : Store) : Prop := ∀ k ∈ keys, s'.state? k = s.state? k

theorem Keeps.refl (keys : List Key) (s : Store) : Keeps keys s s := fun _ _ => rfl

theorem Keeps.trans {keys : List Key} (first : Keeps keys s s') (second : Keeps keys s' s'') :
    Keeps keys s s'' := by
  intro k among
  rw [second k among, first k among]

theorem Keeps.mono {keys fewer : List Key} (keeps : Keeps keys s s') (sub : fewer ⊆ keys) :
    Keeps fewer s s' :=
  fun k among => keeps k (sub among)

theorem keeps_congr (keys : List Key) (same : s'.states = s.states) : Keeps keys s s' :=
  fun _ _ => state?_congr same

/-- The uses of the states are the references `pinned ++ held`, every live state is referred to, and
a state is permanent only if it is pinned. -/
structure Referenced (pinned held : List Key) (s : Store) : Prop where
  sound : s.Sound
  uses : ∀ k, s.useCount k = (pinned ++ held).count k
  mem_of_live : ∀ k state, s.state? k = some state → k ∈ pinned ++ held
  permanent : ∀ k state, s.state? k = some state → state.priority = permanentPriority → k ∈ pinned

namespace Referenced

theorem live (refs : Referenced pinned held s) (among : k ∈ pinned ++ held) :
    ∃ state, s.state? k = some state := by
  apply exists_state_of_useCount
  rw [refs.uses]
  exact List.count_pos_iff.2 among

theorem perm {held' : List Key} (refs : Referenced pinned held s) (same : held.Perm held') :
    Referenced pinned held' s := by
  have whole : (pinned ++ held).Perm (pinned ++ held') := same.append_left pinned
  refine ⟨refs.sound, fun k => ?_, fun k state live => ?_, refs.permanent⟩
  · rw [refs.uses, whole.count_eq]
  · exact whole.subset (refs.mem_of_live k state live)

/-- References are a matter of the states and the index alone. -/
theorem congr (refs : Referenced pinned held s) (states : s'.states = s.states)
    (index : s'.index = s.index) : Referenced pinned held s' := by
  refine ⟨refs.sound.congr states index, fun k => ?_, fun k state live => ?_,
    fun k state live => ?_⟩
  · rw [useCount_congr states, refs.uses]
  · exact refs.mem_of_live k state (state?_congr states ▸ live)
  · exact refs.permanent k state (state?_congr states ▸ live)

/-- What is referred to is not changed by a further use. -/
theorem keeps_of_gains (refs : Referenced pinned held s) (gains : Gains k state s s') :
    Keeps (pinned ++ held) s s' := by
  intro k' among
  obtain ⟨other, live⟩ := refs.live among
  rw [gains.stays live, live]

/-- A further use is a further reference. -/
theorem gain (refs : Referenced pinned held s) (sound : s'.Sound) (gains : Gains k state s s')
    (ordinary : s.state? k = none → state.priority ≠ permanentPriority) :
    Referenced pinned (k :: held) s' := by
  have middle : (pinned ++ k :: held).Perm (k :: (pinned ++ held)) := List.perm_middle
  refine ⟨sound, fun k' => ?_, fun k' other live => ?_, fun k' other live permanent => ?_⟩
  · rw [gains.uses, refs.uses, middle.count_eq]
    by_cases same : k' = k
    · rw [if_pos same, same, List.count_cons_self]
    · rw [if_neg same, List.count_cons_of_ne (Ne.symm same), Nat.add_zero]
  · rw [middle.mem_iff, List.mem_cons]
    by_cases same : k' = k
    · exact .inl same
    · rw [gains.others k' same] at live
      exact .inr (refs.mem_of_live k' other live)
  · by_cases same : k' = k
    · subst same
      rw [gains.state] at live
      cases live
      rcases gains.before with absent | present
      · exact absurd permanent (ordinary absent)
      · exact refs.permanent k' state present permanent
    · rw [gains.others k' same] at live
      exact refs.permanent k' other live permanent

/-- A use that is never given up may be of a permanent state. -/
theorem pin (refs : Referenced pinned held s) (sound : s'.Sound) (gains : Gains k state s s') :
    Referenced (pinned ++ [k]) held s' := by
  refine ⟨sound, fun k' => ?_, fun k' other live => ?_, fun k' other live permanent => ?_⟩
  · rw [gains.uses, refs.uses, List.count_append, List.count_append, List.count_append]
    by_cases same : k' = k
    · rw [if_pos same, same, List.count_singleton_self]
      omega
    · rw [if_neg same, List.count_singleton, if_neg (by simpa using Ne.symm same)]
      omega
  · by_cases same : k' = k
    · simp [same]
    · rw [gains.others k' same] at live
      have before := refs.mem_of_live k' other live
      simp only [List.mem_append] at before ⊢
      rcases before with among | among
      · exact .inl (.inl among)
      · exact .inr among
  · by_cases same : k' = k
    · simp [same]
    · rw [gains.others k' same] at live
      exact List.mem_append_left _ (refs.permanent k' other live permanent)

/-- A reference is given up: what is still referred to, or permanent, stays what it is. -/
theorem release (refs : Referenced pinned (k :: held) s) :
    Referenced pinned held (s.release k true) ∧ Keeps (pinned ++ held) s (s.release k true) := by
  have middle : (pinned ++ k :: held).Perm (k :: (pinned ++ held)) := List.perm_middle
  rcases refs.live (middle.mem_iff.2 List.mem_cons_self) with ⟨state, live⟩
  have loses := loses_release live true
  have count : s.useCount k = (pinned ++ held).count k + 1 := by
    rw [refs.uses, middle.count_eq, List.count_cons_self]
  have keeps : Keeps (pinned ++ held) s (s.release k true) := by
    intro k' among
    by_cases same : k' = k
    · subst same
      have others : 0 < (pinned ++ held).count k' := List.count_pos_iff.2 among
      rw [loses.state, if_pos (.inl (by omega)), live]
    · exact loses.others k' same
  refine ⟨⟨sound_release refs.sound live, fun k' => ?_, fun k' other after => ?_,
    fun k' other after permanent => ?_⟩, keeps⟩
  · by_cases same : k' = k
    · subst same
      rw [loses.uses, if_pos rfl, count, Nat.add_sub_cancel]
    · rw [loses.uses, if_neg same, refs.uses, middle.count_eq, List.count_cons_of_ne (Ne.symm same),
        Nat.sub_zero]
  · by_cases same : k' = k
    · subst same
      rw [loses.state] at after
      split at after
      · next stays =>
        rcases stays with shared | permanent
        · apply List.count_pos_iff.1
          omega
        · exact List.mem_append_left _ (refs.permanent k' state live permanent)
      · cases after
    · rw [loses.others k' same] at after
      rcases List.mem_cons.1 (middle.mem_iff.1 (refs.mem_of_live k' other after)) with here | there
      · exact absurd here same
      · exact there
  · by_cases same : k' = k
    · subst same
      rw [loses.state] at after
      split at after
      · cases after
        exact refs.permanent k' state live permanent
      · cases after
    · rw [loses.others k' same] at after
      exact refs.permanent k' other after permanent

end Referenced

theorem referenced_ofSettings (settings : Settings) : Referenced [] [] (ofSettings settings) := by
  have nothing : ∀ k, (ofSettings settings).states.get? k = none := by
    intro k
    exact Arena.get?_eq_none_of_beyond (Nat.zero_le _)
  have vacant : ∀ k, (ofSettings settings).state? k = none := by
    intro k
    simp [state?, nothing]
  refine ⟨⟨Arena.Tidy.empty _, fun p k => ?_⟩, fun k => useCount_eq_zero (nothing k),
    fun k state live => ?_, fun k state live => ?_⟩
  · constructor
    · intro impossible
      cases impossible
    · rintro ⟨state, live, _⟩
      rw [vacant] at live
      cases live
  · rw [vacant] at live
    cases live
  · rw [vacant] at live
    cases live

end SigComp.Store
