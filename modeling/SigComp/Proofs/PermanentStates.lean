import SigComp.Proofs.StoreLookup

/-!
# How long a state lasts

What it takes to end a state, and whether a state that was saved for good is ever ended.

* `stays_while_held`: a live state stays until it has been released as often as it is held.
* `permanent_stays`: one of permanent priority stays whatever is released.
* `ends_when_released`: any other is ended by as many releases as there are holders.
* `Store.HoldersFit`: the holders of a state are never more than 32 bits can count.
* `saved_for_good_iff`: so what has been saved for good stays for good, unless the store held
  it already as an ordinary state, which it then still is.
* `adopted_state_is_released`: such a state ends when both of its holders release it.
-/

namespace SigComp.Store

variable {s s' : Store} {k k' : Key} {state : State} {later : List Operation}

/-! ## Holders -/

/-- Nothing but a release takes a holder away, and one only. -/
theorem useCount_le_perform (sound : s.Sound) (k : Key) (o : Operation) :
    s.useCount k ≤ (o.perform s).useCount k + [o].count (.release k) := by
  cases shift_perform sound o with
  | idle states _ =>
    rw [useCount_congr states]
    exact Nat.le_add_right _ _
  | gains _ gains =>
    rw [gains.uses k]
    omega
  | @loses s' k' state _ loses =>
    rw [loses.uses k]
    by_cases same : k = k'
    · subst same
      rw [List.count_singleton_self, if_pos rfl]
      omega
    · rw [if_neg same]
      exact Nat.le_add_right _ _

/-- A release does not end a state that others still hold, nor one that is permanent. -/
theorem stays_released (live : s.state? k = some state)
    (held : 1 < s.useCount k ∨ state.priority = permanentPriority) :
    (s.release k true).state? k = some state := by
  have loses := loses_release live true
  rw [loses.state, if_pos held]

/-- A live state stays as long as it has been released less often than it is held. -/
theorem stays_while_held (sound : s.Sound) (live : s.state? k = some state)
    (few : later.count (.release k) < s.useCount k) : (s.run later).state? k = some state := by
  induction later generalizing s with
  | nil => exact live
  | cons o rest ih =>
    have holders := useCount_le_perform sound k o
    have split : ([o] ++ rest).count (.release k) =
        [o].count (.release k) + rest.count (.release k) :=
      List.count_append
    rw [List.singleton_append] at split
    have stays : (o.perform s).state? k = some state := by
      rcases stays_or_released sound live o with stays | ⟨rfl, _⟩
      · exact stays
      · rw [List.count_singleton_self] at split
        exact stays_released live (.inl (by omega))
    exact ih (sound_perform sound o) stays (by omega)

/-- A state of permanent priority stays, however often it is released. -/
theorem permanent_stays (sound : s.Sound) (live : s.state? k = some state)
    (permanent : state.priority = permanentPriority) (later : List Operation) :
    (s.run later).state? k = some state := by
  induction later generalizing s with
  | nil => exact live
  | cons o rest ih =>
    refine ih (sound_perform sound o) ?_
    rcases stays_or_released sound live o with stays | ⟨rfl, _⟩
    · exact stays
    · exact stays_released live (.inr permanent)

/-- An ordinary state ends when all of its holders have released it, and no other state changes. -/
theorem ends_when_released (live : s.state? k = some state)
    (ordinary : state.priority ≠ permanentPriority) {n : Nat} (holders : s.useCount k = n + 1) :
    let after := s.run (List.replicate (n + 1) (.release k))
    after.state? k = none ∧ ∀ k', k' ≠ k → after.state? k' = s.state? k' := by
  induction n generalizing s with
  | zero =>
    have loses := loses_release live true
    have last : ¬ (1 < s.useCount k ∨ state.priority = permanentPriority) := by
      simp [holders, ordinary]
    refine ⟨?_, loses.others⟩
    change (s.release k true).state? k = none
    rw [loses.state, if_neg last]
  | succ n ih =>
    have loses := loses_release live true
    have stays := stays_released live (.inl (by omega))
    have fewer : (s.release k true).useCount k = n + 1 := by
      rw [loses.uses, if_pos rfl, holders]
      rfl
    obtain ⟨gone, others⟩ := ih stays fewer
    exact ⟨gone, fun k' other => (others k' other).trans (loses.others k' other)⟩

/-! ## Full identifiers -/

/-- A full identifier names a live state that has it. -/
theorem lookup_of_live (sound : s.Sound) (live : s.state? k = some state) :
    s.lookup state.id.toBytes true = .ok state := by
  refine (lookup_eq_ok_iff sound).2 ⟨k, ⟨?_, live, List.prefix_refl _, .inl rfl⟩⟩
  rw [StateId.length_toBytes]
  decide

/-- A full identifier names no other. -/
theorem lookup_of_unknown (sound : s.Sound) {id : StateId}
    (unknown : ∀ k state, s.state? k = some state → state.id ≠ id) :
    s.lookup id.toBytes true = .error .notFound := by
  have whole : 6 ≤ id.toBytes.length ∧ id.toBytes.length ≤ 20 := by
    rw [StateId.length_toBytes]
    decide
  rw [lookup, map_eq_error_iff, find_eq_error_iff sound, if_pos whole]
  refine ⟨?_, rfl⟩
  rintro ⟨k, state, names⟩
  have same : id.toBytes = state.id.toBytes := names.front.eq_of_length (by simp)
  refine unknown k state names.live ?_
  have octets : state.id.octets = id.octets := Vector.toList_inj.1 same.symm
  exact congrArg StateId.mk octets

/-! ## Saving for good -/

section Saving

variable {l : Label} {data : Bytes} {saved : Saved}

/-- The full identifier finds these bytes. -/
def Finds (s : Store) (id : StateId) (data : Bytes) : Prop :=
  ∃ state, s.lookup id.toBytes true = .ok state ∧ state.data = data

/-- The state that stands for what has been saved for good: it is held once more, it was there
before or is permanent, and no other live state has its identifier. -/
structure StandsFor (l : Label) (data : Bytes) (k : Key) (state : State) (s s' : Store) : Prop where
  sound : s'.Sound
  gains : Gains k state s s'
  id : state.id = l.id
  data : state.data = data
  priority : s.state? k = none → state.priority = permanentPriority
  only : ∀ k' other, s'.state? k' = some other → other.id = l.id → k' = k

theorem standsFor_of_savePermanent (sound : s.Sound)
    (done : savePermanent l data s = .ok saved s') :
    ∃ state, StandsFor l data saved.key state s s' := by
  obtain ⟨after, state, gains, named, bytes, fresh⟩ := savePermanent_eq_ok sound done
  refine ⟨state, after, gains, named, bytes, fun vacant => ?_, fun k' other live same => ?_⟩
  · rw [fresh vacant]
  · refine after.unique live gains.state ?_
    rw [same, named]

namespace StandsFor

variable (stands : StandsFor l data k state s s')
include stands

/-- The bytes are found while the state is live. -/
theorem finds (live : (s'.run later).state? k = some state) : (s'.run later).Finds l.id data := by
  have found := lookup_of_live (sound_run stands.sound later) live
  rw [stands.id] at found
  exact ⟨state, found, stands.data⟩

/-- It was there before if any state of the identifier was. -/
theorem eq_of_live {other : State} (live : s.state? k' = some other) (same : other.id = l.id) :
    k' = k ∧ other = state := by
  by_cases here : k' = k
  · subst here
    rcases stands.gains.before with absent | present
    · rw [absent] at live
      cases live
    · exact ⟨rfl, Option.some.inj (live.symm.trans present)⟩
  · have stays := (stands.gains.others k' here).trans live
    exact absurd (stands.only k' other stays same) here

/-- An ordinary state is gone once all holders have released it. -/
theorem lookup_released (ordinary : state.priority ≠ permanentPriority) :
    (s'.run (List.replicate (s'.useCount k) (.release k))).lookup l.id.toBytes true =
      .error .notFound := by
  have holders : s'.useCount k = s.useCount k + 1 := by
    rw [stands.gains.uses, if_pos rfl]
  obtain ⟨gone, others⟩ := ends_when_released stands.gains.state ordinary holders
  rw [holders]
  refine lookup_of_unknown (sound_run stands.sound _) fun k' other live same => ?_
  by_cases here : k' = k
  · rw [here, gone] at live
    cases live
  · exact here (stands.only k' other ((others k' here).symm.trans live) same)

end StandsFor

/-- At no point of a run there are more holders of a state than a counter of 32 bits can count. -/
def HoldersFit (s : Store) (k : Key) (later : List Operation) : Prop :=
  ∀ n, (s.run (later.take n)).useCount k < 4294967296

/-- What has been saved for good is found ever after exactly if the store did not hold it as an
ordinary state before.  If it did, saving it for good has made the caller one holder more: the bytes
are found until the state has been released as often as it is held, as long as the holders can be
counted, and no longer. -/
theorem saved_for_good_iff {settings : Settings} {operations : List Operation}
    (done : savePermanent l data ((ofSettings settings).run operations) = .ok saved s') :
    let s := (ofSettings settings).run operations
    ((∀ later, (s'.run later).Finds l.id data) ↔
      ∀ k state, s.state? k = some state → state.id = l.id →
        state.priority = permanentPriority) ∧
    (∀ later, s'.HoldersFit saved.key later →
      later.count (.release saved.key) < s'.useCount saved.key → (s'.run later).Finds l.id data) ∧
    ∀ k state, s.state? k = some state → state.id = l.id → state.priority ≠ permanentPriority →
      (s'.run (List.replicate (s'.useCount saved.key) (.release saved.key))).lookup
        l.id.toBytes true = .error .notFound := by
  intro s
  obtain ⟨state, stands⟩ :=
    standsFor_of_savePermanent (sound_run (sound_ofSettings settings) operations) done
  have ends : ∀ k other, s.state? k = some other → other.id = l.id →
      other.priority ≠ permanentPriority →
      (s'.run (List.replicate (s'.useCount saved.key) (.release saved.key))).lookup
        l.id.toBytes true = .error .notFound := by
    intro k other live same ordinary
    obtain ⟨_, rfl⟩ := stands.eq_of_live live same
    exact stands.lookup_released ordinary
  refine ⟨⟨fun always k other live same => ?_, fun before later => ?_⟩,
    fun later _ few => ?_, ends⟩
  · refine Decidable.byContradiction fun ordinary => ?_
    obtain ⟨found, looked, _⟩ := always _
    rw [ends k other live same ordinary] at looked
    cases looked
  · have permanent : state.priority = permanentPriority := by
      rcases stands.gains.before with absent | present
      · exact stands.priority absent
      · exact before _ _ present stands.id
    exact stands.finds (permanent_stays stands.sound stands.gains.state permanent later)
  · exact stands.finds (stays_while_held stands.sound stands.gains.state few)

/-- A state that was saved as an ordinary one is then saved for good.  When both holders have
released it, it is gone. -/
theorem adopted_state_is_released :
    let l : Label := ⟨⟨Vector.replicate 20 1⟩, 0, 0, 6, 0⟩
    let s := (ofSettings {}).run [.create 1, .save ⟨0, 1⟩ l (.ofBytes [7])]
    let release := Operation.release ⟨0, 0⟩
    ∃ s', savePermanent l [7] s = .ok (.duplicate ⟨0, 0⟩) s' ∧
      (s'.run [release]).Finds l.id [7] ∧
      (s'.run [release, release]).lookup l.id.toBytes true = .error .notFound ∧
      ¬ ∀ later, (s'.run later).Finds l.id [7] := by
  intro l s release
  have course : (s.index.get? l.id.indexKey, s.states.get? ⟨0, 0⟩) =
      (some ⟨0, 0⟩, some ⟨{ l with data := [7] }, 1, some 0⟩) := by
    decide +kernel
  obtain ⟨known, held⟩ := Prod.mk.inj course
  have live : s.state? ⟨0, 0⟩ = some { l with data := [7] } :=
    state?_eq_some_iff.2 ⟨_, held, rfl⟩
  have ordinary : (0 : UInt16) ≠ permanentPriority := by decide
  have holders : (s.retain ⟨0, 0⟩).useCount ⟨0, 0⟩ = 2 := by decide +kernel
  have left : ((s.retain ⟨0, 0⟩).run [release]).useCount ⟨0, 0⟩ = 1 := by decide +kernel
  have fit : (s.retain ⟨0, 0⟩).HoldersFit ⟨0, 0⟩ [release] := by
    intro n
    cases n with
    | zero => exact Nat.lt_of_le_of_lt (Nat.le_of_eq holders) (by decide)
    | succ n =>
      rw [List.take_of_length_le (Nat.le_add_left 1 n), left]
      decide
  have done : savePermanent l [7] s = .ok (.duplicate ⟨0, 0⟩) (s.retain ⟨0, 0⟩) := by
    have named : l.id.isZero = false := by decide
    have same : (Content.ofBytes [7]).agrees [7] = true := by decide
    simp [savePermanent, probe, known, held, named, same]
  obtain ⟨good, once, twice⟩ := saved_for_good_iff done
  have gone := twice _ _ live rfl ordinary
  simp only [Saved.key, holders] at gone
  refine ⟨_, done, once _ fit ?_, gone, fun always => ordinary (good.1 always _ _ live rfl)⟩
  rw [Saved.key, holders]
  decide

end Saving

end SigComp.Store
