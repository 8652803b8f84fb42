import Mathlib.Data.List.Induction
import SigComp.Proofs.EngineInvariants
import SigComp.Proofs.SettlementRecords
import SigComp.Proofs.StoreAccounts

/-!
# Places for states

A store has one place for each buffer and for each algorithm and dictionary that there may
be.  A state takes up a place and a buffer, or it belongs to an algorithm or a dictionary,
so whoever has got a buffer for a state finds a place for it.

* `Store.Housed pins lent`: the accounts of a store are right, and no more than `pins` of its
  states are without a buffer.  One lemma for each step says what becomes of that.
* `Housed.roomy`: with a buffer reserved there is a place.
* `Engine.furnished_invariant`: the contexts of open compartments are all that is lent
  out, and the states without buffers are those of algorithms and dictionaries.
-/

namespace SigComp

/-- Things of several kinds, no more of each kind than there may be, are no more together than all
kinds allow. -/
theorem length_le_of_count_le (capacities l : List Nat) (within : ∀ i ∈ l, i < capacities.length)
    (bounded : ∀ i n, capacities[i]? = some n → l.count i ≤ n) :
    l.length ≤ capacities.foldl (· + ·) 0 := by
  induction capacities using List.reverseRecOn generalizing l with
  | nil =>
    have nothing : l = [] := List.eq_nil_iff_forall_not_mem.2 fun i among =>
      absurd (within i among) (Nat.not_lt_zero i)
    rw [nothing]
    exact Nat.le_refl 0
  | append_singleton capacities n ih =>
    -- those of the last kind are counted apart
    let other := fun i => decide ¬(i == capacities.length) = true
    have parted := List.length_eq_countP_add_countP (· == capacities.length) (l := l)
    rw [List.countP_eq_length_filter (p := other)] at parted
    have last : l.count capacities.length ≤ n := by
      apply bounded
      rw [List.getElem?_append_right (Nat.le_refl _), Nat.sub_self]
      rfl
    have others := ih (l.filter other) ?_ ?_
    · rw [List.foldl_append, List.foldl_cons, List.foldl_nil]
      change l.length = l.count capacities.length + _ at parted
      omega
    · intro i among
      rw [List.mem_filter] at among
      obtain ⟨there, apart⟩ := among
      have small := within i there
      rw [List.length_append, List.length_singleton] at small
      simp only [other, beq_iff_eq, decide_not, Bool.not_eq_true', decide_eq_false_iff_not] at apart
      omega
    · intro i m found
      have inside := (List.getElem?_eq_some_iff.1 found).1
      rw [List.count_filter]
      · apply bounded
        rw [List.getElem?_append_left inside]
        exact found
      · simp only [other, beq_iff_eq, decide_not, Bool.not_eq_true', decide_eq_false_iff_not]
        omega

namespace Store

variable {s s' : Store} {k : Key} {l : Label} {d : Draft} {pins tier : Nat} {lent lent' : List Nat}

/-! ## States and buffers -/

/-- The number of live states that take up no buffer. -/
def unbuffered (s : Store) : Nat := housedIn s.states none

/-- The tiers of the buffers of live states. -/
def buffers (s : Store) : List Nat := s.states.toList.filterMap fun entry => entry.2.tier

theorem count_buffers (s : Store) (i : Nat) : s.buffers.count i = s.stored i := by
  rw [buffers, List.count_filterMap, stored, storedIn]
  simp only [beq_eq_decide]

theorem length_states (s : Store) : s.states.toList.length = s.unbuffered + s.buffers.length := by
  rw [List.length_eq_countP_add_countP fun entry => decide (entry.2.tier = none), buffers,
    List.length_filterMap_eq_countP, unbuffered, housedIn]
  congr 2
  funext entry
  cases entry.2.tier <;> rfl

/-- There is a place for each buffer, and for all that is permanent. -/
def Spacious (s : Store) : Prop :=
  s.states.capacity =
    (s.layout.map Prod.snd).foldl (· + ·) 0 + Settings.maxDictionaries + Settings.maxAlgorithms

/-- The accounts are right, there are places enough, and so many states have no buffer at most. -/
structure Housed (pins : Nat) (lent : List Nat) (s : Store) : Prop where
  accounted : Accounted lent s
  spacious : s.Spacious
  pinned : s.unbuffered ≤ pins

namespace Housed

/-- With a buffer that is lent out, there is room for a state. -/
theorem roomy (housed : Housed pins (tier :: lent) s)
    (few : pins ≤ Settings.maxDictionaries + Settings.maxAlgorithms) : s.states.Roomy := by
  obtain ⟨accounted, spacious, pinned⟩ := housed
  have capacities : (s.layout.map Prod.snd).length = s.tiers.length := by
    rw [List.length_map, layout, List.length_map]
  have total : ∀ i, (s.buffers ++ tier :: lent).count i = s.stored i + (tier :: lent).count i := by
    intro i
    rw [List.count_append, count_buffers]
  have used := length_le_of_count_le (s.layout.map Prod.snd) (s.buffers ++ tier :: lent)
    (fun i among => ?_) fun i n found => ?_
  · apply accounted.counted.roomy
    have states := s.length_states
    rw [List.length_append, List.length_cons] at used
    rw [spacious]
    omega
  · have present := accounted.present i
    rw [← total, List.count_pos_iff] at present
    exact Nat.lt_of_lt_of_eq (present among) capacities.symm
  · rw [layout, List.map_map, List.getElem?_map] at found
    obtain ⟨t, here, rfl⟩ := Option.map_eq_some_iff.1 found
    obtain ⟨inUse, within, fits⟩ := accounted.tiers i t here
    rw [total, ← inUse]
    exact Nat.le_trans within fits

/-- What does not add places or states without buffers. -/
theorem keep (housed : Housed pins lent s) (accounted : Accounted lent' s')
    (capacity : s'.states.capacity = s.states.capacity) (layout : s'.layout = s.layout)
    (fewer : s'.unbuffered ≤ s.unbuffered) : Housed pins lent' s' := by
  refine ⟨accounted, ?_, Nat.le_trans fewer housed.pinned⟩
  rw [Spacious, capacity, layout]
  exact housed.spacious

theorem perm (housed : Housed pins lent s) (same : lent.Perm lent') : Housed pins lent' s :=
  housed.keep (housed.accounted.perm same) rfl rfl (Nat.le_refl _)

theorem reserve {size : Nat} (housed : Housed pins lent s) (h : reserve size s = .ok tier s') :
    Housed pins (tier :: lent) s' := by
  have layout := (touches_reserve h).layout
  have accounted := housed.accounted.reserve h
  obtain ⟨_, rfl⟩ := reserve_eq_ok h
  exact housed.keep accounted rfl layout (Nat.le_refl _)

theorem giveBack (housed : Housed pins (tier :: lent) s) : Housed pins lent (s.giveBack tier) :=
  have layout : Touches s (s.giveBack tier) := .inr ⟨tier, .inr rfl⟩
  housed.keep housed.accounted.giveBack rfl layout.layout (Nat.le_refl _)

/-- How many hold a state is no matter of places. -/
theorem recount {f : Entry → Entry} (housed : Housed pins lent s) (tier : ∀ e, (f e).tier = e.tier)
    (accounted : Accounted lent { s with states := s.states.modify k f }) :
    Housed pins lent { s with states := s.states.modify k f } :=
  housed.keep accounted (Arena.capacity_modify _ _ _) rfl
    (Nat.le_of_eq (housedIn_modify tier s.states k none))

theorem retain (housed : Housed pins lent s) {state : State} (live : s.state? k = some state) :
    Housed pins lent (s.retain k) :=
  housed.recount (fun _ => rfl) (housed.accounted.retain live)

theorem release (housed : Housed pins lent s) (k : Key) : Housed pins lent (s.release k true) := by
  have accounted := housed.accounted.release k
  have layout := (touches_release s k).layout
  cases found : s.states.get? k with
  | none =>
    rw [Store.release, found]
    exact housed
  | some e =>
    by_cases stays : 1 < e.uses ∨ e.state.priority = permanentPriority
    · simp only [Store.release, found, if_pos stays] at accounted ⊢
      exact housed.recount (fun _ => rfl) accounted
    · simp only [Store.release, found, if_neg stays] at accounted layout ⊢
      refine housed.keep accounted ?_ layout ?_
      · rw [states_remove, Arena.capacity_erase]
      · rw [unbuffered, states_remove, unbuffered, housedIn_of_perm (Arena.toList_perm found)]
        exact Nat.le_add_right _ _

theorem insert {tier : Option Nat} {state : State} (housed : Housed pins (tier.toList ++ lent) s)
    (fresh : s.index.get? state.id.indexKey = none) (h : s.insert? state tier = some (k, s')) :
    Housed (pins + if tier = none then 1 else 0) lent s' := by
  have accounted := housed.accounted.insert fresh h
  have more : s'.unbuffered = s.unbuffered + if tier = none then 1 else 0 := by
    obtain ⟨_, inserted, same⟩ := Option.map_eq_some_iff.1 h
    cases same
    exact housedIn_of_perm (Arena.toList_insert_perm housed.accounted.counted.tidy inserted) none
  have layout : s'.layout = s.layout := by
    rw [Store.layout, tiers_insert? h, Store.layout]
  have capacity : s'.states.capacity = s.states.capacity := by
    obtain ⟨_, inserted, same⟩ := Option.map_eq_some_iff.1 h
    cases same
    exact (Arena.counters_insert inserted).2.2.1
  refine ⟨accounted, ?_, ?_⟩
  · rw [Spacious, capacity, layout]
    exact housed.spacious
  · rw [more]
    exact Nat.add_le_add_right housed.pinned _

/-- A draft that is saved takes its buffer along, or gives it back. -/
theorem save (housed : Housed pins (d.tier :: lent) s) (l : Label) (c : Content) :
    Housed pins lent (after (save d l c s)) := by
  have dropped : Housed pins lent (s.drop d) := housed.giveBack
  have outcome := saving_save d l c s
  generalize Store.save d l c s = result at outcome
  cases outcome with
  | refused r => exact dropped
  | @duplicate k state live =>
    have stays : (s.drop d).state? k = some state := live
    exact dropped.retain stays
  | inserted fresh inserted =>
    have reserved : Housed pins ((some d.tier).toList ++ lent) s := housed
    exact reserved.insert fresh inserted

/-- A state that is saved for good may have no buffer. -/
theorem savePermanent (housed : Housed pins lent s) (l : Label) (data : Bytes) :
    Housed (pins + 1) lent (after (savePermanent l data s)) := by
  have more : Housed (pins + 1) lent s :=
    ⟨housed.accounted, housed.spacious, Nat.le_succ_of_le housed.pinned⟩
  have outcome := pinning_savePermanent l data s
  generalize Store.savePermanent l data s = result at outcome
  cases outcome with
  | refused r => exact more
  | duplicate live => exact more.retain live
  | inserted fresh inserted =>
    have unreserved : Housed pins ((none : Option Nat).toList ++ lent) s := housed
    exact unreserved.insert fresh inserted

end Housed

end Store

/-! ## Compartments -/

namespace Compartment

open Store (Housed)

variable {c : Compartment} {s : Store} {pins : Nat} {lent : List Nat}

theorem housed_makeRoom (housed : Housed pins lent s) (cost : Nat) (c : Compartment) :
    Housed pins lent (after (makeRoom cost c s)).2 := by
  induction c, s using makeRoom.induct cost with
  | case1 c s room =>
    rw [makeRoom, if_pos room]
    exact housed
  | case2 c s full nobody =>
    rw [makeRoom, if_neg full]
    split
    · exact housed
    · next some => exact absurd (nobody.symm.trans some) (Option.some_ne_none _).symm
  | case3 c s full m weakest ih =>
    rw [makeRoom, if_neg full]
    split
    · exact housed
    · next weakest' =>
      cases weakest.symm.trans weakest'
      exact ih (housed.release m.key)

/-- A buffer is reserved, room is made, and the buffer becomes that of the state or comes back. -/
theorem housed_acceptNew (housed : Housed pins lent s) (l : Label) (content : Content)
    (c : Compartment) : Housed pins lent (after (acceptNew l content (c, s))).2 := by
  simp only [acceptNew]
  cases made : Store.create content.length s with
  | error r s' =>
    rw [Store.create_eq_error made]
    exact housed
  | ok draft s' =>
    have reserved := housed.reserve (Store.create_eq_ok made).2
    have room := housed_makeRoom reserved (content.length + stateOverhead) c
    dsimp only
    cases outcome : makeRoom (content.length + stateOverhead) c s' with
    | error r p =>
      rw [outcome] at room
      exact room.giveBack
    | ok _ p =>
      rw [outcome] at room
      have kept : Housed pins (draft.tier :: lent) p.2 := room
      have saved := kept.save l content
      dsimp only
      cases done : Store.save draft l content p.2 with
      | error r s' =>
        rw [done] at saved
        exact saved
      | ok key s' =>
        rw [done] at saved
        exact saved

theorem housed_accept (housed : Housed pins lent s) (l : Label) (content : Content)
    (c : Compartment) : Housed pins lent (after (accept l content (c, s))).2 := by
  simp only [accept]
  split
  · split
    · split <;> exact housed
    · split
      · exact housed
      · exact housed_acceptNew housed l content c
  · exact housed

theorem housed_expel (housed : Housed pins lent s) (partialId : Bytes) (c : Compartment) :
    Housed pins lent (after (expel partialId (c, s))).2 := by
  cases done : expel partialId (c, s) with
  | ok _ p =>
    rcases expel_eq_ok done with ⟨m, among, rfl⟩
    exact housed.release m.key
  | error r p =>
    rw [expel_eq_error done]
    exact housed

theorem housed_carryOut (housed : Housed pins lent s) (c : Compartment) (todo : Commitment) :
    Housed pins lent (c.carryOut s todo).1.2 := by
  cases todo with
  | capabilities packed version => exact housed
  | remoteIds ids => exact housed
  | feedback keepStates sendIds item =>
    simp only [carryOut]
    split <;> exact housed
  | save l content =>
    rw [carryOut_save]
    exact housed_accept housed l content c
  | skipSave reason address length => exact housed
  | free partialId =>
    rw [carryOut_free]
    exact housed_expel housed partialId c
  | skipFree reason => exact housed

end Compartment

/-! ## Engines -/

namespace Engine

open Store (Housed)

variable {e e' : Engine} {k : Key} {c c' : Compartment} {pins : Nat}

/-- The tiers of the buffers that are lent to compartments. -/
def lentTo (compartments : Arena Compartment) : List Nat :=
  compartments.toList.filterMap fun entry => entry.2.context.map Context.tier

/-- There are no more algorithms and dictionaries than there may be. -/
structure Limited (e : Engine) : Prop where
  algorithms : e.catalogue.algorithms.length ≤ Settings.maxAlgorithms
  dictionaries : e.catalogue.dictionaries.length ≤ Settings.maxDictionaries

/-- The store is accounted for, with nothing lent out but the contexts of open compartments, and the
states without buffers are those of algorithms and dictionaries. -/
structure Furnished (e : Engine) : Prop where
  housed : Housed e.entries (lentTo e.compartments) e.store
  limited : e.Limited

theorem Furnished.few (furnished : Furnished e) :
    e.entries ≤ Settings.maxDictionaries + Settings.maxAlgorithms := by
  rw [entries, Nat.add_comm]
  exact Nat.add_le_add furnished.limited.dictionaries furnished.limited.algorithms

/-- Nothing else of an engine matters. -/
theorem Furnished.change {s : Store} {compartments : Arena Compartment} (furnished : Furnished e)
    (housed : Housed e.entries (lentTo compartments) s) (catalogue : e'.catalogue = e.catalogue)
    (store : e'.store = s) (opened : e'.compartments = compartments) : Furnished e' := by
  obtain ⟨_, algorithms, dictionaries⟩ := furnished
  refine ⟨?_, catalogue ▸ algorithms, catalogue ▸ dictionaries⟩
  rw [entries, catalogue, opened, store]
  exact housed

end Engine

end SigComp
