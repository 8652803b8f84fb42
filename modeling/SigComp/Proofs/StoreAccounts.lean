import Mathlib.Data.List.Nodup
import SigComp.Proofs.ArenaAccounts
import SigComp.Proofs.StoreLookup

/-!
# Accounts of a store

Buffers, places for states and index entries are counted, and nothing is lost or counted
twice, whatever is done to a store.

* `Store.Accounted lent`: the buffers in use are those of live states and those that are
  lent out, `lent` being the tiers of the latter; no counter exceeds its peak, and no peak
  what there is.  One lemma for each step says what becomes of `lent`.
* `Store.Lending drafts contexts`: a store that comes about by operations, with the drafts
  and contexts that are still out.  A draft or context is used up only once.
* `buffers_are_accounted`: so the accounts of such a store are right, and a draft that is
  not needed gives back the one buffer that was reserved for it.
-/

namespace SigComp

/-! ## The index -/

namespace Index

variable {x : Index} {p : Bytes} {k : Key}

/-- No prefix stands in the index twice. -/
def Distinct (x : Index) : Prop := (x.entries.map Prod.fst).Nodup

theorem Distinct.erase (distinct : x.Distinct) (p : Bytes) : (x.erase p).Distinct :=
  distinct.sublist (List.filter_sublist.map _)

theorem Distinct.insert (distinct : x.Distinct) (p : Bytes) (k : Key) :
    (x.insert p k).Distinct := by
  refine List.nodup_cons.2 ⟨?_, distinct.erase p⟩
  simp [Index.erase]

theorem size_erase_le (x : Index) (p : Bytes) : (x.erase p).size ≤ x.size :=
  List.length_filter_le _ _

theorem mem_of_get? (found : x.get? p = some k) : (p, k) ∈ x.entries := by
  obtain ⟨front, back, whole, _⟩ := List.lookup_eq_some_iff.1 found
  rw [whole]
  exact List.mem_append_right _ List.mem_cons_self

/-- In an index without repetition an entry is what its prefix is looked up as. -/
theorem Distinct.get?_eq_some_iff (distinct : x.Distinct) :
    x.get? p = some k ↔ (p, k) ∈ x.entries := by
  refine ⟨mem_of_get?, fun among => ?_⟩
  obtain ⟨entries⟩ := x
  simp only [Distinct] at distinct
  simp only [get?]
  induction entries with
  | nil => cases among
  | cons entry rest ih =>
    obtain ⟨q, k'⟩ := entry
    rw [List.map_cons, List.nodup_cons] at distinct
    rcases List.mem_cons.1 among with here | there
    · cases here
      exact List.lookup_cons_self
    · have other : (p == q) = false := by
        rw [beq_eq_false_iff_ne]
        rintro rfl
        have again : p ∈ rest.map Prod.fst := List.mem_map.2 ⟨(p, k), there, rfl⟩
        exact distinct.1 again
      rw [List.lookup_cons, other]
      exact ih distinct.2 there

end Index

namespace Store

variable {s s' : Store} {k : Key} {state : State} {l : Label} {c : Content} {d : Draft} {e : Entry}
  {lent : List Nat} {tier : Nat} {saved : Saved}

/-! ## Live states -/

/-- The number of states whose buffer is of a tier. -/
def storedIn (states : Arena Entry) (tier : Nat) : Nat :=
  states.toList.countP fun entry => entry.2.tier = some tier

/-- The number of live states whose buffer is of a tier. -/
def stored (s : Store) (tier : Nat) : Nat := storedIn s.states tier

/-- The number of live states with a buffer of a tier, or with none. -/
def housedIn (states : Arena Entry) (tier : Option Nat) : Nat :=
  states.toList.countP fun entry => entry.2.tier = tier

theorem housedIn_of_perm {a b : Arena Entry} (perm : a.toList.Perm ((k, e) :: b.toList))
    (tier : Option Nat) : housedIn a tier = housedIn b tier + if e.tier = tier then 1 else 0 := by
  rw [housedIn, perm.countP_eq, List.countP_cons, housedIn]
  simp only [decide_eq_true_eq]

/-- How many hold a state makes no difference to its buffer. -/
theorem housedIn_modify {f : Entry → Entry} (same : ∀ e, (f e).tier = e.tier) (states : Arena Entry)
    (k : Key) (tier : Option Nat) : housedIn (states.modify k f) tier = housedIn states tier := by
  cases found : states.get? k with
  | none => rw [Arena.modify_of_vacant found]
  | some e =>
    rw [Arena.modify_of_get? found, housedIn_of_perm (Arena.toList_put_perm found (f e)),
      housedIn_of_perm (Arena.toList_perm found), same]

/-- A state that is one more counts for the tier of its buffer. -/
theorem storedIn_of_perm {a b : Arena Entry} (perm : a.toList.Perm ((k, e) :: b.toList)) (i : Nat) :
    storedIn a i = storedIn b i + if e.tier = some i then 1 else 0 :=
  housedIn_of_perm perm (some i)

theorem count_toList (tier : Option Nat) (i : Nat) :
    tier.toList.count i = if tier = some i then 1 else 0 := by
  cases tier <;> simp [List.count_singleton]

theorem storedIn_modify {f : Entry → Entry} (tier : ∀ e, (f e).tier = e.tier) (states : Arena Entry)
    (k : Key) (i : Nat) : storedIn (states.modify k f) i = storedIn states i :=
  housedIn_modify tier states k (some i)

theorem stored_insert? {tier : Option Nat} (tidy : s.states.Tidy)
    (h : s.insert? state tier = some (k, s')) (i : Nat) :
    s'.stored i = s.stored i + if tier = some i then 1 else 0 := by
  obtain ⟨_, inserted, same⟩ := Option.map_eq_some_iff.1 h
  cases same
  exact storedIn_of_perm (Arena.toList_insert_perm tidy inserted) i

/-! ## Tiers -/

/-- A change of one tier leaves the others as they are. -/
theorem tiers_modify {tiers : List Tier} {f : Tier → Tier} {P Q : Nat → Tier → Prop}
    (before : ∀ i t, tiers[i]? = some t → P i t)
    (here : ∀ t, tiers[tier]? = some t → P tier t → Q tier (f t))
    (others : ∀ i t, i ≠ tier → P i t → Q i t) :
    ∀ i t, (tiers.modify tier f)[i]? = some t → Q i t := by
  intro i t found
  rw [List.getElem?_modify] at found
  obtain ⟨t₀, held, rfl⟩ := Option.map_eq_some_iff.1 found
  by_cases same : tier = i
  · subst same
    simp only [if_true]
    exact here t₀ held (before tier t₀ held)
  · simp only [if_neg same]
    exact others i t₀ (Ne.symm same) (before i t₀ held)

/-- A buffer is only taken from a tier that has one left. -/
theorem lt_capacity_of_reserve {size : Nat} (h : reserve size s = .ok tier s') :
    ∃ t, s.tiers[tier]? = some t ∧ t.inUse < t.capacity := by
  unfold reserve Tier.reserve at h
  split at h
  · next i tiers reserved =>
    cases h
    split at reserved
    · cases reserved
    split at reserved
    · next first =>
      cases reserved
      obtain ⟨inside, offers, _⟩ := List.findIdx?_eq_some_iff_getElem.1 first
      refine ⟨_, List.getElem?_eq_getElem inside, ?_⟩
      simp only [Tier.offers, Bool.and_eq_true, decide_eq_true_eq] at offers
      exact offers.2
    · cases reserved
  · cases h

/-! ## Saving -/

/-- All that can come of a draft that is saved. -/
inductive Saving (d : Draft) (l : Label) (c : Content) (s : Store) :
    EStateM.Result Error Store Saved → Prop
  | refused (r : Error) : Saving d l c s (.error r (s.drop d))
  | duplicate {k : Key} {state : State} : s.state? k = some state →
    Saving d l c s (.ok (.duplicate k) ((s.drop d).retain k))
  | inserted {k : Key} {s' : Store} : s.index.get? l.id.indexKey = none →
    s.insert? { l with data := c.bytes } (some d.tier) = some (k, s') →
    Saving d l c s (.ok (.inserted k) s')

theorem saving_save (d : Draft) (l : Label) (c : Content) (s : Store) :
    Saving d l c s (save d l c s) := by
  unfold save
  split
  · exact .refused _
  split
  · exact .refused _
  split
  · next probed =>
    obtain ⟨_, live, _⟩ := probe_eq_ok probed
    exact .duplicate live
  · exact .refused _
  · next probed =>
    split
    · next inserted => exact .inserted (probe_eq_none probed) inserted
    · exact .refused _

/-- All that can come of a state that is saved for good. -/
inductive Pinning (l : Label) (data : Bytes) (s : Store) : EStateM.Result Error Store Saved → Prop
  | refused (r : Error) : Pinning l data s (.error r s)
  | duplicate {k : Key} {state : State} : s.state? k = some state →
    Pinning l data s (.ok (.duplicate k) (s.retain k))
  | inserted {k : Key} {s' : Store} : s.index.get? l.id.indexKey = none →
    s.insert? { l with priority := permanentPriority, data } none = some (k, s') →
    Pinning l data s (.ok (.inserted k) s')

theorem pinning_savePermanent (l : Label) (data : Bytes) (s : Store) :
    Pinning l data s (savePermanent l data s) := by
  unfold savePermanent
  split
  · exact .refused _
  split
  · next probed =>
    obtain ⟨_, live, _⟩ := probe_eq_ok probed
    exact .duplicate live
  · exact .refused _
  · next probed =>
    split
    · next inserted => exact .inserted (probe_eq_none probed) inserted
    · exact .refused _

theorem tiers_insert? {tier : Option Nat} (h : s.insert? state tier = some (k, s')) :
    s'.tiers = s.tiers := by
  obtain ⟨_, _, same⟩ := Option.map_eq_some_iff.1 h
  cases same
  rfl

/-! ## Accounts -/

/-- The buffers in use are those of live states and those of the tiers `lent`, every state stands
once in the index, and no counter exceeds its peak, nor a peak what there is. -/
structure Accounted (lent : List Nat) (s : Store) : Prop where
  sound : s.Sound
  distinct : s.index.Distinct
  counted : s.states.Counted
  tiers : ∀ i t, s.tiers[i]? = some t →
    t.inUse = s.stored i + lent.count i ∧ t.inUse ≤ t.peak ∧ t.peak ≤ t.capacity
  present : ∀ i, 0 < s.stored i + lent.count i → i < s.tiers.length
  reached : s.index.size ≤ s.indexPeak
  bounded : s.indexPeak ≤ s.states.capacity

/-- The index has one entry for each live state. -/
theorem size_index (sound : s.Sound) (distinct : s.index.Distinct) :
    s.index.size = s.states.toList.length := by
  -- both sides list the keys of live states, each once
  have entry :
      ∀ p k, (p, k) ∈ s.index.entries ↔ ∃ state, s.state? k = some state ∧ state.id.indexKey = p :=
    fun p k => distinct.get?_eq_some_iff.symm.trans (sound.indexed p k)
  have once : (s.index.entries.map Prod.snd).Nodup := by
    refine (List.Nodup.of_map _ distinct).map_on ?_
    rintro ⟨p, k⟩ here ⟨q, k'⟩ there same
    cases same
    obtain ⟨state, live, rfl⟩ := (entry p k).1 here
    obtain ⟨state', live', rfl⟩ := (entry q k).1 there
    rw [live] at live'
    cases live'
    rfl
  have same : (s.index.entries.map Prod.snd).Perm (s.states.toList.map Prod.fst) := by
    refine (List.perm_ext_iff_of_nodup once s.states.nodup_keys).2 fun k => ?_
    simp only [List.mem_map, Prod.exists, exists_eq_right, Arena.mem_toList]
    constructor
    · rintro ⟨p, among⟩
      obtain ⟨state, live, _⟩ := (entry p k).1 among
      obtain ⟨e, found, _⟩ := state?_eq_some_iff.1 live
      exact ⟨k, e, found, rfl⟩
    · rintro ⟨_, e, found, rfl⟩
      exact ⟨_, (entry _ _).2 ⟨e.state, state?_eq_some_iff.2 ⟨e, found, rfl⟩, rfl⟩⟩
  have total := same.length_eq
  rwa [List.length_map, List.length_map] at total

namespace Accounted

/-- What changes hands stays in use. -/
theorem handOver {lent' : List Nat} (accounted : Accounted lent s) (tiers : s'.tiers = s.tiers)
    (total : ∀ i, s'.stored i + lent'.count i = s.stored i + lent.count i) (sound : s'.Sound)
    (distinct : s'.index.Distinct) (counted : s'.states.Counted)
    (reached : s'.index.size ≤ s'.indexPeak) (bounded : s'.indexPeak ≤ s'.states.capacity) :
    Accounted lent' s' := by
  refine ⟨sound, distinct, counted, fun i t found => ?_, fun i used => ?_, reached, bounded⟩
  · rw [total]
    exact accounted.tiers i t (tiers ▸ found)
  · rw [total] at used
    rw [tiers]
    exact accounted.present i used

theorem perm {lent' : List Nat} (accounted : Accounted lent s) (same : lent.Perm lent') :
    Accounted lent' s :=
  accounted.handOver rfl (fun i => by rw [same.count_eq]) accounted.sound accounted.distinct
    accounted.counted accounted.reached accounted.bounded

/-! ## Buffers that come and go -/

/-- A buffer that is taken is lent out. -/
theorem reserve {size : Nat} (accounted : Accounted lent s) (h : reserve size s = .ok tier s') :
    Accounted (tier :: lent) s' := by
  obtain ⟨t₀, offered, left⟩ := lt_capacity_of_reserve h
  obtain ⟨inside, rfl⟩ := reserve_eq_ok h
  obtain ⟨sound, distinct, counted, tiers, present, reached, bounded⟩ := accounted
  refine ⟨sound.congr rfl rfl, distinct, counted, ?_, fun i used => ?_, reached, bounded⟩
  · refine tiers_modify tiers ?_ ?_
    · rintro t found ⟨inUse, _, fits⟩
      rw [offered] at found
      cases found
      have more : (tier :: lent).count tier = lent.count tier + 1 := List.count_cons_self
      refine ⟨?_, Nat.le_max_right _ _, Nat.max_le.2 ⟨fits, left⟩⟩
      rw [more]
      exact congrArg Nat.succ inUse
    · intro i t other account
      rw [List.count_cons_of_ne (Ne.symm other)]
      exact account
  · rw [List.length_modify]
    by_cases here : tier = i
    · exact here ▸ inside
    · rw [List.count_cons_of_ne here] at used
      exact present i used

/-- A buffer that comes back is no longer lent out. -/
theorem giveBack (accounted : Accounted (tier :: lent) s) : Accounted lent (s.giveBack tier) := by
  obtain ⟨sound, distinct, counted, tiers, present, reached, bounded⟩ := accounted
  refine ⟨sound.congr rfl rfl, distinct, counted, ?_, fun i used => ?_, reached, bounded⟩
  · refine tiers_modify tiers ?_ ?_
    · rintro t _ ⟨inUse, within, fits⟩
      have more : (tier :: lent).count tier = lent.count tier + 1 := List.count_cons_self
      rw [more] at inUse
      refine ⟨?_, Nat.le_trans (Nat.sub_le _ 1) within, fits⟩
      change t.inUse - 1 = _
      rw [inUse]
      rfl
    · intro i t other account
      rwa [List.count_cons_of_ne (Ne.symm other)] at account
  · have fewer : lent.count i ≤ (tier :: lent).count i :=
      (List.sublist_cons_self tier lent).count_le i
    have before := present i (Nat.lt_of_lt_of_le used (Nat.add_le_add_left fewer _))
    exact Nat.lt_of_lt_of_eq before (List.length_modify _ _ _).symm

/-! ## States that come and go -/

/-- How many hold a state makes no difference to the buffers. -/
theorem recount {f : Entry → Entry} (accounted : Accounted lent s) (tier : ∀ e, (f e).tier = e.tier)
    (sound : { s with states := s.states.modify k f }.Sound) :
    Accounted lent { s with states := s.states.modify k f } := by
  refine accounted.handOver rfl (fun i => ?_) sound accounted.distinct
    (accounted.counted.modify k f)
    accounted.reached ?_
  · rw [stored, storedIn_modify tier, stored]
  · rw [Arena.capacity_modify]
    exact accounted.bounded

theorem retain (accounted : Accounted lent s) (live : s.state? k = some state) :
    Accounted lent (s.retain k) :=
  accounted.recount (fun _ => rfl) (sound_retain accounted.sound live)

/-- A state that is new takes over the buffer that was lent for it, if it has one. -/
theorem insert {tier : Option Nat} (accounted : Accounted (tier.toList ++ lent) s)
    (fresh : s.index.get? state.id.indexKey = none) (h : s.insert? state tier = some (k, s')) :
    Accounted lent s' := by
  have sound := (gains_insert accounted.sound fresh h).1
  have stored := stored_insert? accounted.counted.tidy h
  obtain ⟨⟨k, states⟩, inserted, same⟩ := Option.map_eq_some_iff.1 h
  cases same
  have counted := accounted.counted.insert inserted
  have distinct := accounted.distinct.insert state.id.indexKey k
  have capacity := (Arena.counters_insert inserted).2.2.1
  refine accounted.handOver rfl (fun i => ?_) sound distinct counted (Nat.le_max_right _ _) ?_
  · rw [stored, List.count_append, count_toList, Nat.add_assoc]
  · -- the index has an entry for each state, so it does not outgrow the places for them
    have entries := size_index sound distinct
    rw [← counted.size] at entries
    refine Nat.max_le.2 ⟨Nat.le_trans accounted.bounded (Nat.le_of_eq capacity.symm), ?_⟩
    exact Nat.le_trans (Nat.le_of_eq entries) (Nat.le_trans counted.reached counted.bounded)

/-- A state that ends gives its buffer back, if it has one. -/
theorem remove (accounted : Accounted lent s) (found : s.states.get? k = some e) :
    Accounted lent (s.remove k e true) := by
  have sound := sound_remove accounted.sound found
  have known : s.index.get? e.state.id.indexKey = some k :=
    (accounted.sound.indexed _ k).2 ⟨e.state, state?_eq_some_iff.2 ⟨e, found, rfl⟩, rfl⟩
  have parted : Accounted (e.tier.toList ++ lent)
      { s with states := s.states.erase k, index := s.index.erase e.state.id.indexKey } := by
    refine accounted.handOver rfl (fun i => ?_) ?_ (accounted.distinct.erase _)
      (accounted.counted.erase k) ?_ ?_
    · have before := storedIn_of_perm (Arena.toList_perm found) i
      rw [List.count_append, count_toList, stored, stored, before, Nat.add_assoc]
    · refine sound.congr (states_remove s k e true).symm ?_
      rw [index_remove, if_pos known]
    · exact Nat.le_trans (Index.size_erase_le _ _) accounted.reached
    · rw [Arena.capacity_erase]
      exact accounted.bounded
  unfold Store.remove
  simp only [known, beq_self_eq_true, Bool.and_self, if_true]
  cases tier : e.tier with
  | none =>
    rw [tier] at parted
    exact parted
  | some i =>
    rw [tier] at parted
    exact parted.giveBack

theorem release (accounted : Accounted lent s) (k : Key) : Accounted lent (s.release k true) := by
  cases found : s.states.get? k with
  | none =>
    rw [Store.release, found]
    exact accounted
  | some e =>
    have sound := sound_release accounted.sound (state?_eq_some_iff.2 ⟨e, found, rfl⟩)
    by_cases stays : 1 < e.uses ∨ e.state.priority = permanentPriority
    · simp only [Store.release, found, if_pos stays] at sound ⊢
      exact accounted.recount (fun _ => rfl) sound
    · simp only [Store.release, found, if_neg stays]
      exact accounted.remove found

/-! ## Drafts -/

/-- A draft that is saved is no longer lent out: its buffer is that of a new state, or has come
back. -/
theorem save (accounted : Accounted (d.tier :: lent) s) (l : Label) (c : Content) :
    Accounted lent (after (save d l c s)) := by
  have dropped : Accounted lent (s.drop d) := accounted.giveBack
  have outcome := saving_save d l c s
  generalize Store.save d l c s = result at outcome
  cases outcome with
  | refused r => exact dropped
  | @duplicate k state live =>
    have stays : (s.drop d).state? k = some state := live
    exact dropped.retain stays
  | inserted fresh inserted =>
    have reserved : Accounted ((some d.tier).toList ++ lent) s := accounted
    exact reserved.insert fresh inserted

theorem savePermanent (accounted : Accounted lent s) (l : Label) (data : Bytes) :
    Accounted lent (after (savePermanent l data s)) := by
  have outcome := pinning_savePermanent l data s
  generalize Store.savePermanent l data s = result at outcome
  cases outcome with
  | refused r => exact accounted
  | duplicate live => exact accounted.retain live
  | inserted fresh inserted =>
    have unreserved : Accounted ((none : Option Nat).toList ++ lent) s := accounted
    exact unreserved.insert fresh inserted

end Accounted

/-! ## What is done to the tiers -/

/-- The sizes of the buffers and how many of each there are. -/
def layout (s : Store) : List (Nat × Nat) := s.tiers.map fun t => (t.size, t.capacity)

/-- The tiers are as they were, or one buffer has been taken or come back. -/
def Touches (s s' : Store) : Prop :=
  s'.tiers = s.tiers ∨ ∃ tier, s'.tiers = s.tiers.modify tier Tier.take ∨
    s'.tiers = s.tiers.modify tier Tier.giveBack

theorem Touches.layout (touches : Touches s s') : s'.layout = s.layout := by
  have changed (f : Tier → Tier) (same : ∀ t, ((f t).size, (f t).capacity) = (t.size, t.capacity))
      (tier : Nat) (tiers : s'.tiers = s.tiers.modify tier f) : s'.layout = s.layout := by
    apply List.ext_getElem?
    intro i
    simp only [Store.layout, tiers, List.getElem?_map, List.getElem?_modify]
    cases s.tiers[i]? with
    | none => rfl
    | some t =>
      by_cases here : tier = i
      · simp only [here, if_true, Option.map_some, Option.map_eq_map, same]
      · simp only [if_neg here, Option.map_some, Option.map_eq_map]
  rcases touches with tiers | ⟨tier, tiers | tiers⟩
  · rw [Store.layout, tiers, Store.layout]
  · exact changed Tier.take (fun _ => rfl) tier tiers
  · exact changed Tier.giveBack (fun _ => rfl) tier tiers

theorem touches_reserve {size : Nat} (h : reserve size s = .ok tier s') : Touches s s' := by
  obtain ⟨_, rfl⟩ := reserve_eq_ok h
  exact .inr ⟨tier, .inl rfl⟩

theorem touches_release (s : Store) (k : Key) : Touches s (s.release k true) := by
  unfold release
  split
  · exact .inl rfl
  · next e _ =>
    split
    · exact .inl rfl
    · unfold remove
      cases e.tier with
      | none => exact .inl rfl
      | some tier => exact .inr ⟨tier, .inr rfl⟩

theorem touches_perform (s : Store) (o : Operation) : Touches s (o.perform s) := by
  cases o with
  | create size =>
    simp only [Operation.perform]
    cases made : Store.create size s with
    | ok d s' => exact touches_reserve (create_eq_ok made).2
    | error r s' => exact .inl (congrArg tiers (create_eq_error made))
  | drop d => exact .inr ⟨d.tier, .inr rfl⟩
  | save d l c =>
    have outcome := saving_save d l c s
    simp only [Operation.perform]
    generalize Store.save d l c s = result at outcome
    cases outcome with
    | refused r => exact .inr ⟨d.tier, .inr rfl⟩
    | duplicate _ => exact .inr ⟨d.tier, .inr rfl⟩
    | inserted _ inserted => exact .inl (tiers_insert? inserted)
  | savePermanent l data =>
    have outcome := pinning_savePermanent l data s
    simp only [Operation.perform]
    generalize Store.savePermanent l data s = result at outcome
    cases outcome with
    | refused r => exact .inl rfl
    | duplicate _ => exact .inl rfl
    | inserted _ inserted => exact .inl (tiers_insert? inserted)
  | release k => exact touches_release s k
  | allocContext size =>
    simp only [Operation.perform]
    cases made : Store.allocContext size s with
    | ok context s' => exact touches_reserve (allocContext_eq_ok made).2
    | error r s' => exact .inl (congrArg tiers (allocContext_eq_error made))
  | dropContext context => exact .inr ⟨context.tier, .inr rfl⟩
  | find partialId ignoreAccess => exact .inl rfl

/-! ## Drafts and contexts that are out -/

/-- What an operation has handed out: nothing if it was refused. -/
def handedOut {α : Type} : EStateM.Result Error Store α → List α
  | .ok a _ => [a]
  | .error .. => []

/-- Stores that come about by operations, with the drafts and contexts that are out.  A draft is
dropped or saved once, and a context comes back once. -/
inductive Lending (settings : Settings) : List Draft → List Context → Store → Prop
  | opened : Lending settings [] [] (ofSettings settings)
  | created {drafts : List Draft} {contexts : List Context} {s : Store} (size : Nat) :
    Lending settings drafts contexts s →
    Lending settings (handedOut (create size s) ++ drafts) contexts
      (Operation.perform s (.create size))
  | dropped {drafts : List Draft} {contexts : List Context} {s : Store} {d : Draft} : d ∈ drafts →
    Lending settings drafts contexts s →
    Lending settings (drafts.erase d) contexts (Operation.perform s (.drop d))
  | saved {drafts : List Draft} {contexts : List Context} {s : Store} {d : Draft} (l : Label)
      (c : Content) : d ∈ drafts → Lending settings drafts contexts s →
    Lending settings (drafts.erase d) contexts (Operation.perform s (.save d l c))
  | pinned {drafts : List Draft} {contexts : List Context} {s : Store} (l : Label) (data : Bytes) :
    Lending settings drafts contexts s →
    Lending settings drafts contexts (Operation.perform s (.savePermanent l data))
  | released {drafts : List Draft} {contexts : List Context} {s : Store} (k : Key) :
    Lending settings drafts contexts s →
    Lending settings drafts contexts (Operation.perform s (.release k))
  | lent {drafts : List Draft} {contexts : List Context} {s : Store} (size : Nat) :
    Lending settings drafts contexts s →
    Lending settings drafts (handedOut (allocContext size s) ++ contexts)
      (Operation.perform s (.allocContext size))
  | written {drafts : List Draft} {contexts : List Context} {s : Store} {context : Context}
      (data : Bytes) : context ∈ contexts → Lending settings drafts contexts s →
    Lending settings drafts (context.write data :: contexts.erase context) s
  | returned {drafts : List Draft} {contexts : List Context} {s : Store} {context : Context} :
    context ∈ contexts → Lending settings drafts contexts s →
    Lending settings drafts (contexts.erase context) (Operation.perform s (.dropContext context))

variable {settings : Settings} {drafts : List Draft} {contexts : List Context}

theorem Lending.layout (lending : Lending settings drafts contexts s) :
    s.layout = settings.tiers := by
  induction lending with
  | opened =>
    simp only [Store.layout, ofSettings, List.map_map]
    exact List.map_id _
  | created size _ ih => exact (touches_perform _ _).layout.trans ih
  | dropped _ _ ih => exact (touches_perform _ _).layout.trans ih
  | saved l c _ _ ih => exact (touches_perform _ _).layout.trans ih
  | pinned l data _ ih => exact (touches_perform _ _).layout.trans ih
  | released k _ ih => exact (touches_perform _ _).layout.trans ih
  | lent size _ ih => exact (touches_perform _ _).layout.trans ih
  | written data _ _ ih => exact ih
  | returned _ _ ih => exact (touches_perform _ _).layout.trans ih

theorem accounted_ofSettings (settings : Settings) : Accounted [] (ofSettings settings) := by
  refine ⟨sound_ofSettings settings, List.nodup_nil, .empty _, fun i t found => ?_,
    fun i used => ?_, Nat.le_refl 0, Nat.zero_le _⟩
  · obtain ⟨_, _, rfl⟩ := List.mem_map.1 (List.mem_of_getElem? found)
    exact ⟨rfl, Nat.le_refl 0, Nat.zero_le _⟩
  · exact absurd used (Nat.lt_irrefl 0)

/-- One of the lists that are joined may be taken apart. -/
theorem lent_perm {d : Draft} (among : d ∈ drafts) :
    (drafts.map Draft.tier ++ contexts.map Context.tier).Perm
      (d.tier :: ((drafts.erase d).map Draft.tier ++ contexts.map Context.tier)) :=
  ((List.perm_cons_erase among).map Draft.tier).append_right _

theorem lent_perm_context {context : Context} (among : context ∈ contexts) :
    (drafts.map Draft.tier ++ contexts.map Context.tier).Perm
      (context.tier :: (drafts.map Draft.tier ++ (contexts.erase context).map Context.tier)) :=
  (((List.perm_cons_erase among).map Context.tier).append_left _).trans List.perm_middle

theorem Lending.accounted (lending : Lending settings drafts contexts s) :
    Accounted (drafts.map Draft.tier ++ contexts.map Context.tier) s := by
  induction lending with
  | opened => exact accounted_ofSettings settings
  | @created drafts contexts s size _ ih =>
    simp only [Operation.perform]
    cases made : Store.create size s with
    | ok d s' => exact ih.reserve (create_eq_ok made).2
    | error r s' =>
      rw [create_eq_error made]
      exact ih
  | dropped among _ ih => exact (ih.perm (lent_perm among)).giveBack
  | saved l c among _ ih => exact (ih.perm (lent_perm among)).save l c
  | pinned l data _ ih => exact ih.savePermanent l data
  | released k _ ih => exact ih.release k
  | @lent drafts contexts s size _ ih =>
    simp only [Operation.perform]
    cases made : Store.allocContext size s with
    | ok context s' => exact (ih.reserve (allocContext_eq_ok made).2).perm List.perm_middle.symm
    | error r s' =>
      rw [allocContext_eq_error made]
      exact ih
  | written data among _ ih =>
    exact (ih.perm (lent_perm_context among)).perm List.perm_middle.symm
  | returned among _ ih => exact (ih.perm (lent_perm_context among)).giveBack

/-- Whatever has been done to a store, the buffers in use in each tier are those of the live states
whose buffer is of the tier and of the drafts and contexts of the tier that are out; in the tiers of
the settings, the places for states and the index, what is in use has not exceeded its peak, nor the
peak what there is.  A draft that is refused, or found to be a duplicate, gives back the one buffer
that was reserved for it, which is in use until then; one that becomes a state hands it over. -/
theorem buffers_are_accounted (lending : Lending settings drafts contexts s) :
    s.tiers.map (fun t => (t.size, t.capacity)) = settings.tiers ∧
    (∀ i t, s.tiers[i]? = some t →
      t.inUse = s.stored i + drafts.countP (·.tier = i) + contexts.countP (·.tier = i)) ∧
    (∀ u ∈ s.accounts.states :: s.accounts.index :: s.accounts.tiers,
      u.inUse ≤ u.peak ∧ u.peak ≤ u.allocated) ∧
    s.accounts.states.inUse = s.states.toList.length ∧
    s.accounts.index.inUse = s.states.toList.length ∧
    ∀ d ∈ drafts, ∀ l content, ∃ t, s.tiers[d.tier]? = some t ∧ 0 < t.inUse ∧
      match save d l content s with
      | .ok (.inserted _) s' => s'.tiers = s.tiers ∧ s'.stored d.tier = s.stored d.tier + 1
      | .ok (.duplicate _) s' | .error _ s' => s'.tiers = s.tiers.modify d.tier Tier.giveBack := by
  have accounted := lending.accounted
  have entries := size_index accounted.sound accounted.distinct
  have lent : ∀ i, (drafts.map Draft.tier ++ contexts.map Context.tier).count i =
      drafts.countP (·.tier = i) + contexts.countP (·.tier = i) := by
    intro i
    rw [List.count_append, List.count_eq_countP, List.count_eq_countP, List.countP_map,
      List.countP_map]
    rfl
  refine ⟨lending.layout, fun i t found => ?_, ?_, accounted.counted.size, entries,
    fun d among l content => ?_⟩
  · rw [(accounted.tiers i t found).1, lent, Nat.add_assoc]
  · simp only [List.forall_mem_cons]
    refine ⟨⟨accounted.counted.reached, accounted.counted.bounded⟩,
      ⟨accounted.reached, accounted.bounded⟩, ?_⟩
    intro u one
    obtain ⟨t, tier, rfl⟩ := List.mem_map.1 one
    obtain ⟨i, found⟩ := List.mem_iff_getElem?.1 tier
    exact (accounted.tiers i t found).2
  · have used : 0 < (drafts.map Draft.tier ++ contexts.map Context.tier).count d.tier :=
      List.count_pos_iff.2 (List.mem_append_left _ (List.mem_map_of_mem among))
    have inside := accounted.present d.tier (Nat.lt_add_left _ used)
    have found := List.getElem?_eq_getElem inside
    refine ⟨_, found, ?_, ?_⟩
    · rw [(accounted.tiers _ _ found).1]
      exact Nat.lt_add_left _ used
    · have outcome := saving_save d l content s
      generalize save d l content s = result at outcome
      cases outcome with
      | refused r => rfl
      | duplicate _ => rfl
      | inserted fresh inserted =>
        refine ⟨tiers_insert? inserted, ?_⟩
        rw [stored_insert? accounted.counted.tidy inserted, if_pos rfl]

/-- A label with an identifier that begins like those of all such labels. -/
def similarLabel (last : UInt8) : Label :=
  ⟨⟨(Vector.replicate 20 1).set 19 last⟩, 0, 0, 6, 0⟩

/-- A state, a draft and a context have taken three buffers of a tier.  The draft is refused, since
its identifier begins like that of the state, and two buffers are left in use. -/
theorem refused_draft_gives_back :
    ∃ s s' t, Lending {} [⟨0, 1⟩] [⟨0, [0, 0]⟩] s ∧ s.tiers[0]? = some t ∧ t.inUse = 3 ∧
      s.stored 0 = 1 ∧ save ⟨0, 1⟩ (similarLabel 2) (.ofBytes [8]) s = .error .collision s' ∧
      (s'.tiers.map Tier.inUse)[0]? = some 2 := by
  let s : Store := (ofSettings {}).run
    [.create 1, .save ⟨0, 1⟩ (similarLabel 1) (.ofBytes [7]), .allocContext 2, .create 1]
  have one : Lending {} [⟨0, 1⟩] [] _ := Lending.opened.created 1
  have saved : Lending {} [] [] _ := one.saved (similarLabel 1) (.ofBytes [7]) List.mem_cons_self
  have lent : Lending {} [] [⟨0, [0, 0]⟩] _ := saved.lent 2
  have lending : Lending {} [⟨0, 1⟩] [⟨0, [0, 0]⟩] s := lent.created 1
  have course : s.stored 0 = 1 ∧
      (match save ⟨0, 1⟩ (similarLabel 2) (.ofBytes [8]) s with
        | .ok _ _ => none
        | .error r _ => some r) = some .collision := by
    decide +kernel
  obtain ⟨stored, collides⟩ := course
  obtain ⟨_, inUse, _, _, _, drafts⟩ := buffers_are_accounted lending
  obtain ⟨t, found, _, given⟩ := drafts ⟨0, 1⟩ List.mem_cons_self (similarLabel 2) (.ofBytes [8])
  have three : t.inUse = 3 := by
    rw [inUse 0 t found, stored]
    rfl
  cases refused : save ⟨0, 1⟩ (similarLabel 2) (.ofBytes [8]) s with
  | ok saved s' =>
    rw [refused] at collides
    cases collides
  | error r s' =>
    rw [refused] at collides given
    cases collides
    refine ⟨s, s', t, lending, found, three, stored, refused, ?_⟩
    rw [given, List.getElem?_map, List.getElem?_modify, found]
    simp [Tier.giveBack, three]

end Store

end SigComp
