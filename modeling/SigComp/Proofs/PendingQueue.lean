import Mathlib.Data.List.Nodup
import SigComp.Pending
import SigComp.Proofs.ArenaChanges

/-!
# Machines that wait and their deadlines

The machines that wait and the queue of their deadlines always agree, and the names of the
machines are as good as their keys.

* `Pending.Named`: the slot of every machine can be read off its name, which is not zero.
* `Named.claim_eq_ok_iff`: so a name claims the one machine that has it.
* `Suspends` and `suspends_suspend`: a machine that is suspended gets a name and a key of its
  own, and `Suspends.fresh_before`: not even the key of one that has just been reaped.
* `Pending.Orderly now span`: moreover, each machine that waits has one deadline and each deadline
  a machine, and the deadlines are in order and at most `span` from `now`.
* `Orderly.get?_reap` and `Orderly.deadlines_reap`: so reaping, which stops at the first
  machine whose time is not over, takes out exactly those whose time is over.
-/

namespace SigComp.Pending

variable {p q : Pending} {now t span due : Nat} {k k' : Key} {w : Suspended} {id : MachineId}
  {m : Machine} {feedback : Option Bytes}

/-! ## Names -/

theorem toNat_and_mask (n : UInt32) : (n &&& 1023).toNat = n.toNat % 1024 := by
  rw [UInt32.toNat_and]
  exact Nat.and_two_pow_sub_one_eq_mod n.toNat 10

/-- The slot takes up the ten low bits of a name, the 22 low bits of the count the others. -/
theorem toNat_idOf (count : UInt32) {slot : Nat} (small : slot < 1024) :
    (idOf count slot).toNat = count.toNat % 4194304 * 1024 + slot := by
  have high : (count <<< 10).toNat = 2 ^ 10 * (count.toNat % 4194304) := by
    rw [UInt32.toNat_shiftLeft, Nat.shiftLeft_eq]
    change count.toNat * 2 ^ 10 % 2 ^ 32 = _
    omega
  have low : (UInt32.ofNat slot &&& 1023).toNat = slot := by
    rw [toNat_and_mask]
    change slot % 2 ^ 32 % 1024 = slot
    omega
  rw [idOf, UInt32.toNat_or, high, low, ← Nat.two_pow_add_eq_or_of_lt small, Nat.mul_comm]

/-- The slot is told by the ten low bits of the name, whatever the count. -/
theorem slotOf_idOf (count : UInt32) {slot : Nat} (small : slot < 1024) :
    slotOf (idOf count slot) = slot := by
  rw [slotOf, toNat_and_mask, toNat_idOf count small]
  omega

/-- The slot of every machine that waits can be read off its name, which is not zero. -/
structure Named (p : Pending) : Prop where
  counted : p.machines.Counted
  small : p.machines.capacity ≤ 1024
  named : ∀ k w, p.machines.get? k = some w → slotOf w.id = k.slot ∧ w.id ≠ 0

namespace Named

/-- The machine that a name stands for can be looked up in the slot that the name tells. -/
theorem getSlot? (names : p.Named) (waits : p.machines.get? k = some w) :
    p.machines.getSlot? (slotOf w.id) = some (k, w) :=
  Arena.getSlot?_eq_some_iff.2 ⟨(names.named k w waits).1.symm, waits⟩

/-- No two machines that wait have the same name. -/
theorem name_unique {w' : Suspended} (names : p.Named) (here : p.machines.get? k = some w)
    (there : p.machines.get? k' = some w') (same : w.id = w'.id) : k = k' ∧ w = w' := by
  have first := names.getSlot? here
  rw [same, names.getSlot? there] at first
  cases first
  exact ⟨rfl, rfl⟩

end Named

/-! ## Order -/

/-- Each machine that waits has one deadline and each deadline a machine that waits; the deadlines
are in order and at most `span` from `now`; and a machine's name, which is not zero, tells its
slot. -/
structure Orderly (now span : Nat) (p : Pending) : Prop where
  counted : p.machines.Counted
  small : p.machines.capacity ≤ 1024
  once : (p.deadlines.map Prod.fst).Nodup
  queued : ∀ k, (∃ due, (k, due) ∈ p.deadlines) ↔ ∃ w, p.machines.get? k = some w
  sorted : p.deadlines.Pairwise fun a b => a.2 ≤ b.2
  near : ∀ entry ∈ p.deadlines, entry.2 ≤ now + span
  named : ∀ k w, p.machines.get? k = some w → slotOf w.id = k.slot ∧ w.id ≠ 0

theorem orderly_ofSettings (s : Settings) (now span : Nat) : Orderly now span (ofSettings s) := by
  have nothing : ∀ k, (ofSettings s).machines.get? k = none :=
    fun k => Arena.get?_eq_none_of_beyond (Nat.zero_le _)
  refine ⟨.empty _, Nat.min_le_right _ _, List.nodup_nil, fun k => ?_, .nil, nofun,
    fun k w found => ?_⟩
  · rw [nothing]
    constructor
    · rintro ⟨_, impossible⟩
      cases impossible
    · rintro ⟨_, impossible⟩
      cases impossible
  · rw [nothing] at found
    cases found

namespace Orderly

theorem later (orderly : Orderly now span p) (passed : now ≤ t) : Orderly t span p := by
  obtain ⟨counted, small, once, queued, sorted, near, named⟩ := orderly
  refine ⟨counted, small, once, queued, sorted, fun entry among => ?_, named⟩
  exact Nat.le_trans (near entry among) (Nat.add_le_add_right passed span)

/-- A machine has no two deadlines. -/
theorem due_unique {due' : Nat} (orderly : Orderly now span p) (here : (k, due) ∈ p.deadlines)
    (there : (k, due') ∈ p.deadlines) : due = due' :=
  congrArg Prod.snd (List.inj_on_of_nodup_map orderly.once here there rfl)

theorem toNamed (orderly : Orderly now span p) : p.Named :=
  ⟨orderly.counted, orderly.small, orderly.named⟩

end Orderly

/-! ## Reaping -/

/-- What is left of a queue in order is what lies ahead. -/
theorem deadlines_reapFrom {queue : List (Key × Nat)} (machines : Arena Suspended)
    (sorted : queue.Pairwise fun a b => a.2 ≤ b.2) :
    (reapFrom t queue machines).1 = queue.filter fun entry => t < entry.2 := by
  induction queue generalizing machines with
  | nil => rfl
  | cons entry rest ih =>
    obtain ⟨k, due⟩ := entry
    obtain ⟨first, others⟩ := List.pairwise_cons.1 sorted
    unfold reapFrom
    split
    · next ahead =>
      symm
      rw [List.filter_eq_self]
      intro entry among
      rw [decide_eq_true_eq]
      rcases List.mem_cons.1 among with rfl | among
      · exact ahead
      · exact Nat.lt_of_lt_of_le ahead (first entry among)
    · next past =>
      rw [List.filter_cons_of_neg (by simpa using past)]
      exact ih _ others

/-- The machines taken out are those of the deadlines that are over. -/
theorem get?_reapFrom {queue : List (Key × Nat)} (machines : Arena Suspended)
    (sorted : queue.Pairwise fun a b => a.2 ≤ b.2) (k : Key) :
    (reapFrom t queue machines).2.1.get? k =
      if ∃ entry ∈ queue, entry.1 = k ∧ entry.2 ≤ t then none else machines.get? k := by
  induction queue generalizing machines with
  | nil => simp [reapFrom]
  | cons entry rest ih =>
    obtain ⟨k', due⟩ := entry
    obtain ⟨first, others⟩ := List.pairwise_cons.1 sorted
    unfold reapFrom
    split
    · next ahead =>
      rw [if_neg]
      rintro ⟨entry, among, _, past⟩
      rcases List.mem_cons.1 among with rfl | among
      · exact Nat.not_lt_of_le past ahead
      · exact Nat.not_lt_of_le (Nat.le_trans (first entry among) past) ahead
    · next past =>
      simp only [ih _ others, Arena.get?_erase, List.mem_cons, exists_eq_or_imp]
      by_cases same : k = k'
      · simp [same, Nat.le_of_not_lt past]
      · have other : ¬ (k' = k ∧ due ≤ t) := fun here => same here.1.symm
        simp only [if_neg same, false_or, other]

/-- A machine stays, or its key has served its time. -/
theorem live_or_vacated_reapFrom {machines : Arena Suspended}
    (before : machines.get? k = some w ∨ machines.Vacated k) (queue : List (Key × Nat)) :
    (reapFrom t queue machines).2.1.get? k = some w ∨
      (reapFrom t queue machines).2.1.Vacated k := by
  induction queue generalizing machines with
  | nil => exact before
  | cons entry rest ih =>
    obtain ⟨k', due⟩ := entry
    unfold reapFrom
    split
    · exact before
    · refine ih ?_
      rcases before with live | vacated
      · by_cases same : k' = k
        · exact .inr (same ▸ Arena.vacated_erase (same ▸ live))
        · refine .inl ?_
          rw [Arena.get?_erase, if_neg (Ne.symm same), live]
      · exact .inr (vacated.erase k')

theorem counted_reapFrom {machines : Arena Suspended} (counted : machines.Counted)
    (queue : List (Key × Nat)) :
    (reapFrom t queue machines).2.1.Counted ∧
      (reapFrom t queue machines).2.1.capacity = machines.capacity := by
  induction queue generalizing machines with
  | nil => exact ⟨counted, rfl⟩
  | cons entry rest ih =>
    obtain ⟨k, due⟩ := entry
    unfold reapFrom
    split
    · exact ⟨counted, rfl⟩
    · obtain ⟨still, capacity⟩ := ih (counted.erase k)
      exact ⟨still, capacity.trans (Arena.capacity_erase _ k)⟩

namespace Orderly

theorem deadlines_reap (orderly : Orderly now span p) (t : Nat) :
    (p.reap t).1.deadlines = p.deadlines.filter fun entry => t < entry.2 :=
  deadlines_reapFrom p.machines orderly.sorted

/-- Reaping takes out exactly the machines whose time is over. -/
theorem get?_reap (orderly : Orderly now span p) (queued : (k, due) ∈ p.deadlines) (t : Nat) :
    (p.reap t).1.machines.get? k = if due ≤ t then none else p.machines.get? k := by
  refine (get?_reapFrom p.machines orderly.sorted k).trans (if_congr ?_ rfl rfl)
  constructor
  · rintro ⟨⟨_, due'⟩, among, rfl, past⟩
    rwa [orderly.due_unique queued among]
  · exact fun past => ⟨(k, due), queued, rfl, past⟩

/-- What waits after reaping waited before, and its time is not over. -/
theorem get?_reap_eq_some_iff (orderly : Orderly now span p) :
    (p.reap t).1.machines.get? k = some w ↔
      p.machines.get? k = some w ∧ ∃ due, (k, due) ∈ p.deadlines ∧ t < due := by
  constructor
  · intro waits
    have waited : p.machines.get? k = some w := by
      have view := get?_reapFrom (t := t) p.machines orderly.sorted k
      change (p.reap t).1.machines.get? k = _ at view
      rw [waits] at view
      split at view
      · cases view
      · exact view.symm
    obtain ⟨due, queued⟩ := (orderly.queued k).2 ⟨w, waited⟩
    refine ⟨waited, due, queued, Nat.lt_of_not_le fun past => ?_⟩
    rw [orderly.get?_reap queued, if_pos past] at waits
    cases waits
  · rintro ⟨waited, due, queued, ahead⟩
    rw [orderly.get?_reap queued, if_neg (Nat.not_le_of_lt ahead), waited]

theorem reap (orderly : Orderly now span p) (t : Nat) : Orderly now span (p.reap t).1 := by
  have deadlines := orderly.deadlines_reap t
  obtain ⟨counted, capacity⟩ := counted_reapFrom (t := t) orderly.counted p.deadlines
  have fewer : (p.reap t).1.deadlines.Sublist p.deadlines := deadlines ▸ List.filter_sublist
  refine ⟨counted, Nat.le_trans (Nat.le_of_eq capacity) orderly.small,
    orderly.once.sublist (fewer.map _),
    fun k => ?_, orderly.sorted.sublist fewer,
    fun entry among => orderly.near entry (fewer.subset among),
    fun k w waits => orderly.named k w (orderly.get?_reap_eq_some_iff.1 waits).1⟩
  simp only [orderly.get?_reap_eq_some_iff, deadlines, List.mem_filter, decide_eq_true_eq]
  constructor
  · rintro ⟨due, queued, ahead⟩
    obtain ⟨w, waits⟩ := (orderly.queued k).1 ⟨due, queued⟩
    exact ⟨w, waits, due, queued, ahead⟩
  · rintro ⟨_, _, due, queued, ahead⟩
    exact ⟨due, queued, ahead⟩

end Orderly

/-! ## Claiming -/

/-- The machines without the one under a key, and the queue without its deadline. -/
def without (p : Pending) (k : Key) : Pending :=
  { p with machines := p.machines.erase k, deadlines := p.deadlines.filter (·.1 ≠ k) }

theorem get?_without (p : Pending) (k k' : Key) :
    (p.without k).machines.get? k' = if k' = k then none else p.machines.get? k' :=
  Arena.get?_erase p.machines k k'

/-- A name claims the one machine that has it. -/
theorem Named.claim_eq_ok_iff (names : p.Named) :
    p.claim id = .ok (w, q) ↔
      ∃ k, p.machines.get? k = some w ∧ w.id = id ∧ q = p.without k := by
  unfold claim
  constructor
  · intro claimed
    split at claimed
    · cases claimed
    split at claimed
    · cases claimed
    · next k s found =>
      obtain ⟨_, waits⟩ := Arena.getSlot?_eq_some_iff.1 found
      split at claimed
      · next same =>
        cases claimed
        exact ⟨k, waits, same, rfl⟩
      · cases claimed
  · rintro ⟨k, waits, rfl, rfl⟩
    have inside := names.counted.slot_lt waits
    rw [← (names.named k w waits).1] at inside
    rw [if_neg (Nat.not_le_of_lt inside), names.getSlot? waits]
    exact if_pos rfl

theorem Orderly.claim (orderly : Orderly now span p) (k : Key) :
    Orderly now span (p.without k) := by
  have fewer : (p.without k).deadlines.Sublist p.deadlines := List.filter_sublist
  refine ⟨orderly.counted.erase k, ?_, orderly.once.sublist (fewer.map _), fun k' => ?_,
    orderly.sorted.sublist fewer, fun entry among => orderly.near entry (fewer.subset among),
    fun k' w waits => orderly.named k' w ?_⟩
  · exact Nat.le_trans (Nat.le_of_eq (Arena.capacity_erase _ k)) orderly.small
  · rw [get?_without]
    by_cases same : k' = k
    · simp [without, same]
    · simp only [without, List.mem_filter, if_neg same, ← orderly.queued k']
      simp [same]
  · rw [get?_without] at waits
    split at waits
    · cases waits
    · exact waits

/-! ## Suspending -/

/-- A machine is suspended under a key that named none and a name of its own, with its deadline the
last in the queue. -/
structure Suspends (p : Pending) (m : Machine) (feedback : Option Bytes) (due : Nat) (k : Key)
    (id : MachineId) (q : Pending) : Prop where
  fresh : p.machines.get? k = none
  unused : ¬ p.machines.Vacated k
  view : ∀ k', q.machines.get? k' = if k' = k then some ⟨id, m, feedback⟩ else p.machines.get? k'
  deadlines : q.deadlines = p.deadlines ++ [(k, due)]
  slot : slotOf id = k.slot
  name : id ≠ 0
  counted : q.machines.Counted
  capacity : q.machines.capacity = p.machines.capacity

theorem Named.slot_lt_of_insert {machines : Arena Suspended} (names : p.Named)
    (inserted : p.machines.insert? w = some (k, machines)) : k.slot < p.machines.capacity := by
  obtain ⟨_, _, view⟩ := Arena.insert?_eq_some names.counted.tidy inserted
  have inside := (names.counted.insert inserted).slot_lt ((view k).trans (if_pos rfl))
  rwa [(Arena.counters_insert inserted).2.2.1] at inside

theorem suspends_suspend (names : p.Named) (h : p.suspend m feedback due = some (id, q)) :
    ∃ k, Suspends p m feedback due k id q := by
  obtain ⟨⟨k, machines⟩, inserted, same⟩ := Option.map_eq_some_iff.1 h
  cases same
  obtain ⟨_, fresh, view⟩ := Arena.insert?_eq_some names.counted.tidy inserted
  have counted := names.counted.insert inserted
  have capacity := (Arena.counters_insert inserted).2.2.1
  have here : machines.get? k = some ⟨0, m, feedback⟩ := (view k).trans (if_pos rfl)
  have small := Nat.lt_of_lt_of_le (names.slot_lt_of_insert inserted) names.small
  refine ⟨k, fresh, fun served => served.ne_of_insert names.counted.tidy inserted rfl,
    fun k' => ?_, rfl, slotOf_idOf _ small, idOf_nextCount_ne_zero _ _,
    counted.modify k _, (Arena.capacity_modify _ k _).trans capacity⟩
  simp only [Arena.get?_modify, here, view, Option.map_some]
  by_cases same : k' = k
  · simp [same]
  · simp [same]

/-- A machine gets a key that named none even before others were reaped. -/
theorem Suspends.fresh_before (suspends : Suspends (p.reap t).1 m feedback due k id q) :
    p.machines.get? k = none := by
  cases waited : p.machines.get? k with
  | none => rfl
  | some w =>
    rcases live_or_vacated_reapFrom (t := t) (.inl waited) p.deadlines with live | vacated
    · have fresh := suspends.fresh
      change (p.reap t).1.machines.get? k = some w at live
      rw [fresh] at live
      cases live
    · exact absurd vacated suspends.unused

/-- The machine that is suspended now has the latest deadline of all. -/
theorem Orderly.suspend (orderly : Orderly now span p)
    (suspends : Suspends p m feedback (now + span) k id q) : Orderly now span q := by
  obtain ⟨fresh, _, view, deadlines, slot, name, counted, capacity⟩ := suspends
  have unqueued : ∀ due, (k, due) ∉ p.deadlines := by
    intro due queued
    obtain ⟨w, waits⟩ := (orderly.queued k).1 ⟨due, queued⟩
    rw [fresh] at waits
    cases waits
  refine ⟨counted, Nat.le_trans (Nat.le_of_eq capacity) orderly.small, ?_, fun k' => ?_, ?_, ?_,
    fun k' w waits => ?_⟩
  · rw [deadlines, List.map_append, List.map_singleton, List.nodup_append]
    refine ⟨orderly.once, List.nodup_singleton k, fun key among key' last => ?_⟩
    obtain ⟨⟨_, due⟩, queued, rfl⟩ := List.mem_map.1 among
    rintro rfl
    cases List.mem_singleton.1 last
    exact unqueued due queued
  · rw [view, deadlines]
    by_cases same : k' = k
    · simp [same]
    · simp [same, orderly.queued k']
  · rw [deadlines, List.pairwise_append]
    refine ⟨orderly.sorted, List.pairwise_singleton _ _, fun entry among last here => ?_⟩
    rw [List.mem_singleton.1 here]
    exact orderly.near entry among
  · intro entry among
    rw [deadlines, List.mem_append, List.mem_singleton] at among
    rcases among with among | rfl
    · exact orderly.near entry among
    · exact Nat.le_refl _
  · rw [view] at waits
    split at waits
    · next same =>
      cases waits
      exact ⟨same ▸ slot, name⟩
    · exact orderly.named k' w waits

end SigComp.Pending
