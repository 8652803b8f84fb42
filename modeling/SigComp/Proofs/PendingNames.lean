import SigComp.Proofs.PendingQueue

/-!
# Names of machines that wait

The count in a name has 22 bits and goes around without notice, it passes over the values that would
make a name zero, and slots are used again at once.  Nevertheless a name stands for one machine, and
it takes long until it stands for another.

* `nextCount_ofNat`: the count as one that never goes around, `Pending.onward`, of which a name
  shows the remainder (`idOf_eq_iff`).
* `Pending.spent`: what suspensions have used up of it, at most one each; the values passed over do
  not count.
* `getElem?_namesFrom_apart`: so the same name is given again only after as many suspensions as
  there are values.
* `Pending.Act`: what is done to the machines that wait.  `issued_eq_namesFrom`: which names a run
  gives.
* `names_are_unambiguous`: what a name is worth at any point of any run.
-/

namespace SigComp.Pending

variable {p q : Pending} {k k' : Key} {w : Suspended} {id : MachineId} {t i j slot : Nat}
  {slots : List Nat}

/-! ## The count -/

/-- The count is moved on until the name is not zero, so many times at most. -/
def seek (slot : Nat) : (rounds : Nat) → UInt32 → Option UInt32
  | 0, _ => none
  | rounds + 1, count =>
    if idOf (count + 1) slot ≠ 0 then some (count + 1) else seek slot rounds (count + 1)

/-- Two rounds are enough. -/
theorem seek_eq_nextCount (slot rounds : Nat) (count : UInt32) :
    seek slot (rounds + 2) count = some (nextCount count slot) := by
  have found := idOf_nextCount_ne_zero count slot
  have twice : count + 1 + 1 = count + 2 := UInt32.add_assoc count 1 1
  rw [seek, seek, twice]
  unfold nextCount at found ⊢
  split at found
  · next zero => rw [if_neg (not_not.2 zero), if_pos zero, if_pos found]
  · next nonzero => rw [if_pos nonzero, if_neg nonzero]

/-- A name shows the remainder of the count, and the slot. -/
theorem idOf_eq_iff {count count' : UInt32} {slot' : Nat} (small : slot < 1024)
    (small' : slot' < 1024) : idOf count slot = idOf count' slot' ↔
      count.toNat % 4194304 = count'.toNat % 4194304 ∧ slot = slot' := by
  rw [← UInt32.toNat_inj, toNat_idOf count small, toNat_idOf count' small']
  omega

/-- The count that does not go around: it goes on by one, or by two where its remainder and the slot
would both be zero. -/
def onward (count slot : Nat) : Nat :=
  if (count + 1) % 4194304 = 0 ∧ slot = 0 then count + 2 else count + 1

theorem nextCount_ofNat (count : Nat) (small : slot < 1024) :
    nextCount (UInt32.ofNat count) slot = UInt32.ofNat (onward count slot) := by
  have one : UInt32.ofNat count + 1 = UInt32.ofNat (count + 1) := (UInt32.ofNat_add count 1).symm
  have two : UInt32.ofNat count + 2 = UInt32.ofNat (count + 2) := (UInt32.ofNat_add count 2).symm
  have zero : idOf (UInt32.ofNat count + 1) slot = 0 ↔ (count + 1) % 4194304 = 0 ∧ slot = 0 := by
    rw [← UInt32.toNat_inj, toNat_idOf _ small, one, UInt32.toNat_ofNat']
    change (count + 1) % 4294967296 % 4194304 * 1024 + slot = 0 ↔ _
    omega
  unfold nextCount onward
  by_cases passed : (count + 1) % 4194304 = 0 ∧ slot = 0
  · rw [if_pos (zero.2 passed), if_pos passed, two]
  · rw [if_neg (mt zero.1 passed), if_neg passed, one]

/-- What has been used up of the count.  The values with remainder zero are left out: those are the
ones that may be passed over. -/
def spent (count : Nat) : Nat := count - count / 4194304

theorem lt_onward (count slot : Nat) : count < onward count slot := by
  unfold onward
  split <;> omega

theorem spent_onward_le (count slot : Nat) : spent (onward count slot) ≤ spent count + 1 := by
  unfold onward spent
  split <;> omega

/-- To come back to the same remainder uses up all the others. -/
theorem spent_add_le {count count' : Nat} (later : count < count')
    (same : count' % 4194304 = count % 4194304) : spent count + 4194303 ≤ spent count' := by
  unfold spent
  omega

/-! ## The names that are given -/

/-- The names that are given to machines in these slots, one after the other. -/
def namesFrom : UInt32 → List Nat → List MachineId
  | _, [] => []
  | count, slot :: slots =>
    idOf (nextCount count slot) slot :: namesFrom (nextCount count slot) slots

/-- The count of a name is a later one, and no more of it is used up than there are names. -/
theorem exists_count (small : ∀ s ∈ slots, s < 1024) {count : Nat}
    (found : (namesFrom (UInt32.ofNat count) slots)[i]? = some id) :
    ∃ count' s, s < 1024 ∧ count < count' ∧ spent count' ≤ spent count + (i + 1) ∧
      id = idOf (UInt32.ofNat count') s := by
  induction slots generalizing count i with
  | nil => cases found
  | cons s slots ih =>
    obtain ⟨first, others⟩ := List.forall_mem_cons.1 small
    have later := lt_onward count s
    have used := spent_onward_le count s
    rw [namesFrom, nextCount_ofNat count first] at found
    cases i with
    | zero =>
      cases found
      exact ⟨onward count s, s, first, later, used, rfl⟩
    | succ i =>
      obtain ⟨count', s', inside, further, used', same⟩ := ih others found
      exact ⟨count', s', inside, Nat.lt_trans later further, by omega, same⟩

/-- Between two machines with the same name lie as many suspensions as there are values. -/
theorem getElem?_namesFrom_apart (small : ∀ s ∈ slots, s < 1024) {count : Nat}
    (here : (namesFrom (UInt32.ofNat count) slots)[i]? = some id)
    (there : (namesFrom (UInt32.ofNat count) slots)[j]? = some id) (order : i < j) :
    4194303 ≤ j - i := by
  induction slots generalizing count i j with
  | nil => cases here
  | cons s slots ih =>
    obtain ⟨first, others⟩ := List.forall_mem_cons.1 small
    rw [namesFrom, nextCount_ofNat count first] at here there
    cases j with
    | zero => cases order
    | succ j =>
      cases i with
      | zero =>
        cases here
        obtain ⟨count', s', inside, further, used, same⟩ := exists_count others there
        have remainder := ((idOf_eq_iff first inside).1 same).1
        rw [UInt32.toNat_ofNat', UInt32.toNat_ofNat'] at remainder
        have around := spent_add_le further (by omega)
        omega
      | succ i =>
        have apart := ih others here there (Nat.lt_of_succ_lt_succ order)
        omega

/-! ## Waiting -/

/-- A machine with this name waits. -/
def Waits (p : Pending) (id : MachineId) : Prop := ∃ k w, p.machines.get? k = some w ∧ w.id = id

/-- Reaping leaves only what was there. -/
theorem get?_of_reapFrom {machines : Arena Suspended} {queue : List (Key × Nat)}
    (waits : (reapFrom t queue machines).2.1.get? k = some w) : machines.get? k = some w := by
  induction queue generalizing machines with
  | nil => exact waits
  | cons entry rest ih =>
    obtain ⟨k', due⟩ := entry
    unfold reapFrom at waits
    split at waits
    · exact waits
    · have still := ih waits
      rw [Arena.get?_erase] at still
      split at still
      · cases still
      · exact still

/-- The names that reaping tells are those of machines that were there and are not any more. -/
theorem gone_of_mem_reapFrom {machines : Arena Suspended} {queue : List (Key × Nat)}
    (told : id ∈ (reapFrom t queue machines).2.2) : ∃ k w, machines.get? k = some w ∧ w.id = id ∧
      (reapFrom t queue machines).2.1.get? k = none := by
  induction queue generalizing machines with
  | nil => cases told
  | cons entry rest ih =>
    obtain ⟨k', due⟩ := entry
    unfold reapFrom at told ⊢
    split at told
    · cases told
    · next past =>
      rw [if_neg past]
      rcases List.mem_append.1 told with first | later
      · obtain ⟨w, there, named⟩ := Option.map_eq_some_iff.1 (Option.mem_toList.1 first)
        refine ⟨k', w, there, named, ?_⟩
        cases left : (reapFrom t rest (machines.erase k')).2.1.get? k' with
        | none => rfl
        | some w' =>
          have still := get?_of_reapFrom left
          rw [Arena.get?_erase, if_pos rfl] at still
          cases still
      · obtain ⟨k, w, there, named, left⟩ := ih later
        rw [Arena.get?_erase] at there
        split at there
        · cases there
        · exact ⟨k, w, there, named, left⟩

namespace Named

theorem reap (names : p.Named) (t : Nat) : (p.reap t).1.Named := by
  obtain ⟨counted, capacity⟩ := counted_reapFrom (t := t) names.counted p.deadlines
  exact ⟨counted, Nat.le_trans (Nat.le_of_eq capacity) names.small,
    fun k w waits => names.named k w (get?_of_reapFrom waits)⟩

theorem without (names : p.Named) (k : Key) : (p.without k).Named := by
  refine ⟨names.counted.erase k, Nat.le_trans (Nat.le_of_eq (Arena.capacity_erase _ k)) names.small,
    fun k' w waits => names.named k' w ?_⟩
  rw [get?_without] at waits
  split at waits
  · cases waits
  · exact waits

/-- A machine whose time is over does not wait any more, under whatever key. -/
theorem not_waits_of_reap (names : p.Named) (told : id ∈ (p.reap t).2) :
    ¬ (p.reap t).1.Waits id := by
  obtain ⟨k, w, there, rfl, left⟩ := gone_of_mem_reapFrom told
  rintro ⟨k', w', waits, same⟩
  obtain ⟨rfl, rfl⟩ := names.name_unique (get?_of_reapFrom waits) there same
  change (p.reap t).1.machines.get? k' = none at left
  rw [left] at waits
  cases waits

/-- A machine that has been claimed does not wait any more. -/
theorem not_waits_of_claim (names : p.Named) (claimed : p.claim id = .ok (w, q)) :
    w.id = id ∧ ¬ q.Waits id := by
  obtain ⟨k, there, rfl, rfl⟩ := names.claim_eq_ok_iff.1 claimed
  refine ⟨rfl, ?_⟩
  rintro ⟨k', w', waits, same⟩
  rw [get?_without] at waits
  split at waits
  · cases waits
  · next other => exact other (names.name_unique waits there same).1

/-- A name under which nothing waits claims nothing. -/
theorem claim_eq_error (names : p.Named) (absent : ¬ p.Waits id) :
    p.claim id = .error (if p.machines.capacity ≤ slotOf id then .badParam .machineSlot
      else .notFound) := by
  cases claimed : p.claim id with
  | ok answer =>
    obtain ⟨w, q⟩ := answer
    obtain ⟨k, there, named, -⟩ := names.claim_eq_ok_iff.1 claimed
    exact absurd ⟨k, w, there, named⟩ absent
  | error r =>
    unfold claim at claimed
    split at claimed
    · next beyond =>
      cases claimed
      rw [if_pos beyond]
    · next inside =>
      rw [if_neg inside]
      split at claimed
      · cases claimed
        rfl
      · split at claimed
        · cases claimed
        · cases claimed
          rfl

end Named

/-! ## Runs -/

/-- What is done to the machines that wait. -/
inductive Act where
  | suspend (machine : Machine) (feedback : Option Bytes) (deadline : Nat)
  | take (now : Nat) (id : MachineId)
  | reap (now : Nat)

/-- The machines that wait afterwards.  Machines whose time is over are given up before one is
taken, but for the name zero nothing is done at all. -/
def after (p : Pending) : Act → Pending
  | .suspend machine feedback deadline =>
    ((p.suspend machine feedback deadline).map Prod.snd).getD p
  | .take now id =>
    if id = 0 then p
    else (((p.reap now).1.claim id).toOption.map Prod.snd).getD (p.reap now).1
  | .reap now => (p.reap now).1

/-- The name that is given, if any. -/
def gives (p : Pending) : Act → Option MachineId
  | .suspend machine feedback deadline => (p.suspend machine feedback deadline).map Prod.fst
  | .take _ _ => none
  | .reap _ => none

/-- The machines that wait after a run. -/
def run (p : Pending) : List Act → Pending
  | [] => p
  | a :: acts => (p.after a).run acts

/-- The names that are given in a run, in order. -/
def issued (p : Pending) : List Act → List MachineId
  | [] => []
  | a :: acts => (p.gives a).toList ++ (p.after a).issued acts

theorem run_append (p : Pending) (acts acts' : List Act) :
    p.run (acts ++ acts') = (p.run acts).run acts' := by
  induction acts generalizing p with
  | nil => rfl
  | cons a acts ih => exact ih (p.after a)

theorem issued_append (p : Pending) (acts acts' : List Act) :
    p.issued (acts ++ acts') = p.issued acts ++ (p.run acts).issued acts' := by
  induction acts generalizing p with
  | nil => rfl
  | cons a acts ih => rw [List.cons_append, issued, issued, run, ih, List.append_assoc]

/-- What one act does to names: the capacity stays, the count goes on with each name that is given,
and what waits afterwards has waited before or has just been given its name. -/
structure Follows (p : Pending) (name : Option MachineId) (q : Pending) : Prop where
  names : q.Named
  capacity : q.machines.capacity = p.machines.capacity
  count : (name = none ∧ q.count = p.count) ∨ ∃ slot < p.machines.capacity,
    name = some (idOf (nextCount p.count slot) slot) ∧ q.count = nextCount p.count slot
  waits : ∀ id, q.Waits id → p.Waits id ∨ name = some id

theorem follows_refl (names : p.Named) : Follows p none p :=
  ⟨names, rfl, .inl ⟨rfl, rfl⟩, fun _ => .inl⟩

theorem follows_reap (names : p.Named) (now : Nat) : Follows p none (p.reap now).1 where
  names := names.reap now
  capacity := (counted_reapFrom names.counted p.deadlines).2
  count := .inl ⟨rfl, rfl⟩
  waits id waits := by
    obtain ⟨k, w, there, named⟩ := waits
    exact .inl ⟨k, w, get?_of_reapFrom there, named⟩

theorem follows_claim (names : p.Named) (claimed : p.claim id = .ok (w, q)) : Follows p none q := by
  obtain ⟨k, _, _, rfl⟩ := names.claim_eq_ok_iff.1 claimed
  refine ⟨names.without k, Arena.capacity_erase _ k, .inl ⟨rfl, rfl⟩, ?_⟩
  rintro id ⟨k', w', waits, named⟩
  rw [get?_without] at waits
  split at waits
  · cases waits
  · exact .inl ⟨k', w', waits, named⟩

theorem Follows.trans {r : Pending} {name : Option MachineId} (first : Follows p none q)
    (second : Follows q name r) : Follows p name r where
  names := second.names
  capacity := second.capacity.trans first.capacity
  count := by
    have same : q.count = p.count := by
      rcases first.count with ⟨_, same⟩ | ⟨_, _, impossible, _⟩
      · exact same
      · cases impossible
    have count := second.count
    rwa [same, first.capacity] at count
  waits id waits := by
    refine (second.waits id waits).imp_left fun there => (first.waits id there).resolve_right ?_
    exact Option.some_ne_none id ∘ Eq.symm

theorem follows_suspend {m : Machine} {feedback : Option Bytes} {due : Nat} (names : p.Named)
    (h : p.suspend m feedback due = some (id, q)) : Follows p (some id) q := by
  obtain ⟨k, suspends⟩ := suspends_suspend names h
  refine ⟨⟨suspends.counted, suspends.capacity ▸ names.small, fun k' w waits => ?_⟩,
    suspends.capacity, ?_, ?_⟩
  · rw [suspends.view] at waits
    split at waits
    · next same =>
      cases waits
      exact ⟨same ▸ suspends.slot, suspends.name⟩
    · exact names.named k' w waits
  · obtain ⟨⟨k', machines⟩, inserted, same⟩ := Option.map_eq_some_iff.1 h
    cases same
    exact .inr ⟨k'.slot, names.slot_lt_of_insert inserted, rfl, rfl⟩
  · rintro id' ⟨k', w, waits, rfl⟩
    rw [suspends.view] at waits
    split at waits
    · cases waits
      exact .inr rfl
    · exact .inl ⟨k', w, waits, rfl⟩

theorem follows_after (names : p.Named) (a : Act) : Follows p (p.gives a) (p.after a) := by
  cases a with
  | suspend m feedback due =>
    simp only [gives, after]
    cases h : p.suspend m feedback due with
    | none => exact follows_refl names
    | some answer => exact follows_suspend names h
  | take now id =>
    simp only [gives, after]
    split
    · exact follows_refl names
    · have reaped := follows_reap names now
      cases claimed : (p.reap now).1.claim id with
      | error r => exact reaped
      | ok answer => exact reaped.trans (follows_claim reaped.names claimed)
  | reap now => exact follows_reap names now

/-- Nothing waits any more under a name that has been taken, whether anything did before or not. -/
theorem Named.not_waits_of_take (names : p.Named) (now : Nat) (nonzero : id ≠ 0) :
    ¬ (p.after (.take now id)).Waits id := by
  rw [after, if_neg nonzero]
  cases claimed : (p.reap now).1.claim id with
  | ok answer => exact ((names.reap now).not_waits_of_claim claimed).2
  | error r =>
    rintro ⟨k, w, waits, named⟩
    have found := (names.reap now).claim_eq_ok_iff.2 ⟨k, waits, named, rfl⟩
    cases claimed.symm.trans found

theorem Named.run (names : p.Named) (acts : List Act) : (p.run acts).Named := by
  induction acts generalizing p with
  | nil => exact names
  | cons a acts ih => exact ih (follows_after names a).names

theorem Named.capacity_run (names : p.Named) (acts : List Act) :
    (p.run acts).machines.capacity = p.machines.capacity := by
  induction acts generalizing p with
  | nil => rfl
  | cons a acts ih =>
    have follows := follows_after names a
    exact (ih follows.names).trans follows.capacity

/-- What waits after a run has waited before or has been given its name in the run. -/
theorem Named.waits_run (names : p.Named) (acts : List Act) (waits : (p.run acts).Waits id) :
    p.Waits id ∨ id ∈ p.issued acts := by
  induction acts generalizing p with
  | nil => exact .inl waits
  | cons a acts ih =>
    have follows := follows_after names a
    rw [issued, List.mem_append, Option.mem_toList]
    rcases ih follows.names waits with there | later
    · exact (follows.waits id there).imp_right .inl
    · exact .inr (.inr later)

/-- The names that a run gives. -/
theorem Named.issued_eq_namesFrom (names : p.Named) (acts : List Act) :
    ∃ slots, (∀ s ∈ slots, s < p.machines.capacity) ∧ p.issued acts = namesFrom p.count slots := by
  induction acts generalizing p with
  | nil => exact ⟨[], fun _ impossible => absurd impossible List.not_mem_nil, rfl⟩
  | cons a acts ih =>
    have follows := follows_after names a
    obtain ⟨slots, small, later⟩ := ih follows.names
    rw [follows.capacity] at small
    rw [issued, later]
    rcases follows.count with ⟨none, same⟩ | ⟨slot, inside, given, moved⟩
    · exact ⟨slots, small, by rw [none, same]; rfl⟩
    · exact ⟨slot :: slots, List.forall_mem_cons.2 ⟨inside, small⟩, by rw [given, moved]; rfl⟩

theorem exists_of_mem_namesFrom {count : UInt32} (given : id ∈ namesFrom count slots) :
    ∃ slot ∈ slots, ∃ count', id = idOf (nextCount count' slot) slot := by
  induction slots generalizing count with
  | nil => cases given
  | cons s slots ih =>
    rcases List.mem_cons.1 given with rfl | later
    · exact ⟨s, List.mem_cons_self, count, rfl⟩
    · obtain ⟨slot, among, named⟩ := ih later
      exact ⟨slot, List.mem_cons_of_mem _ among, named⟩

/-- A name that a run gives is not zero and tells a slot. -/
theorem Named.name_of_issued (names : p.Named) {acts : List Act} (given : id ∈ p.issued acts) :
    id ≠ 0 ∧ slotOf id < p.machines.capacity := by
  obtain ⟨slots, small, same⟩ := names.issued_eq_namesFrom acts
  rw [same] at given
  obtain ⟨slot, among, count, rfl⟩ := exists_of_mem_namesFrom given
  have inside := small slot among
  refine ⟨idOf_nextCount_ne_zero count slot, ?_⟩
  rwa [slotOf_idOf _ (Nat.lt_of_lt_of_le inside names.small)]

/-- The same name is not given again soon. -/
theorem Named.issued_apart (names : p.Named) {acts : List Act}
    (here : (p.issued acts)[i]? = some id)
    (there : (p.issued acts)[j]? = some id) (order : i < j) : 4194303 ≤ j - i := by
  obtain ⟨slots, small, same⟩ := names.issued_eq_namesFrom acts
  rw [same, ← UInt32.ofNat_toNat (x := p.count)] at here there
  exact getElem?_namesFrom_apart (fun s among => Nat.lt_of_lt_of_le (small s among) names.small)
    here there order

/-- A name under which nothing waits any more stays so until it can have been given again. -/
theorem Named.not_waits_later (names : p.Named) {earlier later : List Act}
    (given : (p.issued earlier)[i]? = some id) (gone : ¬ (p.run earlier).Waits id)
    (soon : (p.issued (earlier ++ later)).length ≤ i + 4194303) :
    ¬ (p.run (earlier ++ later)).Waits id := by
  rw [run_append]
  intro waits
  have again := ((names.run earlier).waits_run later waits).resolve_left gone
  obtain ⟨j, inside, found⟩ := List.mem_iff_getElem.1 again
  have before : i < (p.issued earlier).length := (List.getElem?_eq_some_iff.1 given).1
  have first : (p.issued (earlier ++ later))[i]? = some id := by
    rw [issued_append, List.getElem?_append_left before, given]
  have second : (p.issued (earlier ++ later))[(p.issued earlier).length + j]? = some id := by
    rw [issued_append, List.getElem?_append_right (Nat.le_add_right _ _), Nat.add_sub_cancel_left,
      List.getElem?_eq_some_iff]
    exact ⟨inside, found⟩
  have apart := names.issued_apart first second (by omega)
  rw [issued_append, List.length_append] at soon
  omega

theorem named_empty {capacity : Nat} (small : capacity ≤ 1024) (count : UInt32) :
    ({ machines := { capacity }, count } : Pending).Named := by
  refine ⟨.empty _, small, fun k w waits => ?_⟩
  have nothing : (⟨capacity, #[], [], 0, 0⟩ : Arena Suspended).get? k = none :=
    Arena.get?_eq_none_of_beyond (Nat.zero_le _)
  rw [nothing] at waits
  cases waits

/-- Whatever has been suspended, taken and reaped, and wherever the count started: a machine is
suspended under a name that is not zero and tells its slot, found in two rounds at most; no two
machines that wait have the same name; and the same name is given again only after 4194303
suspensions or more, one less than the count has values.  So a name whose machine has been taken, or
has been given up as its time was over, claims nothing until then: there is no such machine, and
none is touched. -/
theorem names_are_unambiguous {capacity : Nat} (small : capacity ≤ 1024) (count : UInt32)
    (acts : List Act) :
    let start : Pending := { machines := { capacity }, count }
    let p := start.run acts
    let ids := start.issued acts
    (∀ m feedback due id q, p.suspend m feedback due = some (id, q) →
      id ≠ 0 ∧ (∃ k, q.machines.get? k = some ⟨id, m, feedback⟩ ∧ slotOf id = k.slot) ∧
      start.issued (acts ++ [.suspend m feedback due]) = ids ++ [id]) ∧
    (∀ slot rounds count, seek slot (rounds + 2) count = some (nextCount count slot)) ∧
    (∀ k k' w w', p.machines.get? k = some w → p.machines.get? k' = some w' → w.id = w'.id →
      k = k') ∧
    (∀ i j id, i < j → ids[i]? = some id → ids[j]? = some id → 4194303 ≤ j - i) ∧
    (∀ now id, id ∈ (p.reap now).2 → ¬ (p.reap now).1.Waits id) ∧
    (∀ now id w q, (p.reap now).1.claim id = .ok (w, q) → w.id = id ∧ ¬ q.Waits id) ∧
    (∀ now id, ¬ (p.reap now).1.Waits id →
      (p.reap now).1.claim id =
        .error (if capacity ≤ slotOf id then .badParam .machineSlot else .notFound) ∧
      p.after (.take now id) = if id = 0 then p else (p.reap now).1) ∧
    ∀ earlier later i id, acts = earlier ++ later → (start.issued earlier)[i]? = some id →
      ¬ (start.run earlier).Waits id → ids.length ≤ i + 4194303 → ∀ now,
        (p.reap now).1.claim id = .error .notFound ∧ p.after (.take now id) = (p.reap now).1 := by
  intro start p ids
  have fresh : start.Named := named_empty small count
  have names : p.Named := fresh.run acts
  have reaped (now : Nat) : (p.reap now).1.Named := names.reap now
  have capacity_reap (now : Nat) : (p.reap now).1.machines.capacity = capacity :=
    (follows_reap names now).capacity.trans (fresh.capacity_run acts)
  have refused (now : Nat) (id : MachineId) (absent : ¬ (p.reap now).1.Waits id) :
      (p.reap now).1.claim id =
        .error (if capacity ≤ slotOf id then .badParam .machineSlot else .notFound) ∧
      p.after (.take now id) = if id = 0 then p else (p.reap now).1 := by
    have error := (reaped now).claim_eq_error absent
    rw [capacity_reap] at error
    refine ⟨error, ?_⟩
    rw [after, error]
    rfl
  refine ⟨fun m feedback due id q suspended => ?_, seek_eq_nextCount,
    fun k k' w w' here there same => (names.name_unique here there same).1,
    fun i j id order here there => fresh.issued_apart here there order,
    fun now id told => names.not_waits_of_reap told,
    fun now id w q claimed => (reaped now).not_waits_of_claim claimed, refused,
    fun earlier later i id split given gone soon now => ?_⟩
  · obtain ⟨k, suspends⟩ := suspends_suspend names suspended
    refine ⟨suspends.name, ⟨k, (suspends.view k).trans (if_pos rfl), suspends.slot⟩, ?_⟩
    have last : p.issued [.suspend m feedback due] = [id] := by
      simp only [issued, gives, suspended, Option.map_some, Option.toList_some, List.append_nil]
    rw [issued_append, last]
  · have among : id ∈ start.issued earlier := List.mem_of_getElem? given
    obtain ⟨nonzero, inside⟩ := fresh.name_of_issued among
    have absent : ¬ p.Waits id := by
      have ended : p = start.run (earlier ++ later) := congrArg start.run split
      rw [ended]
      exact fresh.not_waits_later given gone (split ▸ soon)
    have away : ¬ (p.reap now).1.Waits id := fun waits =>
      have still := (follows_reap names now).waits id waits
      absent (still.resolve_right (Option.some_ne_none id ∘ Eq.symm))
    obtain ⟨error, rest⟩ := refused now id away
    rw [if_neg (Nat.not_le_of_lt inside)] at error
    rw [if_neg nonzero] at rest
    exact ⟨error, rest⟩

/-- The count goes around and passes over the name zero; the machine is taken, another is suspended
in its slot, and the name of the first claims nothing any more. -/
theorem stale_name_claims_nothing :
    let m : Machine := {
      pc := 0
      memory := .zeroed 0
      input := ⟨[], 0, 0, false⟩
      budget := ⟨0, 0, 16⟩
      output := #[]
      outputCapacity := 0
      instructions := 0
      completion := some .waiting
      requests := []
      feedbackAt := 0
      parametersAt := 0 }
    let start : Pending := { machines := { capacity := 2 }, count := 4194303 }
    let p := start.run [.suspend m none 10, .take 0 1024, .suspend m none 10]
    start.issued [.suspend m none 10, .take 0 1024, .suspend m none 10] = [1024, 2048] ∧
      slotOf 1024 = slotOf 2048 ∧ (p.reap 0).1.claim 1024 = .error .notFound := by
  intro m start p
  have given : start.issued [.suspend m none 10, .take 0 1024] = [1024] := by
    decide +kernel
  have both :
      start.issued [.suspend m none 10, .take 0 1024, .suspend m none 10] = [1024, 2048] := by
    decide +kernel
  have names : (start.run [.suspend m none 10]).Named := (named_empty (by decide) 4194303).run _
  have gone : ¬ (start.run [.suspend m none 10, .take 0 1024]).Waits 1024 :=
    names.not_waits_of_take 0 (by decide)
  obtain ⟨-, -, -, -, -, -, -, stale⟩ := names_are_unambiguous (show 2 ≤ 1024 by decide) 4194303
    [.suspend m none 10, .take 0 1024, .suspend m none 10]
  refine ⟨both, by decide, (stale _ [.suspend m none 10] 0 1024 rfl ?_ gone ?_ 0).1⟩
  · rw [given]
    rfl
  · rw [both]
    decide

end SigComp.Pending
