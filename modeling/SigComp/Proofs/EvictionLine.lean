import SigComp.Proofs.CompartmentBooks

/-!
# The line of members

Who has to go when a compartment makes room.  The members stand in a line, those of least
priority in front and those of one priority as they stand in the compartment, and room is
made from the front of it.

* `Compartment.lineUp`: the line.
* `pairwise_lineUp`: along the line the rank grows, if the members are numbered in their
  order.
* `lineUp_eq_cons`: the weakest member is the first in line, and the line of the others is
  what is behind it.
* `Compartment.Suffices`: what has to be gone for a state to be admitted.
* `makeRoom_gives_up_front`: no more members are given up than that.
-/

namespace SigComp.Compartment

variable {c c' : Compartment} {s s' : Store} {m m' : Member} {ms gone : List Member} {cost : Nat}
  {p q : Compartment × Store}

/-! ## The line -/

/-- The priority that counts when room is made.  Permanence counts for nothing. -/
def standing (m : Member) : Nat := if m.priority = permanentPriority then 0 else m.priority.toNat

/-- Members in the order in which they are given up: by their standing, those of the same standing
as they were before. -/
def lineUp (ms : List Member) : List Member := ms.mergeSort fun m m' => standing m ≤ standing m'

/-- Members are numbered in their order. -/
def Ascending (ms : List Member) : Prop := ms.Pairwise fun m m' => m.order < m'.order

theorem rank_lt_iff :
    rank m < rank m' ↔
      standing m < standing m' ∨ (standing m = standing m' ∧ m.order < m'.order) := by
  have low := m.order.toNat_lt
  have low' := m'.order.toNat_lt
  rw [UInt32.lt_iff_toNat_lt]
  change standing m <<< 32 + m.order.toNat < standing m' <<< 32 + m'.order.toNat ↔ _
  rw [Nat.shiftLeft_eq, Nat.shiftLeft_eq]
  omega

theorem perm_lineUp (ms : List Member) : (lineUp ms).Perm ms := List.mergeSort_perm ms _

theorem standing_le_trans (a b c : Member) (first : decide (standing a ≤ standing b) = true)
    (second : decide (standing b ≤ standing c) = true) :
    decide (standing a ≤ standing c) = true :=
  decide_eq_true (Nat.le_trans (of_decide_eq_true first) (of_decide_eq_true second))

theorem standing_le_total (a b : Member) :
    (decide (standing a ≤ standing b) || decide (standing b ≤ standing a)) = true := by
  rw [Bool.or_eq_true, decide_eq_true_eq, decide_eq_true_eq]
  exact Nat.le_total _ _

theorem standing_pairwise_lineUp (ms : List Member) :
    (lineUp ms).Pairwise fun m m' => standing m ≤ standing m' := by
  have sorted := List.pairwise_mergeSort standing_le_trans standing_le_total ms
  exact sorted.imp of_decide_eq_true

/-- A member is lined up behind those of lesser standing alone. -/
theorem lineUp_cons (m : Member) (ms : List Member) :
    ∃ before behind, lineUp (m :: ms) = before ++ m :: behind ∧ lineUp ms = before ++ behind ∧
      ∀ m' ∈ before, standing m' < standing m := by
  obtain ⟨before, behind, whole, rest, lesser⟩ :=
    List.mergeSort_cons standing_le_trans standing_le_total m ms
  exact ⟨before, behind, whole, rest, fun m' among => by simpa using lesser m' among⟩

/-- Nobody is behind one that is to be given up later. -/
theorem pairwise_lineUp (ascending : Ascending ms) :
    (lineUp ms).Pairwise fun m m' => rank m < rank m' := by
  induction ms with
  | nil =>
    rw [(perm_lineUp []).eq_nil]
    exact .nil
  | cons m ms ih =>
    obtain ⟨first, others⟩ := List.pairwise_cons.1 ascending
    obtain ⟨before, behind, whole, rest, lesser⟩ := lineUp_cons m ms
    have sorted := standing_pairwise_lineUp (m :: ms)
    have line := ih others
    rw [whole] at sorted ⊢
    rw [rest] at line
    have middle := List.pairwise_append.1 line
    have placed := List.pairwise_append.1 sorted
    refine List.pairwise_append.2 ⟨middle.1, List.pairwise_cons.2 ⟨fun m' among => ?_, middle.2.1⟩,
      fun a front b back => ?_⟩
    · have level := (List.pairwise_cons.1 placed.2.1).1 m' among
      have there : m' ∈ ms := by
        apply (perm_lineUp ms).subset
        rw [rest]
        exact List.mem_append_right before among
      rcases Nat.lt_or_eq_of_le level with less | same
      · exact rank_lt_iff.2 (.inl less)
      · exact rank_lt_iff.2 (.inr ⟨same, first m' there⟩)
    · rcases List.mem_cons.1 back with rfl | back
      · exact rank_lt_iff.2 (.inl (lesser a front))
      · exact middle.2.2 a front b back

/-- A line is the only order in which the rank grows. -/
theorem eq_lineUp {line : List Member} (ascending : Ascending ms) (perm : line.Perm ms)
    (grows : line.Pairwise fun m m' => rank m < rank m') : line = lineUp ms := by
  refine List.Perm.eq_of_pairwise (fun a b _ _ less more => ?_) grows (pairwise_lineUp ascending)
    (perm.trans (perm_lineUp ms).symm)
  exact absurd less (Nat.lt_asymm more)

/-! ## Giving up the first in line -/

theorem rank_weakest?_le (weakest : c.weakest? = some m) (among : m' ∈ c.members) :
    rank m ≤ rank m' := by
  have least := List.apply_get_minOn?_le_of_mem (f := rank) among
  have chosen : c.members.minOn? rank = some m := weakest
  simpa [chosen] using least

theorem Ascending.without (ascending : Ascending c.members) (m : Member) :
    Ascending (c.without m).members :=
  ascending.sublist List.erase_sublist

/-- The weakest member is the first in line. -/
theorem lineUp_eq_cons (weakest : c.weakest? = some m) (ascending : Ascending c.members) :
    lineUp c.members = m :: lineUp (c.without m).members := by
  have among := mem_of_weakest? weakest
  have line := pairwise_lineUp ascending
  have same := perm_lineUp c.members
  cases lined : lineUp c.members with
  | nil =>
    rw [lined] at same
    rw [same.symm.eq_nil] at among
    cases among
  | cons first rest =>
    rw [lined] at line same
    obtain ⟨least, behind⟩ := List.pairwise_cons.1 line
    have head : m = first := by
      rcases List.mem_cons.1 (same.symm.subset among) with here | later
      · exact here
      · have less := least m later
        have more := rank_weakest?_le weakest (same.subset List.mem_cons_self)
        exact absurd less (Nat.not_lt.2 more)
    subst head
    have others : rest.Perm (c.without m).members :=
      (same.trans (members_perm_without among)).cons_inv
    rw [eq_lineUp (ascending.without m) others behind]

theorem GivesUp.lineUp_eq (gives : GivesUp ms p q) (ascending : Ascending p.1.members) :
    lineUp p.1.members = ms ++ lineUp q.1.members := by
  induction gives with
  | nobody p => rfl
  | next weakest _ ih =>
    rw [lineUp_eq_cons weakest ascending, ih (ascending.without _), List.cons_append]

/-- Those who are not given up stay where they are. -/
theorem GivesUp.members_eq (gives : GivesUp ms p q) (distinct : p.1.members.Nodup) :
    q.1.members = p.1.members.filter (· ∉ ms) := by
  induction gives with
  | nobody p => exact (List.filter_eq_self.2 fun m _ => by simp).symm
  | @next m ms c s q weakest _ ih =>
    have rest : (c.without m).members = c.members.filter (· != m) := distinct.erase_eq_filter m
    rw [ih (distinct.erase m), rest, List.filter_filter]
    apply List.filter_congr
    intro m' _
    rw [Bool.eq_iff_iff]
    simp [and_comm]

/-! ## As many as it takes -/

/-- When these members are gone, a state of the given cost can be admitted. -/
def Suffices (c : Compartment) (cost : Nat) (gone : List Member) : Prop :=
  cost ≤ c.available + gone.foldr (fun m rest => m.cost + rest) 0 ∧
    c.members.length - gone.length < c.maxStates

theorem suffices_nil : c.Suffices cost [] ↔ c.hasRoom cost = true := by
  simp [Suffices, hasRoom]

theorem suffices_cons (among : m ∈ c.members) :
    c.Suffices cost (m :: gone) ↔ (c.without m).Suffices cost gone := by
  have fewer : (c.without m).members.length = c.members.length - 1 := List.length_erase_of_mem among
  have freed : (c.without m).available = c.available + m.cost := rfl
  have bound : (c.without m).maxStates = c.maxStates := rfl
  rw [Suffices, Suffices, fewer, freed, bound, List.foldr_cons, List.length_cons]
  omega

/-- Members are given up until it suffices and no longer. -/
theorem gives_up_of_makeRoom (made : makeRoom cost c s = .ok () q) :
    ∃ ms, GivesUp ms (c, s) q ∧ c.Suffices cost ms ∧
      ∀ j < ms.length, ¬ c.Suffices cost (ms.take j) := by
  induction c, s using makeRoom.induct cost with
  | case1 c s room =>
    rw [makeRoom, if_pos room] at made
    cases made
    exact ⟨[], .nobody _, suffices_nil.2 room, fun j early => absurd early (Nat.not_lt_zero j)⟩
  | case2 c s full nobody =>
    rw [makeRoom, if_neg full] at made
    split at made
    · cases made
    · next weakest =>
      rw [nobody] at weakest
      cases weakest
  | case3 c s full m weakest ih =>
    have among := mem_of_weakest? weakest
    rw [makeRoom, if_neg full] at made
    split at made
    · cases made
    · next m' weakest' =>
      rw [weakest] at weakest'
      cases weakest'
      obtain ⟨ms, gives, enough, needed⟩ := ih made
      refine ⟨m :: ms, .next weakest gives, (suffices_cons among).2 enough, fun j early => ?_⟩
      cases j with
      | zero => exact mt suffices_nil.1 full
      | succ j => exact mt (suffices_cons among).1 (needed j (Nat.lt_of_succ_lt_succ early))

/-- Room is made from the front of the line, and by the shortest front that suffices. -/
theorem makeRoom_gives_up_front (ascending : Ascending c.members)
    (made : makeRoom cost c s = .ok () q) :
    ∃ k, GivesUp ((lineUp c.members).take k) (c, s) q ∧
      c.Suffices cost ((lineUp c.members).take k) ∧
      ∀ j < k, ¬ c.Suffices cost ((lineUp c.members).take j) := by
  obtain ⟨ms, gives, enough, needed⟩ := gives_up_of_makeRoom made
  have line : lineUp c.members = ms ++ lineUp q.1.members := gives.lineUp_eq ascending
  have front : ∀ j ≤ ms.length, (lineUp c.members).take j = ms.take j := by
    intro j within
    rw [line, List.take_append_of_le_length within]
  refine ⟨ms.length, ?_⟩
  rw [front _ (Nat.le_refl _), List.take_length]
  refine ⟨gives, enough, fun j early => ?_⟩
  rw [front j (Nat.le_of_lt early)]
  exact needed j early

end SigComp.Compartment
