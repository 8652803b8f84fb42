import Mathlib.Dynamics.PeriodicPts.Defs
import SigComp.Proofs.RingTraversal

/-!
# Stepping back along the ring

COPY-OFFSET finds by one calculation where its copy starts: some steps before its destination.  The
borders may be any two addresses, in either order, and the destination may lie outside them.

* `iterate_previous_of_clear`: steps that do not jump at the left border come to a subtraction.
* `isPeriodicPt_left`: as many steps as the ring has addresses lead from the left border back to it.
* `behind_eq_iterate`: the calculation as single steps.
* `OnRing`: the addresses from the left border on as far as the right one.
* `after_iterate_previous_iff`: steps on undo steps back unless one of these leaves the right
  border.
* `behind_is_stepwise`: the start of a copy by single steps, and when the copy comes to its
  destination again.
-/

namespace SigComp

namespace Window

variable {w : Window} {a b : UInt16} {k n : Nat}

/-! ## Distances -/

theorem sub_eq_zero_iff : a - b = 0 ↔ a = b := by
  rw [UInt16.sub_eq_iff_eq_add, UInt16.zero_add]

/-- Different addresses are at least one step apart. -/
theorem one_le_sub (apart : a ≠ b) : 1 ≤ a - b := by
  rw [UInt16.le_iff_toNat_le, UInt16.toNat_one, Nat.one_le_iff_ne_zero]
  exact fun none => apart (sub_eq_zero_iff.1 (UInt16.toNat_inj.1 none))

/-- A step back shortens the way down to another address by one. -/
theorem sub_one_sub (a b : UInt16) : a - 1 - b = a - b - 1 := by grind

/-! ## Steps back -/

@[simp] theorem previous_left (w : Window) : w.previous w.left = w.right - 1 := if_pos rfl

theorem previous_of_ne (inner : a ≠ w.left) : w.previous a = a - 1 := if_neg inner

/-- Where the borders meet, the left one is an address like any other. -/
theorem previous_of_meet (meet : w.right = w.left) : w.previous a = a - 1 := by
  by_cases border : a = w.left
  · rw [border, previous_left, meet]
  · exact previous_of_ne border

/-- Steps come to a subtraction as long as none of them jumps at the left border. -/
theorem iterate_previous_of_clear (clear : w.right = w.left ∨ n ≤ (a - w.left).toNat) :
    w.previous^[n] a = a - UInt16.ofNat n := by
  induction n with
  | zero => exact (UInt16.sub_zero a).symm
  | succ n ih =>
    have step : w.previous (a - UInt16.ofNat n) = a - UInt16.ofNat n - 1 := by
      rcases clear with meet | near
      · exact previous_of_meet meet
      · apply previous_of_ne
        intro border
        have distance : a - w.left = UInt16.ofNat n := by grind
        rw [distance, UInt16.toNat_ofNat'] at near
        have small := Nat.mod_le n 65536
        omega
    rw [Function.iterate_succ_apply', ih (clear.imp_right Nat.le_of_succ_le), step,
      UInt16.ofNat_add]
    grind

/-- Within one round from the left border, steps go down from the right one. -/
theorem iterate_previous_left (some : n ≠ 0) (within : n ≤ (w.right - w.left).toNat) :
    w.previous^[n] w.left = w.right - UInt16.ofNat n := by
  obtain ⟨n, rfl⟩ := Nat.exists_eq_succ_of_ne_zero some
  have apart : w.right ≠ w.left := by
    intro meet
    rw [meet, UInt16.sub_self] at within
    exact absurd within (Nat.not_succ_le_zero n)
  have remaining : (w.right - 1 - w.left).toNat = (w.right - w.left).toNat - 1 := by
    rw [sub_one_sub, UInt16.toNat_sub_of_le _ _ (one_le_sub apart), UInt16.toNat_one]
  rw [Function.iterate_succ_apply, previous_left, iterate_previous_of_clear (.inr (by omega)),
    Nat.succ_eq_add_one, UInt16.ofNat_add]
  grind

theorem isPeriodicPt_left (w : Window) :
    Function.IsPeriodicPt w.previous (w.right - w.left).toNat w.left := by
  by_cases meet : (w.right - w.left).toNat = 0
  · rw [meet]
    exact Function.isPeriodicPt_zero _ _
  · have round := iterate_previous_left meet (Nat.le_refl _)
    rw [UInt16.ofNat_toNat] at round
    exact round.trans (by grind)

/-- Of the steps from the left border, those that make full rounds do not count. -/
theorem iterate_previous_round (apart : w.right ≠ w.left) (rest : UInt16) :
    w.previous^[rest.toNat] w.left =
      if rest % (w.right - w.left) = 0 then w.left else w.right - rest % (w.right - w.left) := by
  rw [← w.isPeriodicPt_left.iterate_mod_apply, ← UInt16.toNat_mod]
  split
  · next whole =>
    rw [whole]
    rfl
  · next part =>
    have width : 1 ≤ (w.right - w.left).toNat := UInt16.le_iff_toNat_le.1 (one_le_sub apart)
    have within : (rest % (w.right - w.left)).toNat ≤ (w.right - w.left).toNat := by
      rw [UInt16.toNat_mod]
      exact Nat.le_of_lt (Nat.mod_lt _ width)
    rw [iterate_previous_left (fun none => part (UInt16.toNat_inj.1 none)) within,
      UInt16.ofNat_toNat]

/-- The address that is calculated is the one to which so many steps back lead. -/
theorem behind_eq_iterate (w : Window) (a offset : UInt16) :
    w.behind a offset = w.previous^[offset.toNat] a := by
  by_cases clear : w.right - w.left = 0 ∨ offset ≤ a - w.left
  · have straight : w.right = w.left ∨ offset.toNat ≤ (a - w.left).toNat :=
      clear.imp sub_eq_zero_iff.1 UInt16.le_iff_toNat_le.1
    rw [iterate_previous_of_clear straight, UInt16.ofNat_toNat]
    exact if_pos clear
  · obtain ⟨wide, beyond⟩ := not_or.1 clear
    have far : a - w.left ≤ offset := UInt16.le_of_lt (UInt16.not_le.1 beyond)
    -- The steps as far as the left border come first, then all that are left.
    have parts : offset.toNat = (offset - (a - w.left)).toNat + (a - w.left).toNat := by
      rw [UInt16.toNat_sub_of_le _ _ far, Nat.sub_add_cancel (UInt16.le_iff_toNat_le.1 far)]
    have border : w.previous^[(a - w.left).toNat] a = w.left := by
      rw [iterate_previous_of_clear (.inr (Nat.le_refl _)), UInt16.ofNat_toNat]
      grind
    rw [parts, Function.iterate_add_apply, border,
      iterate_previous_round (mt sub_eq_zero_iff.2 wide)]
    exact if_neg clear

/-! ## There and back -/

/-- An address is one of those from the left border on as far as the right one, which is no longer
among them.  Where the borders meet there are none. -/
def OnRing (w : Window) (a : UInt16) : Prop := a - w.left < w.right - w.left

theorem not_onRing_right (w : Window) : ¬ w.OnRing w.right := UInt16.lt_irrefl _

theorem onRing_right_sub_one (apart : w.right ≠ w.left) : w.OnRing (w.right - 1) := by
  rw [OnRing, sub_one_sub]
  exact UInt16.sub_lt (by decide) (one_le_sub apart)

theorem OnRing.apart (ring : w.OnRing a) : w.right ≠ w.left := by
  intro meet
  rw [OnRing, meet, UInt16.sub_self] at ring
  exact UInt16.not_lt_zero ring

theorem OnRing.previous (ring : w.OnRing a) : w.OnRing (w.previous a) := by
  by_cases border : a = w.left
  · rw [border, previous_left]
    exact onRing_right_sub_one ring.apart
  · rw [previous_of_ne border, OnRing, sub_one_sub]
    exact UInt16.lt_trans (UInt16.sub_lt (by decide) (one_le_sub border)) ring

theorem OnRing.next (ring : w.OnRing a) : w.OnRing (w.next a) := by
  rw [Window.next]
  split
  · rw [OnRing, UInt16.sub_self]
    exact UInt16.lt_of_lt_of_le (by decide) (one_le_sub ring.apart)
  · next border =>
    have short := UInt16.lt_iff_toNat_lt.1 ring
    have onward : (a + 1 - w.left).toNat = (a - w.left).toNat + 1 := by
      have swap : a + 1 - w.left = a - w.left + 1 := by grind
      have width : (w.right - w.left).toNat < 65536 := (w.right - w.left).toNat_lt
      rw [swap, UInt16.toNat_add, UInt16.toNat_one]
      exact Nat.mod_eq_of_lt (by omega)
    have other : (a + 1 - w.left).toNat ≠ (w.right - w.left).toNat := by
      rw [ne_eq, UInt16.toNat_inj, UInt16.sub_left_inj]
      exact border
    rw [OnRing, UInt16.lt_iff_toNat_lt]
    omega

theorem OnRing.iterate_previous (ring : w.OnRing a) (n : Nat) : w.OnRing (w.previous^[n] a) := by
  induction n with
  | zero => exact ring
  | succ n ih =>
    rw [Function.iterate_succ_apply']
    exact ih.previous

theorem OnRing.after (ring : w.OnRing a) (n : Nat) : w.OnRing (w.after a n) := by
  induction n with
  | zero => exact ring
  | succ n ih =>
    rw [after_succ]
    exact ih.next

/-- A step on undoes a step back, unless this leaves the right border. -/
theorem next_previous (inner : w.right = w.left ∨ a ≠ w.right) : w.next (w.previous a) = a := by
  by_cases border : a = w.left
  · rw [border, previous_left, Window.next, if_pos (UInt16.sub_add_cancel _ _)]
  · have other : a ≠ w.right := inner.elim (fun meet => meet ▸ border) id
    rw [previous_of_ne border, Window.next, UInt16.sub_add_cancel, if_neg other]

/-- Steps on undo steps back as long as none of these leaves the right border. -/
theorem after_iterate_previous (inner : w.right = w.left ∨ ∀ k < n, w.previous^[k] a ≠ w.right) :
    w.after (w.previous^[n] a) n = a := by
  induction n with
  | zero => rfl
  | succ n ih =>
    have last : w.right = w.left ∨ w.previous^[n] a ≠ w.right :=
      inner.imp_right fun others => others n (Nat.lt_succ_self n)
    rw [Function.iterate_succ_apply', Window.after, next_previous last]
    exact ih (inner.imp_right fun others k early => others k (Nat.lt_succ_of_lt early))

/-- On the ring no step back leaves the right border. -/
theorem OnRing.after_iterate_previous (ring : w.OnRing a) (n : Nat) :
    w.after (w.previous^[n] a) n = a :=
  Window.after_iterate_previous (.inr fun k _ border =>
    w.not_onRing_right (border ▸ ring.iterate_previous k))

/-- Steps back that have left the right border stay on the ring. -/
theorem onRing_of_passed (apart : w.right ≠ w.left) (early : k < n)
    (border : w.previous^[k] a = w.right) : w.OnRing (w.previous^[n] a) := by
  obtain ⟨rest, rfl⟩ := Nat.exists_eq_add_of_lt early
  rw [Nat.add_right_comm, Nat.add_comm, Function.iterate_add_apply, Function.iterate_succ_apply',
    border, previous_of_ne apart]
  exact (onRing_right_sub_one apart).iterate_previous rest

/-- And no longer: a step from the right border enters the ring, and steps on do not lead out of
it. -/
theorem after_iterate_previous_iff :
    w.after (w.previous^[n] a) n = a ↔ w.right = w.left ∨ ∀ k < n, w.previous^[k] a ≠ w.right := by
  refine ⟨fun home => ?_, after_iterate_previous⟩
  by_cases meet : w.right = w.left
  · exact .inl meet
  · refine .inr fun k early border => ?_
    have ring : w.OnRing a := home ▸ (onRing_of_passed meet early border).after n
    exact w.not_onRing_right (border ▸ ring.iterate_previous k)

/-- Whatever the borders of the ring are and wherever a destination lies: the address so many steps
back that a copy starts from is the one to which as many single steps lead, where a step from the
left border leads to the address before the right one and a step from any other address to the one
before it, modulo 65536.  Going on from there comes to the destination again exactly if the borders
meet or no step back has left the right border. -/
theorem behind_is_stepwise (w : Window) (a offset : UInt16) :
    w.behind a offset = w.previous^[offset.toNat] a ∧
      (w.after (w.behind a offset) offset.toNat = a ↔
        w.right = w.left ∨ ∀ k < offset.toNat, w.previous^[k] a ≠ w.right) := by
  rw [behind_eq_iterate]
  exact ⟨rfl, after_iterate_previous_iff⟩

/-- From above a ring of two addresses the way back goes round it, and the way on never leaves
it. -/
example : (⟨4, 6⟩ : Window).behind 7 6 = 5 ∧ (⟨4, 6⟩ : Window).after 5 6 = 5 := by decide

end Window

end SigComp
