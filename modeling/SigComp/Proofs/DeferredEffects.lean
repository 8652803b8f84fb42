import Mathlib.Data.List.Induction
import SigComp.Proofs.IndifferentOperations
import SigComp.Proofs.RegisteredStates

/-!
# Deferred effects

What a message leaves to be done is done once or never.

* `Engine.Turn`: what one operation does to a machine that waits.  It is taken out if its time
  is over, or if a declaration of its name is accepted; and only then is it regarded.
* `Engine.Waits`: a machine waits in a history since the operation that suspended it.  A
  suspension has one machine and a machine one suspension, whatever keys and names are
  used again.
* `deferred_effects_committed_once`: so a machine that has been settled, discarded or given up
  is gone for good, and unless it was settled the engine is the same as with any other
  machine in its place.
-/

namespace SigComp.Engine

open Pending (Orderly)

variable {settings : Settings} {e e' : Engine} {κ κ' : Key} {w w' v : Suspended} {due i j : Nat}
  {o : Operation} {operations rest : List Operation} {id : MachineId} {d : Declaration}

/-! ## One operation -/

/-- What an operation does to a machine that waits. -/
structure Turn (e : Engine) (due : Nat) (κ : Key) (w : Suspended) (o : Operation) (next : Engine) :
    Prop where
  stays : next.pending.machines.get? κ = none ∨
    next.pending.machines.get? κ = some w ∧ (κ, due) ∈ next.pending.deadlines
  gone : next.pending.machines.get? κ = none ↔
    o.Reaps e ∧ due ≤ e.clock.now ∨ Settling e w.id o ∨ Discarding e w.id o
  inTime : Settling e w.id o ∨ Discarding e w.id o → e.clock.now < due
  settles : ∀ d k e', o = .declare w.id d → o.perform e = .ok (.declared (some k)) e' →
    Settles e κ w d k e'
  regarded : Settling e w.id o ↔ ¬ Indifferent e κ w o

/-- A declaration that is accepted takes the machine of its name, in time. -/
theorem taken_of_declare (timely : e.Timely) (tidy : e.compartments.Tidy) {answer : Option Key}
    (waits : e.pending.machines.get? κ = some w) (declared : declare w.id d e = .ok answer e') :
    e.reap.pending.machines.get? κ = some w ∧ e'.pending = e.reap.pending.without κ := by
  have named := (timely.named κ w waits).2
  have here : ∀ {u p}, e.reap.pending.claim w.id = .ok (u, p) →
      e.reap.pending.machines.get? κ = some w ∧ p = e.reap.pending.without κ := by
    intro u p claimed
    obtain ⟨k, found, same, rfl⟩ := timely.reap.toNamed.claim_eq_ok_iff.1 claimed
    obtain ⟨rfl, rfl⟩ :=
      timely.toNamed.name_unique (timely.get?_reap_eq_some_iff.1 found).1 waits same
    exact ⟨found, rfl⟩
  have outcome := declaring_declare tidy w.id d
  rw [declared] at outcome
  cases outcome with
  | nobody nameless => exact absurd nameless named
  | discarded _ claimed => exact here claimed
  | settled _ _ _ claimed => exact here claimed

/-- Whether a declaration that is accepted settles a machine or discards it, it takes it. -/
theorem taken_of_accepted (timely : e.Timely) (tidy : e.compartments.Tidy)
    (waits : e.pending.machines.get? κ = some w)
    (accepted : Settling e w.id o ∨ Discarding e w.id o) :
    e.reap.pending.machines.get? κ = some w ∧
      (after (o.perform e)).pending.machines.get? κ = none := by
  have taken : ∀ d answer e', o = .declare w.id d → o.perform e = .ok (.declared answer) e' →
      e.reap.pending.machines.get? κ = some w ∧
        (after (o.perform e)).pending.machines.get? κ = none := by
    rintro d answer e' rfl performed
    obtain ⟨still, pending⟩ :=
      taken_of_declare timely tidy waits (perform_declare_eq_ok_iff.1 performed)
    rw [performed, after, pending, Pending.get?_without, if_pos rfl]
    exact ⟨still, rfl⟩
  rcases accepted with ⟨d, k, e', same, performed⟩ | ⟨d, e', same, performed⟩
  · exact taken d (some k) e' same performed
  · exact taken d none e' same performed

/-- What reaping does to a machine goes by its deadline. -/
theorem reap_by_deadline (timely : e.Timely) (waits : e.pending.machines.get? κ = some w)
    (queued : (κ, due) ∈ e.pending.deadlines) :
    due ≤ e.clock.now ∧ e.reap.pending.machines.get? κ = none ∨
      e.clock.now < due ∧ e.reap.pending.machines.get? κ = some w ∧
        (κ, due) ∈ e.reap.pending.deadlines := by
  have view : e.reap.pending.machines.get? κ = _ := timely.get?_reap queued e.clock.now
  have left : e.reap.pending.deadlines = _ := timely.deadlines_reap e.clock.now
  rcases Nat.lt_or_ge e.clock.now due with ahead | past
  · rw [if_neg (Nat.not_le_of_lt ahead), waits] at view
    rw [left, List.mem_filter]
    exact .inr ⟨ahead, view, queued, decide_eq_true ahead⟩
  · rw [if_pos past] at view
    exact .inl ⟨past, view⟩

/-- All that can become of a machine that waits: it waits on, or its time is over when machines are
reaped, or its name is declared in time and the declaration is accepted. -/
inductive Becoming (e : Engine) (due : Nat) (κ : Key) (w : Suspended) (o : Operation)
    (next : Engine) : Prop
  | still : (o.Reaps e → e.clock.now < due) → next.pending.machines.get? κ = some w →
    (κ, due) ∈ next.pending.deadlines → Becoming e due κ w o next
  | expired : o.Reaps e → due ≤ e.clock.now → next.pending.machines.get? κ = none →
    Becoming e due κ w o next
  | taken : Settling e w.id o ∨ Discarding e w.id o → next.pending.machines.get? κ = none →
    Becoming e due κ w o next

theorem becoming_perform (timely : e.Timely) (tidy : e.compartments.Tidy)
    (waits : e.pending.machines.get? κ = some w) (queued : (κ, due) ∈ e.pending.deadlines)
    (o : Operation) : Becoming e due κ w o (after (o.perform e)) := by
  have outcome := attending_perform timely tidy o
  have reaping := reap_by_deadline timely waits queued
  generalize performed : o.perform e = result at outcome
  cases outcome with
  | idle idle pending _ =>
    refine .still (fun reaps => absurd reaps idle) ?_ ?_
    · rw [pending, waits]
    · rw [pending]
      exact queued
  | refused reaps pending _ =>
    rw [after]
    rcases reaping with ⟨past, gone⟩ | ⟨ahead, still, left⟩
    · exact .expired reaps past (pending ▸ gone)
    · exact .still (fun _ => ahead) (pending ▸ still) (pending ▸ left)
  | @taken id d answer κ' u e' reaps found same pending _ =>
    rw [after]
    by_cases here : κ' = κ
    · subst here
      have waited := (timely.get?_reap_eq_some_iff.1 found).1
      rw [waits] at waited
      cases waited
      subst same
      refine .taken ?_ ?_
      · cases answer with
        | none => exact .inr ⟨d, e', rfl, performed⟩
        | some k => exact .inl ⟨d, k, e', rfl, performed⟩
      · rw [pending, Pending.get?_without, if_pos rfl]
    · rcases reaping with ⟨past, gone⟩ | ⟨ahead, still, left⟩
      · refine .expired reaps past ?_
        rw [pending, Pending.get?_without, gone, ite_self]
      · refine .still (fun _ => ahead) ?_ ?_
        · rw [pending, Pending.get?_without, if_neg (Ne.symm here), still]
        · rw [pending]
          exact List.mem_filter.2 ⟨left, decide_eq_true (Ne.symm here)⟩
  | read pending _ _ =>
    rcases reaping with ⟨past, gone⟩ | ⟨ahead, still, left⟩
    · exact .expired trivial past (pending ▸ gone)
    · exact .still (fun _ => ahead) (pending ▸ still) (pending ▸ left)
  | @suspended _ _ _ m feedback κ' id e' suspends _ =>
    rw [after]
    have other : κ ≠ κ' := by
      rintro rfl
      have fresh : e.pending.machines.get? κ = none := suspends.fresh_before
      rw [waits] at fresh
      cases fresh
    have view := (suspends.view κ).trans (if_neg other)
    rcases reaping with ⟨past, gone⟩ | ⟨ahead, still, left⟩
    · exact .expired trivial past (view.trans gone)
    · refine .still (fun _ => ahead) (view.trans still) ?_
      rw [suspends.deadlines]
      exact List.mem_append_left _ left

theorem turn_perform (timely : e.Timely) (tidy : e.compartments.Tidy)
    (waits : e.pending.machines.get? κ = some w) (queued : (κ, due) ∈ e.pending.deadlines)
    (o : Operation) : Turn e due κ w o (after (o.perform e)) := by
  have becoming := becoming_perform timely tidy waits queued o
  have reaping := reap_by_deadline timely waits queued
  have inTime : Settling e w.id o ∨ Discarding e w.id o → e.clock.now < due := by
    intro accepted
    obtain ⟨still, _⟩ := taken_of_accepted timely tidy waits accepted
    rcases reaping with ⟨_, gone⟩ | ⟨ahead, _⟩
    · rw [still] at gone
      cases gone
    · exact ahead
  refine ⟨?_, ⟨fun gone => ?_, fun reason => ?_⟩, inTime, ?_, ?_⟩
  · cases becoming with
    | still _ waits' queued' => exact .inr ⟨waits', queued'⟩
    | expired _ _ gone => exact .inl gone
    | taken _ gone => exact .inl gone
  · cases becoming with
    | still _ waits' _ =>
      rw [gone] at waits'
      cases waits'
    | expired reaps past _ => exact .inl ⟨reaps, past⟩
    | taken accepted _ => exact .inr accepted
  · cases becoming with
    | still ahead waits' _ =>
      rcases reason with ⟨reaps, past⟩ | accepted
      · exact absurd past (Nat.not_le_of_lt (ahead reaps))
      · exact (taken_of_accepted timely tidy waits accepted).2
    | expired _ _ gone => exact gone
    | taken _ gone => exact gone
  · rintro d k e' rfl performed
    obtain ⟨κ', u, same, settles⟩ :=
      settles_of_declare timely tidy (perform_declare_eq_ok_iff.1 performed)
    have waited := (timely.get?_reap_eq_some_iff.1 settles.waits).1
    obtain ⟨rfl, rfl⟩ := timely.toNamed.name_unique waited waits same
    exact settles
  · rw [indifferent_iff timely tidy waits, not_not]

/-- A machine that was not there before an operation has been suspended by it, and is the only
one. -/
theorem suspended_of_perform (timely : e.Timely) (tidy : e.compartments.Tidy)
    (absent : e.pending.machines.get? κ = none)
    (waits : (after (o.perform e)).pending.machines.get? κ = some w) :
    (κ, e.clock.now + e.timeout) ∈ (after (o.perform e)).pending.deadlines ∧
      ∀ κ' w', e.pending.machines.get? κ' = none →
        (after (o.perform e)).pending.machines.get? κ' = some w' → κ' = κ := by
  have outcome := attending_perform timely tidy o
  have nothing : ∀ κ, e.pending.machines.get? κ = none → e.reap.pending.machines.get? κ = none := by
    intro κ absent
    cases found : e.reap.pending.machines.get? κ with
    | none => rfl
    | some u =>
      rw [(timely.get?_reap_eq_some_iff.1 found).1] at absent
      cases absent
  generalize performed : o.perform e = result at outcome waits ⊢
  cases outcome with
  | idle _ pending _ =>
    rw [pending, absent] at waits
    cases waits
  | refused _ pending _ =>
    rw [after, pending, nothing κ absent] at waits
    cases waits
  | taken _ _ _ pending _ =>
    rw [after, pending, Pending.get?_without, nothing κ absent, ite_self] at waits
    cases waits
  | read pending _ _ =>
    rw [pending, nothing κ absent] at waits
    cases waits
  | @suspended _ _ _ m feedback κ₀ id e' suspends _ =>
    have only : ∀ κ' w', e.pending.machines.get? κ' = none → e'.pending.machines.get? κ' = some w' →
        κ' = κ₀ := by
      intro κ' w' absent' waits'
      by_cases here : κ' = κ₀
      · exact here
      · rw [suspends.view, if_neg here, nothing κ' absent'] at waits'
        cases waits'
    have here := only κ w absent waits
    subst here
    refine ⟨?_, only⟩
    rw [after, suspends.deadlines]
    exact List.mem_append_right _ (List.mem_singleton_self _)

/-! ## Histories -/

/-- Throughout a history, since its `i`th operation, a machine waits under a key. -/
inductive Waits (e : Engine) : List Operation → Nat → Key → Suspended → Prop
  | suspended {operations : List Operation} {o : Operation} {κ : Key} {w : Suspended} :
    (e.run operations).pending.machines.get? κ = none →
    (e.run (operations ++ [o])).pending.machines.get? κ = some w →
    Waits e (operations ++ [o]) operations.length κ w
  | still {operations : List Operation} {o : Operation} {i : Nat} {κ : Key} {w : Suspended} :
    Waits e operations i κ w → (e.run (operations ++ [o])).pending.machines.get? κ = some w →
    Waits e (operations ++ [o]) i κ w

/-- When the time of a machine is over that the `i`th operation of a history suspended. -/
def deadline (e : Engine) (operations : List Operation) (i : Nat) : Nat :=
  (e.run (operations.take i)).clock.now + e.timeout

theorem run_append (e : Engine) (operations rest : List Operation) :
    e.run (operations ++ rest) = (e.run operations).run rest :=
  List.foldl_append

theorem run_snoc (e : Engine) (operations : List Operation) (o : Operation) :
    e.run (operations ++ [o]) = after (o.perform (e.run operations)) :=
  e.run_append operations [o]

theorem Waits.waits (waits : Waits e operations i κ w) :
    (e.run operations).pending.machines.get? κ = some w := by
  cases waits with
  | suspended _ waits => exact waits
  | still _ waits => exact waits

theorem Waits.lt_length (waits : Waits e operations i κ w) : i < operations.length := by
  induction waits with
  | suspended _ _ => simp
  | still _ _ ih =>
    rw [List.length_append]
    exact Nat.lt_add_right _ ih

/-- What waits in a history waited in every beginning of it, from its suspension on. -/
theorem Waits.of_append (waits : Waits e (operations ++ rest) i κ w)
    (begun : i < operations.length) :
    Waits e operations i κ w := by
  induction rest using List.reverseRecOn with
  | nil => rwa [List.append_nil] at waits
  | append_singleton rest o ih =>
    rw [← List.append_assoc] at waits
    generalize whole : operations ++ rest ++ [o] = history at waits
    cases waits with
    | @suspended before o' _ _ _ _ =>
      obtain ⟨rfl, _⟩ := List.append_inj' whole rfl
      rw [List.length_append] at begun
      omega
    | @still before o' _ _ _ earlier _ =>
      obtain ⟨rfl, _⟩ := List.append_inj' whole rfl
      exact ih earlier

section Started

variable (started : start settings = .ok e)

include started

theorem timeout_run (operations : List Operation) : (e.run operations).timeout = e.timeout := by
  induction operations using List.reverseRecOn with
  | nil => rfl
  | append_singleton operations o ih =>
    obtain ⟨_, consistent⟩ := consistent_of_reachable ((Reachable.start started).run operations)
    rw [← ih, run_snoc, timeout, settings_perform consistent o, timeout]

theorem ready_run (operations : List Operation) :
    (e.run operations).Timely ∧ (e.run operations).compartments.Tidy := by
  have reachable := (Reachable.start started).run operations
  obtain ⟨_, consistent⟩ := consistent_of_reachable reachable
  exact ⟨timely_of_reachable reachable, consistent.tidy⟩

/-- The deadline of a machine is when it was suspended and the timeout. -/
theorem Waits.queued (waits : Waits e operations i κ w) :
    (κ, e.deadline operations i) ∈ (e.run operations).pending.deadlines := by
  induction waits with
  | @suspended operations o κ w absent waits =>
    obtain ⟨timely, tidy⟩ := ready_run started operations
    rw [run_snoc] at waits ⊢
    have queued := (suspended_of_perform timely tidy absent waits).1
    rw [timeout_run started] at queued
    rw [deadline, List.take_left']
    · exact queued
    · rfl
  | @still operations o i κ w earlier waits ih =>
    obtain ⟨timely, tidy⟩ := ready_run started operations
    have turn := turn_perform timely tidy earlier.waits ih o
    rw [run_snoc] at waits ⊢
    have same : e.deadline (operations ++ [o]) i = e.deadline operations i := by
      rw [deadline, List.take_append_of_le_length (Nat.le_of_lt earlier.lt_length), deadline]
    rw [same]
    rcases turn.stays with gone | ⟨_, queued⟩
    · rw [waits] at gone
      cases gone
    · exact queued

/-- Every machine that waits was suspended once. -/
theorem exists_waits (waits : (e.run operations).pending.machines.get? κ = some w) :
    ∃ i, Waits e operations i κ w := by
  induction operations using List.reverseRecOn generalizing w with
  | nil =>
    rw [run, List.foldl_nil, nothing_waits started] at waits
    cases waits
  | append_singleton operations o ih =>
    cases before : (e.run operations).pending.machines.get? κ with
    | none => exact ⟨_, .suspended before waits⟩
    | some w₀ =>
      obtain ⟨i, earlier⟩ := ih before
      obtain ⟨timely, tidy⟩ := ready_run started operations
      have turn := turn_perform timely tidy before (earlier.queued started) o
      rw [← run_snoc] at turn
      rcases turn.stays with gone | ⟨stays, _⟩
      · rw [waits] at gone
        cases gone
      · rw [waits] at stays
        cases stays
        exact ⟨i, .still earlier waits⟩

/-- A suspension has one machine, and a machine one suspension. -/
theorem Waits.same_iff (here : Waits e operations i κ w) (there : Waits e operations j κ' w') :
    i = j ↔ κ = κ' := by
  induction here generalizing j κ' w' with
  | @suspended operations o κ w absent waits =>
    generalize whole : operations ++ [o] = history at there
    cases there with
    | @suspended operations' o' _ _ absent' waits' =>
      obtain ⟨rfl, same⟩ := List.append_inj' whole rfl
      cases same
      obtain ⟨timely, tidy⟩ := ready_run started operations
      rw [run_snoc] at waits waits'
      have only := (suspended_of_perform timely tidy absent waits).2 κ' w' absent' waits'
      exact ⟨fun _ => only.symm, fun _ => rfl⟩
    | @still operations' o' _ _ _ earlier waits' =>
      obtain ⟨rfl, _⟩ := List.append_inj' whole rfl
      constructor
      · rintro rfl
        exact absurd earlier.lt_length (Nat.lt_irrefl _)
      · rintro rfl
        rw [earlier.waits] at absent
        cases absent
  | @still operations o i κ w earlier waits ih =>
    generalize whole : operations ++ [o] = history at there
    cases there with
    | @suspended operations' o' _ _ absent' waits' =>
      obtain ⟨rfl, _⟩ := List.append_inj' whole rfl
      constructor
      · rintro rfl
        exact absurd earlier.lt_length (Nat.lt_irrefl _)
      · rintro rfl
        rw [earlier.waits] at absent'
        cases absent'
    | @still operations' o' _ _ _ earlier' waits' =>
      obtain ⟨rfl, _⟩ := List.append_inj' whole rfl
      exact ih earlier'

/-- The machine that a message is answered with the name of waits. -/
theorem waits_of_decompress {data plain : Bytes} {t : Transport}
    (answered : decompress data t (e.run operations) = .ok (plain, id) e') (named : id ≠ 0) :
    ∃ κ w, Waits e (operations ++ [.decompress data t]) operations.length κ w ∧ w.id = id := by
  obtain ⟨timely, tidy⟩ := ready_run started operations
  have outcome := attending_decompress timely data t
  have performed : Operation.perform (.decompress data t) (e.run operations) =
      .ok (.decompressed plain id) e' := run_bind_ok answered _
  rw [performed] at outcome
  cases outcome with
  | idle idle _ _ => exact absurd trivial idle
  | read _ _ nameless => exact absurd (nameless plain id e' rfl) named
  | @suspended _ _ _ m feedback κ _ _ suspends _ =>
    refine ⟨κ, ⟨id, m, feedback⟩, .suspended suspends.fresh_before ?_, rfl⟩
    rw [run_snoc, performed]
    exact (suspends.view κ).trans (if_pos rfl)

/-- A machine that is gone does not come back, nor does another get its suspension. -/
theorem Waits.once (waits : Waits e operations i κ w)
    (gone : (e.run (operations ++ [o])).pending.machines.get? κ = none) (rest : List Operation)
    (κ' : Key) (w' : Suspended) : ¬ Waits e (operations ++ o :: rest) i κ' w' := by
  intro later
  rw [List.append_cons] at later
  have inside : i < (operations ++ [o]).length := by
    rw [List.length_append]
    exact Nat.lt_add_right _ waits.lt_length
  have next := later.of_append inside
  have here := next.of_append waits.lt_length
  have same := (waits.same_iff started here).1 rfl
  rw [same, next.waits] at gone
  cases gone

end Started

/-! ## Deferred effects -/

/-- The machines that wait and the deadlines in the queue are paired, and the queue is in order. -/
structure Paired (p : Pending) : Prop where
  same : (p.deadlines.map Prod.fst).Perm (p.machines.toList.map Prod.fst)
  once : (p.deadlines.map Prod.fst).Nodup
  sorted : p.deadlines.Pairwise fun a b => a.2 ≤ b.2

theorem paired_of_orderly {p : Pending} {now span : Nat} (orderly : Orderly now span p) :
    Paired p := by
  refine ⟨(List.perm_ext_iff_of_nodup orderly.once p.machines.nodup_keys).2 fun k => ?_,
    orderly.once, orderly.sorted⟩
  simpa [Arena.mem_toList] using orderly.queued k

/-- No declaration settles the machine while it waits. -/
def Unsettled (e : Engine) (operations : List Operation) (i : Nat) (κ : Key) (w : Suspended)
    (rest : List Operation) : Prop :=
  ∀ before o after, rest = before ++ o :: after → Waits e (operations ++ before) i κ w →
    ¬ Settling (e.run (operations ++ before)) w.id o

/-- What becomes of a machine that waits since the `i`th operation of a history. -/
structure Fate (e : Engine) (operations : List Operation) (i : Nat) (κ : Key) (w : Suspended) : Prop
    where
  queued : (κ, e.deadline operations i) ∈ (e.run operations).pending.deadlines
  turn : ∀ o, Turn (e.run operations) (e.deadline operations i) κ w o (e.run (operations ++ [o]))
  once : ∀ o, (e.run (operations ++ [o])).pending.machines.get? κ = none →
    ∀ rest κ' w', ¬ Waits e (operations ++ o :: rest) i κ' w'
  unseen : ∀ v rest, v.id = w.id → Unsettled e operations i κ w rest →
    Waits e (operations ++ rest) i κ w ∧
      ((e.run operations).recast κ v).run rest = (e.run (operations ++ rest)).recast κ v ∨
    (∀ κ' w', ¬ Waits e (operations ++ rest) i κ' w') ∧
      ((e.run operations).recast κ v).run rest = e.run (operations ++ rest)

/-- As long as a machine is not settled it leaves no trace, whether it still waits or has ended. -/
theorem unseen_of_unsettled (started : start settings = .ok e) (waits : Waits e operations i κ w)
    (same : v.id = w.id) (unsettled : Unsettled e operations i κ w rest) :
    Waits e (operations ++ rest) i κ w ∧
      ((e.run operations).recast κ v).run rest = (e.run (operations ++ rest)).recast κ v ∨
    (∀ κ' w', ¬ Waits e (operations ++ rest) i κ' w') ∧
      ((e.run operations).recast κ v).run rest = e.run (operations ++ rest) := by
  induction rest generalizing operations with
  | nil =>
    rw [List.append_nil]
    exact .inl ⟨waits, rfl⟩
  | cons o rest ih =>
    obtain ⟨timely, tidy⟩ := ready_run started operations
    have turn := turn_perform timely tidy waits.waits (waits.queued started) o
    have first : ¬ Settling (e.run operations) w.id o := by
      have here := unsettled [] o rest rfl
      rw [List.append_nil] at here
      exact here waits
    have indifferent := indifferent_of_not_settling timely tidy waits.waits first v same
    have next : after (o.perform ((e.run operations).recast κ v)) =
        (e.run (operations ++ [o])).recast κ v := by
      rw [run_snoc]
      exact (congrArg after indifferent).trans (after_mapAfter _)
    have begun : ((e.run operations).recast κ v).run (o :: rest) =
        ((e.run (operations ++ [o])).recast κ v).run rest := by
      rw [← next]
      rfl
    rw [begun, List.append_cons]
    rw [← run_snoc] at turn
    rcases turn.stays with gone | ⟨stays, _⟩
    · refine .inr ⟨fun κ' w' still => ?_, ?_⟩
      · rw [← List.append_cons] at still
        exact waits.once started gone rest κ' w' still
      · rw [recast_of_vacant gone, ← run_append]
    · refine ih (.still waits stays) fun before o' others whole still => ?_
      have here := unsettled (o :: before) o' others (by rw [whole, List.cons_append])
      rw [List.append_cons] at here
      exact here still

/-- What a message leaves to be done is done once or never.  Throughout a history the machines that
wait are paired with the deadlines in the queue, which is in order, and every machine waits since
the one operation that suspended it, until its time is over when machines are reaped, or a
declaration of its name is accepted in time.  It is settled by the declarations that are accepted
with a compartment and by nothing else; once it is gone it stays gone; and as long as it has not
been settled, no operation can tell what it has left to be done. -/
theorem deferred_effects_committed_once (started : start settings = .ok e)
    (operations : List Operation) :
    Paired (e.run operations).pending ∧
    (∀ data t plain id next, decompress data t (e.run operations) = .ok (plain, id) next → id ≠ 0 →
      ∃ κ w, Waits e (operations ++ [.decompress data t]) operations.length κ w ∧ w.id = id) ∧
    (∀ κ w, (e.run operations).pending.machines.get? κ = some w → ∃ i, Waits e operations i κ w) ∧
    (∀ i κ w j κ' w', Waits e operations i κ w → Waits e operations j κ' w' → (i = j ↔ κ = κ')) ∧
    (∀ id d k next, declare id d (e.run operations) = .ok (some k) next →
      ∃ i κ w, Waits e operations i κ w ∧ w.id = id) ∧
    ∀ i κ w, Waits e operations i κ w → Fate e operations i κ w := by
  obtain ⟨timely, tidy⟩ := ready_run started operations
  refine ⟨paired_of_orderly timely,
    fun data t plain id next answered named => waits_of_decompress started answered named,
    fun κ w waits => exists_waits started waits,
    fun i κ w j κ' w' here there => here.same_iff started there,
    fun id d k next declared => ?_, fun i κ w waits => ?_⟩
  · obtain ⟨κ, w, same, settles⟩ := settles_of_declare timely tidy declared
    obtain ⟨waited, _⟩ := timely.get?_reap_eq_some_iff.1 settles.waits
    obtain ⟨i, waits⟩ := exists_waits started waited
    exact ⟨i, κ, w, waits, same⟩
  · refine ⟨waits.queued started, fun o => ?_, fun o gone => waits.once started gone,
      fun v rest same unsettled => unseen_of_unsettled started waits same unsettled⟩
    rw [run_snoc]
    exact turn_perform timely tidy waits.waits (waits.queued started) o

/-- Two messages wait, the second since two seconds later; and then three more seconds pass. -/
def twoMessages : List Operation :=
  [.addAlgorithm { name := "a", code := [0] }
      ⟨fun _ context => (.ok [], context), fun _ context => context⟩,
    .decompress [0xf8, 0x00, 0x81, 0x23, 0x00, 0x00, 0x02, 0x00, 0x00, 0x06, 0x00] .message,
    .advance 2000,
    .decompress [0xf8, 0x00, 0x81, 0x23, 0x00, 0x00, 0x02, 0x00, 0x00, 0x06, 0x00] .message,
    .advance 3000]

/-- The first of the two messages is declared too late and is gone for good; the second one can
still be settled. -/
theorem second_message_in_time :
    ∃ e first second i j k next, start {} = .ok e ∧
      Waits e twoMessages i ⟨0, 0⟩ first ∧ Waits e twoMessages j ⟨1, 0⟩ second ∧ i ≠ j ∧
      e.deadline twoMessages i = 5000 ∧ e.deadline twoMessages j = 7000 ∧
      (∀ rest κ w, ¬ Waits e (twoMessages ++ .declare 1024 (.fresh none) :: rest) i κ w) ∧
      declare 2049 (.fresh none) (e.run twoMessages) = .ok (some k) next ∧
      Settles (e.run twoMessages) ⟨1, 0⟩ second (.fresh none) k next ∧
      ¬ Indifferent (e.run twoMessages) ⟨1, 0⟩ second (.declare 2049 (.fresh none)) := by
  let e : Engine := ⟨{}, {}, .ofSettings {}, { capacity := 10 }, .ofSettings {}, {}, {}⟩
  have started : start {} = .ok e := rfl
  have course :
      ((e.run twoMessages).pending.machines.get? ⟨0, 0⟩).map Suspended.id = some 1024 ∧
      ((e.run twoMessages).pending.machines.get? ⟨1, 0⟩).map Suspended.id = some 2049 ∧
      (e.run twoMessages).pending.deadlines = [(⟨0, 0⟩, 5000), (⟨1, 0⟩, 7000)] ∧
      (e.run twoMessages).clock.now = 5000 ∧
      answer? (create none (e.run twoMessages)) = some ⟨0, 0⟩ ∧
      answer? (declare 2049 (.fresh none) (e.run twoMessages)) = some (some ⟨0, 0⟩) := by
    decide +kernel
  obtain ⟨firstWaits, secondWaits, deadlines, now, opens, answered⟩ := course
  obtain ⟨first, firstWaits, _⟩ := Option.map_eq_some_iff.1 firstWaits
  obtain ⟨second, secondWaits, name⟩ := Option.map_eq_some_iff.1 secondWaits
  obtain ⟨_, created⟩ := eq_ok_of_answer? opens
  obtain ⟨next, declared⟩ := eq_ok_of_answer? answered
  obtain ⟨_, _, each, same, _, fates⟩ := deferred_effects_committed_once started twoMessages
  obtain ⟨i, here⟩ := each _ _ firstWaits
  obtain ⟨j, there⟩ := each _ _ secondWaits
  have apart : i ≠ j := fun again => absurd ((same _ _ _ _ _ _ here there).1 again) (by decide)
  have early := (fates i _ _ here).queued
  have late := (fates j _ _ there).queued
  rw [deadlines] at early late
  have firstDue : e.deadline twoMessages i = 5000 := by simpa using early
  have secondDue : e.deadline twoMessages j = 7000 := by simpa using late
  have gone : (e.run (twoMessages ++ [.declare 1024 (.fresh none)])).pending.machines.get? ⟨0, 0⟩ =
      none := by
    refine ((fates i _ _ here).turn _).gone.2 (.inl ⟨⟨by decide, _, _, created⟩, ?_⟩)
    exact Nat.le_of_eq (firstDue.trans now.symm)
  have turn := (fates j _ _ there).turn (.declare 2049 (.fresh none))
  have performed := perform_declare_eq_ok_iff.2 declared
  have settling : Settling (e.run twoMessages) second.id (.declare 2049 (.fresh none)) :=
    ⟨_, _, _, by rw [name], performed⟩
  exact ⟨e, first, second, i, j, _, next, started, here, there, apart, firstDue, secondDue,
    (fates i _ _ here).once _ gone, declared, turn.settles _ _ _ (by rw [name]) performed,
    turn.regarded.1 settling⟩

end SigComp.Engine
