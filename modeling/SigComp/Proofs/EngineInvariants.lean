import SigComp.Proofs.ReferenceCounts

/-!
# Invariants of engines

What has to be shown of a property so that every reachable engine has it.

* `Engine.Invariant I`: new engines have the property, and steps and registrations of a
  consistent engine preserve it.
* `Invariant.steps` and `Invariant.reachable`: so it holds after any number of steps, also
  half-way through an operation, and in every reachable engine.
* `Engine.Formerly` and `formerly_of_step`: what a compartment that is open after a step was
  before, for properties of compartments one by one.
-/

namespace SigComp.Engine

variable {I : Engine → Prop} {e e' : Engine} {pinned : List Key}

theorem consistent_of_steps {mine : Key → Prop} (consistent : Consistent pinned e)
    (steps : Steps mine e e') : Consistent pinned e' :=
  (spares_moves consistent (moves_of_steps steps)).consistent

/-- What new engines are like, and stay like when something is done to them. -/
structure Invariant (I : Engine → Prop) : Prop where
  start : ∀ {settings e}, start settings = .ok e → I e
  step : ∀ {pinned e e'}, Consistent pinned e → I e → Step (fun _ => True) e e' → I e'
  registration : ∀ {pinned e} {o : Operation}, Consistent pinned e → I e → o.registers = true →
    I (after (o.perform e))

theorem Invariant.steps (invariant : Invariant I) (consistent : Consistent pinned e) (holds : I e)
    (steps : Steps (fun _ => True) e e') : I e' := by
  induction steps with
  | refl => exact holds
  | tail before step ih => exact invariant.step (consistent_of_steps consistent before) ih step

theorem Invariant.perform (invariant : Invariant I) (consistent : Consistent pinned e) (holds : I e)
    (o : Operation) : I (after (o.perform e)) := by
  cases ordinary : o.registers with
  | true => exact invariant.registration consistent holds ordinary
  | false =>
    have stepping : Stepping (fun _ => True) e (o.perform e) :=
      steps_perform consistent.tidy ordinary fun _ _ => trivial
    exact invariant.steps consistent holds stepping.after

theorem Invariant.reachable (invariant : Invariant I) (reachable : Reachable e) : I e := by
  induction reachable with
  | start started => exact invariant.start started
  | perform o reachable ih =>
    obtain ⟨_, consistent⟩ := consistent_of_reachable reachable
    exact invariant.perform consistent ih o

/-! ## Single compartments -/

/-- What the compartment under `k` was in `e` before a step: the same, not there, amended by the
step, or settled by it with a machine, which has left the store `s`. -/
inductive Formerly (e : Engine) (k : Key) (s : Store) : Compartment → Prop
  | same {c : Compartment} : e.compartments.get? k = some c → Formerly e k s c
  | founded (e₁ : Engine) (a : Algorithm) (context : Option Context) :
    Formerly e k s (e₁.founding a context)
  | amended {c c' : Compartment} : e.compartments.get? k = some c → c.Amends c' → Formerly e k s c'
  | settled {c c' : Compartment} {now : Nat} {m : Machine} {feedback : Option Bytes}
      {warnings : List Warning} : e.compartments.get? k = some c →
    c.settle e.store now m feedback = ((c', s), warnings) → Formerly e k s c'

theorem formerly_of_step {mine : Key → Prop} {k : Key} {c : Compartment}
    (tidy : e.compartments.Tidy) (step : Step mine e e') (found : e'.compartments.get? k = some c) :
    Formerly e k e'.store c := by
  cases step with
  | noted journal => exact .same found
  | advanced ms => exact .same found
  | reaped => exact .same found
  | suspended _ _ _ => exact .same found
  | discarded _ => exact .same found
  | @settled k₁ c₁ c' id w p s warnings _ before _ settled =>
    simp only [putCompartment, Arena.get?_put before] at found
    split at found
    · next here =>
      cases found
      exact .settled (here ▸ before) settled
    · exact .same found
  | tried lent =>
    refine .same ?_
    rw [← compartments_of_lendContext lent]
    exact found
  | @opened e₁ a context k₁ compartments _ lent inserted =>
    have same := compartments_of_lendContext lent
    obtain ⟨_, _, view⟩ := Arena.insert?_eq_some (same ▸ tidy) inserted
    simp only [view] at found
    split at found
    · cases found
      exact .founded e₁ a context
    · exact .same (same ▸ found)
  | @amended k₁ c₁ c' _ before amends =>
    simp only [putCompartment, Arena.get?_put before] at found
    split at found
    · next here =>
      cases found
      exact .amended (here ▸ before) amends
    · exact .same found
  | @closed k₁ c₁ _ _ =>
    change (e.compartments.erase k₁).get? k = some c at found
    rw [Arena.get?_erase] at found
    split at found
    · cases found
    · exact .same found

end SigComp.Engine
