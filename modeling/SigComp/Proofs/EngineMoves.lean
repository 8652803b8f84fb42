import SigComp.Proofs.EngineSteps

/-!
# Moves of an engine

What the steps of an engine come to for states, members and machines that wait, with all
else left out.  What holds of each kind of move holds of every operation.

* `Engine.Move mine`: one move; compartments under the keys of `mine` may be changed or
  closed by it, no others.
* `moves_of_step`: each step comes to a few moves.
* `moves_perform`: so an operation that registers nothing is a sequence of moves; besides
  the compartment that it is addressed to, only one may be changed that was not open before.
-/

namespace SigComp.Engine

open Compartment (SameBooks)
open Relation (ReflTransGen)

variable {e e' : Engine} {k : Key} {c : Compartment} {mine : Key → Prop}

/-! ## Moves -/

/-- One move of an engine. -/
inductive Move (mine : Key → Prop) : Engine → Engine → Prop
  | noted {e e' : Engine} : e'.settings = e.settings → e'.store = e.store →
    e'.compartments = e.compartments → e'.pending = e.pending → e'.catalogue = e.catalogue →
    Move mine e e'
  | buffered {e : Engine} {s : Store} : s.states = e.store.states → s.index = e.store.index →
    Move mine e { e with store := s }
  | reaped (e : Engine) : Move mine e e.reap
  | suspended {e : Engine} {m : Machine} {feedback : Option Bytes} {deadline : Nat} {id : MachineId}
      {p : Pending} : m.requests.Lawful → e.pending.suspend m feedback deadline = some (id, p) →
    Move mine e { e with pending := p }
  | discarded {e : Engine} {id : MachineId} {w : Suspended} {p : Pending} :
    e.pending.claim id = .ok (w, p) → Move mine e { e with pending := p }
  | settled {e : Engine} {k : Key} {c c' : Compartment} {id : MachineId} {w : Suspended}
      {p : Pending} {s : Store} {warnings : List Warning} :
    mine k → e.compartments.get? k = some c → e.pending.claim id = .ok (w, p) →
    c.settle e.store e.clock.now w.machine w.feedback = ((c', s), warnings) →
    Move mine e ({ e with pending := p, store := s }.putCompartment k c')
  | opened {e : Engine} {k : Key} {c : Compartment} {compartments : Arena Compartment} : mine k →
    e.compartments.insert? c = some (k, compartments) → c.members = [] →
    c.available = c.own.stateMemory → c.own = .ofSettings e.settings →
    c.maxStates = e.settings.statesPerCompartment → Move mine e { e with compartments }
  | amended {e : Engine} {k : Key} {c c' : Compartment} : mine k → e.compartments.get? k = some c →
    SameBooks c c' → Move mine e (e.putCompartment k c')
  | closed {e : Engine} {k : Key} {c : Compartment} : mine k → e.compartments.get? k = some c →
    Move mine e { e with compartments := e.compartments.erase k, store := c.releaseAll e.store }

/-- Any number of moves. -/
abbrev Moves (mine : Key → Prop) : Engine → Engine → Prop := ReflTransGen (Move mine)

/-- An outcome is reached by moves, whatever it is. -/
def Moving {α : Type} (mine : Key → Prop) (e : Engine) : EStateM.Result Error Engine α → Prop :=
  Leaves (Moves mine e) fun _ => Moves mine e

theorem Moving.after {α : Type} {result : EStateM.Result Error Engine α}
    (moving : Moving mine e result) : Moves mine e (after result) :=
  Leaves.after moving

/-! ## Steps -/

theorem sameBooks_amends {c' : Compartment} (amends : c.Amends c') : SameBooks c c' := by
  cases amends <;> exact ⟨rfl, rfl, rfl, rfl⟩

/-- Buffers alone are no matter of states. -/
theorem moves_returnContext (e : Engine) (context : Option Context) :
    Moves mine e (e.returnContext context) := by
  cases context with
  | none => exact .refl
  | some context => exact .single (.buffered rfl rfl)

theorem moves_of_lendContext {d : Descriptor} {context : Option Context}
    (lent : lendContext d e = .ok context e') : Moves mine e e' := by
  rcases lendContext_eq_ok lent with ⟨_, rfl⟩ | ⟨lease, s, _, taken, rfl⟩
  · exact .refl
  · obtain ⟨_, reserved⟩ := Store.allocContext_eq_ok taken
    obtain ⟨_, rfl⟩ := Store.reserve_eq_ok reserved
    exact .single (.buffered rfl rfl)

theorem moves_of_step (step : Step mine e e') : Moves mine e e' := by
  cases step with
  | noted journal => exact .single (.noted rfl rfl rfl rfl rfl)
  | advanced ms => exact .single (.noted rfl rfl rfl rfl rfl)
  | reaped => exact .single (.reaped e)
  | suspended _ lawful waits => exact .single (.suspended lawful waits)
  | discarded claimed => exact .single (.discarded claimed)
  | settled here found claimed settled => exact .single (.settled here found claimed settled)
  | tried lent => exact (moves_of_lendContext lent).trans (moves_returnContext _ _)
  | opened here lent inserted =>
    exact (moves_of_lendContext lent).tail (.opened here inserted rfl rfl rfl rfl)
  | amended here found amends => exact .single (.amended here found (sameBooks_amends amends))
  | @closed k c here found =>
    exact .trans (.single (.closed here found)) (moves_returnContext _ c.context)

theorem moves_of_steps (steps : Steps mine e e') : Moves mine e e' := by
  induction steps with
  | refl => exact .refl
  | tail _ step ih => exact ih.trans (moves_of_step step)

/-- An operation that registers nothing consists of moves, and changes no compartment but the one
that it is addressed to and one that it opens. -/
theorem moves_perform (tidy : e.compartments.Tidy) {o : Operation} (ordinary : o.registers = false)
    (new : ∀ k, o.addressee? = some k ∨ e.compartments.get? k = none → mine k) :
    Moving mine e (o.perform e) := by
  have stepping : Stepping mine e (o.perform e) := steps_perform tidy ordinary new
  cases performed : o.perform e with
  | ok a e' =>
    rw [performed] at stepping
    exact moves_of_steps stepping
  | error r e' =>
    rw [performed] at stepping
    exact moves_of_steps stepping

end SigComp.Engine
