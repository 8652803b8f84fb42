import SigComp.Proofs.PendingFrame
import SigComp.Proofs.PendingQueue
import SigComp.Proofs.RefusedCompression

/-!
# What comes of a declaration

A declaration opens a compartment if need be, takes a machine out of those that wait, and
settles the one with the other.  Each of these can fail.

* `Engine.settled`: the engine after a machine has been settled with an open compartment,
  and `settle_of_ok`: which needs only that the machine still waits.
* `Engine.Destination e d k opened`: the compartment that a declaration is for, in the engine
  in which it is open.
* `Engine.Declaring`: all that can come of a declaration, and `declaring_declare`.
* `declare_of_claim`: if the machine still waits and the compartment is open or can be
  opened, they are settled.
-/

namespace SigComp.Engine

variable {e e' opened : Engine} {k : Key} {c : Compartment} {id : MachineId} {d : Declaration}
  {w : Suspended} {p : Pending} {r : Error} {algorithm : Option String}

/-! ## Settlement -/

/-- The engine after a machine has been settled with a compartment, whose algorithm has then been
told. -/
def settled (e : Engine) (k : Key) (c : Compartment) (w : Suspended) : Engine :=
  let ((c, store), warnings) := c.settle e.store e.clock.now w.machine w.feedback
  let e := { e with store }.putCompartment k c
  (e.warned warnings).called (.peerMessage c.algorithm.name k (e.briefing c))

theorem claim_of_error (refused : e.reap.pending.claim id = .error r) :
    claim id e = .error r e.reap := by
  unfold claim
  rw [run_modify, run_get, refused, run_ofExcept_error]

theorem claim_of_ok (claimed : e.reap.pending.claim id = .ok (w, p)) :
    claim id e = .ok w { e.reap with pending := p } := by
  unfold claim
  rw [run_modify, run_get, claimed, run_ofExcept_ok]
  rfl

theorem settle_of_error (refused : e.reap.pending.claim id = .error r) (k : Key) :
    settle id k e = .error r e.reap :=
  run_bind_error (claim_of_error refused) _

/-- With an open compartment a machine is settled if only it still waits. -/
theorem settle_of_ok (found : e.compartments.get? k = some c)
    (claimed : e.reap.pending.claim id = .ok (w, p)) :
    settle id k e = .ok () ({ e.reap with pending := p }.settled k c w) := by
  have there : ({ e.reap with pending := p } : Engine).compartment k = .ok c :=
    compartment_of_get? (e := { e.reap with pending := p }) found
  unfold settle
  rw [run_bind_ok (claim_of_ok claimed), run_get, there, run_ofExcept_ok]
  rfl

/-! ## Destinations -/

/-- The compartment that a declaration is for, and the engine in which it is open. -/
inductive Destination (e : Engine) : Declaration → Key → Engine → Prop
  | existing {k : Key} {c : Compartment} : e.compartments.get? k = some c →
    Destination e (.existing k) k e
  | fresh {algorithm : Option String} {k : Key} {opened : Engine} :
    create algorithm e = .ok k opened → Destination e (.fresh algorithm) k opened

/-- To open a compartment is no matter of the machines that wait or of the clock. -/
theorem Destination.aside (destination : Destination e d k opened) :
    opened.pending = e.pending ∧ opened.clock = e.clock := by
  cases destination with
  | existing _ => exact ⟨rfl, rfl⟩
  | @fresh algorithm _ _ created =>
    have same := (blind_create algorithm).after e
    rw [created] at same
    exact same

theorem Destination.opens (tidy : e.compartments.Tidy) (destination : Destination e d k opened) :
    (∃ c, opened.compartments.get? k = some c) ∧
      ∀ k', k' ≠ k → opened.compartments.get? k' = e.compartments.get? k' := by
  cases destination with
  | existing found => exact ⟨⟨_, found⟩, fun _ _ => rfl⟩
  | fresh created =>
    have opens := opens_of_create tidy created
    exact ⟨opens.opened, opens.others⟩

/-- Whichever compartment is opened, the same machines are given up. -/
theorem Destination.reap (destination : Destination e d k opened) :
    opened.reap.pending = e.reap.pending := by
  obtain ⟨pending, clock⟩ := destination.aside
  change (opened.pending.reap opened.clock.now).1 = (e.pending.reap e.clock.now).1
  rw [pending, clock]

/-! ## Declarations -/

/-- If the machine still waits and the compartment is open or can be opened, they are settled. -/
theorem declare_of_claim (named : id ≠ 0) (destination : Destination e d k opened)
    (found : opened.compartments.get? k = some c) (claimed : e.reap.pending.claim id = .ok (w, p)) :
    declare id d e = .ok (some k) ({ opened.reap with pending := p }.settled k c w) := by
  have done : settle id k opened = .ok () ({ opened.reap with pending := p }.settled k c w) :=
    settle_of_ok found (destination.reap ▸ claimed)
  unfold declare
  rw [if_neg named]
  cases destination with
  | existing _ =>
    simp only []
    rw [run_get, compartment_of_get? found, run_ofExcept_ok]
    exact run_bind_ok done _
  | @fresh algorithm _ _ created =>
    have fresh : settleFresh id algorithm e =
        .ok k ({ opened.reap with pending := p }.settled k c w) := by
      refine (run_bind_ok created _).trans ?_
      simp only [done]
    exact run_bind_ok fresh _

/-- All that can come of a declaration. -/
inductive Declaring (e : Engine) (id : MachineId) :
    Declaration → EStateM.Result Error Engine (Option Key) → Prop
  | nobody {d : Declaration} : id = 0 → Declaring e id d (.ok none e)
  | closed {k : Key} : id ≠ 0 → e.compartments.get? k = none →
    Declaring e id (.existing k) (.error .destructed e)
  | unopened {algorithm : Option String} {r : Error} {e' : Engine} : id ≠ 0 →
    create algorithm e = .error r e' → Declaring e id (.fresh algorithm) (.error r e')
  | unclaimed {r : Error} : id ≠ 0 → e.reap.pending.claim id = .error r →
    Declaring e id .unauthorized (.error r e.reap)
  | unknown {k : Key} {c : Compartment} {r : Error} : id ≠ 0 → e.compartments.get? k = some c →
    e.reap.pending.claim id = .error r → Declaring e id (.existing k) (.error r e.reap)
  | rolledBack {algorithm : Option String} {k : Key} {opened : Engine} {r : Error} : id ≠ 0 →
    create algorithm e = .ok k opened → e.reap.pending.claim id = .error r →
    Declaring e id (.fresh algorithm) (.error r (opened.reap.rollBack k))
  | discarded {w : Suspended} {p : Pending} : id ≠ 0 → e.reap.pending.claim id = .ok (w, p) →
    Declaring e id .unauthorized (.ok none { e.reap with pending := p })
  | settled {d : Declaration} {k : Key} {opened : Engine} {c : Compartment} {w : Suspended}
      {p : Pending} : id ≠ 0 → Destination e d k opened → opened.compartments.get? k = some c →
    e.reap.pending.claim id = .ok (w, p) →
    Declaring e id d (.ok (some k) ({ opened.reap with pending := p }.settled k c w))

theorem declaring_unauthorized (named : id ≠ 0) (e : Engine) :
    Declaring e id .unauthorized (declare id .unauthorized e) := by
  simp only [declare, if_neg named]
  cases claimed : e.reap.pending.claim id with
  | error r =>
    rw [run_bind_error (claim_of_error claimed)]
    exact .unclaimed named claimed
  | ok taken =>
    rw [run_bind_ok (claim_of_ok claimed)]
    exact .discarded named claimed

theorem declaring_existing (named : id ≠ 0) (e : Engine) (k : Key) :
    Declaring e id (.existing k) (declare id (.existing k) e) := by
  cases found : e.compartments.get? k with
  | none =>
    simp only [declare, if_neg named]
    rw [run_get, compartment_of_vacant found, run_ofExcept_error]
    exact .closed named found
  | some c =>
    cases claimed : e.reap.pending.claim id with
    | ok taken =>
      rw [declare_of_claim named (.existing found) found claimed]
      exact .settled named (.existing found) found claimed
    | error r =>
      simp only [declare, if_neg named]
      rw [run_get, compartment_of_get? found, run_ofExcept_ok,
        run_bind_error (settle_of_error claimed k)]
      exact .unknown named found claimed

theorem declaring_fresh (tidy : e.compartments.Tidy) (named : id ≠ 0) (algorithm : Option String) :
    Declaring e id (.fresh algorithm) (declare id (.fresh algorithm) e) := by
  cases created : create algorithm e with
  | error r e' =>
    simp only [declare, if_neg named, settleFresh, bind, EStateM.bind, created]
    exact .unopened named created
  | ok k opened =>
    have destination : Destination e (.fresh algorithm) k opened := .fresh created
    obtain ⟨c, found⟩ := (destination.opens tidy).1
    cases claimed : e.reap.pending.claim id with
    | ok taken =>
      rw [declare_of_claim named destination found claimed]
      exact .settled named destination found claimed
    | error r =>
      have refused : settle id k opened = .error r opened.reap :=
        settle_of_error (destination.reap ▸ claimed) k
      simp only [declare, if_neg named, settleFresh, bind, EStateM.bind, created, refused]
      exact .rolledBack named created claimed

theorem declaring_declare (tidy : e.compartments.Tidy) (id : MachineId) (d : Declaration) :
    Declaring e id d (declare id d e) := by
  by_cases named : id = 0
  · unfold declare
    rw [if_pos named]
    exact .nobody named
  cases d with
  | fresh algorithm => exact declaring_fresh tidy named algorithm
  | existing k => exact declaring_existing named e k
  | unauthorized => exact declaring_unauthorized named e

end SigComp.Engine
