import Mathlib.Logic.Relation
import SigComp.Proofs.EngineConsistency
import SigComp.Proofs.RunBudget

/-!
# Steps of an engine

What the operations of an engine consist of, to the last detail.  An operation that registers
nothing is a sequence of few kinds of steps, and each step says what exactly it makes of the
engine, so an invariant has to be looked after step by step only.

* `Compartment.Amends`: what happens to a compartment that is not settled with a machine.
* `Engine.Step mine`: one step; compartments under the keys of `mine` may be changed or
  closed by it, no others.
* `steps_create`, `steps_close`, `steps_resendBytecode`, `steps_decompress`,
  `steps_declare` and `steps_compress`: the operations, whatever they answer.
* `steps_perform`: all of them together; besides the compartment that an operation is
  addressed to, only one may be changed that was not open before.
-/

namespace SigComp

/-- The compartment that an operation is addressed to. -/
def Operation.addressee? : Operation → Option Key
  | close k | resendBytecode k | declare _ (.existing k) => some k
  | compress compartment .. => compartment
  | _ => none

/-- The operation may put a state into the store that stays there. -/
def Operation.registers : Operation → Bool
  | addAlgorithm .. | addDictionary .. => true
  | _ => false

/-- A compartment is written to by its algorithm, has sent a message, or is to send its bytecode
again. -/
inductive Compartment.Amends (c : Compartment) : Compartment → Prop
  | written (data : Bytes) : Amends c (c.writeContext data)
  | sent (data : Bytes) : Amends c (c.writeContext data).sent
  | resends : Amends c { c with sendBytecode := true }

namespace Engine

open Relation (ReflTransGen)

variable {e e' : Engine} {k : Key} {c : Compartment} {mine : Key → Prop}

/-! ## Steps -/

/-- The compartment that is opened for an algorithm. -/
def founding (e : Engine) (a : Algorithm) (context : Option Context) : Compartment where
  algorithm := a
  context := context
  own := .ofSettings e.settings
  maxStates := e.settings.statesPerCompartment

/-- One step of an engine. -/
inductive Step (mine : Key → Prop) : Engine → Engine → Prop
  | noted (e : Engine) (journal : Journal) : Step mine e { e with journal }
  | advanced (e : Engine) (ms : Nat) : Step mine e (e.advance ms)
  | reaped (e : Engine) : Step mine e e.reap
  | suspended {e : Engine} {data : Bytes} {message : Message} {m : Machine} {deadline : Nat}
      {id : MachineId} {p : Pending} : Message.parse? data = some message → m.requests.Lawful →
    e.pending.suspend m message.feedback deadline = some (id, p) →
    Step mine e { e with pending := p }
  | discarded {e : Engine} {id : MachineId} {w : Suspended} {p : Pending} :
    e.pending.claim id = .ok (w, p) → Step mine e { e with pending := p }
  | settled {e : Engine} {k : Key} {c c' : Compartment} {id : MachineId} {w : Suspended}
      {p : Pending} {s : Store} {warnings : List Warning} :
    mine k → e.compartments.get? k = some c → e.pending.claim id = .ok (w, p) →
    c.settle e.store e.clock.now w.machine w.feedback = ((c', s), warnings) →
    Step mine e ({ e with pending := p, store := s }.putCompartment k c')
  | tried {e e' : Engine} {d : Descriptor} {context : Option Context} :
    lendContext d e = .ok context e' → Step mine e (e'.returnContext context)
  | opened {e e' : Engine} {a : Algorithm} {context : Option Context} {k : Key}
      {compartments : Arena Compartment} : mine k → lendContext a.descriptor e = .ok context e' →
    e'.compartments.insert? (e'.founding a context) = some (k, compartments) →
    Step mine e { e' with compartments }
  | amended {e : Engine} {k : Key} {c c' : Compartment} : mine k → e.compartments.get? k = some c →
    c.Amends c' → Step mine e (e.putCompartment k c')
  | closed {e : Engine} {k : Key} {c : Compartment} : mine k → e.compartments.get? k = some c →
    Step mine e ({ e with
      compartments := e.compartments.erase k
      store := c.releaseAll e.store }.returnContext c.context)

/-- Any number of steps. -/
abbrev Steps (mine : Key → Prop) : Engine → Engine → Prop := ReflTransGen (Step mine)

theorem Step.called (e : Engine) (callback : Callback) : Step mine e (e.called callback) :=
  .noted e _

theorem Step.warned (e : Engine) (warnings : List Warning) : Step mine e (e.warned warnings) :=
  .noted e _

/-- An outcome is reached by steps, whatever it is. -/
def Stepping {α : Type} (mine : Key → Prop) (e : Engine) : EStateM.Result Error Engine α → Prop :=
  Leaves (Steps mine e) fun _ => Steps mine e

theorem Stepping.from {α : Type} {result : EStateM.Result Error Engine α} (first : Steps mine e e')
    (rest : Stepping mine e' result) : Stepping mine e result := by
  cases result with
  | ok a e'' => exact first.trans rest
  | error r e'' => exact first.trans rest

theorem Stepping.after {α : Type} {result : EStateM.Result Error Engine α}
    (stepping : Stepping mine e result) : Steps mine e (after result) :=
  Leaves.after stepping

/-! ## Opening -/

/-- A context is lent out of a buffer. -/
theorem lendContext_eq_ok {d : Descriptor} {context : Option Context}
    (lent : lendContext d e = .ok context e') :
    (context = none ∧ e' = e) ∨
      ∃ lease s, context = some lease ∧ Store.allocContext d.contextSize e.store = .ok lease s ∧
        e' = { e with store := s } := by
  unfold lendContext at lent
  split at lent
  · cases lent
    exact .inl ⟨rfl, rfl⟩
  · simp only [bind, EStateM.bind, onStore] at lent
    cases taken : Store.allocContext d.contextSize e.store with
    | ok lease s =>
      rw [taken] at lent
      cases lent
      exact .inr ⟨lease, s, rfl, rfl, rfl⟩
    | error r s =>
      rw [taken] at lent
      cases lent

theorem lendContext_eq_error {d : Descriptor} {r : Error}
    (refused : lendContext d e = .error r e') : e' = e := by
  unfold lendContext at refused
  split at refused
  · cases refused
  · simp only [bind, EStateM.bind, onStore] at refused
    cases taken : Store.allocContext d.contextSize e.store with
    | ok lease s =>
      rw [taken] at refused
      cases refused
    | error r' s =>
      rw [taken] at refused
      cases refused
      rw [Store.allocContext_eq_error taken]

theorem lendContext_aside {d : Descriptor} {context : Option Context}
    (lent : lendContext d e = .ok context e') : e' = { e with store := e'.store } := by
  rcases lendContext_eq_ok lent with ⟨_, rfl⟩ | ⟨_, _, _, _, rfl⟩ <;> rfl

theorem compartments_of_lendContext {d : Descriptor} {context : Option Context}
    (lent : lendContext d e = .ok context e') : e'.compartments = e.compartments := by
  have same := congrArg Engine.compartments (lendContext_aside lent)
  exact same

theorem steps_introduce (here : mine k) (found : e.compartments.get? k = some c) :
    Steps mine e (e.introduce k c) := by
  unfold introduce
  split
  · exact .refl
  · exact .tail (.single (.called e _)) (.amended here found (.written _))

/-- There may be no room for a compartment whose context has been lent. -/
theorem openFor_of_full {a : Algorithm} {context : Option Context} {e₁ : Engine}
    (lends : lendContext a.descriptor e = .ok context e₁)
    (full : e₁.compartments.insert? (e₁.founding a context) = none) :
    openFor a e = .error (.outOfResources .compartments) (e₁.returnContext context) := by
  rw [founding] at full
  rw [openFor, run_bind_ok lends, run_get, full]
  rfl

theorem openFor_of_room {a : Algorithm} {context : Option Context} {e₁ : Engine}
    {compartments : Arena Compartment} (lends : lendContext a.descriptor e = .ok context e₁)
    (room : e₁.compartments.insert? (e₁.founding a context) = some (k, compartments)) :
    openFor a e = .ok k ({ e₁ with compartments }.introduce k (e₁.founding a context)) := by
  rw [founding] at room
  rw [openFor, run_bind_ok lends, run_get, room]
  rfl

/-- A compartment is opened under a key that named none. -/
theorem steps_openFor (tidy : e.compartments.Tidy)
    (new : ∀ k, e.compartments.get? k = none → mine k) (a : Algorithm) :
    Leaves (Steps mine e) (fun k e' => Steps mine e e' ∧ mine k) (openFor a e) := by
  cases lent : lendContext a.descriptor e with
  | error r e₁ =>
    rw [openFor, run_bind_error lent, lendContext_eq_error lent]
    exact .refl
  | ok context e₁ =>
    have compartments := compartments_of_lendContext lent
    cases inserted : e₁.compartments.insert? (e₁.founding a context) with
    | none =>
      rw [openFor_of_full lent inserted]
      exact .single (.tried lent)
    | some opened =>
      obtain ⟨k, after⟩ := opened
      obtain ⟨_, fresh, view⟩ := Arena.insert?_eq_some (compartments ▸ tidy) inserted
      have here : mine k := new k (compartments ▸ fresh)
      have opens : Steps mine e { e₁ with compartments := after } :=
        .single (.opened here lent inserted)
      rw [openFor_of_room lent inserted]
      exact ⟨opens.trans (steps_introduce here ((view k).trans (if_pos rfl))), here⟩

theorem steps_create (tidy : e.compartments.Tidy)
    (new : ∀ k, e.compartments.get? k = none → mine k) (algorithm : Option String) :
    Leaves (Steps mine e) (fun k e' => Steps mine e e' ∧ mine k) (create algorithm e) := by
  unfold create
  rw [run_get]
  cases e.catalogue.select? algorithm with
  | none => exact .refl
  | some a => exact steps_openFor tidy new a

/-! ## Closing -/

theorem steps_destruct (here : mine k) (found : e.compartments.get? k = some c) :
    Steps mine e ({ e with compartments := e.compartments.erase k }.destruct k c) := by
  unfold destruct
  cases lent : c.context with
  | none =>
    have closed : Step mine e _ := .closed here found
    rw [lent] at closed
    exact .single closed
  | some context =>
    -- the algorithm may as well be told before
    let told := e.called (.destructed c.algorithm.name k context.bytes)
    have closed : Step mine told _ := .closed here found
    rw [lent] at closed
    exact .tail (.single (.called e _)) closed

theorem steps_close (here : mine k) : Stepping mine e (close k e) := by
  simp only [close, compartment]
  cases found : e.compartments.get? k with
  | none => exact ReflTransGen.refl
  | some c => exact steps_destruct here found

theorem steps_rollBack (here : mine k) : Steps mine e (e.rollBack k) := by
  have closes : Stepping mine e (close k e) := steps_close here
  unfold rollBack
  cases closed : close k e with
  | ok _ e' =>
    rw [closed] at closes
    exact closes
  | error r e' =>
    rw [closed] at closes
    exact closes.tail (.warned e' _)

/-! ## Receiving -/

section Receiving

variable {data : Bytes} {message : Message} {m : Machine}

theorem steps_suspend (parsed : Message.parse? data = some message) (lawful : m.requests.Lawful) :
    Stepping mine e (suspend m message.feedback e) := by
  simp only [suspend]
  cases waits : e.pending.suspend m message.feedback
      (e.clock.now + e.settings.pendingSeconds * 1000) with
  | none => exact ReflTransGen.refl
  | some new => exact ReflTransGen.single (.suspended parsed lawful waits)

theorem steps_conclude (parsed : Message.parse? data = some message) (lawful : m.requests.Lawful)
    (completion : Completion) : Stepping mine e (conclude m message.feedback completion e) := by
  simp only [conclude, Machine.takeOutput]
  split
  · exact ReflTransGen.refl
  · have waits : { m with output := #[] }.requests.Lawful := lawful
    exact Leaves.bind (steps_suspend parsed waits) fun _ _ done => done

theorem steps_runMachine (parsed : Message.parse? data = some message) (lawful : m.requests.Lawful)
    (cycles : Nat) : Stepping mine e (runMachine m cycles message.feedback e) := by
  unfold runMachine
  rw [run_get]
  have stopped := Machine.lawful_run e.store cycles lawful
  generalize m.run cycles e.store = outcome at stopped ⊢
  obtain ⟨m', verdict, warnings⟩ := outcome
  have noticed : Steps mine e (e.warned warnings) := .single (.warned e warnings)
  cases verdict with
  | error p => exact noticed
  | ok completion => exact Stepping.from noticed (steps_conclude parsed stopped completion)

theorem steps_decompress (data : Bytes) (t : Transport) :
    Stepping mine e (decompress data t e) := by
  unfold decompress
  rw [run_modify, run_get]
  have reaped : Steps mine e e.reap := .single (.reaped e)
  split
  · exact reaped
  · cases parsed : Message.parse? data with
    | none => exact reaped
    | some message =>
      refine Leaves.ofExcept reaped fun m loaded => ?_
      rcases fresh_of_machineFor loaded with ⟨_, fresh⟩
      have nothing : m.requests.Lawful := fresh.requests ▸ Requests.lawful_nil
      exact Stepping.from reaped (steps_runMachine parsed nothing _)

end Receiving

/-! ## Declaration -/

/-- A machine is taken out from those that still wait when the others have been given up. -/
theorem leaves_claim (id : MachineId) :
    Leaves (Steps mine e)
      (fun w e' => ∃ p, e.reap.pending.claim id = .ok (w, p) ∧ e' = { e.reap with pending := p })
      (claim id e) := by
  unfold claim
  rw [run_modify, run_get]
  refine Leaves.ofExcept (.single (.reaped e)) ?_
  rintro ⟨w, p⟩ claimed
  exact ⟨p, claimed, rfl⟩

/-- A machine is settled with a compartment, or lost if there is no such compartment. -/
theorem steps_settle (here : mine k) (id : MachineId) : Stepping mine e (settle id k e) := by
  have reaped : Steps mine e e.reap := .single (.reaped e)
  unfold settle
  refine Leaves.bind (leaves_claim id) fun w e' claimed => ?_
  obtain ⟨p, claimed, rfl⟩ := claimed
  rw [run_get]
  refine Leaves.ofExcept (reaped.tail (.discarded claimed)) fun c opened => ?_
  have found : e.reap.compartments.get? k = some c := compartment_eq_ok opened
  generalize settled : c.settle e.reap.store e.reap.clock.now w.machine w.feedback = outcome
  obtain ⟨⟨c', s⟩, warnings⟩ := outcome
  have done := reaped.tail (.settled here found claimed settled)
  simp only []
  exact (done.tail (.warned _ warnings)).tail (.called _ _)

theorem steps_settleFresh (tidy : e.compartments.Tidy)
    (new : ∀ k, e.compartments.get? k = none → mine k) (id : MachineId)
    (algorithm : Option String) : Stepping mine e (settleFresh id algorithm e) := by
  unfold settleFresh
  refine Leaves.bind (steps_create tidy new algorithm) fun k e₁ opened => ?_
  obtain ⟨steps, here⟩ := opened
  have outcome : Stepping mine e₁ (settle id k e₁) := steps_settle here id
  cases settled : settle id k e₁ with
  | ok _ e₂ =>
    rw [settled] at outcome
    exact steps.trans outcome
  | error r e₂ =>
    rw [settled] at outcome
    exact (steps.trans outcome).trans (steps_rollBack here)

theorem steps_declare (tidy : e.compartments.Tidy) (d : Declaration)
    (new : ∀ k, d = .existing k ∨ e.compartments.get? k = none → mine k) (id : MachineId) :
    Stepping mine e (declare id d e) := by
  unfold declare
  split
  · exact ReflTransGen.refl
  cases d with
  | fresh algorithm =>
    have fresh := fun k vacant => new k (.inr vacant)
    exact Leaves.bind (steps_settleFresh tidy fresh id algorithm) fun _ _ done => done
  | existing k =>
    simp only []
    rw [run_get]
    refine Leaves.ofExcept .refl fun c _ => ?_
    exact Leaves.bind (steps_settle (new k (.inl rfl)) id) fun _ _ done => done
  | unauthorized =>
    refine Leaves.bind (leaves_claim id) fun w e' claimed => ?_
    obtain ⟨p, claimed, rfl⟩ := claimed
    exact .tail (.single (.reaped e)) (.discarded claimed)

/-! ## Sending -/

theorem steps_compressFor (here : mine k) (plain : Bytes) (t : Transport) :
    Stepping mine e (compressFor k plain t e) := by
  unfold compressFor
  rw [run_get]
  refine Leaves.ofExcept .refl fun c opened => ?_
  have found := compartment_eq_ok opened
  obtain ⟨result, context⟩ := c.algorithm.compressor.compress
    ⟨k, c.algorithm.descriptor, e.briefing c, plain, t⟩ c.contextBytes
  cases result with
  | error text => exact .tail (.single (.called e _)) (.amended here found (.written context))
  | ok message =>
    exact .tail (.tail (.single (.called e _)) (.warned _ _)) (.amended here found (.sent context))

theorem steps_compress (tidy : e.compartments.Tidy) (compartment : Option Key)
    (new : ∀ k, compartment = some k ∨ e.compartments.get? k = none → mine k)
    (algorithm : Option String) (plain : Bytes) (t : Transport) :
    Stepping mine e (compress compartment algorithm plain t e) := by
  have sent : ∀ (k : Key) (e : Engine), mine k →
      Stepping mine e ((do return (k, ← compressFor k plain t) : Action (Key × Bytes)) e) :=
    fun k e here => Leaves.bind (steps_compressFor here plain t) fun _ _ done => done
  unfold compress
  cases compartment with
  | some k => exact sent k e (new k (.inl rfl))
  | none =>
    have fresh := fun k vacant => new k (.inr vacant)
    refine Leaves.bind (steps_create tidy fresh algorithm) fun k e₁ opened => ?_
    exact Stepping.from opened.1 (sent k e₁ opened.2)

theorem steps_resendBytecode (here : mine k) : Stepping mine e (resendBytecode k e) := by
  unfold resendBytecode
  rw [run_get]
  refine Leaves.ofExcept .refl fun c opened => ?_
  exact ReflTransGen.single (.amended here (compartment_eq_ok opened) .resends)

/-! ## All operations -/

/-- An operation that registers nothing consists of steps, and changes no compartment but the one
that it is addressed to and one that it opens. -/
theorem steps_perform (tidy : e.compartments.Tidy) {o : Operation} (ordinary : o.registers = false)
    (new : ∀ k, o.addressee? = some k ∨ e.compartments.get? k = none → mine k) :
    Stepping mine e (o.perform e) := by
  cases o with
  | addAlgorithm d compressor => cases ordinary
  | addDictionary data access => cases ordinary
  | create algorithm =>
    have opened := steps_create tidy (fun k vacant => new k (.inr vacant)) algorithm
    exact Leaves.map Answer.opened (opened.imp fun _ _ done => done.1)
  | close k => exact Leaves.bind (steps_close (new k (.inl rfl))) fun _ _ done => done
  | resendBytecode k =>
    exact Leaves.bind (steps_resendBytecode (new k (.inl rfl))) fun _ _ done => done
  | decompress data t => exact Leaves.bind (steps_decompress data t) fun _ _ done => done
  | declare id d =>
    refine Leaves.map Answer.declared (steps_declare tidy d (fun k among => new k ?_) id)
    rcases among with rfl | vacant
    · exact .inl rfl
    · exact .inr vacant
  | compress k algorithm plain t =>
    exact Leaves.bind (steps_compress tidy k new algorithm plain t) fun _ _ done => done
  | advance ms => exact ReflTransGen.single (.advanced e ms)

end Engine

end SigComp
