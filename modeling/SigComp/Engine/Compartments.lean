import SigComp.Engine.Registration

/-!
# Opening and closing compartments

A compartment is opened with an algorithm, whose context it lends a buffer, and closed
for good: its states are released, the algorithm is told, and the buffer comes back.
An engine that is shut down closes all compartments before its algorithms end.
-/

namespace SigComp.Engine

/-! ## Opening -/

/-- A context for an algorithm that needs one. -/
def lendContext (d : Descriptor) : Action (Option Context) :=
  if d.contextSize = 0 then return none
  else do return some (← onStore (Store.allocContext d.contextSize))

/-- A context comes back. -/
def returnContext (e : Engine) (context : Option Context) : Engine :=
  { e with store := context.elim e.store e.store.dropContext }

/-- The algorithm of a new compartment is called, if it has a context to prepare. -/
def introduce (e : Engine) (k : Key) (c : Compartment) : Engine :=
  match c.context with
  | none => e
  | some context =>
    (e.called (.created c.algorithm.name k context.bytes)).putCompartment k
      (c.writeContext (c.algorithm.compressor.created k context.bytes))

/-- A compartment is opened for an algorithm. -/
def openFor (a : Algorithm) : Action Key := do
  let context ← lendContext a.descriptor
  let e ← get
  let c : Compartment := {
    algorithm := a
    context
    own := .ofSettings e.settings
    maxStates := e.settings.statesPerCompartment }
  match e.compartments.insert? c with
  | none => do
    modify fun e => e.returnContext context
    throw (.outOfResources .compartments)
  | some (k, compartments) => do
    set ({ e with compartments }.introduce k c)
    return k

/-- A compartment is opened for the algorithm of a name, or for the first one. -/
def create (algorithm : Option String) : Action Key := do
  match (← get).catalogue.select? algorithm with
  | none => throw .notFound
  | some a => openFor a

/-! ## Closing -/

/-- The end of a compartment that is no longer among the open ones. -/
def destruct (e : Engine) (k : Key) (c : Compartment) : Engine :=
  let e := { e with store := c.releaseAll e.store }
  let e := match c.context with
    | none => e
    | some context => e.called (.destructed c.algorithm.name k context.bytes)
  e.returnContext c.context

/-- A compartment is closed. -/
def close (k : Key) : Action Unit := fun e =>
  match e.compartment k with
  | .error r => .error r e
  | .ok c => .ok () ({ e with compartments := e.compartments.erase k }.destruct k c)

/-- All compartments are closed, in the order of their slots, and then the algorithms end. -/
def shutDown (e : Engine) : Engine :=
  let still := e.compartments.toList
  let e := { e with compartments := e.compartments.clear }
  let e := still.foldl (fun e (k, c) => e.destruct k c) e
  let e := e.catalogue.algorithms.foldl (fun e a => e.called (.ended a.name)) e
  { e with catalogue := { e.catalogue with algorithms := [] } }

end SigComp.Engine
