import SigComp.Engine.Compartments

/-!
# Sending

A message is compressed by the algorithm of the compartment that it is sent from.

* `Engine.compress` calls the algorithm and takes what was due as sent;
* `Engine.header` is the header of a message that is compressed elsewhere.
-/

namespace SigComp.Engine

/-- A message whose first byte announces bytecode. -/
def carriesBytecode : Bytes → Bool
  | first :: _ => first &&& 3 == 0
  | [] => false

/-- The warning that a message gives rise to if its bytecode was not asked for. -/
def bytecodeWarnings (k : Key) (c : Compartment) (message : Bytes) : List Warning :=
  if carriesBytecode message ∧ ¬ c.sendBytecode then [.bytecodeRepeated k.slot c.algorithm.name]
  else []

/-- A message is compressed for a compartment.  If the algorithm fails only its context may have
changed. -/
def compressFor (k : Key) (plain : Bytes) (t : Transport) : Action Bytes := do
  let e ← get
  let c ← ofExcept (e.compartment k)
  let briefing := e.briefing c
  let job : Job := ⟨k, c.algorithm.descriptor, briefing, plain, t⟩
  let (result, context) := c.algorithm.compressor.compress job c.contextBytes
  let e := e.called (.compress c.algorithm.name k t c.contextBytes briefing)
  let c := c.writeContext context
  match result with
  | .error text => do
    set (e.putCompartment k c)
    throw (.algorithm c.algorithm.name text)
  | .ok message => do
    set ((e.warned (bytecodeWarnings k c message)).putCompartment k c.sent)
    return message

/-- A message is compressed for a compartment, which is opened first if none is given. -/
def compress (compartment : Option Key) (algorithm : Option String) (plain : Bytes)
    (t : Transport) : Action (Key × Bytes) := do
  let k ← match compartment with
    | some k => pure k
    | none => create algorithm
  return (k, ← compressFor k plain t)

/-- The bytecode goes along with the next message of a compartment. -/
def resendBytecode (k : Key) : Action Unit := do
  let e ← get
  let c ← ofExcept (e.compartment k)
  set (e.putCompartment k { c with sendBytecode := true })

/-- The header of a message to a compartment's peer, with the feedback that the peer asked for. -/
def header (e : Engine) (k : Key) (body : Body) : Except Error Bytes := do
  let c ← e.compartment k
  Header.encode c.requestedFeedback body

end SigComp.Engine
