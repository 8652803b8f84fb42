import SigComp.Engine.Receive
import SigComp.Engine.Send

/-!
# Operations

All that can be done to an engine as data, so that histories can be spoken of.

* `Operation.perform` does one, and answers;
* `Engine.run` does one after the other, whatever the answers;
* `Engine.Reachable` are the engines that come about in this way.
-/

namespace SigComp

/-- Something that can be done to an engine. -/
inductive Operation where
  | addAlgorithm (descriptor : Descriptor) (compressor : Compressor)
  | addDictionary (data : Bytes) (access : UInt16)
  | create (algorithm : Option String)
  | close (compartment : Key)
  | resendBytecode (compartment : Key)
  | decompress (data : Bytes) (transport : Transport)
  | declare (id : MachineId) (declaration : Declaration)
  | compress (compartment : Option Key) (algorithm : Option String) (plain : Bytes)
      (transport : Transport)
  | advance (ms : Nat)

/-- What an operation answers if it is not refused. -/
inductive Answer where
  | registered (id : StateId)
  | opened (compartment : Key)
  | closed
  | cleared
  | decompressed (plain : Bytes) (id : MachineId)
  | declared (compartment : Option Key)
  | compressed (compartment : Key) (message : Bytes)
  | time (now : Nat)
  deriving DecidableEq

/-- An operation is done. -/
def Operation.perform : Operation → Engine.Action Answer
  | addAlgorithm d compressor => .registered <$> Engine.addAlgorithm d compressor
  | addDictionary data access => .registered <$> Engine.addDictionary data access
  | create algorithm => .opened <$> Engine.create algorithm
  | close k => do
    Engine.close k
    return .closed
  | resendBytecode k => do
    Engine.resendBytecode k
    return .cleared
  | decompress data t => do
    let (plain, id) ← Engine.decompress data t
    return .decompressed plain id
  | declare id d => .declared <$> Engine.declare id d
  | compress k algorithm plain t => do
    let (k, message) ← Engine.compress k algorithm plain t
    return .compressed k message
  | advance ms => do
    modify fun e => e.advance ms
    return .time (← get).clock.now

namespace Engine

/-- The engine that an outcome leaves behind. -/
def after {α : Type} : EStateM.Result Error Engine α → Engine
  | .ok _ e => e
  | .error _ e => e

/-- Operations are done one after the other, whether or not they are refused. -/
def run (e : Engine) (operations : List Operation) : Engine :=
  operations.foldl (fun e o => after (o.perform e)) e

/-- The engines that come about from settings and operations. -/
inductive Reachable : Engine → Prop where
  | start {s : Settings} {e : Engine} : start s = .ok e → Reachable e
  | perform {e : Engine} (o : Operation) : Reachable e → Reachable (after (o.perform e))

/-- Whatever is done to a reachable engine, the result is reachable. -/
theorem Reachable.run {e : Engine} (h : Reachable e) (operations : List Operation) :
    Reachable (e.run operations) := by
  induction operations generalizing e with
  | nil => exact h
  | cons o _ ih => exact ih (h.perform o)

end Engine

end SigComp
