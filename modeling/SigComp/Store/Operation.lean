import SigComp.Store.Basic

/-!
# Operations of a store

All that can be done to a store as data, so that histories can be spoken of.

* `Store.Operation.perform` does one, whatever comes of it;
* `Store.run` does one after the other.
-/

namespace SigComp.Store

/-- Something that can be done to a store.  Drafts, contexts and keys may be any, also such as the
store has never given out. -/
inductive Operation where
  | create (size : Nat)
  | drop (draft : Draft)
  | save (draft : Draft) (label : Label) (content : Content)
  | savePermanent (label : Label) (data : Bytes)
  | release (key : Key)
  | allocContext (size : Nat)
  | dropContext (context : Context)
  | find (partialId : Bytes) (ignoreAccess : Bool)
  deriving DecidableEq

/-- The store that an outcome leaves behind. -/
def after {α : Type} : EStateM.Result Error Store α → Store
  | .ok _ s => s
  | .error _ s => s

/-- The store after an operation, whether or not it was refused.  A state that is released is
forgotten by the index too, and looking for a state is only looking. -/
def Operation.perform (s : Store) : Operation → Store
  | create size => after (Store.create size s)
  | drop d => s.drop d
  | save d l c => after (Store.save d l c s)
  | savePermanent l data => after (Store.savePermanent l data s)
  | release k => s.release k true
  | allocContext size => after (Store.allocContext size s)
  | dropContext c => s.dropContext c
  | find .. => s

/-- The store after one operation and then another. -/
def run (s : Store) (operations : List Operation) : Store :=
  operations.foldl Operation.perform s

end SigComp.Store
