import SigComp.Settings
import SigComp.Store.Content
import SigComp.Store.Index
import SigComp.Store.Tier

/-!
# State store

The states that all peers share, found by prefixes of their identifiers.  States
with the same identifier and bytes are kept once and counted.

* `Store.create` reserves a buffer and `Store.save` fills it, so a refused state
  leaves nothing behind but the buffer, which every way out gives back once;
* `Store.savePermanent` keeps a state outside the buffers, for good;
* `Store.find` is the view of the store by identifier;
* `Store.release` ends one use of a state, and the state with its last use.

Operations that can fail are `EStateM` actions: a failure carries the store with it,
because counters that a failed operation has moved stay moved.
-/

namespace SigComp

/-- A state in the store: how many hold it, which a counter of 32 bits says while there are fewer
than 4294967296 of them, and the tier of its buffer if it has one. -/
structure Entry where
  state : State
  uses : Nat
  tier : Option Nat
  deriving DecidableEq

/-- A buffer reserved for a state that is yet to be saved. -/
structure Draft where
  tier : Nat
  size : Nat
  deriving DecidableEq, Repr

/-- A buffer lent to an algorithm for what it remembers between messages. -/
structure Context where
  tier : Nat
  bytes : Bytes
  deriving DecidableEq

/-- A context is written over from its start; it keeps its length. -/
def Context.write (c : Context) (data : Bytes) : Context :=
  { c with bytes := data.take c.bytes.length ++ c.bytes.drop data.length }

/-- What became of a state that was saved. -/
inductive Saved where
  | inserted (key : Key)
  | duplicate (key : Key)
  deriving DecidableEq, Repr

/-- The state that now stands for the saved one. -/
def Saved.key : Saved → Key
  | inserted k | duplicate k => k

/-- The states, their buffers and their index. -/
structure Store where
  tiers : List Tier
  states : Arena Entry
  index : Index := {}
  indexPeak : Nat := 0

namespace Store

/-- An operation on the store that may be refused. -/
abbrev Action := EStateM Error Store

/-- An empty store.  Besides one state for each buffer there is room for all that is permanent. -/
def ofSettings (s : Settings) : Store where
  tiers := s.tiers.map fun (size, amount) => { size, capacity := amount }
  states :=
    { capacity :=
        (s.tiers.map (·.2)).foldl (· + ·) 0 + Settings.maxDictionaries + Settings.maxAlgorithms }

/-! ## Looking up -/

/-- The state named by a prefix, with its key. -/
def find (s : Store) (partialId : Bytes) (ignoreAccess : Bool) : Except Error (Key × State) :=
  if StateId.isPartialLength partialId.length then
    match s.index.get? (partialId.take StateId.minPartial) with
    | none => .error .notFound
    | some k =>
      match s.states.get? k with
      | none => .error .notFound
      | some e =>
        if partialId.isPrefixOf e.state.id.toBytes &&
            (ignoreAccess || e.state.access.toNat ≤ partialId.length) then .ok (k, e.state)
        else .error .notFound
  else .error (.badParam .partialIdLength)

/-- The key of the state named by a prefix. -/
def findKey (s : Store) (partialId : Bytes) (ignoreAccess : Bool) : Except Error Key :=
  (s.find partialId ignoreAccess).map (·.1)

/-- The state named by a prefix. -/
def lookup (s : Store) (partialId : Bytes) (ignoreAccess : Bool) : Except Error State :=
  (s.find partialId ignoreAccess).map (·.2)

/-- The state under a key. -/
def state? (s : Store) (k : Key) : Option State := (s.states.get? k).map (·.state)

/-- How many hold the state under a key. -/
def uses? (s : Store) (k : Key) : Option Nat := (s.states.get? k).map (·.uses)

/-! ## Buffers -/

/-- A buffer is taken from the tiers. -/
def reserve (size : Nat) : Action Nat := fun s =>
  match Tier.reserve size s.tiers with
  | .ok i tiers => .ok i { s with tiers }
  | .error e tiers => .error e { s with tiers }

/-- A buffer is given back to its tier. -/
def giveBack (s : Store) (tier : Nat) : Store :=
  { s with tiers := s.tiers.modify tier Tier.giveBack }

/-- A buffer for a state of the given size. -/
def create (size : Nat) : Action Draft := do
  let tier ← reserve size
  return ⟨tier, size⟩

/-- A draft that is not saved gives its buffer back. -/
def drop (s : Store) (d : Draft) : Store := s.giveBack d.tier

/-- A context of zeros. -/
def allocContext (size : Nat) : Action Context := do
  let tier ← reserve size
  return ⟨tier, List.replicate size 0⟩

/-- A context that has ended gives its buffer back. -/
def dropContext (s : Store) (c : Context) : Store := s.giveBack c.tier

/-! ## Saving -/

/-- What the store holds already under the prefix of a new state: the same state, or one that
collides with it. -/
def probe (s : Store) (l : Label) (c : Content) : Option (Except Error Key) :=
  (s.index.get? l.id.indexKey).map fun k =>
    match s.states.get? k with
    | none => .error .collision
    | some e =>
      if e.state.id = l.id ∧ c.agrees e.state.data then .ok k else .error .collision

/-- One more holds the state under a key. -/
def retain (s : Store) (k : Key) : Store :=
  { s with states := s.states.modify k fun e => { e with uses := e.uses + 1 } }

/-- A state that is new to the store, held once and indexed; nothing if all places are taken. -/
def insert? (s : Store) (state : State) (tier : Option Nat) : Option (Key × Store) :=
  (s.states.insert? ⟨state, 1, tier⟩).map fun (k, states) =>
    let index := s.index.insert state.id.indexKey k
    (k, { s with states, index, indexPeak := max s.indexPeak index.size })

/-- A draft becomes a state, or one more use of the same state.  Unless the state is new the
draft's buffer is given back. -/
def save (d : Draft) (l : Label) (c : Content) : Action Saved := fun s =>
  if l.id.isZero then .error (.badParam .zeroId) (s.drop d)
  else if c.length ≠ d.size then .error (.badParam .contentLength) (s.drop d)
  else match s.probe l c with
    | some (.ok k) => .ok (.duplicate k) ((s.drop d).retain k)
    | some (.error e) => .error e (s.drop d)
    | none =>
      match s.insert? { l with data := c.bytes } (some d.tier) with
      | some (k, s) => .ok (.inserted k) s
      | none => .error (.outOfResources .stateStructs) (s.drop d)

/-- A state of permanent priority that takes up no buffer. -/
def savePermanent (l : Label) (data : Bytes) : Action Saved := fun s =>
  if l.id.isZero then .error (.badParam .zeroId) s
  else match s.probe l (.ofBytes data) with
    | some (.ok k) => .ok (.duplicate k) (s.retain k)
    | some (.error e) => .error e s
    | none =>
      match s.insert? { l with priority := permanentPriority, data } none with
      | some (k, s) => .ok (.inserted k) s
      | none => .error (.outOfResources .stateStructs) s

/-! ## Releasing -/

/-- The store without the state under a key; `indexed` says whether the index forgets it too. -/
def remove (s : Store) (k : Key) (e : Entry) (indexed : Bool) : Store :=
  let p := e.state.id.indexKey
  let index := if indexed && s.index.get? p == some k then s.index.erase p else s.index
  let s := { s with index, states := s.states.erase k }
  match e.tier with
  | some tier => s.giveBack tier
  | none => s

/-- One use of a state ends.  With its last use an ordinary state ends too. -/
def release (s : Store) (k : Key) (indexed : Bool) : Store :=
  match s.states.get? k with
  | none => s
  | some e =>
    if 1 < e.uses ∨ e.state.priority = permanentPriority then
      { s with states := s.states.modify k fun e => { e with uses := e.uses - 1 } }
    else s.remove k e indexed

/-! ## Accounts -/

/-- The use that is made of a store. -/
structure Accounts where
  tiers : List Usage
  states : Usage
  index : Usage
  deriving DecidableEq, Repr

/-- The use that is made of the tiers, the places for states and the index. -/
def accounts (s : Store) : Accounts where
  tiers := s.tiers.map Tier.usage
  states := s.states.usage
  index := ⟨s.states.capacity, s.index.size, s.indexPeak⟩

end Store

end SigComp
