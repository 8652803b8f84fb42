import SigComp.Clock
import SigComp.Compartment.Settlement
import SigComp.Pending

/-!
# Engines

An endpoint as a whole: the store, the compartments of its peers, the machines that
wait for one, its algorithms and dictionaries, and a clock.

Operations are `EStateM` actions, so a refused operation leaves an engine behind like
any other, and whether that is the engine as it was can be asked of each.  What an
algorithm is called for and what is noticed on the way is written into the engine's
journal, in order.
-/

namespace SigComp

/-- What has happened: the calls of algorithms, and the warnings. -/
structure Journal where
  callbacks : List Callback := []
  warnings : List Warning := []
  deriving DecidableEq

/-- An endpoint. -/
structure Engine where
  settings : Settings
  clock : Clock := {}
  store : Store
  compartments : Arena Compartment
  pending : Pending
  catalogue : Catalogue := {}
  journal : Journal := {}

namespace Engine

/-- An operation of an engine that may be refused. -/
abbrev Action := EStateM Error Engine

/-- An engine with the nearest settings with which it can work, if there are such. -/
def start (s : Settings) : Except Error Engine := do
  let s := s.normalized
  s.check
  return {
    settings := s
    store := .ofSettings s
    compartments := { capacity := s.openCompartments }
    pending := .ofSettings s }

/-! ## The journal -/

/-- An algorithm is called. -/
def called (e : Engine) (c : Callback) : Engine :=
  { e with journal := { e.journal with callbacks := e.journal.callbacks ++ [c] } }

/-- Something was noticed. -/
def warned (e : Engine) (ws : List Warning) : Engine :=
  { e with journal := { e.journal with warnings := e.journal.warnings ++ ws } }

/-- What has been written into the journal, which starts anew. -/
def takeJournal (e : Engine) : Journal × Engine := (e.journal, { e with journal := {} })

/-! ## Parts -/

/-- The compartment of a key. -/
def compartment (e : Engine) (k : Key) : Except Error Compartment :=
  match e.compartments.get? k with
  | some c => .ok c
  | none => .error .destructed

theorem compartment_of_get? {e : Engine} {k : Key} {c : Compartment}
    (found : e.compartments.get? k = some c) : e.compartment k = .ok c := by
  rw [compartment, found]

theorem compartment_of_vacant {e : Engine} {k : Key} (vacant : e.compartments.get? k = none) :
    e.compartment k = .error .destructed := by
  rw [compartment, vacant]

theorem compartment_eq_ok {e : Engine} {k : Key} {c : Compartment} (h : e.compartment k = .ok c) :
    e.compartments.get? k = some c := by
  unfold compartment at h
  split at h
  · next found =>
    cases h
    exact found
  · cases h

/-- The engine with another compartment under a key that is in use. -/
def putCompartment (e : Engine) (k : Key) (c : Compartment) : Engine :=
  { e with compartments := e.compartments.modify k fun _ => c }

/-- An operation on the store as one of the engine. -/
def onStore {α : Type} (action : Store.Action α) : Action α := fun e =>
  match action e.store with
  | .ok a store => .ok a { e with store }
  | .error r store => .error r { e with store }

/-- What the algorithm of a compartment is told. -/
def briefing (e : Engine) (c : Compartment) : Briefing :=
  c.briefing e.catalogue.ownIds e.settings.dictionaryMandatory

/-- Time passes. -/
def advance (e : Engine) (ms : Nat) : Engine := { e with clock := e.clock.advance ms }

/-! ## Accounts -/

/-- The use that is made of an engine. -/
structure Accounts where
  store : Store.Accounts
  compartments : Usage
  pending : Usage
  algorithms : Usage
  dictionaries : Usage
  deriving DecidableEq, Repr

/-- The use that is made of everything of which there is only so much. -/
def accounts (e : Engine) : Accounts where
  store := e.store.accounts
  compartments := e.compartments.usage
  pending := e.pending.machines.usage
  algorithms := e.catalogue.algorithmUsage
  dictionaries := e.catalogue.dictionaryUsage

end Engine

end SigComp
