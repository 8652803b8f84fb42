import SigComp.Fault

/-!
# Settings

What an endpoint offers its peers and how much it sets aside for them.

* `Settings.normalized` raises or lowers each setting into the range in which
  an endpoint can work, and never fails;
* `Settings.check` refuses the one combination that no such change mends:
  buffer sizes that decrease from one tier to the next.
-/

namespace SigComp

/-- The settings of an endpoint.  Buffer amounts count per compartment. -/
structure Settings where
  openCompartments : Nat := 10
  temporaryCompartments : Nat := 10
  statesPerCompartment : Nat := 16
  timeoutMs : Nat := 5000
  dictionaryMandatory : Bool := true
  decompressionMemory : Nat := 8192
  stateMemory : Nat := 2048
  cyclesPerBit : UInt16 := 16
  smallBuffer : Nat := 64
  mediumBuffer : Nat := 512
  largeBuffer : Nat := 8192
  smallAmount : Nat := 8
  mediumAmount : Nat := 2
  largeAmount : Nat := 1
  deriving DecidableEq, Repr

namespace Settings

/-! ## Limits of the library -/

/-- A machine addresses no more memory than a word can name. -/
def maxMemory : Nat := 65536

/-- A machine's name has ten bits for its slot. -/
def maxPending : Nat := 1024

/-- The algorithms that can be registered. -/
def maxAlgorithms : Nat := 10

/-- The dictionaries that can be registered. -/
def maxDictionaries : Nat := 3

/-! ## Range and validity -/

/-- The nearest settings with which an endpoint can work. -/
def normalized (s : Settings) : Settings :=
  { s with
    openCompartments := max s.openCompartments 1
    temporaryCompartments := max s.temporaryCompartments 1
    statesPerCompartment := min (max s.statesPerCompartment 1) 512
    timeoutMs := max s.timeoutMs 10
    decompressionMemory := max s.decompressionMemory 2048
    cyclesPerBit := max s.cyclesPerBit 16
    smallBuffer := max s.smallBuffer 8
    mediumBuffer := max s.mediumBuffer 8
    largeBuffer := max s.largeBuffer 8
    smallAmount := max s.smallAmount 1
    mediumAmount := max s.mediumAmount 1
    largeAmount := max s.largeAmount 1 }

/-- Buffer sizes must not decrease from one tier to the next. -/
def check (s : Settings) : Except Error Unit :=
  if s.smallBuffer > s.mediumBuffer ∨ s.mediumBuffer > s.largeBuffer then
    .error (.badParam .bufferSizes)
  else .ok ()

/-! ## Derived amounts -/

/-- The compartments that buffers are set aside for. -/
def compartmentBudget (s : Settings) : Nat := s.openCompartments + s.temporaryCompartments

/-- The machines that may be suspended at a time. -/
def pendingMachines (s : Settings) : Nat := min s.compartmentBudget maxPending

/-- How long a machine stays suspended, in whole seconds: the nearest one, and at least one. -/
def pendingSeconds (s : Settings) : Nat := max ((s.timeoutMs + 500) / 1000) 1

/-- The size and the number of buffers of each tier, smallest first. -/
def tiers (s : Settings) : List (Nat × Nat) :=
  [(s.smallBuffer, s.smallAmount * s.compartmentBudget),
    (s.mediumBuffer, s.mediumAmount * s.compartmentBudget),
    (s.largeBuffer, s.largeAmount * s.compartmentBudget)]

end Settings

end SigComp
