import SigComp.Engine.Basic

/-!
# Registration

Algorithms and dictionaries are added for good.  Both put a permanent state into the
store, where peers find it by its identifier: an algorithm its bytecode, a dictionary
its text.
-/

namespace SigComp.Engine

/-- The engine with one algorithm more, the last of all. -/
def withAlgorithm (e : Engine) (a : Algorithm) : Engine :=
  { e with catalogue := { e.catalogue with algorithms := e.catalogue.algorithms ++ [a] } }

/-- The engine with one dictionary more, the last of all. -/
def withDictionary (e : Engine) (d : Dictionary) : Engine :=
  { e with catalogue := { e.catalogue with dictionaries := e.catalogue.dictionaries ++ [d] } }

/-- An algorithm is added, and called for the first time; the answer is the identifier of its
bytecode.  A name that is taken stands for the algorithm that has it. -/
def addAlgorithm (d : Descriptor) (compressor : Compressor) : Action StateId := fun e =>
  if d.name.isEmpty then .error (.badParam .algorithmName) e
  else
    match e.catalogue.find? d.name with
    | some known => .ok known.descriptor.codeId e
    | none =>
      if Settings.maxAlgorithms ≤ e.catalogue.algorithms.length then
        .error (.outOfResources .algorithms) e
      else if d.code.isEmpty then .error (.badParam .emptyCode) e
      else
        match onStore (Store.savePermanent d.codeLabel d.code) e with
        | .error r e => .error r e
        | .ok _ e =>
          .ok d.codeId ((e.withAlgorithm ⟨d, compressor⟩).called (.initialized d.name))

/-- The longest dictionary: a word tells its length. -/
def maxDictionaryLength : Nat := 65535

/-- A dictionary is added; the answer is its identifier. -/
def addDictionary (data : Bytes) (access : UInt16) : Action StateId := fun e =>
  if data.isEmpty ∨ maxDictionaryLength < data.length then
    .error (.badParam .dictionaryLength) e
  else if Settings.maxDictionaries ≤ e.catalogue.dictionaries.length then
    .error (.outOfResources .dictionaries) e
  else
    let d := Dictionary.ofData data access
    match onStore (Store.savePermanent d.label data) e with
    | .error r e => .error r e
    | .ok _ e => .ok d.id (e.withDictionary d)

end SigComp.Engine
