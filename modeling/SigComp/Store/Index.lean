import SigComp.Arena
import SigComp.Bytes

/-!
# Index of states

Which state, if any, is known by a prefix.  A prefix stands at most once in the
index: `Index.insert` replaces what stood there.
-/

namespace SigComp

/-- Keys of states by the prefixes of their identifiers. -/
structure Index where
  entries : List (Bytes × Key) := []
  deriving DecidableEq

namespace Index

/-- The key under a prefix. -/
def get? (x : Index) (p : Bytes) : Option Key := x.entries.lookup p

/-- The index without a prefix. -/
def erase (x : Index) (p : Bytes) : Index := ⟨x.entries.filter (·.1 != p)⟩

/-- The index with `k` under the prefix `p`. -/
def insert (x : Index) (p : Bytes) (k : Key) : Index := ⟨(p, k) :: (x.erase p).entries⟩

/-- The number of prefixes. -/
def size (x : Index) : Nat := x.entries.length

theorem get?_insert_self (x : Index) (p : Bytes) (k : Key) : (x.insert p k).get? p = some k := by
  simp [get?, insert]

/-- Other prefixes keep their keys. -/
theorem get?_erase_of_ne {x : Index} {p q : Bytes} (h : q ≠ p) :
    (x.erase p).get? q = x.get? q := by
  obtain ⟨entries⟩ := x
  simp only [get?, erase]
  induction entries with
  | nil => rfl
  | cons e es ih =>
    obtain ⟨p', k⟩ := e
    by_cases hp : p' = p
    · subst hp
      have : (q == p') = false := by simpa using h
      simp [List.lookup_cons, this, ih]
    · by_cases hq : q = p'
      · subst hq
        simp [hp]
      · have : (q == p') = false := by simpa using hq
        simp [List.lookup_cons, hp, this, ih]

theorem get?_insert_of_ne {x : Index} {p q : Bytes} {k : Key} (h : q ≠ p) :
    (x.insert p k).get? q = x.get? q := by
  have : (q == p) = false := by simpa using h
  have rest := get?_erase_of_ne (x := x) h
  simpa [get?, insert, List.lookup_cons, this] using rest

/-- An erased prefix stands nowhere. -/
theorem get?_erase_self (x : Index) (p : Bytes) : (x.erase p).get? p = none := by
  obtain ⟨entries⟩ := x
  simp only [get?, erase]
  induction entries with
  | nil => rfl
  | cons e es ih =>
    obtain ⟨p', k⟩ := e
    by_cases hp : p' = p
    · subst hp
      simpa using ih
    · have : (p == p') = false := by
        simpa using fun h => hp h.symm
      simp [List.lookup_cons, hp, this, ih]

end Index

end SigComp
