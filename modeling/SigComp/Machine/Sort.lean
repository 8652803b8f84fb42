import SigComp.Bytes

/-!
# Sorting rows

A sort instruction sees a region of memory as `lists` lists of `length` words each.
The first list decides the order, equal words staying in the order they were in,
and every list is put into that order.
-/

namespace SigComp.Sort

/-- The words of a byte string; an odd byte at the end is dropped. -/
def words : Bytes → List UInt16
  | high :: low :: rest => word high low :: words rest
  | _ => []

/-- The first of two words comes no later than the second. -/
def inOrder (descending : Bool) (a b : UInt16) : Bool := if descending then b ≤ a else a ≤ b

/-- The positions of the first list, in the order of their words. -/
def order (descending : Bool) (first : Array UInt16) : List Nat :=
  (List.range first.size).mergeSort fun i j =>
    inOrder descending (first.getD i 0) (first.getD j 0)

/-- A list of words with position `i` taking the word at the `i`-th of the given positions. -/
def arrange (positions : List Nat) (list : Array UInt16) : List UInt16 :=
  positions.map fun i => list.getD i 0

/-- The region with every list in the order of the first. -/
def rows (descending : Bool) (lists length : Nat) (region : Bytes) : Bytes :=
  let all := (words region).toArray
  let list (i : Nat) := all.extract (i * length) (i * length + length)
  let positions := order descending (list 0)
  (List.range lists).flatMap fun i => (arrange positions (list i)).flatMap Bytes.ofWord

/-- The logarithm of a length to base 2, rounded up; zero for lengths up to one. -/
def log2Ceil (length : Nat) : Nat := if length ≤ 1 then 0 else (length - 1).log2 + 1

end SigComp.Sort
