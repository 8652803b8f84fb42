import SigComp.Fault

/-!
# Checked numbers

The machine computes with natural numbers and total functions on byte strings.  A
processor has words of so many bits, and an operation that leaves them, or a place
that is outside a byte string, stops the program dead.  Here each such operation says
so: it answers or it is trapped.

* `Trap` are the ways to be stopped, `Halt` a trap or an orderly failure;
* `add`, `sub`, `mul`, `shiftLeft`, `shiftRight` and `remainder` are arithmetic on
  words, `index`, `slice` and `overwrite` the accesses to byte strings;
* `Yields` says of a computation that it answers, unless it has an excuse to overflow.
-/

namespace SigComp

/-- What stops a program dead. -/
inductive Trap where
  | range
  | shift
  | underflow
  | overflow
  | division
  | endless
  deriving DecidableEq, Repr

/-- What ends a computation early: a failure that is reported, or a trap. -/
inductive Halt where
  | fault (r : Failure)
  | trap (t : Trap)
  deriving DecidableEq, Repr

namespace Checked

/-- A computation that may be stopped. -/
abbrev Calc := Except Halt

/-- A loop that has made as many rounds as it may ever make is not entered again. -/
def endless {α : Type} : Calc α := .error (.trap .endless)

/-- A failure becomes part of the answer. -/
def attempt {α : Type} : Calc α → Calc (Except Failure α)
  | .ok a => .ok (.ok a)
  | .error (.fault r) => .ok (.error r)
  | .error (.trap t) => .error (.trap t)

/-! ## Arithmetic on words -/

/-- The sum of two words. -/
def add (width a b : Nat) : Calc Nat :=
  if a + b < 1 <<< width then .ok (a + b) else .error (.trap .overflow)

/-- The difference of two words. -/
def sub (a b : Nat) : Calc Nat := if b ≤ a then .ok (a - b) else .error (.trap .underflow)

/-- The product of two words. -/
def mul (width a b : Nat) : Calc Nat :=
  if a * b < 1 <<< width then .ok (a * b) else .error (.trap .overflow)

/-- A word shifted to the left; bits that leave it are lost. -/
def shiftLeft (width v n : Nat) : Calc Nat :=
  if n < width then .ok ((v <<< n) % 1 <<< width) else .error (.trap .shift)

/-- A word shifted to the right. -/
def shiftRight (width v n : Nat) : Calc Nat :=
  if n < width then .ok (v >>> n) else .error (.trap .shift)

/-- The remainder of a division. -/
def remainder (a b : Nat) : Calc Nat :=
  if b = 0 then .error (.trap .division) else .ok (a % b)

/-- The sum of two words of sixteen bits. -/
def add16 (a b : UInt16) : Calc UInt16 := UInt16.ofNat <$> add 16 a.toNat b.toNat

/-- The product of two words of sixteen bits. -/
def mul16 (a b : UInt16) : Calc UInt16 := UInt16.ofNat <$> mul 16 a.toNat b.toNat

/-- The difference of two words of sixteen bits. -/
def sub16 (a b : UInt16) : Calc UInt16 := UInt16.ofNat <$> sub a.toNat b.toNat

/-! ## Places in byte strings -/

/-- The element at a place. -/
def index {α : Type} (data : List α) (i : Nat) : Calc α :=
  match data[i]? with
  | some a => .ok a
  | none => .error (.trap .range)

/-- The elements from `start` up to `stop`. -/
def slice {α : Type} (data : List α) (start stop : Nat) : Calc (List α) :=
  if start ≤ stop ∧ stop ≤ data.length then .ok ((data.drop start).take (stop - start))
  else .error (.trap .range)

/-- The byte string with the bytes from `start` up to `stop` replaced by as many others. -/
def overwrite (data : Bytes) (start stop : Nat) (other : Bytes) : Calc Bytes := do
  let old ← slice data start stop
  if old.length = other.length then return data.take start ++ other ++ data.drop stop
  else .error (.trap .range)

/-! ## Operations that are not stopped -/

section Untrapped

variable {width a b : Nat}

theorem ok_bind {α β : Type} {c : Calc α} {v : α} (h : c = .ok v) (k : α → Calc β) :
    (c >>= k) = k v := by
  subst h
  rfl

theorem add_ok (h : a + b < 1 <<< width) : add width a b = .ok (a + b) := if_pos h

theorem sub_ok (h : b ≤ a) : sub a b = .ok (a - b) := if_pos h

theorem mul_ok (h : a * b < 1 <<< width) : mul width a b = .ok (a * b) := if_pos h

theorem shiftLeft_ok {v n : Nat} (h : n < width) :
    shiftLeft width v n = .ok ((v <<< n) % 1 <<< width) := if_pos h

theorem shiftRight_ok {v n : Nat} (h : n < width) : shiftRight width v n = .ok (v >>> n) := if_pos h

theorem remainder_ok (h : b ≠ 0) : remainder a b = .ok (a % b) := if_neg h

theorem add16_ok {v w : UInt16} (h : v.toNat + w.toNat < 65536) : add16 v w = .ok (v + w) := by
  rw [add16, add_ok (by omega)]
  exact congrArg _ (UInt16.toNat_inj.1 (by simp [Nat.mod_eq_of_lt h]))

theorem mul16_ok {v w : UInt16} (h : v.toNat * w.toNat < 65536) : mul16 v w = .ok (v * w) := by
  rw [mul16, mul_ok (by omega)]
  exact congrArg _ (UInt16.toNat_inj.1 (by simp))

theorem sub16_ok {v w : UInt16} (h : w ≤ v) : sub16 v w = .ok (v - w) := by
  rw [sub16, sub_ok (UInt16.le_iff_toNat_le.1 h)]
  refine congrArg _ (UInt16.toNat_inj.1 ?_)
  rw [UInt16.toNat_sub_of_le v w h, UInt16.toNat_ofNat']
  have := v.toNat_lt
  omega

theorem index_ok {α : Type} {data : List α} {i : Nat} {x : α} (h : data[i]? = some x) :
    index data i = .ok x := by
  rw [index, h]

theorem slice_ok {α : Type} {data : List α} {start stop : Nat} (h : start ≤ stop)
    (inside : stop ≤ data.length) :
    slice data start stop = .ok ((data.drop start).take (stop - start)) := if_pos ⟨h, inside⟩

theorem overwrite_ok {data other : Bytes} {start : Nat}
    (inside : start + other.length ≤ data.length) :
    overwrite data start (start + other.length) other =
      .ok (data.take start ++ other ++ data.drop (start + other.length)) := by
  have length : ((data.drop start).take (start + other.length - start)).length = other.length := by
    simp only [List.length_take, List.length_drop]
    omega
  rw [overwrite, slice_ok (by omega) inside]
  exact if_pos length

end Untrapped

/-! ## Excuses -/

/-- The computation answers `v`, unless it has an excuse; even then it can only overflow. -/
def Yields {α : Type} (excuse : Prop) (c : Calc α) (v : α) : Prop :=
  c = .ok v ∨ (c = .error (.trap .overflow) ∧ excuse)

namespace Yields

variable {α β : Type} {excuse : Prop} {a b width : Nat}

theorem of_ok {c : Calc α} {v : α} (h : c = .ok v) : Yields excuse c v := .inl h

theorem mono {excuse' : Prop} {c : Calc α} {v : α} (h : Yields excuse c v)
    (weaker : excuse → excuse') : Yields excuse' c v :=
  h.imp id fun excess => ⟨excess.1, weaker excess.2⟩

protected theorem bind {c : Calc α} {k : α → Calc β} {v : α} {w : β} (hc : Yields excuse c v)
    (hk : Yields excuse (k v) w) : Yields excuse (c >>= k) w := by
  obtain rfl | ⟨rfl, excused⟩ := hc
  · exact hk
  · exact .inr ⟨rfl, excused⟩

protected theorem add (h : ¬ excuse → a + b < 1 <<< width) :
    Yields excuse (add width a b) (a + b) := by
  rw [add]
  split
  · exact .inl rfl
  · next excess => exact .inr ⟨rfl, Classical.not_not.1 fun honest => excess (h honest)⟩

protected theorem mul (h : ¬ excuse → a * b < 1 <<< width) :
    Yields excuse (mul width a b) (a * b) := by
  rw [mul]
  split
  · exact .inl rfl
  · next excess => exact .inr ⟨rfl, Classical.not_not.1 fun honest => excess (h honest)⟩

end Yields

end Checked

end SigComp
