import Mathlib.Data.List.Induction
import SigComp.Proofs.CheckedInput

/-!
# Input read bit by bit

The input of a machine is read in numbers of bits and in whole bytes, through a buffer that takes
in a byte at a time.  Beside it stands a reader without a buffer, which hands out one bit after the
other.

* `digits` and `number`: the binary digits of a number, and back.
* `BitReader`: bytes to come, bits left of the byte touched last, and an order.
  `BitReader.next?` is one bit and `BitReader.draw` one call.
* `BitInput.reader`: the reader that a tidy input stands for.
* `takeBits?_reader`, `takeBytes_reader`: each call is the call of the reader.
* `BitReader.usedUp`: the bits that calls discard and deliver, in turn; `Spends` says that no bit
  is missing from them and none comes twice.
* `input_reads_bit_by_bit`: all of this of every run of calls, and of the buffer of 32 bits.
-/

namespace SigComp

/-! ## Binary digits -/

/-- The lowest `n` binary digits of a number, most significant first. -/
def digits : Nat → Nat → List Bool
  | 0, _ => []
  | n + 1, v => v.testBit n :: digits n v

/-- The number with the given binary digits, most significant first. -/
def number (ds : List Bool) : Nat := ds.foldl (fun v d => 2 * v + d.toNat) 0

/-- The bits of a byte, from its most or from its least significant end. -/
def byteDigits (lsbFirst : Bool) (b : UInt8) : List Bool :=
  if lsbFirst then (digits 8 b.toNat).reverse else digits 8 b.toNat

@[simp] theorem length_digits (n v : Nat) : (digits n v).length = n := by
  induction n with
  | zero => rfl
  | succ n ih => rw [digits, List.length_cons, ih]

@[simp] theorem length_byteDigits (o : Bool) (b : UInt8) : (byteDigits o b).length = 8 := by
  unfold byteDigits
  split
  · rw [List.length_reverse, length_digits]
  · exact length_digits 8 _

theorem digits_congr {n v w : Nat} (same : ∀ i < n, v.testBit i = w.testBit i) :
    digits n v = digits n w := by
  induction n with
  | zero => rfl
  | succ n ih =>
    rw [digits, digits, same n (Nat.lt_succ_self n),
      ih fun i below => same i (Nat.lt_succ_of_lt below)]

/-- The digits of a number in front of those of another. -/
theorem digits_append (n v : Nat) {k w : Nat} (small : w < 1 <<< k) :
    digits (n + k) (v <<< k + w) = digits n v ++ digits k w := by
  rw [Nat.one_shiftLeft] at small
  have bit (i : Nat) := Nat.testBit_two_pow_mul_add v small i
  rw [Nat.shiftLeft_eq, Nat.mul_comm]
  induction n with
  | zero =>
    rw [Nat.zero_add]
    exact digits_congr fun i below => by rw [bit, if_pos below]
  | succ n ih =>
    rw [Nat.succ_add, digits, ih, digits, bit, if_neg (by omega), Nat.add_sub_cancel]
    rfl

/-- The digits of a number are those of its upper and of its lower part. -/
theorem digits_split {n held : Nat} (v : Nat) (enough : n ≤ held) :
    digits held v = digits n (v >>> (held - n)) ++ digits (held - n) (v % 1 <<< (held - n)) := by
  have positive : 0 < 1 <<< (held - n) := by
    rw [Nat.one_shiftLeft]
    exact Nat.two_pow_pos _
  rw [← digits_append n _ (Nat.mod_lt v positive), Nat.add_sub_cancel' enough]
  have whole := Nat.div_add_mod v (1 <<< (held - n))
  rw [Nat.one_shiftLeft, Nat.mul_comm, ← Nat.shiftRight_eq_div_pow, ← Nat.shiftLeft_eq,
    ← Nat.one_shiftLeft] at whole
  rw [whole]

theorem foldl_number (v : Nat) (ds : List Bool) :
    ds.foldl (fun v d => 2 * v + d.toNat) v = v <<< ds.length + number ds := by
  induction ds generalizing v with
  | nil => rfl
  | cons d rest ih =>
    rw [number, List.foldl_cons, List.foldl_cons, ih, ih (2 * 0 + d.toNat), List.length_cons,
      Nat.shiftLeft_eq, Nat.shiftLeft_eq, Nat.shiftLeft_eq, Nat.pow_succ', Nat.mul_zero,
      Nat.zero_add, Nat.add_mul, Nat.mul_assoc, Nat.mul_left_comm, Nat.add_assoc]

theorem number_append (ds es : List Bool) :
    number (ds ++ es) = number ds <<< es.length + number es := by
  rw [number, List.foldl_append, foldl_number]
  rfl

theorem digits_number (ds : List Bool) : digits ds.length (number ds) = ds := by
  induction ds using List.reverseRecOn with
  | nil => rfl
  | append_singleton ds d ih =>
    have last : number [d] < 1 <<< 1 := by cases d <;> decide
    have one : digits 1 (number [d]) = [d] := by cases d <;> rfl
    rw [number_append, List.length_append, List.length_singleton, digits_append _ _ last, ih, one]

theorem digits_half (n v : Nat) : digits (n + 1) v = digits n (v / 2) ++ digits 1 (v % 2) := by
  have whole : (v / 2) <<< 1 + v % 2 = v := by
    rw [Nat.shiftLeft_eq]
    omega
  have small : v % 2 < 1 <<< 1 := Nat.mod_lt v Nat.two_pos
  rw [← digits_append n (v / 2) small, whole]

theorem number_digits {n v : Nat} (small : v < 1 <<< n) : number (digits n v) = v := by
  induction n generalizing v with
  | zero => exact (Nat.lt_one_iff.1 small).symm
  | succ n ih =>
    have last : number (digits 1 (v % 2)) = v % 2 := by
      rcases Nat.mod_two_eq_zero_or_one v with even | odd
      · rw [even]
        rfl
      · rw [odd]
        rfl
    have upper : v / 2 < 1 <<< n := by
      rw [Nat.shiftLeft_succ] at small
      omega
    rw [digits_half, number_append, ih upper, last, length_digits, Nat.shiftLeft_eq]
    omega

/-- Reversing bits is reversing digits. -/
theorem digits_reverseBits (n v : Nat) : digits n (reverseBits n v) = (digits n v).reverse := by
  induction n generalizing v with
  | zero => rfl
  | succ n ih =>
    have one : digits 1 (v % 2) = (digits 1 (v % 2)).reverse := rfl
    rw [reverseBits, Nat.add_comm n 1, digits_append 1 _ (reverseBits_lt n (v / 2)), ih,
      Nat.add_comm 1 n, digits_half n v, List.reverse_append, ← one]

theorem byteDigits_eq (o : Bool) (b : UInt8) :
    byteDigits o b = digits 8 (BitInput.byteValue o b) := by
  cases o
  · rfl
  · exact (digits_reverseBits 8 b.toNat).symm

/-! ## A reader without a buffer -/

/-- A reader of bits: the bytes that have not been touched, the bits left of the byte that was
touched last, and the end from which bytes are read. -/
structure BitReader where
  rest : Bytes
  left : List Bool
  lsbFirst : Bool
  deriving DecidableEq

namespace BitReader

/-- The next bit.  A byte is touched when no bit is left of the one before. -/
def next? : BitReader → Option (Bool × BitReader)
  | ⟨rest, d :: left, o⟩ => some (d, ⟨rest, left, o⟩)
  | ⟨b :: rest, [], o⟩ =>
    match byteDigits o b with
    | d :: left => some (d, ⟨rest, left, o⟩)
    | [] => none
  | ⟨[], [], _⟩ => none

/-- The next `n` bits, one after the other; nothing if the input ends first. -/
def take? : Nat → BitReader → Option (List Bool × BitReader)
  | 0, r => some ([], r)
  | n + 1, r =>
    match r.next? with
    | none => none
    | some (d, r) => (take? n r).map fun (ds, r) => (d :: ds, r)

/-- The reader for a given order; a change of order discards the bits that are left. -/
def ordered (r : BitReader) (o : Bool) : BitReader := if o = r.lsbFirst then r else ⟨r.rest, [], o⟩

/-- The bits to come. -/
def coming (r : BitReader) : List Bool := r.left ++ r.rest.flatMap (byteDigits r.lsbFirst)

/-! ### One bit after the other -/

variable {r next : BitReader} {n : Nat} {d : Bool} {ds : List Bool}

@[simp] theorem lsbFirst_ordered (r : BitReader) (o : Bool) : (r.ordered o).lsbFirst = o := by
  unfold ordered
  split
  · next same => exact same.symm
  · rfl

theorem next?_of_left (rest : Bytes) (d : Bool) (left : List Bool) (o : Bool) :
    (⟨rest, d :: left, o⟩ : BitReader).next? = some (d, ⟨rest, left, o⟩) := by
  cases rest <;> rfl

/-- A byte that is touched is a bit and those left of it. -/
theorem exists_byteDigits (o : Bool) (b : UInt8) : ∃ d left, byteDigits o b = d :: left := by
  cases whole : byteDigits o b with
  | nil =>
    have length := length_byteDigits o b
    rw [whole] at length
    cases length
  | cons d left => exact ⟨d, left, rfl⟩

theorem next?_of_rest (b : UInt8) (rest : Bytes) (o : Bool) {left : List Bool}
    (whole : byteDigits o b = d :: left) :
    (⟨b :: rest, [], o⟩ : BitReader).next? = some (d, ⟨rest, left, o⟩) := by
  simp only [next?, whole]

/-- No bit is handed out only if none is to come. -/
theorem next?_eq_none (ended : r.next? = none) : r.coming = [] := by
  obtain ⟨rest, left, o⟩ := r
  cases left with
  | cons d left =>
    rw [next?_of_left] at ended
    cases ended
  | nil =>
    cases rest with
    | nil => rfl
    | cons b rest =>
      obtain ⟨d, left, whole⟩ := exists_byteDigits o b
      rw [next?_of_rest b rest o whole] at ended
      cases ended

/-- Between two readers whole bytes have been touched, each from one end, and the bits `ds` are what
has gone of them. -/
def Spends (r : BitReader) (ds : List Bool) (next : BitReader) : Prop :=
  ∃ touched : List (UInt8 × Bool), r.rest = touched.map Prod.fst ++ next.rest ∧
    ds ++ next.left = r.left ++ touched.flatMap fun (b, o) => byteDigits o b

theorem Spends.refl (r : BitReader) : r.Spends [] r := ⟨[], rfl, (List.append_nil _).symm⟩

theorem Spends.trans {last : BitReader} {es : List Bool} (first : r.Spends ds next)
    (second : next.Spends es last) : r.Spends (ds ++ es) last := by
  obtain ⟨touched, rest, left⟩ := first
  obtain ⟨touchedOn, restOn, leftOn⟩ := second
  refine ⟨touched ++ touchedOn, ?_, ?_⟩
  · rw [rest, restOn, List.map_append, List.append_assoc]
  · rw [List.append_assoc, leftOn, ← List.append_assoc, left, List.flatMap_append,
      List.append_assoc]

/-- What comes of a bit: the reader goes on behind it, in the same order. -/
theorem next?_eq_some (handed : r.next? = some (d, next)) :
    r.coming = d :: next.coming ∧ next.lsbFirst = r.lsbFirst ∧ r.Spends [d] next := by
  obtain ⟨rest, left, o⟩ := r
  cases left with
  | cons e left =>
    rw [next?_of_left] at handed
    cases handed
    exact ⟨rfl, rfl, [], rfl, (List.append_nil _).symm⟩
  | nil =>
    cases rest with
    | nil => cases handed
    | cons b rest =>
      obtain ⟨e, left, whole⟩ := exists_byteDigits o b
      rw [next?_of_rest b rest o whole] at handed
      cases handed
      refine ⟨?_, rfl, [(b, o)], rfl, ?_⟩
      · rw [coming, List.flatMap_cons, whole]
        rfl
      · rw [List.flatMap_singleton]
        exact whole.symm

/-- Bits are handed out if so many are to come. -/
theorem exists_take? (enough : n ≤ r.coming.length) :
    ∃ next, r.take? n = some (r.coming.take n, next) ∧ next.coming = r.coming.drop n ∧
      next.lsbFirst = r.lsbFirst := by
  induction n generalizing r with
  | zero => exact ⟨r, rfl, rfl, rfl⟩
  | succ n ih =>
    cases handed : r.next? with
    | none =>
      rw [next?_eq_none handed] at enough
      cases enough
    | some pair =>
      obtain ⟨d, next⟩ := pair
      obtain ⟨coming, order, _⟩ := next?_eq_some handed
      rw [coming, List.length_cons] at enough
      obtain ⟨last, taken, left, same⟩ := ih (Nat.le_of_succ_le_succ enough)
      refine ⟨last, ?_, ?_, same.trans order⟩
      · rw [take?, handed, coming]
        simp only [taken, Option.map_some, List.take_succ_cons]
      · rw [coming, left, List.drop_succ_cons]

theorem take?_eq_none (few : r.coming.length < n) : r.take? n = none := by
  induction n generalizing r with
  | zero => cases few
  | succ n ih =>
    rw [take?]
    cases handed : r.next? with
    | none => rfl
    | some pair =>
      obtain ⟨d, next⟩ := pair
      rw [(next?_eq_some handed).1, List.length_cons] at few
      simp only [ih (Nat.lt_of_succ_lt_succ few), Option.map_none]

theorem take?_eq_some (taken : r.take? n = some (ds, next)) :
    ds.length = n ∧ next.lsbFirst = r.lsbFirst ∧ r.Spends ds next := by
  induction n generalizing r ds with
  | zero =>
    cases taken
    exact ⟨rfl, rfl, .refl _⟩
  | succ n ih =>
    rw [take?] at taken
    cases handed : r.next? with
    | none =>
      rw [handed] at taken
      cases taken
    | some pair =>
      obtain ⟨d, first⟩ := pair
      simp only [handed] at taken
      obtain ⟨⟨es, last⟩, more, pair⟩ := Option.map_eq_some_iff.1 taken
      cases pair
      obtain ⟨_, order, spends⟩ := next?_eq_some handed
      obtain ⟨length, orderOn, spendsOn⟩ := ih more
      exact ⟨congrArg Nat.succ length, orderOn.trans order, spends.trans spendsOn⟩

/-- Bits can be taken in two goes. -/
theorem take?_add (n k : Nat) :
    r.take? (n + k) =
      (r.take? n).bind fun (ds, r) => (r.take? k).map fun (es, r) => (ds ++ es, r) := by
  induction n generalizing r with
  | zero =>
    rw [Nat.zero_add, take?, Option.bind_some]
    simp only [List.nil_append]
    exact Option.map_id'.symm
  | succ n ih =>
    rw [Nat.succ_add, take?, take?]
    cases r.next? with
    | none => rfl
    | some pair =>
      obtain ⟨d, next⟩ := pair
      simp only [ih]
      cases next.take? n with
      | none => rfl
      | some pair =>
        obtain ⟨ds, next⟩ := pair
        simp only [Option.bind_some, Option.map_some, Option.map_map]
        rfl

/-! ### Bytes taken in early -/

/-- Bits that are left need no byte. -/
theorem take?_of_le {rest : Bytes} {left : List Bool} {o : Bool} (enough : n ≤ left.length) :
    (⟨rest, left, o⟩ : BitReader).take? n = some (left.take n, ⟨rest, left.drop n, o⟩) := by
  induction n generalizing left with
  | zero => rfl
  | succ n ih =>
    cases left with
    | nil => cases enough
    | cons d left =>
      rw [take?, next?_of_left]
      simp only [ih (Nat.le_of_succ_le_succ enough), Option.map_some, List.take_succ_cons,
        List.drop_succ_cons]

/-- If the bits that are left are too few, the next byte may as well be touched at once. -/
theorem take?_refill {rest : Bytes} {left : List Bool} {o : Bool} {b : UInt8}
    (few : left.length < n) :
    (⟨b :: rest, left, o⟩ : BitReader).take? n =
      (⟨rest, left ++ byteDigits o b, o⟩ : BitReader).take? n := by
  induction left generalizing n with
  | nil =>
    obtain ⟨n, rfl⟩ := Nat.exists_eq_succ_of_ne_zero (Nat.ne_of_gt few)
    obtain ⟨d, left, whole⟩ := exists_byteDigits o b
    rw [take?, take?, next?_of_rest b rest o whole, List.nil_append, whole, next?_of_left]
  | cons d left ih =>
    obtain ⟨n, rfl⟩ := Nat.exists_eq_succ_of_ne_zero (Nat.ne_of_gt (Nat.zero_lt_of_lt few))
    rw [take?, take?, next?_of_left, List.cons_append, next?_of_left]
    simp only [ih (Nat.lt_of_succ_lt_succ few)]

end BitReader

/-! ## The buffer of an input -/

namespace BitInput

variable {i j : BitInput} {n bits held : Nat} {o : Bool} {rest : Bytes}

/-- The reader that an input stands for. -/
def reader (i : BitInput) : BitReader := ⟨i.rest, digits i.held i.bits, i.lsbFirst⟩

/-- Fetching touches bytes early, but leaves all the bits to come as they were. -/
theorem fetch_reader (small : bits < 1 <<< held) :
    BitReader.take? n ⟨rest, digits held bits, o⟩ =
      (fetch n o bits held rest).bind fun j => j.reader.take? n := by
  induction rest generalizing bits held with
  | nil =>
    rw [fetch]
    by_cases enough : n ≤ held
    · rw [if_pos enough]
      rfl
    · rw [if_neg enough]
      refine BitReader.take?_eq_none ?_
      simp only [BitReader.coming, List.flatMap_nil, List.append_nil, length_digits]
      omega
  | cons b rest ih =>
    rw [fetch]
    by_cases enough : n ≤ held
    · rw [if_pos enough]
      rfl
    · have byte := byteValue_lt o b
      have room : bits * 256 + byteValue o b < 1 <<< (held + 8) := by
        rw [Nat.shiftLeft_add, Nat.shiftLeft_eq _ 8]
        omega
      have joined := digits_append held bits (k := 8) byte
      rw [Nat.shiftLeft_eq] at joined
      rw [if_neg enough, ← ih room, BitReader.take?_refill (by rw [length_digits]; omega),
        byteDigits_eq, ← joined]

theorem reader_ordered (i : BitInput) (o : Bool) :
    i.reader.ordered o = (if o = i.lsbFirst then i else i.aligned o).reader := by
  unfold BitReader.ordered
  show (if o = i.lsbFirst then i.reader else _) = _
  split <;> rfl

/-- A read of bits is that of the reader. -/
theorem takeBits?_reader (tidy : i.Tidy) (n : Nat) (o : Bool) :
    (i.reader.ordered o).take? n = (i.takeBits? n o).map fun (v, j) => (digits n v, j.reader) := by
  obtain ⟨k, whole, small, rfl⟩ : ∃ k, (if o = i.lsbFirst then i else i.aligned o) = k ∧
      k.bits < 1 <<< k.held ∧ k.lsbFirst = o := by
    refine ⟨_, rfl, (tidy.ordered o).small, ?_⟩
    split
    · next same => exact same.symm
    · rfl
  rw [reader_ordered, takeBits?]
  simp only [whole]
  rw [show k.reader = ⟨k.rest, digits k.held k.bits, k.lsbFirst⟩ from rfl, fetch_reader small]
  cases touched : fetch n k.lsbFirst k.bits k.held k.rest with
  | none => rfl
  | some j =>
    have enough := (unread_fetch touched).2
    rw [Option.bind_some, reader, BitReader.take?_of_le (by rwa [length_digits]),
      digits_split j.bits enough, List.take_left' (length_digits _ _),
      List.drop_left' (length_digits _ _)]
    rfl

end BitInput

/-! ## Calls -/

/-- A call that reads input: a number of bits in an order, or of bytes. -/
inductive Draw where
  | bits (n : Nat) (lsbFirst : Bool)
  | bytes (n : Nat)
  deriving DecidableEq

/-- What a call answers: the bits as a number, the bytes, or nothing because there are too few. -/
inductive Drawn where
  | number (v : Nat)
  | bytes (data : Bytes)
  | nothing
  deriving DecidableEq

namespace Draw

/-- No more bits are asked for than a word has. -/
def Sized : Draw → Prop
  | bits n _ => n ≤ 16
  | bytes _ => True

/-- Calls that are made one after the other, with the answers in the same order. -/
def inTurn {m : Type → Type} [Monad m] {σ : Type} (read : σ → Draw → m (Drawn × σ)) :
    List Draw → σ → m (List Drawn × σ)
  | [], s => return ([], s)
  | d :: rest, s => do
    let (a, s) ← read s d
    let (as, s) ← inTurn read rest s
    return (a :: as, s)

/-- The bits that an answer gives away.  Whole bytes count from their most significant end. -/
def delivered : Draw → Drawn → List Bool
  | bits n _, .number v => digits n v
  | _, .bytes data => data.flatMap (byteDigits false)
  | _, _ => []

end Draw

namespace BitReader

/-- One call.  Bits are all there, or nothing changes, not even the order; whole bytes are all there
too, but what is left of a byte is discarded either way. -/
def draw (r : BitReader) : Draw → Drawn × BitReader
  | .bits n o =>
    match (r.ordered o).take? n with
    | some (ds, next) => (.number (number ds), next)
    | none => (.nothing, r)
  | .bytes n =>
    if r.rest.length < n then (.nothing, ⟨r.rest, [], r.lsbFirst⟩)
    else (.bytes (r.rest.take n), ⟨r.rest.drop n, [], r.lsbFirst⟩)

/-- All calls of a run. -/
def drawAll (r : BitReader) (draws : List Draw) : List Drawn × BitReader :=
  Id.run (Draw.inTurn (fun r d => pure (r.draw d)) draws r)

/-- The bits that a call discards: those left in another order than the one asked for, if the call
is answered at all, and those left before whole bytes. -/
def discarded (r : BitReader) : Draw → List Bool
  | .bits n o => if o = r.lsbFirst ∨ (r.draw (.bits n o)).1 = .nothing then [] else r.left
  | .bytes _ => r.left

/-- The bits that the calls of a run take away: of each call first those that it discards, then
those that it delivers. -/
def usedUp (r : BitReader) : List Draw → List Bool
  | [] => []
  | d :: draws =>
    r.discarded d ++ d.delivered (r.draw d).1 ++ (r.draw d).2.usedUp draws

theorem drawAll_cons (r : BitReader) (d : Draw) (draws : List Draw) :
    r.drawAll (d :: draws) =
      ((r.draw d).1 :: ((r.draw d).2.drawAll draws).1, ((r.draw d).2.drawAll draws).2) :=
  rfl

/-! ### No bit twice, and none lost -/

variable {r : BitReader}

theorem draw_of_some {n : Nat} {o : Bool} {ds : List Bool} {next : BitReader}
    (taken : (r.ordered o).take? n = some (ds, next)) :
    r.draw (.bits n o) = (.number (number ds), next) := by
  rw [draw, taken]

theorem draw_of_none {n : Nat} {o : Bool} (refused : (r.ordered o).take? n = none) :
    r.draw (.bits n o) = (.nothing, r) := by
  rw [draw, refused]

/-- Bits that are left may be discarded. -/
theorem spends_left (r : BitReader) (o : Bool) : r.Spends r.left ⟨r.rest, [], o⟩ :=
  ⟨[], rfl, by rw [List.flatMap_nil]⟩

/-- A call takes away what it discards and what it delivers, and no other bit. -/
theorem spends_draw (r : BitReader) (d : Draw) :
    r.Spends (r.discarded d ++ d.delivered (r.draw d).1) (r.draw d).2 := by
  cases d with
  | bits n o =>
    cases taken : (r.ordered o).take? n with
    | none =>
      rw [discarded, draw_of_none taken]
      simpa [Draw.delivered] using Spends.refl r
    | some pair =>
      obtain ⟨ds, next⟩ := pair
      obtain ⟨length, _, spends⟩ := take?_eq_some taken
      have bits : digits n (number ds) = ds := length ▸ digits_number ds
      rw [discarded, draw_of_some taken]
      simp only [Draw.delivered, bits, reduceCtorEq, or_false]
      by_cases same : o = r.lsbFirst
      · rw [if_pos same, List.nil_append]
        rwa [ordered, if_pos same] at spends
      · rw [if_neg same]
        rw [ordered, if_neg same] at spends
        exact (r.spends_left o).trans spends
  | bytes n =>
    rw [draw]
    split
    · have nothing : r.discarded (.bytes n) ++ (Draw.bytes n).delivered .nothing = r.left :=
        List.append_nil _
      rw [nothing]
      exact r.spends_left _
    · refine (r.spends_left r.lsbFirst).trans ⟨(r.rest.take n).map (·, false), ?_, ?_⟩
      · have bytes : ((r.rest.take n).map (·, false)).map Prod.fst = r.rest.take n := by
          rw [List.map_map]
          exact List.map_id _
        rw [bytes]
        exact (List.take_append_drop n r.rest).symm
      · rw [List.append_nil, List.flatMap_map]
        rfl

/-- So do all calls of a run. -/
theorem spends_drawAll (r : BitReader) (draws : List Draw) :
    r.Spends (r.usedUp draws) (r.drawAll draws).2 := by
  induction draws generalizing r with
  | nil => exact .refl r
  | cons d draws ih => exact (r.spends_draw d).trans (ih _)

end BitReader

/-! ## Calls on an input -/

namespace BitInput

variable {i : BitInput}

/-- One call. -/
def draw (i : BitInput) : Draw → Drawn × BitInput
  | .bits n o =>
    match i.takeBits? n o with
    | some (v, j) => (.number v, j)
    | none => (.nothing, i)
  | .bytes n =>
    match i.takeBytes n with
    | (some data, j) => (.bytes data, j)
    | (none, j) => (.nothing, j)

/-- All calls of a run. -/
def drawAll (i : BitInput) (draws : List Draw) : List Drawn × BitInput :=
  Id.run (Draw.inTurn (fun i d => pure (i.draw d)) draws i)

theorem drawAll_cons (i : BitInput) (d : Draw) (draws : List Draw) :
    i.drawAll (d :: draws) =
      ((i.draw d).1 :: ((i.draw d).2.drawAll draws).1, ((i.draw d).2.drawAll draws).2) :=
  rfl

/-- A read of bytes is that of the reader. -/
theorem takeBytes_reader (i : BitInput) (n : Nat) :
    (i.draw (.bytes n)).1 = (i.reader.draw (.bytes n)).1 ∧
      (i.draw (.bytes n)).2.reader = (i.reader.draw (.bytes n)).2 := by
  have enough : (i.rest.take n).length = n ↔ ¬ i.rest.length < n := by
    rw [List.length_take]
    omega
  rw [BitReader.draw, draw, takeBytes]
  simp only [enough]
  by_cases few : i.rest.length < n
  · rw [if_neg (not_not_intro few), if_pos (show i.reader.rest.length < n from few)]
    exact ⟨rfl, rfl⟩
  · rw [if_pos few, if_neg (show ¬ i.reader.rest.length < n from few)]
    exact ⟨rfl, rfl⟩

theorem tidy_draw (tidy : i.Tidy) (d : Draw) : (i.draw d).2.Tidy := by
  cases d with
  | bits n o =>
    rw [draw]
    split
    · next read => exact (tidy.takeBits? read).2
    · exact tidy
  | bytes n =>
    have left := i.tidy_takeBytes n
    rw [draw]
    split <;> next read =>
      rw [read] at left
      exact left

/-- Each call on an input is the call on its reader. -/
theorem draw_reader (tidy : i.Tidy) (d : Draw) :
    (i.draw d).1 = (i.reader.draw d).1 ∧ (i.draw d).2.reader = (i.reader.draw d).2 := by
  cases d with
  | bits n o =>
    have read := takeBits?_reader tidy n o
    cases taken : i.takeBits? n o with
    | none =>
      rw [taken] at read
      rw [draw, taken, BitReader.draw_of_none read]
      exact ⟨rfl, rfl⟩
    | some pair =>
      obtain ⟨v, j⟩ := pair
      have small := (tidy.takeBits? taken).1
      rw [taken] at read
      rw [draw, taken, BitReader.draw_of_some read]
      exact ⟨congrArg Drawn.number (number_digits small).symm, rfl⟩
  | bytes n => exact i.takeBytes_reader n

theorem drawAll_reader (tidy : i.Tidy) (draws : List Draw) :
    (i.drawAll draws).1 = (i.reader.drawAll draws).1 ∧
      (i.drawAll draws).2.reader = (i.reader.drawAll draws).2 ∧ (i.drawAll draws).2.Tidy := by
  induction draws generalizing i with
  | nil => exact ⟨rfl, rfl, tidy⟩
  | cons d draws ih =>
    obtain ⟨answer, next⟩ := draw_reader tidy d
    obtain ⟨answers, last, tidyLast⟩ := ih (tidy_draw tidy d)
    rw [drawAll_cons, BitReader.drawAll_cons, ← next]
    exact ⟨by rw [answer, answers], last, tidyLast⟩

end BitInput

/-! ## Calls on a buffer of 32 bits -/

namespace BitStream

open Checked

variable {s : BitStream}

/-- One call. -/
def draw (s : BitStream) : Draw → Calc (Drawn × BitStream)
  | .bits n o => do
    match ← s.takeBits n o with
    | some (v, s) => return (.number v, s)
    | none => return (.nothing, s)
  | .bytes n => do
    match ← s.takeBytes n with
    | (some data, s) => return (.bytes data, s)
    | (none, s) => return (.nothing, s)

/-- All calls of a run. -/
def drawAll (s : BitStream) (draws : List Draw) : Calc (List Drawn × BitStream) :=
  Draw.inTurn draw draws s

/-- Each call on the buffer is the call on what it is to the machine. -/
theorem draw_view (sound : s.Sound) {d : Draw} (sized : d.Sized) :
    ∃ next, Yields (Vast s.data) (s.draw d) ((s.view.draw d).1, next) ∧
      next.view = (s.view.draw d).2 ∧ next.Sound ∧ next.data = s.data := by
  cases d with
  | bits n o =>
    rw [BitInput.draw]
    rcases takeBits_safe sound sized o with
      ⟨refused, yields⟩ | ⟨v, next, read, yields, soundOn, data, _⟩
    · rw [refused]
      exact ⟨s, .bind yields (.of_ok rfl), rfl, sound, rfl⟩
    · rw [read]
      exact ⟨next, .bind yields (.of_ok rfl), rfl, soundOn, data⟩
  | bytes n =>
    obtain ⟨next, yields, view, soundOn, data⟩ := takeBytes_safe sound n
    rw [BitInput.draw]
    revert yields view
    obtain ⟨answer, left⟩ := s.view.takeBytes n
    intro yields view
    cases answer with
    | none => exact ⟨next, .bind yields (.of_ok rfl), view, soundOn, data⟩
    | some bytes => exact ⟨next, .bind yields (.of_ok rfl), view, soundOn, data⟩

theorem drawAll_view (sound : s.Sound) {draws : List Draw} (sized : ∀ d ∈ draws, d.Sized) :
    ∃ last, Yields (Vast s.data) (s.drawAll draws) ((s.view.drawAll draws).1, last) ∧
      last.view = (s.view.drawAll draws).2 := by
  induction draws generalizing s with
  | nil => exact ⟨s, .of_ok rfl, rfl⟩
  | cons d draws ih =>
    obtain ⟨next, yields, view, soundOn, data⟩ := draw_view sound (sized d List.mem_cons_self)
    obtain ⟨last, yieldsOn, viewOn⟩ :=
      ih soundOn fun e among => sized e (List.mem_cons_of_mem d among)
    rw [data] at yieldsOn
    rw [BitInput.drawAll_cons, ← view]
    exact ⟨last, .bind yields (.bind yieldsOn (.of_ok rfl)), viewOn⟩

end BitStream

namespace BitInput

/-- Whatever the input and whatever is asked of it, call by call: it answers as a reader does that
hands out one bit after the other, and is left as that reader is, with less than a byte in its
buffer.  So is the buffer of 32 bits, unless the input has more bits than can be counted.  The bytes
that have been touched, each read from one end, are the bits that the calls have discarded and
delivered, in turn, and those that are left. -/
theorem input_reads_bit_by_bit (data : Bytes) (draws : List Draw) (sized : ∀ d ∈ draws, d.Sized) :
    let reader : BitReader := ⟨data, [], false⟩
    let last := ((⟨data, 0, 0, false⟩ : BitInput).drawAll draws).2
    (⟨data, 0, 0, false⟩ : BitInput).drawAll draws = ((reader.drawAll draws).1, last) ∧
    last.reader = (reader.drawAll draws).2 ∧ last.held ≤ 7 ∧
    (∃ s : BitStream, Checked.Yields (BitStream.Vast data)
        ((⟨data, 0, 0, 0, false⟩ : BitStream).drawAll draws) ((reader.drawAll draws).1, s) ∧
      s.view = last) ∧
    ∃ touched : List (UInt8 × Bool), data = touched.map Prod.fst ++ last.rest ∧
      reader.usedUp draws ++ last.reader.left = touched.flatMap fun (b, o) => byteDigits o b := by
  intro reader last
  have tidy : (⟨data, 0, 0, false⟩ : BitInput).Tidy := tidy_of_held_eq_zero
  have sound : (⟨data, 0, 0, 0, false⟩ : BitStream).Sound :=
    ⟨Nat.zero_le _, (by decide : 0 < 8), 0, BitStream.holds_zero _ _ _⟩
  have view : (⟨data, 0, 0, 0, false⟩ : BitStream).view = ⟨data, 0, 0, false⟩ :=
    BitStream.view_eq (BitStream.holds_zero data 0 false)
  obtain ⟨answers, ended, tidyLast⟩ := drawAll_reader tidy draws
  obtain ⟨s, yields, left⟩ := BitStream.drawAll_view sound sized
  rw [view] at yields left
  obtain ⟨touched, rest, bits⟩ := reader.spends_drawAll draws
  have same : last.reader = (reader.drawAll draws).2 := ended
  refine ⟨Prod.ext answers rfl, same, Nat.le_of_lt_succ tidyLast.few, ⟨s, ?_, left⟩, touched, ?_,
    ?_⟩
  · rw [answers] at yields
    exact yields
  · rw [← same] at rest
    exact rest
  · rw [same]
    exact bits

/-- Three bits; seven in the other order, for which five are discarded; sixteen, which are refused;
and a byte, for which one bit is discarded. -/
theorem four_calls_on_three_bytes :
    let draws : List Draw := [.bits 3 false, .bits 7 true, .bits 16 true, .bytes 1]
    (∀ d ∈ draws, d.Sized) ∧
    (⟨[0xa5, 0x3c, 0x0f], 0, 0, false⟩ : BitInput).drawAll draws =
      ([.number 5, .number 30, .nothing, .bytes [0x0f]], ⟨[], 0, 0, true⟩) ∧
    (∃ s : BitStream, Checked.Yields (BitStream.Vast [0xa5, 0x3c, 0x0f])
        ((⟨[0xa5, 0x3c, 0x0f], 0, 0, 0, false⟩ : BitStream).drawAll draws)
        ([.number 5, .number 30, .nothing, .bytes [0x0f]], s) ∧
      s.view = ⟨[], 0, 0, true⟩) := by
  intro draws
  have sized : ∀ d ∈ draws, d.Sized := by
    simp only [draws, List.mem_cons, List.not_mem_nil, or_false]
    rintro d (rfl | rfl | rfl | rfl)
    · exact (by decide : 3 ≤ 16)
    · exact (by decide : 7 ≤ 16)
    · exact Nat.le_refl 16
    · exact trivial
  have course : (⟨[0xa5, 0x3c, 0x0f], [], false⟩ : BitReader).drawAll draws =
      ([.number 5, .number 30, .nothing, .bytes [0x0f]], ⟨[], [], true⟩) := by
    decide
  have left :
      ((⟨[0xa5, 0x3c, 0x0f], 0, 0, false⟩ : BitInput).drawAll draws).2 = ⟨[], 0, 0, true⟩ := by
    decide
  obtain ⟨whole, _, _, buffer, _⟩ := input_reads_bit_by_bit [0xa5, 0x3c, 0x0f] draws sized
  rw [course, left] at whole buffer
  exact ⟨sized, whole, buffer⟩

end BitInput

end SigComp
