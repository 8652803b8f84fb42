import SigComp.Proofs.BitReading
import SigComp.Proofs.OperandScanning

/-!
# Huffman codes

INPUT-HUFFMAN reads a code from the input in parts.  Each group of operands extends the code by a
number of bits and holds a range of codes, and the first group that holds the code decides.

* `HuffmanGroup`, `Instruction.huffmanOperands`: the operands.
* `Huffman.code`: the code that some groups read from the bits to come, and `Huffman.Passes`:
  groups that are read and none of which holds its code.
* `Huffman.Decides`: what must come about in each of the four cases; one of them is always the
  case (`Huffman.exists_decision`).
* `BitReader.past`, `Frame.Draws`: what is left of the input when a number of bits has been read.
* `huffman_code_decides`: every INPUT-HUFFMAN decides that way.
-/

namespace SigComp

/-- A group of a Huffman code: how many bits it adds to the code, the codes that it holds, and what
the lowest of these stands for. -/
structure HuffmanGroup where
  bits : UInt16
  lower : UInt16
  upper : UInt16
  uncompressed : UInt16
  deriving DecidableEq

/-- The operands of INPUT-HUFFMAN. -/
structure HuffmanOperands where
  target : UInt16
  underflow : UInt16
  groups : List HuffmanGroup
  deriving DecidableEq

/-- A code lies in the range of a group. -/
def HuffmanGroup.Holds (g : HuffmanGroup) (code : Nat) : Prop :=
  g.lower.toNat ≤ code ∧ code ≤ g.upper.toNat

instance (g : HuffmanGroup) (code : Nat) : Decidable (g.Holds code) :=
  inferInstanceAs (Decidable (_ ∧ _))

/-- The word that a code in the range of a group stands for. -/
def HuffmanGroup.decoded (g : HuffmanGroup) (code : Nat) : UInt16 :=
  UInt16.ofNat code + g.uncompressed - g.lower

/-! ## Codes -/

namespace Huffman

variable {reversed : Bool} {coming : List Bool} {groups passed behind : List HuffmanGroup}
  {g : HuffmanGroup}

/-- The number of bits that groups read. -/
def total (groups : List HuffmanGroup) : Nat := groups.foldr (fun g n => g.bits.toNat + n) 0

/-- The next `n` bits, in the opposite order if so asked. -/
def field (reversed : Bool) (n : Nat) (coming : List Bool) : List Bool :=
  if reversed then (coming.take n).reverse else coming.take n

/-- The fields that groups read, one behind the other. -/
def fields (reversed : Bool) : List HuffmanGroup → List Bool → List Bool
  | [], _ => []
  | g :: rest, coming =>
    field reversed g.bits.toNat coming ++ fields reversed rest (coming.drop g.bits.toNat)

/-- The code that groups read from the bits to come: the fields together, as a number. -/
def code (reversed : Bool) (coming : List Bool) (groups : List HuffmanGroup) : Nat :=
  number (fields reversed groups coming)

/-- Groups are read, sixteen bits at most, and none of them holds the code read so far. -/
structure Passes (reversed : Bool) (coming : List Bool) (groups : List HuffmanGroup) : Prop where
  short : total groups ≤ 16
  there : total groups ≤ coming.length
  missed : ∀ before g, before ++ [g] <+: groups → ¬ g.Holds (code reversed coming (before ++ [g]))

/-- What must come about when a group is read behind others that have been passed. -/
structure Turns (reversed : Bool) (coming : List Bool) (passed : List HuffmanGroup)
    (g : HuffmanGroup) (found ended tooLong : Prop) : Prop where
  /-- The group holds the code. -/
  found : total (passed ++ [g]) ≤ 16 → total (passed ++ [g]) ≤ coming.length →
    g.Holds (code reversed coming (passed ++ [g])) → found
  /-- The input ends before all the bits of the group are read. -/
  ended : total (passed ++ [g]) ≤ 16 → coming.length < total (passed ++ [g]) → ended
  /-- The group would make the code longer than sixteen bits. -/
  tooLong : 16 < total (passed ++ [g]) → tooLong

/-- What must come about when groups are read behind others that have been passed: something at the
first of them that is not passed too, or something else if all of them are. -/
structure Decides (reversed : Bool) (coming : List Bool) (passed behind : List HuffmanGroup)
    (found : List HuffmanGroup → HuffmanGroup → Prop) (ended : List HuffmanGroup → Prop)
    (tooLong unmatched : Prop) : Prop where
  group : ∀ more g rest, behind = more ++ g :: rest → Passes reversed coming (passed ++ more) →
    Turns reversed coming (passed ++ more) g (found (passed ++ more) g)
      (ended (passed ++ more)) tooLong
  unmatched : Passes reversed coming (passed ++ behind) → unmatched

theorem total_append (first second : List HuffmanGroup) :
    total (first ++ second) = total first + total second := by
  induction first with
  | nil => exact (Nat.zero_add _).symm
  | cons g rest ih =>
    have front (groups : List HuffmanGroup) : total (g :: groups) = g.bits.toNat + total groups :=
      rfl
    rw [List.cons_append, front, front, ih, Nat.add_assoc]

theorem total_singleton (g : HuffmanGroup) : total [g] = g.bits.toNat := Nat.add_zero _

theorem length_field {n : Nat} (there : n ≤ coming.length) :
    (field reversed n coming).length = n := by
  unfold field
  split
  · rw [List.length_reverse, List.length_take_of_le there]
  · exact List.length_take_of_le there

theorem fields_append (first second : List HuffmanGroup) :
    fields reversed (first ++ second) coming =
      fields reversed first coming ++ fields reversed second (coming.drop (total first)) := by
  induction first generalizing coming with
  | nil => rfl
  | cons g rest ih =>
    rw [List.cons_append, fields, ih, fields, List.append_assoc, List.drop_drop]
    rfl

/-- A group puts its field behind the code. -/
theorem code_concat (there : total (passed ++ [g]) ≤ coming.length) :
    code reversed coming (passed ++ [g]) = code reversed coming passed <<< g.bits.toNat +
      number (field reversed g.bits.toNat (coming.drop (total passed))) := by
  rw [total_append, total_singleton] at there
  have room : g.bits.toNat ≤ (coming.drop (total passed)).length := by
    rw [List.length_drop]
    omega
  rw [code, fields_append, fields, fields, List.append_nil, number_append, length_field room]
  rfl

theorem passes_nil (reversed : Bool) (coming : List Bool) : Passes reversed coming [] where
  short := Nat.zero_le _
  there := Nat.zero_le _
  missed before g front := by
    rw [List.prefix_nil] at front
    exact absurd front (List.concat_ne_nil g before)

theorem passes_concat (passes : Passes reversed coming passed) (short : total (passed ++ [g]) ≤ 16)
    (there : total (passed ++ [g]) ≤ coming.length)
    (missed : ¬ g.Holds (code reversed coming (passed ++ [g]))) :
    Passes reversed coming (passed ++ [g]) := by
  refine ⟨short, there, fun before h front => ?_⟩
  rcases List.prefix_concat_iff.1 front with same | earlier
  · obtain ⟨rfl, rfl⟩ := List.append_singleton_inj.1 same
    exact missed
  · exact passes.missed before h earlier

/-- Of groups that are passed each reads its bits and holds another code. -/
theorem Passes.front (passes : Passes reversed coming (passed ++ g :: behind)) :
    total (passed ++ [g]) ≤ 16 ∧ total (passed ++ [g]) ≤ coming.length ∧
      ¬ g.Holds (code reversed coming (passed ++ [g])) := by
  have whole : passed ++ g :: behind = passed ++ [g] ++ behind := by
    rw [List.append_assoc, List.singleton_append]
  have short := passes.short
  have there := passes.there
  rw [whole, total_append] at short there
  exact ⟨by omega, by omega, passes.missed passed g ⟨behind, whole.symm⟩⟩

/-- One of the four is the case. -/
theorem exists_decision (reversed : Bool) (coming : List Bool) (groups : List HuffmanGroup) :
    Passes reversed coming groups ∨
      ∃ passed g rest, groups = passed ++ g :: rest ∧ Passes reversed coming passed ∧
        (16 < total (passed ++ [g]) ∨ coming.length < total (passed ++ [g]) ∨
          g.Holds (code reversed coming (passed ++ [g]))) := by
  induction groups using List.reverseRecOn with
  | nil => exact .inl (passes_nil reversed coming)
  | append_singleton groups g ih =>
    rcases ih with passes | ⟨passed, h, rest, rfl, passes, decided⟩
    · by_cases decided : 16 < total (groups ++ [g]) ∨ coming.length < total (groups ++ [g]) ∨
          g.Holds (code reversed coming (groups ++ [g]))
      · exact .inr ⟨groups, g, [], rfl, passes, decided⟩
      · rw [not_or, not_or, Nat.not_lt, Nat.not_lt] at decided
        exact .inl (passes_concat passes decided.1 decided.2.1 decided.2.2)
    · refine .inr ⟨passed, h, rest ++ [g], ?_, passes, decided⟩
      rw [List.append_assoc, List.cons_append]

namespace Decides

variable {found found' : List HuffmanGroup → HuffmanGroup → Prop}
  {ended ended' : List HuffmanGroup → Prop} {tooLong tooLong' unmatched unmatched' : Prop}

theorem imp (h : Decides reversed coming passed behind found ended tooLong unmatched)
    (hf : ∀ groups g, found groups g → found' groups g)
    (he : ∀ groups, ended groups → ended' groups)
    (hl : tooLong → tooLong') (hu : unmatched → unmatched') :
    Decides reversed coming passed behind found' ended' tooLong' unmatched' where
  group more g rest split passes :=
    have turns := h.group more g rest split passes
    ⟨fun short there holds => hf _ _ (turns.found short there holds),
      fun short ends => he _ (turns.ended short ends), fun long => hl (turns.tooLong long)⟩
  unmatched passes := hu (h.unmatched passes)

/-- Nothing is left to be read. -/
theorem nil (holds : unmatched) :
    Decides reversed coming passed [] found ended tooLong unmatched where
  group more g rest split := by simp at split
  unmatched _ := holds

/-- The next group decides, or it is passed and what is decided comes behind it. -/
theorem cons (first : Turns reversed coming passed g (found passed g) (ended passed) tooLong)
    (later : total (passed ++ [g]) ≤ 16 → total (passed ++ [g]) ≤ coming.length →
      ¬ g.Holds (code reversed coming (passed ++ [g])) →
      Decides reversed coming (passed ++ [g]) behind found ended tooLong unmatched) :
    Decides reversed coming passed (g :: behind) found ended tooLong unmatched := by
  have along {more : List HuffmanGroup} : passed ++ [g] ++ more = passed ++ g :: more := by
    rw [List.append_assoc, List.singleton_append]
  constructor
  · intro more h rest split passes
    cases more with
    | nil =>
      cases split
      rw [List.append_nil]
      exact first
    | cons k more =>
      cases split
      obtain ⟨short, there, missed⟩ := passes.front
      have next := (later short there missed).group more h rest rfl
      rw [along] at next
      exact next passes
  · intro passes
    obtain ⟨short, there, missed⟩ := passes.front
    have next := (later short there missed).unmatched
    rw [along] at next
    exact next passes

end Decides

end Huffman

/-! ## Reading a field -/

namespace BitReader

variable {r q : BitReader} {n k : Nat} {o : Bool}

/-- The reader after the next `n` bits in an order.  If there are none to be read, the order is not
changed either. -/
def past (r : BitReader) (n : Nat) (o : Bool) : BitReader :=
  if n = 0 then r else (r.draw (.bits n o)).2

/-- The bits to come if they are read in an order. -/
def bits (r : BitReader) (o : Bool) : List Bool := (r.ordered o).coming

/-- The reader after bits that are there. -/
theorem exists_past (r : BitReader) (o : Bool) (there : n ≤ (r.bits o).length) :
    ∃ q, (r.ordered o).take? n = some ((r.bits o).take n, q) ∧
      (r.past n o).ordered o = q ∧ q.coming = (r.bits o).drop n := by
  obtain ⟨q, taken, left, order⟩ := exists_take? there
  refine ⟨q, taken, ?_, left⟩
  unfold past
  split
  · next none =>
    subst none
    exact congrArg Prod.snd (Option.some.inj taken)
  · rw [draw_of_some taken]
    rw [lsbFirst_ordered] at order
    rw [ordered, if_pos order.symm]

/-- Bits that are read in two goes. -/
theorem past_add {ds : List Bool} (more : k ≠ 0) (there : n ≤ (r.bits o).length)
    (taken : ((r.past n o).ordered o).take? k = some (ds, q)) : r.past (n + k) o = q := by
  obtain ⟨p, first, same, -⟩ := exists_past r o there
  rw [same] at taken
  have whole : (r.ordered o).take? (n + k) = some ((r.bits o).take n ++ ds, q) := by
    rw [take?_add, first]
    simp only [Option.bind_some, taken, Option.map_some]
  rw [past, if_neg (by omega), draw_of_some whole]

end BitReader

/-- The frame `f` comes after `start`: `n` bits of input have been read in an order, and the cycles
for them have been granted. -/
structure Frame.Draws (start f : Frame) (memory : Memory) (n : Nat) (lsbFirst : Bool) : Prop where
  memory : f.memory = memory
  input : f.input.reader = start.input.reader.past n lsbFirst
  tidy : f.input.Tidy
  target : f.budget.target = start.budget.target + n * start.budget.perBit
  perBit : f.budget.perBit = start.budget.perBit

/-- The bits of input to come, in the order that the register of input order asks for. -/
def Frame.coming (f : Frame) (order : UInt16) : List Bool :=
  f.input.reader.bits (Instruction.isSet order Instruction.bitP)

namespace Instruction

open Exec Huffman

/-- A number whose bits are put in the opposite order, if so asked. -/
theorem arranged_number (reversed : Bool) (ds : List Bool) :
    arranged reversed ds.length (number ds) = number (if reversed then ds.reverse else ds) := by
  unfold arranged
  split
  · have bits := digits_reverseBits ds.length (number ds)
    rw [digits_number] at bits
    rw [← bits, number_digits (reverseBits_lt _ _)]
  · rfl

section Field

variable {start f : Frame} {memory : Memory} {n k : Nat} {o : Bool}

/-- Bits that are there are the next ones. -/
theorem drawBits_there (draws : start.Draws f memory n o) (more : k ≠ 0)
    (there : n + k ≤ (start.input.reader.bits o).length) :
    ∃ input budget, drawBits k o f =
        .ok (some (number (((start.input.reader.bits o).drop n).take k)))
          { f with input, budget } ∧
      start.Draws { f with input, budget } memory (n + k) o := by
  obtain ⟨q, -, ready, left⟩ := BitReader.exists_past start.input.reader o
    (Nat.le_trans (Nat.le_add_right n k) there)
  obtain ⟨next, taken, -, -⟩ := BitReader.exists_take? (r := q) (n := k)
    (by rw [left, List.length_drop]; omega)
  have read := BitInput.takeBits?_reader draws.tidy k o
  rw [draws.input, ready, taken] at read
  rw [drawBits]
  cases drawn : f.input.takeBits? k o with
  | none =>
    rw [drawn] at read
    cases read
  | some pair =>
    obtain ⟨v, input⟩ := pair
    rw [drawn] at read
    obtain ⟨small, tidy⟩ := draws.tidy.takeBits? drawn
    obtain ⟨bits, whole⟩ := Prod.mk.inj (Option.some.inj read)
    have value := number_digits small
    rw [← bits, left] at value
    refine ⟨input, Budget.grant f.budget k, by rw [value], draws.memory, ?_, tidy, ?_, draws.perBit⟩
    · rw [BitReader.past_add more (Nat.le_trans (Nat.le_add_right n k) there) (ready ▸ taken)]
      exact whole.symm
    · simp only [Budget.grant, draws.target, draws.perBit]
      rw [Nat.add_mul, Nat.add_assoc]

/-- Bits that are not there are not read, and nothing is granted for them. -/
theorem drawBits_short (draws : start.Draws f memory n o)
    (there : n ≤ (start.input.reader.bits o).length)
    (short : (start.input.reader.bits o).length < n + k) :
    drawBits k o f = .ok none f := by
  obtain ⟨q, -, ready, left⟩ := BitReader.exists_past start.input.reader o there
  have read := BitInput.takeBits?_reader draws.tidy k o
  rw [draws.input, ready, BitReader.take?_eq_none (by rw [left, List.length_drop]; omega)] at read
  rw [drawBits]
  cases drawn : f.input.takeBits? k o with
  | none => rfl
  | some pair =>
    rw [drawn] at read
    cases read

end Field

/-! ## Extending the code -/

section Extending

variable {start f : Frame} {memory : Memory} {order : UInt16} {passed : List HuffmanGroup}
  {g : HuffmanGroup}

theorem extendCode_there (draws : start.Draws f memory (total passed) (isSet order bitP))
    (short : total (passed ++ [g]) ≤ 16)
    (there : total (passed ++ [g]) ≤ (start.coming order).length) :
    ∃ input budget,
      extendCode order g.bits.toNat (total passed)
          (code (isSet order bitH) (start.coming order) passed) f =
        .ok (some (code (isSet order bitH) (start.coming order)
          (passed ++ [g]))) { f with input, budget } ∧
      start.Draws { f with input, budget } memory (total (passed ++ [g])) (isSet order bitP) := by
  rw [code_concat there]
  rw [total_append, total_singleton] at short there ⊢
  rw [extendCode]
  by_cases none : g.bits.toNat = 0
  · have nothing : field (isSet order bitH) 0
        ((start.coming order).drop (total passed)) = [] := by
      cases isSet order bitH <;> rfl
    rw [none, nothing, if_pos rfl, Nat.shiftLeft_zero]
    exact ⟨f.input, f.budget, rfl, draws⟩
  · rw [if_neg none, if_neg (Nat.not_lt.2 short)]
    obtain ⟨input, budget, drawn, drawsOn⟩ := drawBits_there draws none there
    refine ⟨input, budget, ?_, drawsOn⟩
    rw [bind_of_ok drawn, field]
    have length : (((start.coming order).drop (total passed)).take
        g.bits.toNat).length = g.bits.toNat := by
      rw [List.length_take, List.length_drop]
      omega
    have arranged := arranged_number (isSet order bitH)
      (((start.coming order).drop (total passed)).take g.bits.toNat)
    rw [length] at arranged
    rw [← arranged]
    rfl

theorem extendCode_short {code : Nat}
    (draws : start.Draws f memory (total passed) (isSet order bitP))
    (there : total passed ≤ (start.coming order).length)
    (short : total (passed ++ [g]) ≤ 16)
    (ends : (start.coming order).length < total (passed ++ [g])) :
    extendCode order g.bits.toNat (total passed) code f = .ok none f := by
  rw [total_append, total_singleton] at short ends
  rw [extendCode, if_neg (by omega), if_neg (Nat.not_lt.2 short),
    bind_of_ok (drawBits_short draws there ends)]
  rfl

theorem extendCode_long {code : Nat} (short : total passed ≤ 16)
    (long : 16 < total (passed ++ [g])) :
    extendCode order g.bits.toNat (total passed) code f = .error .huffmanBits f := by
  rw [total_append, total_singleton] at long
  rw [extendCode, if_neg (by omega), if_pos long]
  rfl

end Extending

/-! ## Operands -/

/-- The operands of a group. -/
def huffmanGroup : Exec HuffmanGroup := do
  let bits ← multitype
  let lower ← multitype
  let upper ← multitype
  let uncompressed ← multitype
  return ⟨bits, lower, upper, uncompressed⟩

/-- The operands of the next `n` groups. -/
def huffmanGroups : Nat → Exec (List HuffmanGroup)
  | 0 => return []
  | n + 1 => do
    let g ← huffmanGroup
    let rest ← huffmanGroups n
    return g :: rest

/-- All operands of INPUT-HUFFMAN. -/
def huffmanOperands : Exec HuffmanOperands := do
  let target ← multitype
  let underflow ← address
  let count ← literal
  let groups ← huffmanGroups count.toNat
  return ⟨target, underflow, groups⟩

theorem scans_huffmanGroup : Scans huffmanGroup :=
  .bind .multitype fun _ => .bind .multitype fun _ => .bind .multitype fun _ =>
    .bind .multitype fun _ => .pure _

theorem scans_huffmanGroups : ∀ n, Scans (huffmanGroups n)
  | 0 => .pure _
  | n + 1 => .bind scans_huffmanGroup fun _ => .bind (scans_huffmanGroups n) fun _ => .pure _

section Operands

variable {f last : Frame} {n : Nat} {g : HuffmanGroup} {groups : List HuffmanGroup}

theorem huffmanGroups_succ (read : huffmanGroups (n + 1) f = .ok groups last) :
    ∃ g rest h, huffmanGroup f = .ok g h ∧ huffmanGroups n h = .ok rest last ∧
      groups = g :: rest := by
  obtain ⟨g, h, first, read⟩ := bind_eq_ok read
  obtain ⟨rest, k, second, read⟩ := bind_eq_ok read
  cases read
  exact ⟨g, rest, h, first, second, rfl⟩

/-- Groups can be read over. -/
theorem skip_of_huffmanGroups (read : huffmanGroups n f = .ok groups last) :
    skip (4 * n) f = .ok () last := by
  induction n generalizing f groups with
  | zero =>
    cases read
    rfl
  | succ n ih =>
    obtain ⟨g, rest, h, first, second, rfl⟩ := huffmanGroups_succ read
    obtain ⟨bits, f₁, ran₁, first⟩ := bind_eq_ok first
    obtain ⟨lower, f₂, ran₂, first⟩ := bind_eq_ok first
    obtain ⟨upper, f₃, ran₃, first⟩ := bind_eq_ok first
    obtain ⟨uncompressed, f₄, ran₄, first⟩ := bind_eq_ok first
    cases first
    rw [Nat.mul_succ, skip, bind_of_ok ran₁, skip, bind_of_ok ran₂, skip, bind_of_ok ran₃, skip,
      bind_of_ok ran₄]
    exact ih second

end Operands

/-! ## Decoding -/

/-- What comes of a group, now that the code has been extended or could not be.  There are `n`
groups behind it. -/
def resolve (target underflow order : UInt16) (n spent : Nat) (g : HuffmanGroup) :
    Option Nat → Exec Outcome
  | none => return .go underflow
  | some code =>
    if g.Holds code then do
      writeWord target (g.decoded code)
      skip (4 * n)
      proceed
    else decode target underflow order n (spent + g.bits.toNat) code

/-- Decoding is reading a group, extending the code, and looking whether the group has it. -/
theorem decode_succ (target underflow order : UInt16) (n spent code : Nat) :
    (do
      let g ← huffmanGroup
      let extended ← extendCode order g.bits.toNat spent code
      resolve target underflow order n spent g extended) =
      decode target underflow order (n + 1) spent code := by
  simp only [decode, huffmanGroup, bind_assoc, pure_bind]
  rfl

section Decoding

variable {start f last : Frame} {target underflow order : UInt16}
  {passed behind : List HuffmanGroup} {g : HuffmanGroup} {n : Nat} {input : BitInput}
  {budget : Budget}

/-- What decoding has come to in each of the four cases. -/
def Decoded (start : Frame) (target underflow order : UInt16) (stop : Nat)
    (passed behind : List HuffmanGroup) (result : EStateM.Result Failure Frame Outcome) : Prop :=
  Decides (isSet order bitH) (start.coming order) passed behind
    (fun upTo g => ∃ f, result = .ok (.go (UInt16.ofNat stop)) f ∧
      start.Draws f (start.memory.setWord target
        (g.decoded (code (isSet order bitH) (start.coming order) (upTo ++ [g]))))
        (total (upTo ++ [g])) (isSet order bitP))
    (fun upTo => ∃ f, result = .ok (.go underflow) f ∧
      start.Draws f start.memory (total upTo) (isSet order bitP))
    (∃ f, result = .error .huffmanBits f)
    (∃ f, result = .error .huffmanMatch f)

/-- A decoded word is stored, and the groups behind the one that decided are read over: they end
where they did before the word was stored. -/
theorem store_and_skip {v : UInt16} (groups : huffmanGroups n f = .ok behind last)
    (inside : target.toNat + 2 ≤ f.memory.size)
    (apart : target.toNat + 2 ≤ f.cursor ∨ last.cursor ≤ target.toNat) :
    ((do
      writeWord target v
      skip (4 * n)
      proceed) : Exec Outcome) { f with input, budget } =
      .ok (.go (UInt16.ofNat last.cursor))
        { f with cursor := last.cursor, memory := f.memory.setWord target v, input, budget } := by
  have stored : writeWord target v { f with input, budget } =
      .ok () { f with memory := f.memory.setWord target v, input, budget } := by
    simp only [writeWord, onMemory, Memory.writeWord, if_pos inside]
  have agrees :
      f.Agrees { f with memory := f.memory.setWord target v, input, budget } last.cursor :=
    ⟨rfl, rfl, Memory.size_setWord _ _ _, fun b left right =>
      Memory.get?_setWord_of_ne _ (by omega) (by omega)⟩
  rw [bind_of_ok stored, bind_of_ok (Spans.skip_alike (skip_of_huffmanGroups groups) agrees)]
  rfl

/-- What is decided group by group: the next one decides, or what comes behind it does. -/
theorem decoded_decode (groups : huffmanGroups n f = .ok behind last)
    (inside : target.toNat + 2 ≤ start.memory.size)
    (apart : target.toNat + 2 ≤ f.cursor ∨ last.cursor ≤ target.toNat)
    (draws : start.Draws { f with input, budget } start.memory (total passed) (isSet order bitP))
    (short : total passed ≤ 16)
    (there : total passed ≤ (start.coming order).length) :
    Decoded start target underflow order last.cursor passed behind
      (decode target underflow order n (total passed)
        (code (isSet order bitH) (start.coming order) passed)
        { f with input, budget }) := by
  induction n generalizing f behind passed input budget with
  | zero =>
    cases groups
    exact .nil ⟨_, rfl⟩
  | succ n ih =>
    obtain ⟨g, rest, h, first, second, rfl⟩ := huffmanGroups_succ groups
    obtain ⟨forth, moved, same⟩ := scans_huffmanGroup f g h first
    have kept : h.memory = start.memory := by
      rw [moved]
      exact draws.memory
    have place :
        ({ f with cursor := h.cursor, input, budget } : Frame) = { h with input, budget } := by
      rw [moved]
    have drawsOn : start.Draws { h with input, budget } start.memory (total passed)
        (isSet order bitP) := ⟨kept, draws.input, draws.tidy, draws.target, draws.perBit⟩
    rw [← decode_succ, bind_of_ok (same input budget), place]
    refine .cons ⟨fun shortOn thereOn holds => ?_, fun shortOn ends => ?_, fun long => ?_⟩
      fun shortOn thereOn missed => ?_
    · obtain ⟨input', budget', extended, drawsLater⟩ := extendCode_there drawsOn shortOn thereOn
      rw [bind_of_ok extended, resolve, if_pos holds]
      have fits : target.toNat + 2 ≤ h.memory.size := by rwa [kept]
      refine ⟨_, store_and_skip (f := h) second fits (by omega), ?_⟩
      exact ⟨congrArg (Memory.setWord · _ _) kept, drawsLater.input, drawsLater.tidy,
        drawsLater.target, drawsLater.perBit⟩
    · rw [bind_of_ok (extendCode_short drawsOn there shortOn ends)]
      exact ⟨_, rfl, drawsOn⟩
    · rw [bind_of_error (extendCode_long short long)]
      exact ⟨_, rfl⟩
    · obtain ⟨input', budget', extended, drawsLater⟩ := extendCode_there drawsOn shortOn thereOn
      rw [bind_of_ok extended, resolve, if_neg missed]
      have later := ih second (by omega) drawsLater shortOn thereOn
      rwa [total_append, total_singleton] at later

end Decoding

/-- INPUT-HUFFMAN reads the operands in front of the groups, and then decodes. -/
theorem inputHuffman_of_operands {f last : Frame} {o : HuffmanOperands} {order : UInt16}
    (operands : huffmanOperands f = .ok o last)
    (register : f.memory.word? Memory.inputBitOrder = some order) :
    ∃ n g budget, huffmanGroups n g = .ok o.groups last ∧
      g = { f with cursor := g.cursor } ∧ f.cursor ≤ g.cursor ∧
      budget.target = f.budget.target ∧ budget.perBit = f.budget.perBit ∧
      inputHuffman f = decode o.target o.underflow order n 0 0 { g with budget } := by
  obtain ⟨target, f₁, ran₁, operands⟩ := bind_eq_ok operands
  obtain ⟨underflow, f₂, ran₂, operands⟩ := bind_eq_ok operands
  obtain ⟨count, f₃, ran₃, operands⟩ := bind_eq_ok operands
  obtain ⟨groups, f₄, read, operands⟩ := bind_eq_ok operands
  cases operands
  obtain ⟨forth₁, moved₁, -⟩ := Scans.multitype f target f₁ ran₁
  obtain ⟨forth₂, moved₂, -⟩ := Scans.address f₁ underflow f₂ ran₂
  obtain ⟨forth₃, moved₃, -⟩ := Scans.literal f₂ count f₃ ran₃
  rw [moved₁] at moved₂
  rw [moved₂] at moved₃
  refine ⟨count.toNat, f₃, { f₃.budget with total := f₃.budget.total + count.toNat }, read, moved₃,
    by omega, ?_, ?_, ?_⟩
  · rw [moved₃]
  · rw [moved₃]
  · have same : f₃.memory = f.memory := by rw [moved₃]
    have charged : charge count.toNat f₃ = .ok () { f₃ with
        budget := { f₃.budget with total := f₃.budget.total + count.toNat } } := rfl
    rw [inputHuffman, bind_of_ok ran₁, bind_of_ok ran₂, bind_of_ok ran₃, bind_of_ok charged]
    refine bind_of_ok ?_ _
    simp only [readWord, onMemory, Memory.readWord, same, register]

end Instruction

namespace Machine

open Exec Huffman Instruction

/-- At an INPUT-HUFFMAN whose operands all decode, whose destination lies in memory apart from the
instruction, and whose register of input order is there, exactly one of four things happens, decided
by the first group that is not passed.  It holds the code so far: the word for it is stored, and the
machine goes on behind the last group.  The input ends before it: nothing is stored, what it would
have read is not read, and the machine goes on at the other address.  It would make the code longer
than sixteen bits, or there is no such group: the machine fails.  What has been read are the bits of
the groups up to there and no others, and cycles are granted for these. -/
theorem huffman_code_decides {m : Machine} {o : HuffmanOperands} {last : Frame} {order : UInt16}
    (store : Store) (fetched : m.fetch = .ok .inputHuffman) (tidy : m.input.Tidy)
    (operands : huffmanOperands m.frame = .ok o last)
    (inside : o.target.toNat + 2 ≤ m.memory.size)
    (apart : o.target.toNat + 2 ≤ m.pc.toNat ∨ last.cursor ≤ o.target.toNat)
    (register : m.memory.word? Memory.inputBitOrder = some order) :
    let reversed := isSet order bitH
    let coming := m.frame.coming order
    (Passes reversed coming o.groups ∨
      ∃ passed g rest, o.groups = passed ++ g :: rest ∧ Passes reversed coming passed ∧
        (16 < total (passed ++ [g]) ∨ coming.length < total (passed ++ [g]) ∨
          g.Holds (code reversed coming (passed ++ [g])))) ∧
    Decides reversed coming [] o.groups
      (fun passed g => ∃ p, step store m = .ok () p ∧ p.pc = UInt16.ofNat last.cursor ∧
        m.frame.Draws p.frame
          (m.memory.setWord o.target (g.decoded (code reversed coming (passed ++ [g]))))
          (total (passed ++ [g])) (isSet order bitP))
      (fun passed => ∃ p, step store m = .ok () p ∧ p.pc = o.underflow ∧
        m.frame.Draws p.frame m.memory (total passed) (isSet order bitP))
      (∃ p, step store m = .error .huffmanBits p)
      (∃ p, step store m = .error .huffmanMatch p) := by
  intro reversed coming
  obtain ⟨n, f, budget, groups, moved, forth, granted, perBit, run⟩ :=
    inputHuffman_of_operands operands register
  have begun : m.frame.Draws { f with budget } m.frame.memory (total []) (isSet order bitP) := by
    rw [moved]
    have nothing : total [] * m.frame.budget.perBit = 0 := Nat.zero_mul _
    exact ⟨rfl, rfl, tidy, by rw [nothing]; exact granted, perBit⟩
  have above : m.pc.toNat + 1 ≤ f.cursor := forth
  have decoded : Decoded m.frame o.target o.underflow order last.cursor [] o.groups
      (inputHuffman m.frame) := by
    rw [run]
    exact decoded_decode groups inside (by omega) begun (Nat.zero_le _) (Nat.zero_le _)
  refine ⟨exists_decision reversed coming o.groups, decoded.imp ?_ ?_ ?_ ?_⟩
  · rintro passed g ⟨f', result, draws⟩
    exact ⟨_, step_of_ok fetched result, rfl, draws.memory, draws.input, draws.tidy,
      draws.target, draws.perBit⟩
  · rintro passed ⟨f', result, draws⟩
    exact ⟨_, step_of_ok fetched result, rfl, draws.memory, draws.input, draws.tidy,
      draws.target, draws.perBit⟩
  · rintro ⟨f', result⟩
    exact ⟨_, step_of_error fetched result⟩
  · rintro ⟨f', result⟩
    exact ⟨_, step_of_error fetched result⟩

/-- A machine at an INPUT-HUFFMAN that has two groups of one bit each.  Bits are read from the least
significant end. -/
def twoBits : Machine where
  pc := 0
  memory := ⟨#[0x1e, 40, 16, 2, 1, 0, 0, 7, 1, 2, 3, 33] ++ Array.replicate 57 0 ++ #[3]⟩
  input := ⟨[0x05], 0, 0, false⟩
  budget := ⟨0, 10, 4⟩
  output := #[]
  outputCapacity := 0
  instructions := 0
  completion := none
  requests := []
  feedbackAt := 0
  parametersAt := 0

/-- The first bit is not a code, but both are: the second group has it, and stands for 33. -/
theorem second_group_has_code :
    ∃ o last, huffmanOperands twoBits.frame = .ok o last ∧ o.target = 40 ∧
      ∃ p, step (.ofSettings {}) twoBits = .ok () p ∧ p.pc = UInt16.ofNat last.cursor ∧
        twoBits.frame.Draws p.frame (twoBits.memory.setWord 40 33) 2 true := by
  let first : HuffmanGroup := ⟨1, 0, 0, 7⟩
  let second : HuffmanGroup := ⟨1, 2, 3, 33⟩
  let ahead : List Bool := [true, false, true, false, false, false, false, false]
  have course : EStateM.run' (do return (← huffmanOperands, ← position)) twoBits.frame =
      some (⟨40, 16, [first, second]⟩, 12) := by
    decide +kernel
  obtain ⟨g, run⟩ := exists_of_run' course
  obtain ⟨o, last, operands, run⟩ := bind_eq_ok run
  obtain ⟨rfl, cursor⟩ := Prod.mk.inj (EStateM.Result.ok.inj run).1
  have register : twoBits.memory.word? Memory.inputBitOrder = some 3 := by decide +kernel
  have coming : twoBits.frame.coming 3 = ahead := by decide +kernel
  obtain ⟨-, decides⟩ := huffman_code_decides (.ofSettings {}) (by decide +kernel)
    BitInput.tidy_of_held_eq_zero operands (by decide +kernel) (.inr (by rw [cursor]; decide))
      register
  rw [coming] at decides
  have passes : Passes true ahead ([] ++ [first]) :=
    passes_concat (passes_nil _ _) (by decide) (by decide) (by decide)
  have turns := decides.group [first] second [] rfl passes
  obtain ⟨p, done, next, draws⟩ := turns.found (by decide) (by decide) (by decide)
  have value : second.decoded (code true ahead ([] ++ [first] ++ [second])) = 33 := by decide
  have reversed : isSet 3 bitH = true := by decide
  have lsbFirst : isSet 3 bitP = true := by decide
  rw [reversed, value, lsbFirst] at draws
  exact ⟨_, last, operands, rfl, p, done, next, draws⟩

end Machine

end SigComp
