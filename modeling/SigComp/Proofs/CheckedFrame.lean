import SigComp.Checked.Frame
import SigComp.Proofs.CheckedInput
import SigComp.Proofs.CheckedMemory

/-!
# Checked actions track actions

A checked action tracks an action if, from every sound frame, it has the same outcome
and leaves a sound frame behind.  It may be stopped only by an overflow, and only with an
excuse.  Tracking is closed under `bind`, so an instruction is checked step by step.

What a frame has spent is bounded before and after: only `Tracks.charge` raises the bound.
-/

namespace SigComp.Checked

/-! ## Numbers in operands -/

theorem toNat_and_le (b mask : UInt8) : (b &&& mask).toNat ≤ mask.toNat := by
  rw [UInt8.toNat_and]
  exact Nat.and_le_right

/-- A word whose first byte is bounded. -/
theorem toNat_word_lt {high : UInt8} {n : Nat} (low : UInt8) (h : high.toNat ≤ n) :
    (word high low).toNat < (n + 1) * 256 := by
  have := low.toNat_lt
  rw [toNat_word]
  omega

theorem double_ok {w : UInt16} (h : w.toNat < 32768) : mul16 w 2 = .ok (w * 2) := by
  refine mul16_ok ?_
  show w.toNat * 2 < 65536
  omega

/-- Shifting a one as far as a byte says stays below the top of a word. -/
theorem power_ok {first : UInt8} (from88 : 0x88 ≤ first) (to90 : first < 0x90) :
    power first = .ok (1 <<< (first - 0x80).toUInt16) := by
  have lower : 136 ≤ first.toNat := UInt8.le_iff_toNat_le.1 from88
  have upper : first.toNat < 144 := UInt8.lt_iff_toNat_lt.1 to90
  have value : UInt16.ofNat (1 <<< (first.toNat - 136 + 8) % 1 <<< 16) =
      1 <<< (first - 0x80).toUInt16 := by
    have eight : first = 0x88 ∨ first = 0x89 ∨ first = 0x8a ∨ first = 0x8b ∨ first = 0x8c ∨
        first = 0x8d ∨ first = 0x8e ∨ first = 0x8f := by
      simp only [← UInt8.toNat_inj, UInt8.reduceToNat]
      omega
    rcases eight with rfl | rfl | rfl | rfl | rfl | rfl | rfl | rfl <;> decide
  rw [power, ok_bind (sub_ok lower), ok_bind (add_ok (by omega)), shiftLeft_ok (by omega)]
  exact congrArg _ value

theorem nearTop_ok {first : UInt8} (frome0 : 0xe0 ≤ first) :
    nearTop first = .ok ((first - 0xe0).toUInt16 + 65504) := by
  have lower : 224 ≤ first.toNat := UInt8.le_iff_toNat_le.1 frome0
  have upper := first.toNat_lt
  have value : (first - 0xe0).toNat = first.toNat - 224 := UInt8.toNat_sub_of_le _ _ frome0
  have distance : UInt16.ofNat (first.toNat - 224) = (first - 0xe0).toUInt16 := by
    rw [← value, ← UInt8.toNat_toUInt16, UInt16.ofNat_toNat]
  have top : (65504 : UInt16).toNat = 65504 := rfl
  rw [nearTop, ok_bind (sub_ok lower), distance]
  refine add16_ok ?_
  rw [UInt8.toNat_toUInt16, value, top]
  omega

/-! ## Sound frames -/

/-- Before it charges anything, an instruction has spent less than this. -/
def uncharged : Nat := 1 <<< 63

/-- Whatever it has charged, an instruction has spent less than this, so that there is room for one
cycle more. -/
def charged : Nat := (1 <<< 64) - 1

/-- A frame whose memory and input are as they should be and whose counters have room, unless there
is an excuse. -/
structure Frame.Sound (excuse : Prop) (limit : Nat) (f : Frame) : Prop where
  memory : f.memory.size ≤ 65536
  cursor : 0 < f.cursor
  input : f.input.Sound
  total : ¬ excuse → f.budget.total < limit
  potential : ¬ excuse → f.view.potential < 1 <<< 63
  countable : BitStream.Vast f.input.data → excuse

theorem Frame.Sound.mono {excuse : Prop} {low high : Nat} {f : Frame} (h : f.Sound excuse low)
    (le : low ≤ high) : f.Sound excuse high :=
  ⟨h.memory, h.cursor, h.input, fun honest => Nat.lt_of_lt_of_le (h.total honest) le, h.potential,
    h.countable⟩

/-! ## Tracking -/

/-- The outcomes of a checked action and of an action that say the same. -/
inductive Matched (excuse : Prop) (limit : Nat) {α : Type} :
    EStateM.Result Halt Frame α → EStateM.Result Failure SigComp.Frame α → Prop where
  | ok (a : α) {g : Frame} : g.Sound excuse limit → Matched excuse limit (.ok a g) (.ok a g.view)
  | fault (r : Failure) (g : Frame) : Matched excuse limit (.error (.fault r) g) (.error r g.view)
  | overflow (g : Frame) (result : EStateM.Result Failure SigComp.Frame α) :
    excuse → Matched excuse limit (.error (.trap .overflow) g) result

/-- From frames that have spent less than `low`, a checked action does what an action does, and
leaves frames that have spent less than `high`. -/
def Tracks (excuse : Prop) (low high : Nat) {α : Type} (c : Exec α) (x : SigComp.Exec α) : Prop :=
  ∀ f : Frame, f.Sound excuse low → Matched excuse high (c f) (x f.view)

namespace Tracks

variable {excuse : Prop} {low middle high : Nat} {α β : Type}

protected theorem pure (a : α) : Tracks excuse low low (pure a) (pure a) :=
  fun _ sound => .ok a sound

protected theorem fail (r : Failure) :
    Tracks excuse low high (fail r : Exec α) (Exec.fail r) := fun f _ => .fault r f

protected theorem bind {c : Exec α} {x : SigComp.Exec α} {k : α → Exec β} {l : α → SigComp.Exec β}
    (hx : Tracks excuse low middle c x) (hk : ∀ a, Tracks excuse middle high (k a) (l a)) :
    Tracks excuse low high (c >>= k) (x >>= l) := by
  intro f sound
  have first := hx f sound
  simp only [bind, EStateM.bind]
  generalize c f = outcome, x f.view = outcome' at first
  cases first with
  | ok a sound => exact hk a _ sound
  | fault r g => exact .fault r g
  | overflow g _ excused => exact .overflow g _ excused

theorem weaken {c : Exec α} {x : SigComp.Exec α} (h : Tracks excuse low middle c x)
    (le : middle ≤ high) : Tracks excuse low high c x := by
  intro f sound
  have outcome := h f sound
  generalize c f = r, x f.view = r' at outcome
  cases outcome with
  | ok a sound => exact .ok a (sound.mono le)
  | fault r g => exact .fault r g
  | overflow g _ excused => exact .overflow g _ excused

/-- An instruction that charges nothing leaves the room that there was. -/
theorem late {c : Exec α} {x : SigComp.Exec α} (h : Tracks excuse uncharged uncharged c x) :
    Tracks excuse uncharged charged c x :=
  h.weaken (by decide)

protected theorem ite {p : Prop} [Decidable p] {c d : Exec α} {x y : SigComp.Exec α}
    (yes : p → Tracks excuse low high c x) (no : ¬ p → Tracks excuse low high d y) :
    Tracks excuse low high (if p then c else d) (if p then x else y) := by
  split
  · next h => exact yes h
  · next h => exact no h

/-- A computation in front of a checked action that the action has no need of. -/
theorem still_bind {c : Calc α} {v : α} {k : α → Exec β} {x : SigComp.Exec β}
    (hc : Yields excuse c v) (hk : Tracks excuse low high (k v) x) :
    Tracks excuse low high (liftM c >>= k) x := by
  intro f sound
  obtain rfl | ⟨rfl, excused⟩ := hc
  · exact hk f sound
  · exact .overflow f _ excused

theorem still {c : Calc α} {v : α} (hc : Yields excuse c v) :
    Tracks excuse low low (liftM c) (pure v) := by
  intro f sound
  obtain rfl | ⟨rfl, excused⟩ := hc
  · exact .ok v sound
  · exact .overflow f _ excused

/-! ### Memory -/

/-- An access to memory that keeps its size. -/
theorem onMemory {c : Access α} {x : Memory.Action α} (h : Mirrors excuse c x)
    (size : Memory.KeepsSize x) :
    Tracks excuse low low (onMemory c) (Exec.onMemory x) := by
  rintro ⟨pc, cursor, memory, input, budget⟩ sound
  simp only [Checked.onMemory, Exec.onMemory, Frame.view]
  obtain same | ⟨⟨m, excess⟩, excused⟩ := h memory
  · have kept : ∀ a m, x memory = .ok a m → m.size = memory.size := fun _ _ => size.of_ok
    rw [same]
    generalize x memory = outcome at kept
    cases outcome with
    | ok a m =>
      have fits : m.size ≤ 65536 := (kept a m rfl).symm ▸ sound.memory
      exact .ok a (g := ⟨pc, cursor, m, input, budget⟩)
        ⟨fits, sound.cursor, sound.input, sound.total, sound.potential, sound.countable⟩
    | error r m => exact .fault r ⟨pc, cursor, m, input, budget⟩
  · rw [excess]
    exact .overflow ⟨pc, cursor, m, input, budget⟩ _ excused

protected theorem wordAt (a : UInt16) :
    Tracks excuse low low (wordAt a) (Exec.readWord a) :=
  .onMemory (.of_eq (readWord_eq a)) (.readWord a)

protected theorem putWord (a w : UInt16) :
    Tracks excuse low low (putWord a w) (Exec.writeWord a w) :=
  .onMemory (writeWord_mirrors a w) (.writeWord a w)

/-! ### Operands -/

protected theorem here : Tracks excuse low low here Exec.here := fun f sound => .ok f.pc sound

protected theorem position : Tracks excuse low low position Exec.position :=
  fun f sound => .ok f.cursor sound

protected theorem following : Tracks excuse low low following Exec.following :=
  fun f sound => .ok (UInt16.ofNat f.cursor) sound

/-- Where an instruction begins, and where it goes on. -/
theorem here_position {k : UInt16 → Nat → Exec β} {l : UInt16 → Nat → SigComp.Exec β}
    (h : ∀ pc cursor, 0 < cursor → Tracks excuse low high (k pc cursor) (l pc cursor)) :
    Tracks excuse low high (here >>= fun pc => position >>= k pc)
      (Exec.here >>= fun pc => Exec.position >>= l pc) :=
  fun f sound => h f.pc f.cursor sound.cursor f sound

/-- The cursor stays inside memory or stops just behind it. -/
protected theorem nextByte : Tracks excuse low low nextByte Exec.nextByte := by
  intro f sound
  rw [nextByte, Exec.nextByte]
  simp only [Frame.view]
  cases read : f.memory.get? f.cursor with
  | none => exact .fault _ f
  | some b =>
    have inside : f.cursor < f.memory.size := (Array.getElem?_eq_some_iff.1 read).1
    have next : add 64 f.cursor 1 = .ok (f.cursor + 1) := by
      have := sound.memory
      exact add_ok (by omega)
    simp only [next]
    exact .ok b (g := { f with cursor := f.cursor + 1 })
      ⟨sound.memory, Nat.succ_pos _, sound.input, sound.total, sound.potential, sound.countable⟩

protected theorem nextWord : Tracks excuse low low nextWord Exec.nextWord :=
  .bind .nextByte fun _ => .bind .nextByte fun _ => .pure _

protected theorem literal : Tracks excuse low low literal Exec.literal :=
  .bind .nextByte fun _ => .ite (fun _ => .pure _) fun _ =>
    .ite (fun _ => .bind .nextByte fun _ => .pure _) fun _ =>
      .ite (fun _ => .nextWord) fun _ => .fail _

protected theorem reference : Tracks excuse low low reference Exec.reference := by
  refine .bind .nextByte fun first => .ite (fun short => .still (.of_ok (double_ok ?_))) fun _ =>
    .ite (fun _ => .bind .nextByte fun low => .still (.of_ok (double_ok ?_))) fun _ =>
      .ite (fun _ => .nextWord) fun _ => .fail _
  · have := first.toNat_lt
    rw [UInt8.toNat_toUInt16]
    omega
  · have small : (first &&& 0x3f).toNat ≤ 63 := toNat_and_le first 0x3f
    exact Nat.lt_of_lt_of_le (toNat_word_lt low small) (by decide)

protected theorem multitype : Tracks excuse low low multitype Exec.multitype := by
  refine .bind .nextByte fun first => .ite (fun _ => .pure _) fun _ =>
    .ite (fun _ => .still_bind (.of_ok (double_ok ?_)) (.wordAt _)) fun _ =>
    .ite (fun _ => .nextWord) fun _ =>
    .ite (fun _ => .bind .nextWord fun _ => .wordAt _) fun _ => .ite (fun _ => .pure _) fun _ =>
    .ite (fun _ => .pure _) fun _ => .ite (fun _ => .fail _) fun from88 =>
    .ite (fun to90 => .still (.of_ok (power_ok (UInt8.not_lt.1 from88) to90))) fun _ =>
    .ite (fun _ => .bind .nextByte fun low => .still (.of_ok (add16_ok ?_))) fun _ =>
    .ite (fun _ => .bind .nextByte fun _ => .pure _) fun _ =>
    .ite (fun _ => .bind .nextByte fun _ => .wordAt _) fun frome0 =>
      .still (.of_ok (nearTop_ok (UInt8.not_lt.1 frome0)))
  · have := (first &&& 0x3f).toNat_lt
    rw [UInt8.toNat_toUInt16]
    omega
  · have small : (first &&& 0x0f).toNat ≤ 15 := toNat_and_le first 0x0f
    exact Nat.add_lt_add_right (toNat_word_lt low small) 61440

protected theorem address : Tracks excuse low low address Exec.address :=
  .bind .multitype fun _ => .bind .here fun _ => .pure _

protected theorem skip : ∀ n, Tracks excuse low low (skip n) (Exec.skip n)
  | 0 => .pure _
  | n + 1 => .bind .multitype fun _ => Tracks.skip n

/-! ### Budget and input -/

/-- A charge uses up the room that there is for it. -/
protected theorem charge {n : Nat} (small : ¬ excuse → n < uncharged) :
    Tracks excuse uncharged charged (charge n) (Exec.charge n) := by
  intro f sound
  have room : ¬ excuse → f.budget.total + n < charged := by
    intro honest
    have spent := sound.total honest
    have more := small honest
    simp only [uncharged, charged] at *
    omega
  have sum : Yields excuse (add 64 f.budget.total n) (f.budget.total + n) :=
    .add fun honest => Nat.lt_of_lt_of_le (room honest) (Nat.sub_le _ _)
  obtain sum | ⟨excess, excused⟩ := sum
  · simp only [Checked.charge, sum]
    exact .ok () (g := { f with budget := { f.budget with total := f.budget.total + n } })
      ⟨sound.memory, sound.cursor, sound.input, room, sound.potential, sound.countable⟩
  · simp only [Checked.charge, excess]
    exact .overflow f _ excused

theorem granted_yields {b : Budget} {bits : Nat}
    (room : ¬ excuse → b.target + bits * b.perBit < 1 <<< 63) :
    Yields excuse (granted b bits) (Exec.Budget.grant b bits) := by
  refine .bind (.mul fun honest => ?_) (.bind (.add fun honest => ?_) (.of_ok rfl))
  · have := room honest
    omega
  · have := room honest
    omega

/-- What is granted for bits of input was part of what the input was worth. -/
theorem sound_granted {f : Frame} {next : BitStream} {bits : Nat} (sound : f.Sound excuse low)
    (read : next.Sound) (data : next.data = f.input.data)
    (paid : next.view.unread + bits ≤ f.input.view.unread) :
    ({ f with input := next, budget := Exec.Budget.grant f.budget bits } : Frame).Sound excuse low ∧
      (¬ excuse → f.budget.target + bits * f.budget.perBit < 1 <<< 63) := by
  have worth := Exec.Frugal.potential_of_grant f.view paid
  have less : ¬ excuse →
      (f.budget.target + bits * f.budget.perBit) + f.budget.perBit * next.view.unread < 1 <<< 63 :=
    fun honest => Nat.lt_of_le_of_lt worth (sound.potential honest)
  refine ⟨⟨sound.memory, sound.cursor, read, sound.total, less, ?_⟩, fun honest => ?_⟩
  · intro vast
    exact sound.countable (data ▸ vast)
  · exact Nat.lt_of_le_of_lt (Nat.le_add_right _ _) (less honest)

protected theorem drawBytes (n : Nat) :
    Tracks excuse low low (drawBytes n) (Exec.drawBytes n) := by
  intro f sound
  obtain ⟨next, yields, view, read, data⟩ := BitStream.takeBytes_safe sound.input n
  obtain taken | ⟨excess, vast⟩ := yields
  case inr =>
    simp only [Checked.drawBytes, excess]
    exact .overflow f _ (sound.countable vast)
  have less := f.input.view.unread_takeBytes_le n
  simp only [Checked.drawBytes, taken, Exec.drawBytes, Frame.view]
  rcases cut : f.input.view.takeBytes n with ⟨_ | bytes, rest⟩
  · rw [cut] at view less
    subst view
    refine .ok none (g := { f with input := next })
      ⟨sound.memory, sound.cursor, read, sound.total, fun honest => ?_,
        fun vast => sound.countable (data ▸ vast)⟩
    exact Nat.lt_of_le_of_lt (Nat.add_le_add_left (Nat.mul_le_mul_left _ less) _)
      (sound.potential honest)
  · have paid : (f.input.view.takeBytes n).2.unread + 8 * n ≤ f.input.view.unread :=
      BitInput.unread_takeBytes (congrArg Prod.fst cut)
    rw [cut] at view paid
    subst view
    obtain ⟨after, room⟩ := sound_granted sound read data paid
    have count : Yields excuse (mul 64 8 n) (8 * n) := by
      refine .mul fun honest => ?_
      have all := BitStream.unread_view_le sound.input
      have modest : ¬ BitStream.Vast f.input.data := fun vast => honest (sound.countable vast)
      simp only [BitStream.Vast] at modest
      omega
    obtain grant | ⟨excess, excused⟩ := Yields.bind count (granted_yields room)
    · simp only [grant]
      exact .ok (some bytes) after
    · simp only [excess]
      exact .overflow { f with input := next } _ excused

/-- What follows may rely on the number of bytes drawn. -/
theorem drawBytes_bind {n : Nat} {k : Option Bytes → Exec β} {l : Option Bytes → SigComp.Exec β}
    (some : ∀ data, data.length = n → Tracks excuse low high (k (some data)) (l (some data)))
    (none : Tracks excuse low high (k none) (l none)) :
    Tracks excuse low high (drawBytes n >>= k) (Exec.drawBytes n >>= l) := by
  intro f sound
  have first := Tracks.drawBytes n f sound
  have count : ∀ data g, Exec.drawBytes n f.view = .ok (Option.some data) g → data.length = n := by
    intro data g drawn
    simp only [Exec.drawBytes, BitInput.takeBytes] at drawn
    split at drawn
    · next drawn' input cut =>
      cases drawn
      split at cut
      · next all =>
        cases cut
        exact all
      · cases cut
    · cases drawn
  simp only [bind, EStateM.bind]
  generalize Checked.drawBytes n f = outcome, Exec.drawBytes n f.view = outcome' at first count
  cases first with
  | ok drawn sound =>
    cases drawn with
    | none => exact none _ sound
    | some data => exact some data (count data _ rfl) _ sound
  | fault r g => exact .fault r g
  | overflow g _ excused => exact .overflow g _ excused

/-- Bits are drawn as the machine draws them, and are no larger a number than so many bits can
be. -/
theorem drawBits_matched {n : Nat} (few : n ≤ 16) (o : Bool) {f : Frame}
    (sound : f.Sound excuse low) :
    Matched excuse low (drawBits n o f) (Exec.drawBits n o f.view) ∧
      ∀ v g, drawBits n o f = .ok (some v) g → v < 1 <<< n := by
  obtain ⟨read, yields⟩ | ⟨v, next, read, yields, kept, data, small⟩ :=
    BitStream.takeBits_safe sound.input few o <;>
  simp only [Checked.drawBits, Exec.drawBits, Frame.view, read]
  · obtain none | ⟨excess, vast⟩ := yields
    · simp only [none]
      exact ⟨.ok Option.none sound, fun v g drawn => by cases drawn⟩
    · simp only [excess]
      exact ⟨.overflow f _ (sound.countable vast), fun v g drawn => by cases drawn⟩
  · obtain ⟨after, room⟩ := sound_granted sound kept data (BitInput.unread_takeBits? read)
    obtain some | ⟨excess, vast⟩ := yields
    · simp only [some]
      obtain grant | ⟨excess, excused⟩ := granted_yields room
      · simp only [grant]
        refine ⟨.ok (Option.some v) after, fun w g same => ?_⟩
        cases same
        exact small
      · simp only [excess]
        exact ⟨.overflow { f with input := next } _ excused, fun v g drawn => by cases drawn⟩
    · simp only [excess]
      exact ⟨.overflow f _ (sound.countable vast), fun v g drawn => by cases drawn⟩

/-- What follows may rely on how large the number drawn is. -/
theorem drawBits_bind {n : Nat} {o : Bool} {k : Option Nat → Exec β}
    {l : Option Nat → SigComp.Exec β} (few : n ≤ 16)
    (some : ∀ v < 1 <<< n, Tracks excuse low high (k (some v)) (l (some v)))
    (none : Tracks excuse low high (k none) (l none)) :
    Tracks excuse low high (drawBits n o >>= k) (Exec.drawBits n o >>= l) := by
  intro f sound
  obtain ⟨first, small⟩ := drawBits_matched few o sound
  simp only [bind, EStateM.bind]
  generalize Checked.drawBits n o f = outcome, Exec.drawBits n o f.view = outcome' at first small
  cases first with
  | ok drawn sound =>
    cases drawn with
    | none => exact none _ sound
    | some v => exact some v (small v _ rfl) _ sound
  | fault r g => exact .fault r g
  | overflow g _ excused => exact .overflow g _ excused

end Tracks

end SigComp.Checked
