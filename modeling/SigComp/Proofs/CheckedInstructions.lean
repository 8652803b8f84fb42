import SigComp.Proofs.CheckedSort

/-!
# Instructions are safe

Every instruction, checked, tracks the instruction of the machine: `tracks_execute`.
Most of it is the composition of actions that are safe by themselves.  An argument of
its own is needed where a number depends on what has been read before: the place of a
word that is sorted, the Huffman code with its sixteen bits, the stretch of a state.
-/

namespace SigComp

namespace Checked

/-! ## Looking up -/

/-- A state is looked up without a trap. -/
theorem find_ok (s : Store) (partialId : Bytes) (ignoreAccess : Bool) :
    find s partialId ignoreAccess = .ok (s.lookup partialId ignoreAccess) := by
  rw [find, Store.lookup, Store.find]
  by_cases bounds : StateId.isPartialLength partialId.length = true
  · have lower : StateId.minPartial ≤ partialId.length ∧ partialId.length ≤ StateId.size := by
      simpa only [StateId.isPartialLength, Bool.and_eq_true, decide_eq_true_eq] using bounds
    have key : slice partialId 0 StateId.minPartial = .ok (partialId.take StateId.minPartial) :=
      slice_ok (Nat.zero_le _) lower.1
    rw [if_pos bounds, if_pos bounds, ok_bind key]
    cases s.index.get? (partialId.take StateId.minPartial) with
    | none => rfl
    | some k =>
      dsimp only [Option.bind_some]
      cases s.states.get? k with
      | none => rfl
      | some e =>
        have front : slice e.state.id.toBytes 0 partialId.length =
            .ok (e.state.id.toBytes.take partialId.length) :=
          slice_ok (Nat.zero_le _) (by rw [StateId.length_toBytes]; exact lower.2)
        have same : (e.state.id.toBytes.take partialId.length == partialId) =
            partialId.isPrefixOf e.state.id.toBytes := by
          rw [Bool.eq_iff_iff, beq_iff_eq, List.isPrefixOf_iff_prefix, List.prefix_iff_eq_take,
            eq_comm]
        dsimp only
        rw [ok_bind front, same]
        split <;> rfl
  · rw [if_neg bounds, if_neg bounds]
    rfl

/-- No state that can be found is too long to be counted, or there is an excuse. -/
def Countable (excuse : Prop) (store : Store) : Prop :=
  ∀ partialId ignoreAccess state, store.lookup partialId ignoreAccess = .ok state →
    1 <<< 63 ≤ state.data.length → excuse

namespace Instruction

variable {excuse : Prop} {low high : Nat} {α : Type}

/-! ## Shared steps -/

/-- What an operand can say is little against the room for a charge. -/
theorem toNat_lt_uncharged (w : UInt16) : w.toNat < uncharged :=
  Nat.lt_trans w.toNat_lt (by decide)

theorem tracks_proceed : Tracks excuse low low proceed SigComp.Instruction.proceed :=
  .bind .following fun _ => .pure _

theorem tracks_require (r : Failure) :
    ∀ x : Option α, Tracks excuse low low (require r x) (SigComp.Instruction.require r x)
  | some _ => .pure _
  | none => .fail _

theorem tracks_borders : Tracks excuse low low borders Exec.window :=
  .onMemory (.of_eq window_eq) Window.keepsSize_current

theorem tracks_readAlong (w : Window) (a : UInt16) (n : Nat) :
    Tracks excuse low low (readAlong w a n) (SigComp.Instruction.readRing w a n) :=
  .onMemory (readRing_mirrors w a n) (w.keepsSize_read a n)

theorem tracks_writeAlong (w : Window) (a : UInt16) {data : Bytes}
    (countable : 1 <<< 64 ≤ data.length → excuse) :
    Tracks excuse low low (writeAlong w a data) (SigComp.Instruction.writeRing w a data) :=
  .bind (.onMemory (writeRing_mirrors w a countable) (w.keepsSize_write a data)) fun _ => .pure _

theorem tracks_copyAlong (w : Window) (n : Nat) (source destination : UInt16) :
    Tracks excuse low low (copyAlong w n source destination)
      (Exec.onMemory (w.copy n source destination)) :=
  .onMemory (.plainly _) (w.keepsSize_copy n source destination)

theorem tracks_charge (n : UInt16) :
    Tracks excuse uncharged charged (charge n.toNat) (Exec.charge n.toNat) :=
  .charge fun _ => toNat_lt_uncharged n

theorem tracks_chargeAndProceed (n : UInt16) :
    Tracks excuse uncharged charged (do charge n.toNat; proceed)
      (do Exec.charge n.toNat; SigComp.Instruction.proceed) :=
  .bind (tracks_charge n) fun _ => tracks_proceed

/-- A byte string whose length an operand can say can be counted. -/
theorem countable_of_le {data : Bytes} (w : UInt16) (h : data.length ≤ w.toNat) :
    1 <<< 64 ≤ data.length → excuse := by
  intro vast
  have := w.toNat_lt
  omega

/-! ## Arithmetic -/

theorem tracks_arithmetic (f : UInt16 → UInt16 → Option UInt16) :
    Tracks excuse low low (arithmetic f) (SigComp.Instruction.arithmetic f) :=
  .bind .reference fun _ => .bind .multitype fun _ => .bind (.wordAt _) fun _ =>
    .bind (tracks_require _ _) fun _ => .bind (.putWord _ _) fun _ => tracks_proceed

theorem tracks_invert : Tracks excuse low low invert SigComp.Instruction.invert :=
  .bind .reference fun _ => .bind (.wordAt _) fun _ => .bind (.putWord _ _) fun _ => tracks_proceed

/-! ## Sorting -/

/-- What a sort instruction makes of a region of memory. -/
def sorted (descending : Bool) (lists length : UInt16) (region : Bytes) : Bytes :=
  if length ≤ 1 then region else Sort.rows descending lists.toNat length.toNat region

theorem readSlice_ok {m : Memory} {start n : Nat} (inside : start + n ≤ m.size) :
    Memory.readSlice start n m = .ok (m.bytes start n) m := by
  rw [Memory.readSlice, Memory.slice?, if_pos inside]

theorem writeSlice_ok {m : Memory} {start : Nat} {data : Bytes}
    (inside : start + data.length ≤ m.size) :
    Memory.writeSlice start data m = .ok () (m.put start data) := by
  rw [Memory.writeSlice, if_pos inside]

theorem onMemory_writeSlice {start n : Nat} {data : Bytes} {f : Frame}
    (inside : start + n ≤ f.memory.size) (length : data.length = n) :
    onMemory (writeSlice start n data) f = .ok () { f with memory := f.memory.put start data } := by
  simp only [onMemory, writeSlice, if_pos inside, if_pos length]

theorem region_of_length {lists length : UInt16} {region : Bytes}
    (size : region.length = 2 * lists.toNat * length.toNat) :
    Region lists.toNat length.toNat region :=
  ⟨by rw [size, Nat.mul_assoc], Nat.le_of_lt_succ lists.toNat_lt, Nat.le_of_lt_succ length.toNat_lt⟩

/-- A region is as long as before when it has been sorted. -/
theorem length_sorted (descending : Bool) {lists length : UInt16} {region : Bytes}
    (size : region.length = 2 * lists.toNat * length.toNat) :
    (sorted descending lists length region).length = 2 * lists.toNat * length.toNat := by
  rw [sorted]
  split
  · exact size
  · rcases Nat.eq_zero_or_pos lists.toNat with none | some
    · rw [Sort.rows, none, Nat.mul_zero, Nat.zero_mul]
      rfl
    · exact (rows_ok (region_of_length size) some descending).2.trans size

/-- The region is found sorted where it was, also if there was nothing to sort. -/
theorem sortRegion_run (descending : Bool) {start : Nat} {lists length : UInt16} {f : Frame}
    (inside : start + 2 * lists.toNat * length.toNat ≤ f.memory.size) :
    let region := f.memory.bytes start (2 * lists.toNat * length.toNat)
    sortRegion descending start lists.toNat length.toNat (2 * lists.toNat * length.toNat) f =
        .ok () { f with memory := f.memory.put start (sorted descending lists length region) } ∧
      (sorted descending lists length region).length = 2 * lists.toNat * length.toNat := by
  intro region
  have size : region.length = 2 * lists.toNat * length.toNat := Memory.length_bytes inside
  have whole := length_sorted descending size
  have first : onMemory (plainly (Memory.readSlice start (2 * lists.toNat * length.toNat))) f =
      .ok region f := by
    simp only [onMemory, plainly, readSlice_ok inside, orderly]
    rfl
  rw [sortRegion, run_bind first]
  by_cases something : 0 < lists.toNat ∧ 1 < length.toNat
  · have long : ¬ length ≤ 1 := fun short =>
      absurd (UInt16.le_iff_toNat_le.1 short) (Nat.not_le.2 something.2)
    have rows := (rows_ok (region_of_length size) something.1 descending).1
    have same : sorted descending lists length region =
        Sort.rows descending lists.toNat length.toNat region := if_neg long
    rw [same] at whole ⊢
    rw [if_pos something, still_bind rows, onMemory_writeSlice inside whole]
    exact ⟨rfl, whole⟩
  · have unchanged : f.memory.put start (sorted descending lists length region) = f.memory := by
      by_cases short : length ≤ 1
      · rw [sorted, if_pos short]
        exact Memory.put_bytes inside
      · have many : 1 < length.toNat := UInt16.lt_iff_toNat_lt.1 (UInt16.not_le.1 short)
        have none : lists.toNat = 0 := by omega
        rw [none, Nat.mul_zero, Nat.zero_mul] at whole
        rw [List.length_eq_zero_iff.1 whole]
        rfl
    rw [if_neg something, unchanged]
    exact ⟨rfl, whole⟩

theorem tracks_sortRegion (descending : Bool) (start : Nat) (lists length : UInt16) :
    Tracks excuse low low
      (sortRegion descending start lists.toNat length.toNat (2 * lists.toNat * length.toNat))
      (do let region ← Exec.onMemory (Memory.readSlice start (2 * lists.toNat * length.toNat))
          Exec.onMemory (Memory.writeSlice start (sorted descending lists length region))) := by
  intro f sound
  by_cases inside : start + 2 * lists.toNat * length.toNat ≤ f.memory.size
  · obtain ⟨run, whole⟩ := sortRegion_run descending inside
    have written : start + (sorted descending lists length
        (f.memory.bytes start (2 * lists.toNat * length.toNat))).length ≤ f.memory.size := by
      rwa [whole]
    rw [run]
    simp only [bind, EStateM.bind, Exec.onMemory, Frame.view, readSlice_ok inside,
      writeSlice_ok written]
    refine .ok () (g := { f with memory := _ }) ⟨?_, sound.cursor, sound.input, sound.total,
      sound.potential, sound.countable⟩
    exact Nat.le_trans (Nat.le_of_eq (Memory.size_put _ _ _)) sound.memory
  · have read : Memory.readSlice start (2 * lists.toNat * length.toNat) f.memory =
        .error .memoryAccess f.memory := by
      rw [Memory.readSlice, Memory.slice?, if_neg inside]
    simp only [sortRegion, bind, EStateM.bind, onMemory, plainly, Exec.onMemory, Frame.view, read,
      orderly]
    exact .fault _ f

theorem tracks_sort (descending : Bool) :
    Tracks excuse uncharged charged (sort descending) (SigComp.Instruction.sort descending) := by
  refine .bind .multitype fun start => .bind .multitype fun lists =>
    .bind .multitype fun length => ?_
  have many := lists.toNat_lt
  have long := length.toNat_lt
  have passes : (2 * lists.toNat) * length.toNat ≤ 131070 * 65535 :=
    Nat.mul_le_mul (by omega) (by omega)
  obtain ⟨log2, few⟩ := log2Ceil_ok (Nat.le_of_lt_succ long)
  have cycles : length.toNat * (Sort.log2Ceil length.toNat + lists.toNat) ≤ 65535 * 65551 :=
    Nat.mul_le_mul (by omega) (by omega)
  have small : length.toNat * (Sort.log2Ceil length.toNat + lists.toNat) < uncharged :=
    Nat.lt_of_le_of_lt cycles (by decide)
  have rounds : add 64 (Sort.log2Ceil length.toNat) lists.toNat =
      .ok (Sort.log2Ceil length.toNat + lists.toNat) := add_ok (by omega)
  have product : mul 64 length.toNat (Sort.log2Ceil length.toNat + lists.toNat) =
      .ok (length.toNat * (Sort.log2Ceil length.toNat + lists.toNat)) := mul_ok (by omega)
  refine .still_bind (.of_ok (mul_ok (by omega))) <| .still_bind (.of_ok (mul_ok (by omega))) ?_
  have region : Tracks excuse uncharged uncharged _ _ :=
    tracks_sortRegion descending start.toNat lists length
  have rest : Tracks excuse uncharged charged
      (do let log2 ← liftM (log2Ceil length.toNat)
          let passes ← liftM (add 64 log2 lists.toNat)
          let cycles ← liftM (mul 64 length.toNat passes)
          charge cycles
          proceed)
      (do Exec.charge (length.toNat * (Sort.log2Ceil length.toNat + lists.toNat))
          SigComp.Instruction.proceed) :=
    .still_bind (.of_ok log2) <| .still_bind (.of_ok rounds) <| .still_bind (.of_ok product) <|
      .bind (.charge fun _ => small) fun _ => tracks_proceed
  have whole := region.bind fun _ => rest
  simp only [bind_assoc] at whole
  exact whole

/-! ## Memory -/

theorem tracks_sha1 : Tracks excuse uncharged charged sha1 SigComp.Instruction.sha1 := by
  refine .bind .multitype fun _ => .bind .multitype fun length => .bind .multitype fun _ =>
    .bind tracks_borders fun _ => .bind (tracks_readAlong _ _ _) fun data =>
      .bind (tracks_writeAlong _ _ fun vast => ?_) fun _ => tracks_chargeAndProceed length
  rw [Vector.length_toList] at vast
  omega

theorem tracks_load : Tracks excuse low low load SigComp.Instruction.load :=
  .bind .multitype fun _ => .bind .multitype fun _ => .bind (.putWord _ _) fun _ => tracks_proceed

theorem tracks_loadWords :
    ∀ n a, Tracks excuse low low (loadWords n a) (SigComp.Instruction.loadWords n a)
  | 0, _ => .pure _
  | n + 1, a => .bind .multitype fun _ => .bind (.putWord _ _) fun _ => tracks_loadWords n (a + 2)

/-- The words that are stored have a last byte, and so has the instruction. -/
theorem overwrites_ok {start count pc : UInt16} {cursor : Nat} (some : 0 < cursor) :
    overwrites start count pc cursor =
      .ok (SigComp.Instruction.overwrites start count pc cursor) := by
  rw [overwrites]
  split
  · next none =>
    subst none
    rfl
  · next words =>
    have many : count.toNat ≠ 0 := fun none => words (UInt16.toNat_inj.1 none)
    have := count.toNat_lt
    have := start.toNat_lt
    rw [ok_bind (mul_ok (by omega)), ok_bind (add_ok (by omega)), ok_bind (sub_ok (by omega)),
      ok_bind (sub_ok some), SigComp.Instruction.overwrites, bne_iff_ne.2 words, Bool.true_and]
    refine congrArg Except.ok (congr (congrArg and ?_) ?_)
    · exact decide_eq_decide.2 (by omega)
    · exact decide_eq_decide.2 (by omega)

theorem tracks_multiload :
    Tracks excuse uncharged charged multiload SigComp.Instruction.multiload := by
  refine .bind .multitype fun start => .bind .literal fun count =>
    .bind (tracks_loadWords _ _) fun _ => .here_position fun pc cursor some =>
      .still_bind (.of_ok (overwrites_ok some)) <| .ite (fun _ => .fail _) fun _ =>
        tracks_chargeAndProceed count

theorem tracks_copy : Tracks excuse uncharged charged copy SigComp.Instruction.copy :=
  .bind .multitype fun _ => .bind .multitype fun length => .bind .multitype fun _ =>
    .bind tracks_borders fun _ => .bind (tracks_copyAlong _ _ _ _) fun _ =>
      tracks_chargeAndProceed length

theorem tracks_copyTo {source : Window → UInt16 → Calc UInt16}
    {source' : Window → UInt16 → UInt16} (same : ∀ w a, source w a = .ok (source' w a))
    (length target : UInt16) :
    Tracks excuse uncharged charged (copyTo source length target)
      (SigComp.Instruction.copyTo source' length target) :=
  .bind (.wordAt _) fun _ => .bind tracks_borders fun _ =>
    .still_bind (.of_ok (same _ _)) <| .bind (tracks_copyAlong _ _ _ _) fun _ =>
      .bind (.putWord _ _) fun _ => tracks_chargeAndProceed length

theorem tracks_copyLiteral :
    Tracks excuse uncharged charged copyLiteral SigComp.Instruction.copyLiteral :=
  .bind .multitype fun _ => .bind .multitype fun _ => .bind .reference fun _ =>
    tracks_copyTo (fun _ _ => rfl) _ _

theorem tracks_copyOffset :
    Tracks excuse uncharged charged copyOffset SigComp.Instruction.copyOffset :=
  .bind .multitype fun _ => .bind .multitype fun _ => .bind .reference fun _ =>
    tracks_copyTo (fun w a => behind_ok w a _) _ _

theorem length_progression (step : UInt8) (n : Nat) (v : UInt8) (acc : Bytes) :
    (SigComp.Instruction.progression step n v acc).length = n + acc.length := by
  induction n generalizing v acc with
  | zero => rw [SigComp.Instruction.progression, List.length_reverse, Nat.zero_add]
  | succ n ih =>
    rw [SigComp.Instruction.progression, ih, List.length_cons]
    omega

theorem tracks_memset : Tracks excuse uncharged charged memset SigComp.Instruction.memset :=
  .bind .multitype fun _ => .bind .multitype fun length => .bind .multitype fun _ =>
    .bind .multitype fun _ => .bind tracks_borders fun _ =>
      .bind (tracks_writeAlong _ _ <| countable_of_le length <| Nat.le_of_eq <|
        length_progression _ _ _ _) fun _ => tracks_chargeAndProceed length

/-! ## Stack -/

theorem tracks_pushWord (v : UInt16) :
    Tracks excuse low low (pushWord v) (SigComp.Instruction.pushWord v) :=
  .bind (.wordAt _) fun _ => .bind (.wordAt _) fun _ => .bind (.putWord _ _) fun _ => .putWord _ _

/-- A stack that is not empty has an entry less. -/
theorem tracks_popWord : Tracks excuse low low popWord SigComp.Instruction.popWord := by
  refine .bind (.wordAt _) fun _ => .bind (.wordAt _) fun fill =>
    .ite (fun _ => .fail _) fun some =>
    .still_bind (.of_ok (sub16_ok ?_)) <| .bind (.wordAt _) fun _ => .bind (.putWord _ _) fun _ =>
      .pure _
  have : fill.toNat ≠ 0 := fun none => some (UInt16.toNat_inj.1 none)
  exact UInt16.le_iff_toNat_le.2 (Nat.one_le_iff_ne_zero.2 this)

theorem tracks_push : Tracks excuse low low push SigComp.Instruction.push :=
  .bind .multitype fun _ => .bind (tracks_pushWord _) fun _ => tracks_proceed

theorem tracks_pop : Tracks excuse low low pop SigComp.Instruction.pop :=
  .bind .multitype fun _ => .bind tracks_popWord fun _ => .bind (.putWord _ _) fun _ =>
    tracks_proceed

/-! ## Control -/

theorem tracks_jump : Tracks excuse low low jump SigComp.Instruction.jump :=
  .bind .address fun _ => .pure _

theorem tracks_compare : Tracks excuse low low compare SigComp.Instruction.compare :=
  .bind .multitype fun _ => .bind .multitype fun _ => .bind .address fun _ =>
    .bind .address fun _ => .bind .address fun _ => .pure _

theorem tracks_call : Tracks excuse low low call SigComp.Instruction.call :=
  .bind .address fun _ => .bind .following fun _ => .bind (tracks_pushWord _) fun _ => .pure _

theorem tracks_ret : Tracks excuse low low ret SigComp.Instruction.ret :=
  .bind tracks_popWord fun _ => .pure _

theorem tracks_select (x : UInt16) :
    ∀ n i c, Tracks excuse low low (select x n i c) (SigComp.Instruction.select x n i c)
  | 0, _, _ => .pure _
  | n + 1, _, _ => .bind .address fun _ => tracks_select x n _ _

theorem tracks_switch : Tracks excuse uncharged charged switch SigComp.Instruction.switch :=
  .bind .literal fun count => .bind .multitype fun _ => .bind (tracks_select _ _ _ _) fun _ =>
    .bind (tracks_charge count) fun _ => .bind (tracks_require _ _) fun _ => .pure _

theorem tracks_crc : Tracks excuse uncharged charged crc SigComp.Instruction.crc :=
  .bind .multitype fun _ => .bind .multitype fun _ => .bind .multitype fun length =>
    .bind .address fun _ => .bind tracks_borders fun _ => .bind (tracks_readAlong _ _ _) fun _ =>
      .bind (tracks_charge length) fun _ => .bind .following fun _ => .pure _

/-! ## Input -/

theorem arranged_ok (reversed : Bool) {n v : Nat} (few : n ≤ 16) :
    arranged reversed n v = .ok (SigComp.Instruction.arranged reversed n v) := by
  rw [arranged, SigComp.Instruction.arranged]
  split
  · exact reverseBits_ok few
  · rfl

theorem arranged_lt (reversed : Bool) {n v : Nat} (small : v < 1 <<< n) :
    SigComp.Instruction.arranged reversed n v < 1 <<< n := by
  rw [SigComp.Instruction.arranged]
  split
  · exact reverseBits_lt n v
  · exact small

theorem tracks_inputBytes :
    Tracks excuse uncharged charged inputBytes SigComp.Instruction.inputBytes := by
  refine .bind .multitype fun length => .bind .multitype fun _ => .bind .address fun _ =>
    .drawBytes_bind (fun data all => .ite (fun _ => .late tracks_proceed) fun _ => ?_)
      (.bind (tracks_charge length) fun _ => .pure _)
  rw [all]
  exact .bind tracks_borders fun _ =>
    .bind (tracks_writeAlong _ _ (countable_of_le length (Nat.le_of_eq all))) fun _ =>
      tracks_chargeAndProceed length

theorem tracks_inputBits : Tracks excuse low low inputBits SigComp.Instruction.inputBits := by
  refine .bind .multitype fun length => .bind .multitype fun _ => .bind .address fun _ =>
    .ite (fun _ => tracks_proceed) fun _ => .ite (fun _ => .fail _) fun few =>
      .bind (.wordAt _) fun _ => ?_
  have few : length.toNat ≤ 16 := UInt16.le_iff_toNat_le.1 (UInt16.not_lt.1 few)
  exact .drawBits_bind few (fun v _ => .still_bind (.of_ok (arranged_ok _ few)) <|
    .bind (.putWord _ _) fun _ => tracks_proceed) (.pure _)

/-- A code of `spent` bits that is extended by some more. -/
theorem extended_lt {code value spent bits : Nat} (short : code < 1 <<< spent)
    (small : value < 1 <<< bits) : code <<< bits + value < 1 <<< (spent + bits) := by
  have next : (code + 1) <<< bits ≤ 1 <<< spent <<< bits := by
    rw [Nat.shiftLeft_eq, Nat.shiftLeft_eq]
    exact Nat.mul_le_mul_right _ short
  have unit : (code + 1) <<< bits = code <<< bits + 1 <<< bits := by
    simp only [Nat.shiftLeft_eq, Nat.add_mul]
  rw [Nat.shiftLeft_add]
  omega

/-- A code has at most sixteen bits, so that it can be shifted and added to. -/
theorem extendCode_bind {order : UInt16} {bits spent code : Nat} {k : Option Nat → Exec α}
    {l : Option Nat → SigComp.Exec α} (known : spent ≤ 16) (short : code < 1 <<< spent)
    (operand : bits ≤ 65535)
    (some : ∀ code, spent + bits ≤ 16 → code < 1 <<< (spent + bits) →
      Tracks excuse low high (k (some code)) (l (some code)))
    (none : Tracks excuse low high (k none) (l none)) :
    Tracks excuse low high (extendCode order bits spent code >>= k)
      (SigComp.Instruction.extendCode order bits spent code >>= l) := by
  rw [extendCode, SigComp.Instruction.extendCode]
  by_cases nothing : bits = 0
  · rw [if_pos nothing, if_pos nothing]
    subst nothing
    exact some code known short
  · rw [if_neg nothing, if_neg nothing, bind_assoc]
    refine .still_bind (.of_ok (add_ok (by omega))) ?_
    split
    · exact fun f _ => .fault _ f
    · next few =>
      rw [bind_assoc, bind_assoc]
      refine .drawBits_bind (by omega) (fun v small => ?_) none
      have value := arranged_lt (SigComp.Instruction.isSet order SigComp.Instruction.bitH) small
      have whole := extended_lt short value
      have word : 1 <<< (spent + bits) ≤ 65536 := by
        have := Nat.pow_le_pow_right (n := 2) (by decide) (Nat.le_of_not_lt few)
        rwa [Nat.one_shiftLeft]
      have high : shiftLeft 32 code bits = .ok (code <<< bits) := by
        rw [shiftLeft_ok (by omega), Nat.mod_eq_of_lt (by omega)]
      dsimp only
      rw [bind_assoc]
      refine .still_bind (.of_ok (arranged_ok _ (by omega))) ?_
      rw [bind_assoc]
      refine .still_bind (.of_ok high) ?_
      rw [bind_assoc]
      exact .still_bind (.of_ok (add_ok (by omega))) (some _ (by omega) whole)

/-- The groups of a Huffman code are counted in a word, as the operand is that says how many there
are. -/
theorem tracks_decode {target underflow order : UInt16} {count : Nat} (word : count ≤ 65535)
    {n group spent code : Nat} (left : group + n = count) (known : spent ≤ 16)
    (short : code < 1 <<< spent) :
    Tracks excuse low low (decode target underflow order count n group spent code)
      (SigComp.Instruction.decode target underflow order n spent code) := by
  induction n generalizing group spent code with
  | zero => exact .fail _
  | succ n ih =>
    have operand (w : UInt16) : w.toNat ≤ 65535 := Nat.le_of_lt_succ w.toNat_lt
    have next : count - (group + 1) = n := by omega
    refine .bind .multitype fun bits => .bind .multitype fun _ => .bind .multitype fun _ =>
      .bind .multitype fun _ => extendCode_bind known short (operand bits)
        (fun code few small => .ite (fun _ => ?_) fun _ => ih (by omega) few small) (.pure _)
    refine .bind (.putWord _ _) fun _ => .still_bind (.of_ok (add_ok (by omega))) ?_
    rw [next]
    exact .bind (.skip _) fun _ => tracks_proceed

theorem tracks_inputHuffman :
    Tracks excuse uncharged charged inputHuffman SigComp.Instruction.inputHuffman :=
  .bind .multitype fun _ => .bind .address fun _ => .bind .literal fun count =>
    .bind (tracks_charge count) fun _ => .bind (.wordAt _) fun _ =>
      tracks_decode (Nat.le_of_lt_succ count.toNat_lt) (Nat.zero_add _) (Nat.zero_le _) Nat.one_pos

/-! ## States -/

/-- The test of the length comes before the stretch is cut out. -/
theorem tracks_storeState {state : State} {first length : Nat} (target entry : UInt16)
    (operand : first ≤ 65535) (long : length ≤ 65535 ∨ length ≤ state.data.length)
    (countable : 1 <<< 63 ≤ state.data.length → excuse) :
    Tracks excuse uncharged charged (storeState state first length target entry)
      (SigComp.Instruction.storeState state first length target entry) := by
  have counted : ¬ excuse → state.data.length < 1 <<< 63 := fun honest =>
    Nat.lt_of_not_le fun vast => honest (countable vast)
  have bounded : ¬ excuse → length < 1 <<< 63 := by
    intro honest
    have := counted honest
    omega
  have stop : Yields excuse (add 64 first length) (first + length) := by
    refine .add fun honest => ?_
    have := bounded honest
    omega
  refine .still_bind stop <| .ite (fun _ => .fail _) fun inside => .bind tracks_borders fun _ => ?_
  have within : first + length ≤ state.data.length :=
    Nat.le_of_not_lt fun excess => inside (.inl excess)
  have stretch : slice state.data first (first + length) =
      .ok ((state.data.drop first).take length) := by
    rw [slice_ok (Nat.le_add_right _ _) within, Nat.add_sub_cancel_left]
  refine .still_bind (.of_ok stretch) <| .bind (tracks_writeAlong _ _ fun vast => countable ?_)
    fun _ => .bind (.charge bounded) fun _ => .bind .following fun _ => .pure _
  rw [List.length_take, List.length_drop] at vast
  omega

theorem tracks_stateAccess {s : Surroundings} (countable : Countable excuse s.store) :
    Tracks excuse uncharged charged (stateAccess s) (SigComp.Instruction.stateAccess s) := by
  refine .bind .multitype fun _ => .bind .multitype fun _ => .bind .multitype fun first =>
    .bind .multitype fun length => .bind .multitype fun _ => .bind .multitype fun _ =>
      .ite (fun _ => ?_) fun _ => .fail _
  refine .bind (.onMemory (.plainly _) (.readSlice _ _)) fun partialId =>
    .still_bind (.of_ok (find_ok _ _ _)) ?_
  cases found : s.store.lookup partialId false with
  | error r => exact fun f _ => .fault .stateAccess f
  | ok state =>
    have long : (if length = 0 then state.data.length else length.toNat) ≤ 65535 ∨
        (if length = 0 then state.data.length else length.toNat) ≤ state.data.length := by
      split
      · exact .inr (Nat.le_refl _)
      · exact .inl (Nat.le_of_lt_succ length.toNat_lt)
    exact fun f sound => tracks_storeState _ _ (Nat.le_of_lt_succ first.toNat_lt) long
      (countable partialId false state found) f sound

theorem tracks_saveOperands :
    Tracks excuse low low saveOperands SigComp.Instruction.saveOperands :=
  .bind .multitype fun _ => .bind .multitype fun _ => .bind .multitype fun _ =>
    .bind .multitype fun _ => .bind .multitype fun _ => .pure _

theorem tracks_stateCreate (s : Surroundings) :
    Tracks excuse uncharged charged (stateCreate s) (SigComp.Instruction.stateCreate s) :=
  .bind tracks_saveOperands fun r => .bind (tracks_require _ _) fun _ =>
    .bind (tracks_charge r.length) fun _ => .bind .following fun _ => .pure _

theorem tracks_stateFree (s : Surroundings) :
    Tracks excuse low low (stateFree s) (SigComp.Instruction.stateFree s) :=
  .bind .multitype fun _ => .bind .multitype fun _ => .bind (tracks_require _ _) fun _ =>
    .bind .following fun _ => .pure _

/-! ## Results -/

/-- What a machine can have written is no more than its memory could hold. -/
theorem tracks_output {s : Surroundings} (room : s.written ≤ 65536) :
    Tracks excuse uncharged charged (output s) (SigComp.Instruction.output s) := by
  refine .bind .multitype fun _ => .bind .multitype fun length => ?_
  have total : add 64 s.written length.toNat = .ok (s.written + length.toNat) := by
    have := length.toNat_lt
    exact add_ok (by omega)
  exact .still_bind (.of_ok total) <| .ite (fun _ => .fail _) fun _ => .bind tracks_borders fun _ =>
    .bind (tracks_readAlong _ _ _) fun _ => .bind (tracks_charge length) fun _ =>
      .bind .following fun _ => .pure _

theorem tracks_endMessage (s : Surroundings) :
    Tracks excuse uncharged charged (endMessage s) (SigComp.Instruction.endMessage s) :=
  .bind .multitype fun _ => .bind .multitype fun _ => .bind tracks_saveOperands fun r =>
    .bind (tracks_require _ _) fun _ => .bind (tracks_charge r.length) fun _ =>
      .bind .following fun _ => .pure _

/-! ## All instructions -/

/-- Every instruction, checked, does what the instruction of the machine does. -/
theorem tracks_execute {s : Surroundings} (countable : Countable excuse s.store)
    (room : s.written ≤ 65536) (o : Opcode) :
    Tracks excuse uncharged charged (execute s o) (SigComp.Instruction.execute s o) := by
  cases o with
  | decompressionFailure => exact .fail _
  | and | or | shiftLeft | shiftRight | add | subtract | multiply | divide | remainder =>
    exact .late (tracks_arithmetic _)
  | not => exact .late tracks_invert
  | sortAscending | sortDescending => exact tracks_sort _
  | sha1 => exact tracks_sha1
  | load => exact .late tracks_load
  | multiload => exact tracks_multiload
  | push => exact .late tracks_push
  | pop => exact .late tracks_pop
  | copy => exact tracks_copy
  | copyLiteral => exact tracks_copyLiteral
  | copyOffset => exact tracks_copyOffset
  | memset => exact tracks_memset
  | jump => exact .late tracks_jump
  | compare => exact .late tracks_compare
  | call => exact .late tracks_call
  | ret => exact .late tracks_ret
  | switch => exact tracks_switch
  | crc => exact tracks_crc
  | inputBytes => exact tracks_inputBytes
  | inputBits => exact .late tracks_inputBits
  | inputHuffman => exact tracks_inputHuffman
  | stateAccess => exact tracks_stateAccess countable
  | stateCreate => exact tracks_stateCreate s
  | stateFree => exact .late (tracks_stateFree s)
  | output => exact tracks_output room
  | endMessage => exact tracks_endMessage s

end Instruction

end Checked

end SigComp
