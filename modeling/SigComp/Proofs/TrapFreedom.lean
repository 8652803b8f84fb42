import SigComp.Proofs.CheckedCommitment
import SigComp.Proofs.CheckedHeader
import SigComp.Proofs.CheckedMachine

/-!
# Decompression is never trapped

Whatever message arrives at whatever engine, and whatever the program in it does, no
operation leaves its word and no access leaves its byte string: what would do so has been
turned into a failure or passed over before.

* `Outgrown`: what counters of 64 bits cannot keep up with.
* `process_yields`: the machine of a message is loaded and runs as it should.
* `decompression_untrapped`: decompression, and what is read from a machine afterwards.
-/

namespace SigComp.Checked

/-- A message, or a state, of a size that no counter was made for: a message of which the bits
cannot be counted or cannot be granted cycles, or a state of which the bytes cannot be counted.  At
most 65535 cycles go with a bit, so such a message has 16 terabytes at the least. -/
inductive Outgrown (e : Engine) (data : Bytes) : Prop where
  | message : 1 <<< 63 ≤ 8 * data.length → Outgrown e data
  | cycles : 1 <<< 63 ≤ (8 * data.length + 1000) * e.settings.cyclesPerBit.toNat → Outgrown e data
  | state {partialId : Bytes} {ignoreAccess : Bool} {state : State} :
    e.store.lookup partialId ignoreAccess = .ok state → 1 <<< 63 ≤ state.data.length →
    Outgrown e data

variable {e : Engine} {data : Bytes} {t : Transport} {msg : Message} {memory : Nat}

/-- A message of less than 16 terabytes is not too large. -/
theorem not_outgrown (small : data.length < 1 <<< 44)
    (states : ∀ {partialId ignoreAccess state}, e.store.lookup partialId ignoreAccess = .ok state →
      state.data.length < 1 <<< 63) :
    ¬ Outgrown e data := by
  intro large
  cases large with
  | message large => omega
  | cycles large =>
    have perBit : e.settings.cyclesPerBit.toNat ≤ 65535 :=
      Nat.le_of_lt_succ e.settings.cyclesPerBit.toNat_lt
    have worth : (8 * data.length + 1000) * e.settings.cyclesPerBit.toNat ≤
        (8 * data.length + 1000) * 65535 := Nat.mul_le_mul_left _ perBit
    omega
  | state found large => exact Nat.not_le.2 (states found) large

/-- Giving up machines whose time is over changes nothing about that. -/
theorem outgrown_of_reap (h : Outgrown e.reap data) : Outgrown e data := by
  cases h with
  | message large => exact .message large
  | cycles large => exact .cycles large
  | state found large => exact .state found large

/-! ## Loading -/

theorem machineMemory_eq (memory length : Nat) (t : Transport) :
    machineMemory memory length t = .ok (t.machineMemory memory length) := by
  cases t with
  | stream => rfl
  | message =>
    rw [machineMemory, Transport.machineMemory]
    split
    · rfl
    · exact ok_bind (sub_ok (by omega)) _

theorem machineMemory_le {length size : Nat} (h : t.machineMemory memory length = .ok size) :
    size ≤ 65536 := by
  cases t with
  | stream =>
    cases h
    exact Nat.min_le_right _ _
  | message =>
    rw [Transport.machineMemory] at h
    split at h <;> cases h
    exact Nat.min_le_right _ _

theorem cases_of_view {c : Calc Machine} {x : Except Failure SigComp.Machine}
    (h : Machine.view <$> c = x.mapError .fault) :
    (∃ m, c = .ok m ∧ x = .ok m.view) ∨ ∃ r, c = .error (.fault r) ∧ x = .error r := by
  cases x with
  | ok m =>
    cases c with
    | ok m' =>
      cases h
      exact .inl ⟨m', rfl, rfl⟩
    | error r => cases h
  | error r =>
    cases c with
    | ok m' => cases h
    | error r' =>
      cases h
      exact .inr ⟨r, rfl, rfl⟩

/-- The machine of a message is made as the engine makes it, or not for the same reason. -/
theorem ofBody_cases (msg : Message)
    (sized : t.machineMemory e.settings.decompressionMemory data.length = .ok memory) :
    let setup : Setup := ⟨memory, e.settings.cyclesPerBit, memory, msg.input⟩
    (∃ m, Machine.ofBody setup e.store msg.body = .ok m ∧ m.Fresh setup ∧
      e.machineFor msg data.length t = .ok m.view) ∨
    ∃ r, Machine.ofBody setup e.store msg.body = .error (.fault r) ∧
      e.machineFor msg data.length t = .error (.malformed r) := by
  intro setup
  rw [Engine.machineFor, sized]
  cases msg.body with
  | bytecode code destination =>
    obtain ⟨m, loaded, same⟩ | ⟨r, failed, same⟩ := cases_of_view
      (Machine.view_ofCode setup code destination)
    · exact .inl ⟨m, loaded, Machine.fresh_of_load loaded, congrArg (Except.mapError _) same⟩
    · exact .inr ⟨r, failed, congrArg (Except.mapError _) same⟩
  | stateId partialId =>
    obtain ⟨m, loaded, same⟩ | ⟨r, failed, same⟩ := cases_of_view
      (Machine.view_ofState setup partialId e.store)
    · exact .inl ⟨m, loaded, Machine.fresh_of_ofState loaded, congrArg (Except.mapError _) same⟩
    · exact .inr ⟨r, failed, congrArg (Except.mapError _) same⟩

/-! ## Running -/

/-- What the header is worth is part of what the message is worth. -/
theorem cycles_yields (parsed : Message.parse? data = some msg) :
    Yields (Outgrown e data) (cycles msg e.settings.cyclesPerBit)
      (msg.cycles e.settings.cyclesPerBit) := by
  have whole := Message.headerLength_add_length_input parsed
  have bits : ¬ Outgrown e data → 8 * data.length < 1 <<< 63 := fun honest =>
    Nat.lt_of_not_le fun vast => honest (.message vast)
  refine .bind (.mul fun honest => ?_) <| .bind (.add fun honest => ?_) <| .mul fun honest => ?_
  · have := bits honest
    omega
  · have := bits honest
    omega
  · have all : (8 * data.length + 1000) * e.settings.cyclesPerBit.toNat < 1 <<< 63 :=
      Nat.lt_of_not_le fun vast => honest (.cycles vast)
    have part : (8 * msg.headerLength + 1000) * e.settings.cyclesPerBit.toNat ≤
        (8 * data.length + 1000) * e.settings.cyclesPerBit.toNat :=
      Nat.mul_le_mul_right _ (by omega)
    omega

/-- The machine of a message is loaded and runs as the engine has it. -/
theorem process_yields (parsed : Message.parse? data = some msg)
    (sized : t.machineMemory e.settings.decompressionMemory data.length = .ok memory) :
    Yields (Outgrown e data) (process msg memory e)
      ((do let machine ← MonadExcept.ofExcept (e.machineFor msg data.length t)
           Engine.runMachine machine (msg.cycles e.settings.cyclesPerBit) msg.feedback :
        Engine.Action (Bytes × MachineId)) e) := by
  rw [process]
  obtain ⟨m, made, fresh, loaded⟩ | ⟨r, failed, refused⟩ :=
    ofBody_cases msg sized
  case inr =>
    rw [refused, failed]
    exact .of_ok rfl
  rw [loaded, made]
  have countable : Countable (Outgrown e data) e.store := fun _ _ _ found vast => .state found vast
  have worth := Engine.potential_of_machineFor parsed loaded
  have whole := Message.headerLength_add_length_input parsed
  have ran : Yields (Outgrown e data) (m.run (msg.cycles e.settings.cyclesPerBit) e.store)
      (m.view.run (msg.cycles e.settings.cyclesPerBit) e.store) := by
    refine Machine.run_yields countable fresh (machineMemory_le sized) (fun honest => ?_)
      fun vast => ?_
    · rw [worth]
      exact Nat.lt_of_not_le fun vast => honest (.cycles vast)
    · refine .message ?_
      simp only [BitStream.Vast] at vast
      omega
  have done : Yields (Outgrown e data) (attempt (.ok m)) (.ok m) := .of_ok rfl
  exact done.bind <| .bind (cycles_yields parsed) <| .bind ran <| .of_ok rfl

/-! ## All of it -/

/-- Decompression, checked, is decompression. -/
theorem decompress_yields (e : Engine) (data : Bytes) (t : Transport) :
    Yields (Outgrown e data) (decompress data t e) (Engine.decompress data t e) := by
  unfold decompress Engine.decompress
  rw [Engine.run_modify, Engine.run_get]
  dsimp only
  split
  · exact .of_ok rfl
  · rw [parse_eq]
    cases parsed : Message.parse? data with
    | none => exact .of_ok rfl
    | some msg =>
      have done : Yields (Outgrown e data) (attempt (.ok msg)) (.ok msg) := .of_ok rfl
      refine done.bind <| .bind (.of_ok (machineMemory_eq _ _ t)) ?_
      cases sized : t.machineMemory e.reap.settings.decompressionMemory data.length with
      | error r =>
        have refused : e.reap.machineFor msg data.length t = .error r := by
          rw [Engine.machineFor, sized]
          rfl
        dsimp only
        rw [refused]
        exact .of_ok rfl
      | ok memory => exact (process_yields parsed sized).mono outgrown_of_reap

/-- What is to be saved comes from a stretch of memory whose length is a word. -/
theorem length_of_save {m : SigComp.Machine} {stateMemory capacity : Nat} {l : Label}
    {content : Content} (among : .save l content ∈ m.commitments stateMemory capacity) :
    content.length < 65536 := by
  obtain ⟨r, _, request⟩ := SigComp.Machine.request_of_commitments among
  rw [← Content.length_bytes]
  exact Nat.lt_of_le_of_lt (SigComp.Machine.length_of_saveCommitment request) r.length.toNat_lt

/-- Whatever message arrives at whatever engine, decompression does what it should and nothing in it
is trapped; only a message or a state of an absurd size can make a counter overflow.  Nor is
anything trapped when it is read from a machine, however its program has left it, what is to be done
for the sender, nor when the states to be saved are compared with others or copied. -/
theorem decompression_untrapped (e : Engine) (data : Bytes) (t : Transport) :
    (decompress data t e = .ok (Engine.decompress data t e) ∨
      (decompress data t e = .error (.trap .overflow) ∧ Outgrown e data)) ∧
    ∀ (m : SigComp.Machine) (stateMemory : Nat),
      commitments m stateMemory Compartment.remoteIdsCapacity =
          .ok (m.commitments stateMemory Compartment.remoteIdsCapacity) ∧
        ∀ l content, .save l content ∈ m.commitments stateMemory Compartment.remoteIdsCapacity →
          copied content = .ok content.bytes ∧
            ∀ stored, agrees content stored = .ok (content.agrees stored) := by
  refine ⟨decompress_yields e data t, fun m stateMemory => ⟨commitments_eq m stateMemory, ?_⟩⟩
  intro l content among
  have small : content.length < 1 <<< 64 := Nat.lt_trans (length_of_save among) (by decide)
  exact ⟨copied_eq small, agrees_eq small⟩

/-- A machine that has asked for the first two bytes of its memory to be saved. -/
def asking : SigComp.Machine where
  pc := 0
  memory := .zeroed 128
  input := ⟨[], 0, 0, false⟩
  budget := ⟨0, 0, 16⟩
  output := #[]
  outputCapacity := 0
  instructions := 0
  completion := some .waiting
  requests := [.save ⟨2, 0, 0, 6, 0⟩]
  feedbackAt := 0
  parametersAt := 0

theorem asking_saves :
    ∃ l, .save l ⟨[[0, 0]]⟩ ∈ asking.commitments 1024 Compartment.remoteIdsCapacity := by
  have window : Window.ofMemory? asking.memory = some ⟨0, 0⟩ := by
    simp [Window.ofMemory?, Memory.word?, Memory.get?, Memory.zeroed, asking, Memory.byteCopyLeft,
      Memory.byteCopyRight]
    decide
  have pieces : Window.pieces? ⟨0, 0⟩ asking.memory 0 2 = some [[0, 0]] := by
    simp [Window.pieces?, Window.segments?, Window.reach, asking, Memory.bytes, Memory.zeroed,
      Memory.size]
  have whole : SigComp.Machine.fittingLength? 1024 (2 : UInt16).toNat = some 2 := rfl
  have saved : SigComp.Machine.saveCommitment asking.memory 1024 ⟨2, 0, 0, 6, 0⟩ =
      [.save (SigComp.Machine.labelOf ⟨2, 0, 0, 6, 0⟩ 2 [[0, 0]]) ⟨[[0, 0]]⟩] := by
    rw [SigComp.Machine.saveCommitment, whole]
    dsimp only
    rw [window, Option.bind_some, pieces]
  have among : .save _ ⟨[[0, 0]]⟩ ∈
      SigComp.Machine.saveCommitment asking.memory 1024 ⟨2, 0, 0, 6, 0⟩ :=
    saved ▸ List.mem_singleton_self _
  exact ⟨_, List.mem_append_right _ (List.mem_flatMap.2 ⟨_, List.mem_singleton_self _, among⟩)⟩

/-- A new endpoint decompresses every message of less than 16 terabytes as it should, and what a
machine asks to be saved is compared and copied. -/
theorem new_endpoint_untrapped :
    (∃ e, Engine.start {} = .ok e ∧ ∀ (data : Bytes) (t : Transport), data.length < 1 <<< 44 →
      decompress data t e = .ok (Engine.decompress data t e)) ∧
    ∃ l, .save l ⟨[[0, 0]]⟩ ∈ asking.commitments 1024 Compartment.remoteIdsCapacity ∧
      copied ⟨[[0, 0]]⟩ = .ok [0, 0] ∧ agrees ⟨[[0, 0]]⟩ [0, 0] = .ok true := by
  refine ⟨⟨_, rfl, fun data t small => ?_⟩, ?_⟩
  · refine (decompression_untrapped _ data t).1.resolve_right fun excess => ?_
    refine not_outgrown small (fun {partialId _ _} found => ?_) excess.2
    -- nothing is found in a store in which there is nothing
    by_cases bounds : StateId.isPartialLength partialId.length = true
    · rw [Store.lookup, Store.find, if_pos bounds] at found
      cases found
    · rw [Store.lookup, Store.find, if_neg bounds] at found
      cases found
  · obtain ⟨l, saved⟩ := asking_saves
    obtain ⟨e, started⟩ : ∃ e, Engine.start {} = .ok e := ⟨_, rfl⟩
    obtain ⟨copy, compare⟩ := ((decompression_untrapped e [] .message).2 asking 1024).2 l _ saved
    exact ⟨l, saved, copy, compare [0, 0]⟩

end SigComp.Checked
