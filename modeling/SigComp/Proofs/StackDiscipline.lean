import Mathlib.Data.List.Induction
import SigComp.Proofs.InstructionOutcomes
import SigComp.Proofs.StackMemory

/-!
# Last in, first out

PUSH and CALL put a word on the stack, POP and RETURN take one off.  The word that is taken off is
the one that was put on by the matching instruction, however far back that is and whatever has been
put on and taken off in between.

* `StackEvent`: a word is put on or taken off.  `StackEvent.Balanced`: events that leave what was on
  the stack before alone.
* `StackEvent.replay`: what events do to a list of words.  `replay_cons`: where the first word of
  the list comes from.
* `StackInstruction`: an instruction that uses the stack, with its operands.  `Machine.Faces`: it is
  next.
* `step_pushing`, `step_popping` and `step_underflow`: what a step does to the words on the stack.
* `Machine.Session`: such instructions one after the other, each in a machine whose stack is as the
  one before has left it.  `Session.stackAfter`: in memory are the words that the events leave.
* `stack_is_last_in_first_out`: so what is taken off is what was put on.
-/

namespace SigComp

/-! ## Events -/

/-- A word is put on the stack or taken off. -/
inductive StackEvent where
  | pushed (v : UInt16)
  | popped (v : UInt16)
  deriving DecidableEq, Repr

namespace StackEvent

def isPush : StackEvent → Bool
  | pushed _ => true
  | popped _ => false

/-- How many words are put on. -/
def pushes (es : List StackEvent) : Nat := es.countP isPush

/-- How many words are taken off. -/
def pops (es : List StackEvent) : Nat := es.countP fun e => !e.isPush

/-- As many words are taken off as are put on, and at no time more. -/
structure Balanced (es : List StackEvent) : Prop where
  even : pops es = pushes es
  never : ∀ before, before <+: es → pops before ≤ pushes before

/-- The words on the stack after an event; nothing if another word is in front, or none. -/
def act : List UInt16 → StackEvent → Option (List UInt16)
  | stack, pushed v => some (v :: stack)
  | v :: stack, popped w => if v = w then some stack else none
  | [], popped _ => none

/-- The words on the stack after events. -/
def replay (stack : List UInt16) (es : List StackEvent) : Option (List UInt16) :=
  es.foldlM act stack

variable {es before between : List StackEvent} {stack base front rest : List UInt16}
  {e : StackEvent} {v w : UInt16}

@[simp] theorem pushes_pushed : pushes (pushed v :: es) = pushes es + 1 :=
  List.countP_cons_of_pos rfl

@[simp] theorem pushes_popped : pushes (popped v :: es) = pushes es :=
  List.countP_cons_of_neg Bool.false_ne_true

@[simp] theorem pops_pushed : pops (pushed v :: es) = pops es :=
  List.countP_cons_of_neg Bool.false_ne_true

@[simp] theorem pops_popped : pops (popped v :: es) = pops es + 1 := List.countP_cons_of_pos rfl

@[simp] theorem pushes_append : pushes (es ++ between) = pushes es + pushes between :=
  List.countP_append

@[simp] theorem pops_append : pops (es ++ between) = pops es + pops between := List.countP_append

theorem replay_event : replay base (e :: es) = (act base e).bind (replay · es) := List.foldlM_cons

theorem replay_append : replay base (es ++ between) = (replay base es).bind (replay · between) :=
  List.foldlM_append

theorem act_eq_some (done : act base e = some stack) :
    (∃ v, e = pushed v ∧ stack = v :: base) ∨ ∃ v, e = popped v ∧ base = v :: stack := by
  cases e with
  | pushed v =>
    cases done
    exact .inl ⟨v, rfl, rfl⟩
  | popped v =>
    cases base with
    | nil => cases done
    | cons u base =>
      by_cases same : u = v
      · rw [act, if_pos same] at done
        cases done
        exact .inr ⟨v, rfl, by rw [same]⟩
      · rw [act, if_neg same] at done
        cases done

/-- One event more. -/
theorem replay_concat_eq_some :
    replay base (es ++ [e]) = some stack ↔ ∃ stack', replay base es = some stack' ∧
      act stack' e = some stack := by
  have single (stack' : List UInt16) : replay stack' [e] = act stack' e := bind_pure _
  simp only [replay_append, Option.bind_eq_some_iff, single]

theorem length_of_replay (done : replay base es = some stack) :
    stack.length + pops es = base.length + pushes es := by
  induction es generalizing base with
  | nil =>
    cases done
    rfl
  | cons e es ih =>
    rw [replay_event, Option.bind_eq_some_iff] at done
    obtain ⟨stack', first, rest⟩ := done
    have later := ih rest
    rcases act_eq_some first with ⟨v, rfl, rfl⟩ | ⟨v, rfl, rfl⟩
    · rw [pushes_pushed, pops_pushed, later, List.length_cons]
      omega
    · rw [pushes_popped, pops_popped, List.length_cons]
      omega

/-- Never more is taken off than was there. -/
theorem pops_le_of_replay (done : replay base es = some stack) (early : before <+: es) :
    pops before ≤ base.length + pushes before := by
  obtain ⟨after, rfl⟩ := early
  rw [replay_append, Option.bind_eq_some_iff] at done
  obtain ⟨stack', first, -⟩ := done
  have := length_of_replay first
  omega

theorem balanced_of_replay (done : replay [] es = some []) : Balanced es where
  even := by simpa using length_of_replay done
  never before early := by simpa using pops_le_of_replay done early

/-- A word on the stack has been put there, and since then events have come to what is above it; or
it was there from the start, and so was what is below it. -/
theorem replay_cons (done : replay base es = some (front ++ v :: rest)) :
    (∃ before between, es = before ++ pushed v :: between ∧ replay [] between = some front) ∨
      ∃ above, base = above ++ v :: rest ∧ replay above es = some front := by
  induction es using List.reverseRecOn generalizing front with
  | nil =>
    cases done
    exact .inr ⟨front, rfl, rfl⟩
  | append_singleton es e ih =>
    obtain ⟨stack', earlier, last⟩ := replay_concat_eq_some.1 done
    rcases act_eq_some last with ⟨w, rfl, same⟩ | ⟨w, rfl, rfl⟩
    · cases front with
      | nil =>
        cases same
        exact .inl ⟨es, [], rfl, rfl⟩
      | cons u front =>
        cases same
        rcases ih earlier with ⟨before, between, rfl, onTop⟩ | ⟨above, rfl, onTop⟩
        · exact .inl ⟨before, between ++ [pushed w], by simp,
            replay_concat_eq_some.2 ⟨front, onTop, rfl⟩⟩
        · exact .inr ⟨above, rfl, replay_concat_eq_some.2 ⟨front, onTop, rfl⟩⟩
    · have off : act (w :: front) (popped w) = some front := if_pos rfl
      have beneath : replay base es = some ((w :: front) ++ v :: rest) := earlier
      rcases ih beneath with ⟨before, between, rfl, onTop⟩ | ⟨above, rfl, onTop⟩
      · exact .inl ⟨before, between ++ [popped w], by simp,
          replay_concat_eq_some.2 ⟨_, onTop, off⟩⟩
      · exact .inr ⟨above, rfl, replay_concat_eq_some.2 ⟨_, onTop, off⟩⟩

/-- Events that come to nothing on top of some words have put nothing on that is still there. -/
theorem not_balanced_of_replay (done : replay base es = some [])
    (split : es = before ++ pushed w :: between) : ¬ Balanced between := by
  intro balanced
  have whole := length_of_replay done
  have early : pops before ≤ base.length + pushes before :=
    pops_le_of_replay done ⟨_, split.symm⟩
  have even := balanced.even
  rw [split, pops_append, pushes_append, pops_pushed, pushes_pushed, List.length_nil] at whole
  omega

end StackEvent

/-! ## Instructions -/

/-- An instruction that uses the stack, with its operands and the address behind them. -/
inductive StackInstruction where
  | push (v next : UInt16)
  | pop (target next : UInt16)
  | call (target next : UInt16)
  | ret
  deriving DecidableEq, Repr

namespace StackInstruction

/-- The word that it puts on the stack. -/
def pushes? : StackInstruction → Option UInt16
  | push v _ => some v
  | pop _ _ => none
  | call _ next => some next
  | ret => none

/-- The word that it stores, if it stores any, keeps clear of the stack and of the register. -/
def KeepsClear (m : Memory) (location : UInt16) (top : Nat) : StackInstruction → Prop
  | pop target _ => target.toNat + 2 ≤ m.size ∧
    (target.toNat + 2 ≤ 70 ∨ 72 ≤ target.toNat) ∧
    (target.toNat + 2 ≤ location.toNat ∨ location.toNat + 2 + 2 * top ≤ target.toNat)
  | _ => True

/-- The word that it has taken off is where the instruction takes it. -/
def Yields (m : Machine) (v : UInt16) : StackInstruction → Prop
  | push _ _ => False
  | pop target next => m.memory.word? target = some v ∧ m.pc = next
  | call _ _ => False
  | ret => m.pc = v

variable {i : StackInstruction} {m : Machine} {v w : UInt16}

theorem Yields.pushes?_eq_none (yields : i.Yields m v) : i.pushes? = none := by
  cases i with
  | push => exact yields.elim
  | pop => rfl
  | call => exact yields.elim
  | ret => rfl

theorem Yields.unique (first : i.Yields m v) (second : i.Yields m w) : v = w := by
  cases i with
  | push => exact first.elim
  | pop => exact Option.some.inj (first.1.symm.trans second.1)
  | call => exact first.elim
  | ret => exact first.symm.trans second

end StackInstruction

namespace Machine

open Exec

/-- The instruction is next. -/
def Faces (m : Machine) : StackInstruction → Prop
  | .push v next => m.fetch = .ok .push ∧
    ∃ f, multitype m.frame = .ok v f ∧ next = UInt16.ofNat f.cursor
  | .pop target next => m.fetch = .ok .pop ∧
    ∃ f, multitype m.frame = .ok target f ∧ next = UInt16.ofNat f.cursor
  | .call target next => m.fetch = .ok .call ∧
    ∃ f, address m.frame = .ok target f ∧ next = UInt16.ofNat f.cursor
  | .ret => m.fetch = .ok .ret

variable {store : Store} {m p q : Machine} {location v : UInt16} {top : Nat}
  {stack base : List UInt16} {i : StackInstruction} {es : List StackEvent}

theorem memory_of_scans {α : Type} {x : Exec α} {a : α} {f : Frame} (scans : Scans x)
    (run : x m.frame = .ok a f) : f.memory = m.memory := by
  rw [(scans _ _ _ run).2.1]
  rfl

/-- PUSH and CALL put their word on the stack. -/
theorem step_pushing (store : Store) (faces : m.Faces i) (pushes : i.pushes? = some v)
    (room : m.memory.StackRoom location top) (held : m.memory.stack? = some stack)
    (free : stack.length < top) : ∃ q, step store m = .ok () q ∧
      q.memory.StackRoom location top ∧ q.memory.stack? = some (v :: stack) := by
  cases i with
  | push w next =>
    cases pushes
    obtain ⟨fetched, f, operand, -⟩ := faces
    have same := memory_of_scans .multitype operand
    obtain ⟨memory, pushed, after, on⟩ :=
      Instruction.pushWord_eq (same ▸ room) (same ▸ held) free v
    have run : Instruction.execute (m.surroundings store) .push m.frame =
        .ok (.go (UInt16.ofNat f.cursor)) { f with memory } :=
      (bind_of_ok operand _).trans ((bind_of_ok pushed _).trans rfl)
    exact ⟨_, step_of_ok fetched run, after, on⟩
  | call target next =>
    cases pushes
    obtain ⟨fetched, f, operand, rfl⟩ := faces
    have same := memory_of_scans .address operand
    obtain ⟨memory, pushed, after, on⟩ :=
      Instruction.pushWord_eq (same ▸ room) (same ▸ held) free (UInt16.ofNat f.cursor)
    have run : Instruction.execute (m.surroundings store) .call m.frame =
        .ok (.go target) { f with memory } :=
      (bind_of_ok operand _).trans ((bind_of_ok (x := following) rfl _).trans
        ((bind_of_ok pushed _).trans rfl))
    exact ⟨_, step_of_ok fetched run, after, on⟩
  | pop target next => cases pushes
  | ret => cases pushes

/-- POP and RETURN take the word in front off the stack. -/
theorem step_popping (store : Store) (faces : m.Faces i) (pops : i.pushes? = none)
    (clear : i.KeepsClear m.memory location top) (room : m.memory.StackRoom location top)
    (held : m.memory.stack? = some (v :: stack)) (fits : stack.length < top) :
    ∃ q, step store m = .ok () q ∧ i.Yields q v ∧
      q.memory.StackRoom location top ∧ q.memory.stack? = some stack := by
  cases i with
  | push w next => cases pops
  | call target next => cases pops
  | pop target next =>
    obtain ⟨fetched, f, operand, rfl⟩ := faces
    obtain ⟨inside, fromRegister, fromArea⟩ := clear
    have same := memory_of_scans .multitype operand
    obtain ⟨memory, popped, after, off⟩ :=
      Instruction.popWord_eq (same ▸ room) (same ▸ held) fits
    have size : memory.size = m.memory.size := by
      have stays := heritable_stays.popWord f
      rw [popped] at stays
      exact stays.size.trans (congrArg Memory.size same)
    have clear := Memory.sameStack_setWord (m := memory) (w := v) fromRegister fromArea
    have run : Instruction.execute (m.surroundings store) .pop m.frame =
        .ok (.go (UInt16.ofNat f.cursor)) { f with memory := memory.setWord target v } :=
      (bind_of_ok operand _).trans ((bind_of_ok popped _).trans
        ((bind_of_ok (Instruction.writeWord_of_inside (size ▸ inside)) _).trans rfl))
    exact ⟨_, step_of_ok fetched run, ⟨Memory.word?_setWord (size ▸ inside), rfl⟩, clear.room after,
      clear.stack? after (Nat.le_of_lt fits) off⟩
  | ret =>
    obtain ⟨memory, popped, after, off⟩ :=
      Instruction.popWord_eq (f := m.frame) room held fits
    have run : Instruction.execute (m.surroundings store) .ret m.frame =
        .ok (.go v) { m.frame with memory } := bind_of_ok popped _
    exact ⟨_, step_of_ok faces run, rfl, after, off⟩

/-- There is nothing to take off an empty stack. -/
theorem step_underflow (store : Store) (faces : m.Faces i) (pops : i.pushes? = none)
    (room : m.memory.StackRoom location top) (held : m.memory.stack? = some []) :
    ∃ q, step store m = .error .stackUnderflow q ∧ q.memory = m.memory := by
  cases i with
  | push w next => cases pops
  | call target next => cases pops
  | pop target next =>
    obtain ⟨fetched, f, operand, rfl⟩ := faces
    have same := memory_of_scans .multitype operand
    have run : Instruction.execute (m.surroundings store) .pop m.frame = .error .stackUnderflow f :=
      (bind_of_ok operand _).trans
        (bind_of_error (Instruction.popWord_empty (same ▸ room) (same ▸ held)) _)
    exact ⟨_, step_of_error fetched run, same⟩
  | ret =>
    have run : Instruction.execute (m.surroundings store) .ret m.frame =
        .error .stackUnderflow m.frame :=
      bind_of_error (Instruction.popWord_empty (f := m.frame) room held) _
    exact ⟨_, step_of_error faces run, rfl⟩

/-! ## Instructions one after the other -/

/-- Instructions that use the stack, one after the other, and what has happened to it by then.
Between them the machine may change as it will, but not its stack. -/
inductive Session (store : Store) (location : UInt16) (top : Nat) (m : Machine) :
    List StackEvent → Machine → Prop
  | start : Session store location top m [] m
  | pushing {es : List StackEvent} {p q : Machine} {i : StackInstruction} {v fill : UInt16} :
    Session store location top m es p → p.Faces i → i.pushes? = some v →
    p.memory.fill? = some fill → fill.toNat < top → step store p = .ok () q →
    Session store location top m (es ++ [.pushed v]) q
  | popping {es : List StackEvent} {p q : Machine} {i : StackInstruction} {v : UInt16} :
    Session store location top m es p → p.Faces i → i.KeepsClear p.memory location top →
    step store p = .ok () q → i.Yields q v → Session store location top m (es ++ [.popped v]) q
  | between {es : List StackEvent} {p q : Machine} :
    Session store location top m es p → p.memory.SameStack q.memory location top →
    Session store location top m es q

/-- The words on the stack are those that the events leave, and there are not too many. -/
structure StackAfter (location : UInt16) (top : Nat) (base : List UInt16) (es : List StackEvent)
    (stack : List UInt16) (m : Machine) : Prop where
  replay : StackEvent.replay base es = some stack
  room : m.memory.StackRoom location top
  held : m.memory.stack? = some stack
  fits : stack.length ≤ top

theorem StackAfter.fill? (after : StackAfter location top base es stack m) :
    m.memory.fill? = some (UInt16.ofNat stack.length) := by
  rw [after.room.fill?_eq]
  exact ((after.room.stack?_eq_some_iff after.fits).1 after.held).1

/-- The count is zero just if there is nothing on the stack. -/
theorem StackAfter.fill?_eq_zero_iff (after : StackAfter location top base es stack m) :
    m.memory.fill? = some 0 ↔ stack = [] := by
  rw [after.fill?, Option.some.injEq, ← UInt16.toNat_inj, after.room.toNat_fill after.fits]
  exact List.length_eq_zero_iff

/-- After any instructions, the words that the events leave are on the stack. -/
theorem Session.stackAfter (session : Session store location top m es p)
    (room : m.memory.StackRoom location top) (held : m.memory.stack? = some base)
    (fits : base.length ≤ top) : ∃ stack, StackAfter location top base es stack p := by
  induction session with
  | start => exact ⟨base, rfl, room, held, fits⟩
  | @pushing es p q i v fill _ faces pushes counted free done ih =>
    obtain ⟨stack, after⟩ := ih
    rw [after.fill?] at counted
    cases counted
    rw [after.room.toNat_fill after.fits] at free
    obtain ⟨q', done', room', held'⟩ := step_pushing store faces pushes after.room after.held free
    cases done.symm.trans done'
    exact ⟨v :: stack, StackEvent.replay_concat_eq_some.2 ⟨stack, after.replay, rfl⟩, room', held',
      free⟩
  | @popping es p q i v _ faces clear done yields ih =>
    obtain ⟨stack, after⟩ := ih
    have pops := yields.pushes?_eq_none
    cases stack with
    | nil =>
      obtain ⟨q', failed, -⟩ := step_underflow store faces pops after.room after.held
      cases done.symm.trans failed
    | cons u rest =>
      obtain ⟨q', done', yields', room', held'⟩ :=
        step_popping store faces pops clear after.room after.held after.fits
      cases done.symm.trans done'
      cases yields.unique yields'
      exact ⟨rest, StackEvent.replay_concat_eq_some.2 ⟨_, after.replay, if_pos rfl⟩, room', held',
        Nat.le_of_succ_le after.fits⟩
  | between _ same ih =>
    obtain ⟨stack, after⟩ := ih
    exact ⟨stack, after.replay, same.room after.room, same.stack? after.room after.fits after.held,
      after.fits⟩

/-! ## What is taken off -/

/-- Where a word comes from that is taken off after some events, so that `below` are left: it was
put on, and all that was put on afterwards has been taken off since; or nothing that was put on is
left, and it is the word that the memory held in this place from the start. -/
inductive Origin (m : Memory) (location : UInt16) (es : List StackEvent) (below : Nat)
    (v : UInt16) : Prop
  | matching {before between : List StackEvent} :
    es = before ++ .pushed v :: between → StackEvent.Balanced between → Origin m location es below v
  | stored :
    (∀ before w between, es = before ++ .pushed w :: between → ¬ StackEvent.Balanced between) →
    m.word? (Instruction.stackSlot location (UInt16.ofNat below)) = some v →
    Origin m location es below v

theorem origin_of_replay (room : m.memory.StackRoom location top)
    (held : m.memory.stack? = some base) (fits : base.length ≤ top)
    (replay : StackEvent.replay base es = some (v :: stack)) :
    Origin m.memory location es stack.length v := by
  have inFront : StackEvent.replay base es = some ([] ++ v :: stack) := replay
  rcases StackEvent.replay_cons inFront with
    ⟨before, between, split, onTop⟩ | ⟨above, rfl, onTop⟩
  · exact .matching split (StackEvent.balanced_of_replay onTop)
  · exact .stored (fun _ _ _ => StackEvent.not_balanced_of_replay onTop)
      (Memory.word?_of_entries? ((room.stack?_eq_some_iff fits).1 held).2)

/-- What has been taken off in the course of events, and how many words were below it. -/
theorem exists_origin_of_popped (room : m.memory.StackRoom location top)
    (held : m.memory.stack? = some base) (fits : base.length ≤ top) {before rest : List StackEvent}
    (replay : StackEvent.replay base (before ++ .popped v :: rest) = some stack) :
    ∃ below, below + 1 + StackEvent.pops before = base.length + StackEvent.pushes before ∧
      Origin m.memory location before below v := by
  rw [StackEvent.replay_append, Option.bind_eq_some_iff] at replay
  obtain ⟨earlier, early, late⟩ := replay
  rw [StackEvent.replay_event, Option.bind_eq_some_iff] at late
  obtain ⟨left, taken, -⟩ := late
  rcases StackEvent.act_eq_some taken with ⟨w, other, -⟩ | ⟨w, same, rfl⟩
  · cases other
  · cases same
    exact ⟨left.length, StackEvent.length_of_replay early, origin_of_replay room held fits early⟩

/-- The stack of a program is a stack, at any depth that memory has room for.  After any
instructions that use it, the word that counts its entries says how many there were at the start and
how many have been put on and taken off since.  Whatever has been taken off is what the matching
PUSH or CALL had put on, or what was there from the start; and so is what the next POP or RETURN
takes off.  It fails just if the count is zero, and then leaves memory as it was. -/
theorem stack_is_last_in_first_out {fill : UInt16} (room : m.memory.StackRoom location top)
    (counted : m.memory.fill? = some fill) (fits : fill.toNat ≤ top)
    (session : Session store location top m es p) :
    ∃ n ≤ top, p.memory.fill? = some (UInt16.ofNat n) ∧
      n + StackEvent.pops es = fill.toNat + StackEvent.pushes es ∧
      (∀ before v after, es = before ++ .popped v :: after → ∃ below,
        below + 1 + StackEvent.pops before = fill.toNat + StackEvent.pushes before ∧
          Origin m.memory location before below v) ∧
      ∀ i, p.Faces i →
        (∀ v, i.pushes? = some v → n < top → ∃ q, step store p = .ok () q) ∧
        (i.pushes? = none → i.KeepsClear p.memory location top →
          ((∃ q, step store p = .error .stackUnderflow q) ↔ p.memory.fill? = some 0) ∧
          (∀ r q, step store p = .error r q → r = .stackUnderflow ∧ q.memory = p.memory) ∧
          (p.memory.fill? ≠ some 0 → ∃ q v, step store p = .ok () q ∧ i.Yields q v ∧
            Origin m.memory location es (n - 1) v)) := by
  obtain ⟨base, held, length⟩ := room.exists_stack? counted fits
  have small : base.length ≤ top := length ▸ fits
  obtain ⟨stack, after⟩ := session.stackAfter room held small
  refine ⟨stack.length, after.fits, after.fill?, length ▸ StackEvent.length_of_replay after.replay,
    fun before v rest split => ?_, fun i faces => ⟨fun v pushes free => ?_, fun pops clear => ?_⟩⟩
  · rw [← length]
    exact exists_origin_of_popped room held small (split ▸ after.replay)
  · obtain ⟨q, done, -⟩ := step_pushing store faces pushes after.room after.held free
    exact ⟨q, done⟩
  · rw [Ne, after.fill?_eq_zero_iff]
    cases stack with
    | nil =>
      obtain ⟨q, failed, same⟩ := step_underflow store faces pops after.room after.held
      refine ⟨iff_of_true ⟨q, failed⟩ rfl, fun r q' failed' => ?_, absurd rfl⟩
      cases failed.symm.trans failed'
      exact ⟨rfl, same⟩
    | cons v rest =>
      obtain ⟨q, done, yields, -⟩ :=
        step_popping store faces pops clear after.room after.held after.fits
      have completes (r : Failure) (q' : Machine) : step store p ≠ .error r q' := by
        intro failed
        cases done.symm.trans failed
      exact ⟨iff_of_false (fun ⟨q', failed⟩ => completes _ q' failed) (List.cons_ne_nil v rest),
        fun r q' failed => absurd failed (completes r q'),
        fun _ => ⟨q, v, done, yields, origin_of_replay room held small after.replay⟩⟩

/-- A program that puts 7 on the stack and calls an instruction that returns, behind which it takes
the 7 off.  The stack is at address 40 and has 9 on it from the start. -/
def callAndReturn (fill first second : UInt8) : Memory :=
  ⟨#[0x10, 7, 0x18, 4, 0x11, 20, 0x19, 0, 0, 0, 0, 0, 0, 0, 0, 0, 0, 0, 0, 0, 0, 0, 0, 0, 0, 0, 0,
    0, 0, 0, 0, 0, 0, 0, 0, 0, 0, 0, 0, 0, 0, fill, 0, 9, 0, first, 0, second, 0, 0, 0, 0, 0, 0, 0,
    0, 0, 0, 0, 0, 0, 0, 0, 0, 0, 0, 0, 0, 0, 0, 0, 40]⟩

/-- The POP finds the 7 although a return address has been put on the stack in between. -/
theorem popped_behind_call :
    let m : Machine := {
      pc := 0
      memory := callAndReturn 1 0 0
      input := ⟨[], 0, 0, false⟩
      budget := ⟨0, 100, 16⟩
      output := #[]
      outputCapacity := 0
      instructions := 0
      completion := none
      requests := []
      feedbackAt := 0
      parametersAt := 0 }
    let store : Store := .ofSettings {}
    let es : List StackEvent := [.pushed 7, .pushed 4, .popped 4]
    ∃ p q v, Session store 40 3 m es p ∧ p.Faces (.pop 20 6) ∧ step store p = .ok () q ∧
      q.memory.word? 20 = some v ∧ v = 7 ∧ Origin m.memory 40 es 1 v := by
  intro m store es
  let m₁ : Machine := { m with
    pc := 2, memory := callAndReturn 2 7 0, budget := ⟨1, 100, 16⟩, instructions := 1 }
  let m₂ : Machine := { m with
    pc := 6, memory := callAndReturn 3 7 4, budget := ⟨2, 100, 16⟩, instructions := 2 }
  let m₃ : Machine := { m with
    pc := 4, memory := callAndReturn 2 7 4, budget := ⟨3, 100, 16⟩, instructions := 3 }
  have push : m.Faces (.push 7 2) := ⟨by cbv, { m.frame with cursor := 2 }, by cbv, rfl⟩
  have call : m₁.Faces (.call 6 4) := ⟨by cbv, { m₁.frame with cursor := 4 }, by cbv, rfl⟩
  have ret : m₂.Faces .ret := by cbv
  have pop : m₃.Faces (.pop 20 6) := ⟨by cbv, { m₃.frame with cursor := 6 }, by cbv, rfl⟩
  have one : m.memory.fill? = some 1 := by cbv
  have two : m₁.memory.fill? = some 2 := by cbv
  have pushed : Session store 40 3 m [.pushed 7] m₁ :=
    .pushing .start push rfl one (by decide) (by cbv)
  have called : Session store 40 3 m [.pushed 7, .pushed 4] m₂ :=
    .pushing pushed call rfl two (by decide) (by cbv)
  have returned : Session store 40 3 m es m₃ :=
    .popping called ret trivial (by cbv) rfl
  have room : m.memory.StackRoom 40 3 := ⟨by cbv, by decide, by decide, by decide⟩
  obtain ⟨n, -, counted, total, -, next⟩ :=
    stack_is_last_in_first_out room one (by decide) returned
  obtain rfl : n = 2 := by
    have pops : StackEvent.pops es = 1 := rfl
    have pushes : StackEvent.pushes es = 2 := rfl
    rw [pops, pushes] at total
    exact Nat.succ.inj total
  obtain ⟨-, -, found⟩ := (next _ pop).2 rfl ⟨by decide, by decide, by decide⟩
  obtain ⟨q, v, done, yields, origin⟩ := found (by rw [counted]; decide)
  have seven : step store m₃ = .ok () { m with
      pc := 6
      memory := (callAndReturn 1 7 4).setWord 20 7
      budget := ⟨4, 100, 16⟩
      instructions := 4 } := by cbv
  refine ⟨m₃, q, v, returned, pop, done, yields.1, ?_, origin⟩
  cases done.symm.trans seven
  exact Option.some.inj (yields.1.symm.trans (by cbv))

end Machine

end SigComp
