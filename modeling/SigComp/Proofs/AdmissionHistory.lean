import SigComp.Proofs.AdmissionOrder
import SigComp.Proofs.RefusedDeclaration
import SigComp.Proofs.SendingOutcomes

/-!
# Admissions in a history

How many states a compartment has admitted since it last had none is a matter of the history of its
engine: of the messages that have been declared to be its peer's, and of what their programs have
left to be done.

* `Compartment.tally`, `Compartment.tallyAll`: the number after what a program leaves to be done.
* `Engine.admissions`: the number for the compartment of a key, after a history.
* `Counted.carryOutAll`, `Counted.settle`: it is right while a program's wishes are carried out.
* `Engine.Tallied`: it is right for the compartment of a key; `tallied_perform`: one operation.
* `admission_gives_up_shortest_front`: whom a compartment gives up, as long as its counter has
  not run over.
-/

namespace SigComp

/-! ## Counting admissions -/

namespace Compartment

/-- With a commitment a state becomes a member that was none. -/
def admits (c : Compartment) (s : Store) : Commitment → Bool
  | .save l content =>
    match c.member? l.id, accept l content (c, s) with
    | none, .ok _ _ => true
    | _, _ => false
  | _ => false

/-- How many states a compartment has admitted since it last had none, after one commitment more.
If all members have been given up for a new one, this is the first. -/
def tally (n : Nat) (c : Compartment) (s : Store) (todo : Commitment) : Nat :=
  let left := (c.carryOut s todo).1.1.members
  if c.admits s todo then since n left.dropLast + 1 else since n left

/-- The number after all commitments. -/
def tallyAll (n : Nat) (c : Compartment) (s : Store) : List Commitment → Nat
  | [] => n
  | todo :: rest =>
    let after := (c.carryOut s todo).1
    tallyAll (tally n c s todo) after.1 after.2 rest

/-- The number after a machine has been settled with the compartment. -/
def tallySettled (n : Nat) (c : Compartment) (s : Store) (now : Nat) (m : Machine) : Nat :=
  tallyAll n (c.received now) s (m.commitments c.own.stateMemory remoteIdsCapacity)

end Compartment

namespace Engine

open Compartment (since tallySettled)

/-- The engine in which the compartment of a declaration is open. -/
def openedFor (e : Engine) : Declaration → Engine
  | .fresh algorithm => after (create algorithm e)
  | _ => e

/-- The number after a machine has been settled with the compartment of a key. -/
def tallyDeclared (e : Engine) (k : Key) (n : Nat) (id : MachineId) (d : Declaration) : Nat :=
  let opened := e.openedFor d
  match opened.compartments.get? k, e.reap.pending.claim id with
  | some c, .ok (w, _) =>
    tallySettled (since n c.members) c opened.store e.clock.now w.machine
  | _, _ => n

/-- The number after one operation more.  Only a declaration admits states. -/
def tallyNext (e : Engine) (k : Key) (n : Nat) (o : Operation) : Nat :=
  match o, o.perform e with
  | .declare id d, .ok (.declared (some k')) _ => if k' = k then e.tallyDeclared k n id d else n
  | _, _ => n

/-- The number after operations. -/
def tallyRun (e : Engine) (k : Key) (n : Nat) : List Operation → Nat
  | [] => n
  | o :: rest => (after (o.perform e)).tallyRun k (e.tallyNext k n o) rest

/-- How many states the compartment of a key has admitted in a history since it last had none. -/
def admissions (e : Engine) (k : Key) (operations : List Operation) : Nat :=
  since (e.tallyRun k 0 operations)
    (((e.run operations).compartments.get? k).map (·.members) |>.getD [])

end Engine

/-! ## Settlement -/

namespace Compartment

variable {c c' : Compartment} {s : Store} {p : Compartment × Store} {n : Nat}

/-- The number starts anew by itself when there are no members left. -/
theorem Counted.renewed (counted : Counted n p) : Counted (since n p.1.members) p := by
  rw [counted.orderly.numbered.since_eq]
  exact counted

theorem Counted.save (counted : Counted n (c, s)) (l : Label) (content : Content) :
    Counted (tally n c s (.save l content)) (c.carryOut s (.save l content)).1 := by
  rw [tally, carryOut_save, admits]
  cases done : Compartment.accept l content (c, s) with
  | error r q => cases c.member? l.id <;> exact counted.refused done
  | ok saved q =>
    cases known : c.member? l.id with
    | none => exact counted.admitted known done
    | some m => exact (counted.refreshed known done).renewed

theorem Counted.free (counted : Counted n (c, s)) (partialId : Bytes) :
    Counted (tally n c s (.free partialId)) (c.carryOut s (.free partialId)).1 := by
  rw [tally, carryOut_free]
  cases done : expel partialId (c, s) with
  | error r q =>
    rw [expel_eq_error done]
    exact counted.renewed
  | ok _ q => exact counted.expelled done

theorem Counted.carryOut (counted : Counted n (c, s)) (todo : Commitment) :
    Counted (tally n c s todo) (c.carryOut s todo).1 := by
  cases todo with
  | capabilities packed version => exact (counted.amended (sameRoll_learn c packed version)).renewed
  | remoteIds ids => exact Counted.renewed (counted.amended ⟨⟨rfl, rfl, rfl, rfl⟩, rfl⟩)
  | feedback keepStates sendIds item =>
    cases taken : c.requestFeedback keepStates sendIds item with
    | ok c' =>
      simp only [tally, admits, Compartment.carryOut, taken]
      exact (counted.amended (sameRoll_requestFeedback taken)).renewed
    | error r =>
      simp only [tally, admits, Compartment.carryOut, taken]
      exact counted.renewed
  | save l content => exact counted.save l content
  | skipSave reason address length => exact counted.renewed
  | free partialId => exact counted.free partialId
  | skipFree reason => exact counted.renewed

/-- A compartment is counted rightly at any point of what a program leaves to be done. -/
theorem Counted.carryOutAll (counted : Counted n (c, s)) (todo : List Commitment) :
    Counted (tallyAll n c s todo) (c.carryOutAll s todo).1 := by
  induction todo generalizing n c s with
  | nil => exact counted
  | cons one rest ih => exact ih (counted.carryOut one)

theorem Counted.settle (counted : Counted n (c, s)) (now : Nat) (m : Machine)
    (feedback : Option Bytes) :
    Counted (tallySettled n c s now m) (c.settle s now m feedback).1 := by
  have received : SameRoll c (c.received now) := ⟨⟨rfl, rfl, rfl, rfl⟩, rfl⟩
  have done := (counted.amended received).carryOutAll
    (m.commitments c.own.stateMemory remoteIdsCapacity)
  exact done.amended (sameRoll_acceptFeedback _ feedback)

end Compartment

/-! ## Operations -/

namespace Engine

open Compartment (Counted IsOpen SameRoll sameRoll_amends)

variable {e e' opened : Engine} {k k' : Key} {c c' : Compartment} {n : Nat} {id : MachineId}
  {d : Declaration} {w : Suspended} {algorithm : Option String} {compartment : Option Key}

/-- An engine as it comes about, which may be half-way through an operation. -/
def Underway (e : Engine) : Prop :=
  ∃ first : Engine, first.Reachable ∧ Steps (fun _ => True) first e

theorem Reachable.underway (reachable : e.Reachable) : e.Underway := ⟨e, reachable, .refl⟩

theorem Underway.isOpen (underway : e.Underway) (found : e.compartments.get? k = some c) :
    IsOpen c e.store := by
  obtain ⟨first, reachable, steps⟩ := underway
  exact ⟨first, e, k, reachable, steps, found, rfl⟩

theorem Underway.tidy (underway : e.Underway) : e.compartments.Tidy := by
  obtain ⟨first, reachable, steps⟩ := underway
  obtain ⟨_, consistent⟩ := consistent_of_reachable reachable
  exact (consistent_of_steps consistent steps).tidy

theorem Underway.created (underway : e.Underway) (created : create algorithm e = .ok k opened) :
    opened.Underway := by
  have leaves : Leaves (Steps (fun _ => True) e) _ (create algorithm e) :=
    steps_create underway.tidy (fun _ _ => trivial) algorithm
  rw [created] at leaves
  obtain ⟨first, reachable, steps⟩ := underway
  exact ⟨first, reachable, steps.trans leaves.1⟩

/-- The number is right for the compartment of a key, if there is one. -/
def Tallied (k : Key) (n : Nat) (e : Engine) : Prop :=
  ∀ c, e.compartments.get? k = some c → Counted (Compartment.since n c.members) (c, e.store)

theorem Tallied.congr (tallied : Tallied k n e) (compartments : e'.compartments = e.compartments)
    (store : e'.store = e.store) : Tallied k n e' := by
  rw [Tallied, compartments, store]
  exact tallied

/-- What happens elsewhere is no matter of the compartment. -/
theorem Tallied.elsewhere (tallied : Tallied k n e) (underway : e'.Underway)
    (same : e'.compartments.get? k = e.compartments.get? k) : Tallied k n e' :=
  fun c found => (tallied c (same ▸ found)).elsewhere (underway.isOpen found)

/-- No compartment, no number. -/
theorem tallied_of_vacant (vacant : e.compartments.get? k = none) : Tallied k n e := by
  intro c found
  rw [vacant] at found
  cases found

/-- A compartment is put back with the members that it had. -/
theorem Tallied.put (tallied : Tallied k n e) (found : e.compartments.get? k' = some c)
    (same : SameRoll c c') : Tallied k n (e.putCompartment k' c') := by
  intro c'' found'
  simp only [putCompartment, Arena.get?_put found] at found'
  by_cases here : k = k'
  · subst here
    rw [if_pos rfl, Option.some.injEq] at found'
    subst found'
    rw [same.members]
    exact (tallied c found).amended same
  · rw [if_neg here] at found'
    exact tallied c'' found'

theorem Tallied.created (tallied : Tallied k n e) (underway : e.Underway)
    (created : create algorithm e = .ok k' opened) : Tallied k n opened := by
  have opens := opens_of_create underway.tidy created
  by_cases here : k = k'
  · subst here
    obtain ⟨e₁, a, context, new⟩ := founding_of_create underway.tidy created
    intro c found
    cases new.symm.trans found
    exact .opened ((underway.created created).isOpen found)
  · exact tallied.elsewhere (underway.created created) (opens.others k here)

theorem Tallied.closed (tallied : Tallied k n e) (c : Compartment)
    (underway : ({ e with compartments := e.compartments.erase k' }.destruct k' c).Underway) :
    Tallied k n ({ e with compartments := e.compartments.erase k' }.destruct k' c) := by
  have erased : ({ e with compartments := e.compartments.erase k' }.destruct k' c).compartments =
      e.compartments.erase k' := by
    unfold destruct
    cases c.context <;> rfl
  by_cases here : k = k'
  · refine tallied_of_vacant ?_
    rw [erased, here, Arena.get?_erase_same]
  · refine tallied.elsewhere underway ?_
    rw [erased, Arena.get?_erase, if_neg here]

/-- A declaration that is carried out admits what the message's program wants to be saved. -/
theorem Tallied.settled {p : Pending} (tallied : Tallied k n e) (underway : e.Underway)
    (destination : Destination e d k' opened) (found : opened.compartments.get? k' = some c)
    (claimed : e.reap.pending.claim id = .ok (w, p))
    (ended : ({ opened.reap with pending := p }.settled k' c w).Underway) :
    Tallied k (if k' = k then e.tallyDeclared k n id d else n)
      ({ opened.reap with pending := p }.settled k' c w) := by
  have before : Tallied k n opened ∧ e.openedFor d = opened := by
    cases destination with
    | existing _ => exact ⟨tallied, rfl⟩
    | fresh created =>
      refine ⟨tallied.created underway created, ?_⟩
      rw [openedFor, created, after]
  obtain ⟨before, afterOpening⟩ := before
  by_cases here : k' = k
  · subst here
    intro c' found'
    have there : ({ opened.reap with pending := p }.settled k' c w).compartments.get? k' = _ :=
      (Arena.get?_put found _).trans (if_pos rfl)
    cases there.symm.trans found'
    have declared : e.tallyDeclared k' n id d = Compartment.tallySettled
        (Compartment.since n c.members) c opened.store opened.clock.now w.machine := by
      simp only [tallyDeclared, afterOpening, found, claimed, destination.aside.2]
    rw [if_pos rfl, declared]
    exact ((before c found).settle opened.clock.now w.machine w.feedback).renewed
  · rw [if_neg here]
    exact before.elsewhere ended ((Arena.get?_put found _).trans (if_neg (Ne.symm here)))

theorem tallied_create (tallied : Tallied k n e) (underway : e.Underway)
    (ended : (after (create algorithm e)).Underway) : Tallied k n (after (create algorithm e)) := by
  cases created : create algorithm e with
  | ok k' opened => exact tallied.created underway created
  | error r e' =>
    rw [created] at ended
    exact tallied.elsewhere ended (congrArg (·.get? k) (compartments_of_unopened created))

theorem tallied_close (tallied : Tallied k n e) (k' : Key) (ended : (after (close k' e)).Underway) :
    Tallied k n (after (close k' e)) := by
  simp only [close, compartment] at ended ⊢
  cases found : e.compartments.get? k' with
  | none => exact tallied
  | some c =>
    rw [found] at ended
    exact tallied.closed c ended

theorem tallied_resendBytecode (tallied : Tallied k n e) (k' : Key) :
    Tallied k n (after (resendBytecode k' e)) := by
  unfold resendBytecode
  rw [run_get]
  cases found : e.compartments.get? k' with
  | none =>
    rw [compartment_of_vacant found, run_ofExcept_error]
    exact tallied
  | some c =>
    rw [compartment_of_get? found, run_ofExcept_ok]
    exact tallied.put found (sameRoll_amends .resends)

theorem tallied_compress (tallied : Tallied k n e) (underway : e.Underway)
    (compartment : Option Key) (algorithm : Option String) (plain : Bytes) (t : Transport)
    (ended : (after (compress compartment algorithm plain t e)).Underway) :
    Tallied k n (after (compress compartment algorithm plain t e)) := by
  have sends {k' : Key} {opened : Engine} (sender : Sender e algorithm compartment k' opened) :
      Tallied k n opened := by
    cases sender with
    | given _ => exact tallied
    | opened created => exact tallied.created underway created
  have outcome := compressing_compress underway.tidy compartment algorithm plain t
  generalize compress compartment algorithm plain t e = result at outcome ended
  cases outcome with
  | closed _ => exact tallied
  | unopened refused =>
    exact tallied.elsewhere ended (congrArg (·.get? k) (compartments_of_unopened refused))
  | @failed _ k' opened c text context sender found _ =>
    have told : Tallied k n (opened.consulted k' c t) := (sends sender).congr rfl rfl
    exact told.put found (sameRoll_amends (.written context))
  | @sent _ k' opened c message context sender found _ =>
    have told : Tallied k n ((opened.consulted k' c t).warned
      (bytecodeWarnings k' (c.writeContext context) message)) := (sends sender).congr rfl rfl
    exact told.put found (sameRoll_amends (.sent context))

theorem tallied_declare (tallied : Tallied k n e) (underway : e.Underway) (id : MachineId)
    (d : Declaration) (ended : (after (declare id d e)).Underway) :
    Tallied k (e.tallyNext k n (.declare id d)) (after (declare id d e)) := by
  have outcome := declaring_declare underway.tidy id d
  simp only [tallyNext, Operation.perform, Functor.map, EStateM.map]
  generalize declare id d e = result at outcome ended
  cases outcome with
  | nobody _ => exact tallied
  | closed _ _ => exact tallied
  | unopened _ refused =>
    exact tallied.elsewhere ended (congrArg (·.get? k) (compartments_of_unopened refused))
  | unclaimed _ _ => exact tallied.congr rfl rfl
  | unknown _ _ _ => exact tallied.congr rfl rfl
  | @rolledBack algorithm k' opened r _ created _ =>
    have before : Tallied k n opened.reap := (tallied.created underway created).congr rfl rfl
    obtain ⟨c, found⟩ := (opens_of_create underway.tidy created).opened
    have there : opened.reap.compartments.get? k' = some c := found
    simp only [after] at ended ⊢
    rw [rollBack_of_found there] at ended ⊢
    exact before.closed c ended
  | discarded _ _ => exact tallied.congr rfl rfl
  | settled _ destination found claimed =>
    exact tallied.settled underway destination found claimed ended

/-- One operation. -/
theorem tallied_perform (tallied : Tallied k n e) (reachable : e.Reachable) (o : Operation) :
    Tallied k (e.tallyNext k n o) (after (o.perform e)) := by
  have underway := reachable.underway
  have ended := (reachable.perform o).underway
  have registered (registers : o.registers = true) : Tallied k n (after (o.perform e)) :=
    tallied.elsewhere ended (congrArg (·.get? k) (compartments_of_registers registers e))
  rw [after_perform] at ended registered ⊢
  cases o with
  | create algorithm => exact tallied_create tallied underway ended
  | close k' => exact tallied_close tallied k' ended
  | resendBytecode k' => exact tallied_resendBytecode tallied k'
  | declare id d => exact tallied_declare tallied underway id d ended
  | compress k' algorithm plain t =>
    exact tallied_compress tallied underway k' algorithm plain t ended
  | decompress data t =>
    exact tallied.elsewhere ended (congrArg (·.get? k) (compartments_decompress data t e))
  | advance ms => exact tallied.congr rfl rfl
  | addAlgorithm d compressor => exact registered rfl
  | addDictionary data access => exact registered rfl

theorem tallied_run (tallied : Tallied k n e) (reachable : e.Reachable)
    (operations : List Operation) :
    Tallied k (e.tallyRun k n operations) (e.run operations) := by
  induction operations generalizing e n with
  | nil => exact tallied
  | cons o rest ih => exact ih (tallied_perform tallied reachable o) (reachable.perform o)

/-- The compartments of any history are counted rightly. -/
theorem counted_admissions {settings : Settings} {first : Engine}
    (started : start settings = .ok first) (operations : List Operation)
    (found : (first.run operations).compartments.get? k = some c) :
    Counted (first.admissions k operations) (c, (first.run operations).store) := by
  have tallied : Tallied k 0 first := tallied_of_vacant (nothing_open started k)
  have counted := tallied_run tallied (.start started) operations c found
  simpa only [admissions, found, Option.map_some, Option.getD_some] using counted

end Engine

namespace Compartment

/-- After any history a compartment is counted by the states that it has admitted in this history
since it last had none, and so it is at any point of what a program leaves to be done.  Whatever
compartments have come about, and whatever state one of them admits while its counter has not run
over: its members stand in the order of their admission.  A state that is new to it becomes its last
member, in place of the shortest front of the line that makes room for it, and all others stay what
they are.  One that it holds already leaves all members where they are and gets its new priority in
its old place. -/
theorem admission_gives_up_shortest_front :
    (∀ settings first operations k c, Engine.start settings = .ok first →
      (first.run operations).compartment k = .ok c →
      Counted (first.admissions k operations) (c, (first.run operations).store)) ∧
    (∀ n c s todo, Counted n (c, s) → Counted (tallyAll n c s todo) (c.carryOutAll s todo).1) ∧
    ∀ n p q l content saved, Counted n p → n < 1 <<< 32 → accept l content p = .ok saved q →
      Ascending p.1.members ∧
      (p.1.member? l.id = none → ComesLast n p l content saved q) ∧
      ∀ m, p.1.member? l.id = some m → saved = .duplicate m.key ∧ q.2 = p.2 ∧
        ∃ before behind, p.1.members = before ++ m :: behind ∧
          q.1.members = before ++ { m with priority := l.priority } :: behind := by
  refine ⟨fun settings first operations k c started opened => ?_,
    fun n c s todo counted => counted.carryOutAll todo,
    fun n p q l content saved counted few done => ?_⟩
  · exact Engine.counted_admissions started operations (Engine.compartment_eq_ok opened)
  · have orderly := counted.orderly
    refine ⟨orderly.numbered.ascending few, fun unknown => orderly.comesLast few unknown done,
      fun m known => ?_⟩
    obtain ⟨c, s⟩ := p
    obtain ⟨rfl, rfl⟩ := refreshed_of_accept orderly.balanced known done
    exact ⟨rfl, rfl, members_of_reprioritize orderly.backed known l.priority⟩

/-- Of two members of like priority the one admitted first is given up, although it has got its
priority last. -/
theorem first_admitted_of_equals_goes :
    ∃ n p q l content saved, Counted n p ∧ accept l content p = .ok saved q ∧
      ComesLast n p l content saved q ∧
      p.1.members.map (fun m => (m.id.octets[0], m.priority)) = [(1, 1), (2, 1)] ∧
      q.1.members.map (fun m => (m.id.octets[0], m.priority)) = [(2, 1), (3, 7)] := by
  let settings : Settings := { stateMemory := 144 }
  let first : Engine :=
    ⟨settings, {}, .ofSettings settings, { capacity := 10 }, .ofSettings settings, {}, {}⟩
  let operations : List Operation :=
    [.addAlgorithm { name := "a", code := [0] }
      ⟨fun _ context => (.ok [], context), fun _ context => context⟩, .create none]
  let e : Engine := first.run operations
  let label (octet : UInt8) (priority : UInt16) : Label :=
    ⟨⟨Vector.replicate 20 octet⟩, 0, 0, 6, priority⟩
  let eight : Content := .ofBytes [1, 2, 3, 4, 5, 6, 7, 8]
  let put (l : Label) (p : Compartment × Store) : Compartment × Store := after (accept l eight p)
  let held (c : Compartment) : List (UInt8 × UInt16) :=
    c.members.map fun m => (m.id.octets[0], m.priority)
  have course : (e.compartments.get? ⟨0, 0⟩).map (fun c =>
      let p := put (label 1 1) (put (label 2 1) (put (label 1 5) (c, e.store)))
      let result := accept (label 3 7) eight p
      (c.members.isEmpty && (p.1.member? (label 3 7).id).isNone, (reason? result).isNone,
        [held p.1, held (after result).1])) =
      some (true, true, [[(1, 1), (2, 1)], [(2, 1), (3, 7)]]) := by
    decide +kernel
  obtain ⟨c, found, same⟩ := Option.map_eq_some_iff.1 course
  obtain ⟨checks, same⟩ := Prod.mk.inj same
  obtain ⟨reason, same⟩ := Prod.mk.inj same
  obtain ⟨two, same⟩ := List.cons.inj same
  obtain ⟨outcome, _⟩ := List.cons.inj same
  obtain ⟨nobody, unknown⟩ := Bool.and_eq_true_iff.1 checks
  have opened : e.compartment ⟨0, 0⟩ = .ok c := Engine.compartment_of_get? found
  have fresh := admission_gives_up_shortest_front.1 settings first operations _ c rfl opened
  have unused : first.admissions ⟨0, 0⟩ operations = 0 :=
    fresh.orderly.numbered.nobody (List.isEmpty_iff.1 nobody)
  obtain ⟨n₁, one, counted⟩ := fresh.accept (label 1 5) eight
  obtain ⟨n₂, another, counted⟩ := counted.accept (label 2 1) eight
  obtain ⟨n, again, counted⟩ := counted.accept (label 1 1) eight
  have few : n < 1 <<< 32 := by omega
  cases done : accept (label 3 7) eight
      (put (label 1 1) (put (label 2 1) (put (label 1 5) (c, e.store)))) with
  | error r q =>
    rw [done] at reason
    cases reason
  | ok saved q =>
    rw [done] at outcome
    obtain ⟨_, admits, _⟩ :=
      admission_gives_up_shortest_front.2.2 n _ q (label 3 7) eight saved counted few done
    exact ⟨n, _, q, label 3 7, eight, saved, counted, done,
      admits (Option.isNone_iff_eq_none.1 unknown), two, outcome⟩

end Compartment

end SigComp
