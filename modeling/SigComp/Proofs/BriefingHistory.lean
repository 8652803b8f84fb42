import SigComp.Proofs.DeferredEffects
import SigComp.Proofs.DeferredErrors
import SigComp.Proofs.SendingOutcomes
import SigComp.Proofs.SettlementRecords

/-!
# What an algorithm is told, and why

When a message is to be compressed its algorithm is told whether to send its bytecode again,
whether the peer has announced other capabilities, which feedback is to be passed on, and how
many messages have come.  All of this follows from what has happened to the compartment.

* `Event`: what happens to a compartment as far as this is concerned, and `Follows`: what is
  to be told after some events.
* `Engine.Past` and `Engine.recount`: the events of a compartment in a history.  They are told by
  the operations and their answers, and the feedback is that of the messages' headers.
* `Engine.Remembers`: what is told of an open compartment follows from its events;
  `recalling_perform`: one operation.
* `briefings_follow_history`: so it is at each compression, and failures, discarded messages
  and those of others make no difference.
-/

namespace SigComp

/-! ## Events -/

/-- Something that happens to a compartment: its algorithm is to send its bytecode again, a message
has been sent, or one that has come has been settled.  That may have had feedback in its header, and
it may have changed what is known of the peer's capabilities. -/
inductive Event where
  | cleared
  | sent
  | settled (feedback : Option Bytes) (changed : Bool)
  deriving DecidableEq

namespace Event

/-- The feedback that came with it. -/
def feedback? : Event → Option Bytes
  | settled feedback _ => feedback
  | _ => none

/-- A message has been settled. -/
def isSettled : Event → Bool
  | settled .. => true
  | _ => false

/-- What has happened since the bytecode was last asked for; the latest events come first. -/
def sinceCleared (events : List Event) : List Event := events.takeWhile (· != .cleared)

/-- What has happened since a message was last sent. -/
def sinceSent (events : List Event) : List Event := events.takeWhile (· != .sent)

section Since

variable {events : List Event} {feedback : Option Bytes} {changed : Bool}

@[simp] theorem sinceCleared_cleared : sinceCleared (.cleared :: events) = [] := rfl

@[simp] theorem sinceCleared_sent : sinceCleared (.sent :: events) = .sent :: sinceCleared events :=
  rfl

@[simp] theorem sinceCleared_settled :
    sinceCleared (.settled feedback changed :: events) =
      .settled feedback changed :: sinceCleared events := rfl

@[simp] theorem sinceSent_cleared : sinceSent (.cleared :: events) = .cleared :: sinceSent events :=
  rfl

@[simp] theorem sinceSent_sent : sinceSent (.sent :: events) = [] := rfl

@[simp] theorem sinceSent_settled :
    sinceSent (.settled feedback changed :: events) =
      .settled feedback changed :: sinceSent events := rfl

end Since

end Event

open Event (sinceCleared sinceSent)

/-- What an algorithm is told follows from events, the latest of which come first. -/
structure Follows (events : List Event) (b : Briefing) : Prop where
  reset : b.resetContext = true ↔ .sent ∉ sinceCleared events
  changed : b.remoteChanged = true ↔ ∃ feedback, .settled feedback true ∈ sinceSent events
  returned : b.returnedFeedback = ((sinceSent events).findSome? Event.feedback?).getD []
  incoming : b.incoming = events.countP Event.isSettled

/-! ## Compartments -/

namespace Compartment

variable {c c' : Compartment} {events : List Event}

/-- What is recorded of a compartment follows from events. -/
structure Recalls (c : Compartment) (events : List Event) : Prop where
  reset : c.sendBytecode = true ↔ .sent ∉ sinceCleared events
  changed : c.remoteChanged = true ↔ ∃ feedback, .settled feedback true ∈ sinceSent events
  returned : c.returnedFeedback = ((sinceSent events).findSome? Event.feedback?).getD []
  incoming : c.incoming = events.countP Event.isSettled

theorem Recalls.follows (recalls : c.Recalls events) (ownIds : Bytes) (dictionaryMandatory : Bool) :
    Follows events (c.briefing ownIds dictionaryMandatory) :=
  ⟨recalls.reset, recalls.changed, recalls.returned, recalls.incoming⟩

theorem Recalls.written (recalls : c.Recalls events) (data : Bytes) :
    (c.writeContext data).Recalls events :=
  ⟨recalls.reset, recalls.changed, recalls.returned, recalls.incoming⟩

/-- The bytecode is to be sent again. -/
theorem Recalls.cleared (recalls : c.Recalls events) :
    { c with sendBytecode := true }.Recalls (.cleared :: events) := by
  refine ⟨by simp, ?_, recalls.returned, recalls.incoming⟩
  simpa using recalls.changed

/-- A message is sent, and all that was to be passed on with it. -/
theorem Recalls.sent (recalls : c.Recalls events) : c.sent.Recalls (.sent :: events) := by
  refine ⟨?_, ?_, rfl, recalls.incoming⟩
  · simp [Compartment.sent]
  · simp [Compartment.sent]

/-- A message is settled; what it leaves to be passed on takes the place of what was there. -/
theorem Recalls.settled (recalls : c.Recalls events) (s : Store) (now : Nat) (m : Machine)
    {feedback : Option Bytes} (brief : Message.Brief feedback) :
    (c.settle s now m feedback).1.1.Recalls
      (.settled feedback (decide ((c.settle s now m feedback).1.1.remote ≠ c.remote)) ::
        events) := by
  obtain ⟨_, notified⟩ := c.notified_settle s now m feedback
  have returned := c.returned_settle s now m brief
  generalize (c.settle s now m feedback).1.1 = c' at notified returned
  have changed : c'.remoteChanged = (c.remoteChanged || decide (c'.remote ≠ c.remote)) :=
    notified.changed
  refine ⟨?_, ?_, ?_, ?_⟩
  · rw [notified.sendBytecode]
    refine Iff.trans recalls.reset ?_
    simp
  · rw [changed, Bool.or_eq_true, recalls.changed, Event.sinceSent_settled]
    simp only [List.mem_cons, Event.settled.injEq, exists_or, exists_eq_left]
    rw [or_comm, @eq_comm _ true]
  · rw [returned, recalls.returned, Event.sinceSent_settled, List.findSome?_cons]
    cases feedback <;> rfl
  · rw [notified.incoming, List.countP_cons_of_pos rfl, ← recalls.incoming]
    rfl

end Compartment

namespace Engine

variable {e e' opened : Engine} {k k' : Key} {c c' : Compartment} {id : MachineId} {d : Declaration}
  {w : Suspended} {past : Past} {events : List Event} {pinned : List Key}
  {algorithm : Option String} {compartment : Option Key}

/-! ## The past of a compartment -/

/-- The capabilities of the peer that are recorded under a key. -/
def recorded (e : Engine) (k : Key) : Capabilities :=
  ((e.compartments.get? k).map Compartment.remote).getD .peerDefault

/-- The feedback that came with messages, by the names of their machines, and what has happened to
one compartment; the latest come first. -/
structure Past where
  feedbacks : List (MachineId × Option Bytes) := []
  events : List Event := []

namespace Past

/-- The feedback in the header of the message whose machine has got a name. -/
def feedback (past : Past) (id : MachineId) : Option Bytes :=
  (past.feedbacks.find? (·.1 == id)).bind Prod.snd

/-- The name that a message's machine gets, with the feedback in the message's header. -/
def named? (e : Engine) (o : Operation) : Option (MachineId × Option Bytes) :=
  match o, o.perform e with
  | .decompress data _, .ok (.decompressed _ id) _ =>
    if id = 0 then none else some (id, (Message.parse? data).bind Message.feedback)
  | _, _ => none

/-- What happens to the compartment of a key with an operation, if anything does. -/
def event? (past : Past) (k : Key) (e : Engine) (o : Operation) : Option Event :=
  match o, o.perform e with
  | .resendBytecode k', .ok _ _ => if k' = k then some .cleared else none
  | .compress .., .ok (.compressed k' _) _ => if k' = k then some .sent else none
  | .declare id _, .ok (.declared (some k')) e' =>
    if k' = k then some (.settled (past.feedback id) (decide (e'.recorded k' ≠ e.recorded k')))
    else none
  | _, _ => none

/-- The past after one more operation.  With a compartment its past is forgotten. -/
def next (past : Past) (k : Key) (e : Engine) (o : Operation) : Past where
  feedbacks := (named? e o).toList ++ past.feedbacks
  events :=
    if ((after (o.perform e)).compartments.get? k).isSome then
      (past.event? k e o).toList ++ past.events
    else []

end Past

/-- The past after operations. -/
def recount (e : Engine) (k : Key) (past : Past) : List Operation → Past
  | [] => past
  | o :: rest => (after (o.perform e)).recount k (past.next k e o) rest

/-- What has happened to the compartment of a key in a history, since it was opened. -/
def eventsOf (e : Engine) (k : Key) (operations : List Operation) : List Event :=
  (e.recount k {} operations).events

/-! ## What is remembered -/

/-- If there is a compartment under a key, what is recorded of it follows from events. -/
def Recalling (k : Key) (events : List Event) (e : Engine) : Prop :=
  ∀ c, e.compartments.get? k = some c → c.Recalls events

/-- What is recorded of the compartment of a key follows from events; if there is none, there are no
events. -/
structure Remembers (k : Key) (events : List Event) (e : Engine) : Prop where
  recalling : Recalling k events e
  vacant : e.compartments.get? k = none → events = []

theorem Recalling.congr (recalling : Recalling k events e)
    (same : e'.compartments = e.compartments) : Recalling k events e' := by
  rw [Recalling, same]
  exact recalling

/-- A compartment is put back to which something may have happened. -/
theorem Recalling.put (recalling : Recalling k events e) (event : Option Event)
    (found : e.compartments.get? k' = some c)
    (step : c.Recalls events → c'.Recalls (event.toList ++ events)) :
    Recalling k ((if k' = k then event else none).toList ++ events) (e.putCompartment k' c') := by
  intro c'' found'
  simp only [putCompartment, Arena.get?_put found] at found'
  by_cases here : k' = k
  · subst here
    rw [if_pos rfl, Option.some.injEq] at found'
    rw [if_pos rfl, ← found']
    exact step (recalling c found)
  · rw [if_neg (Ne.symm here)] at found'
    rw [if_neg here]
    exact recalling c'' found'

/-- What is written into a context makes no difference. -/
theorem Recalling.putWritten (recalling : Recalling k events e)
    (found : e.compartments.get? k' = some c) (data : Bytes) :
    Recalling k events (e.putCompartment k' (c.writeContext data)) := by
  have put := recalling.put none found fun recalls => recalls.written data
  rwa [ite_self] at put

theorem Recalling.closed (recalling : Recalling k events e) (c : Compartment) :
    Recalling k events ({ e with compartments := e.compartments.erase k' }.destruct k' c) := by
  have erased : ({ e with compartments := e.compartments.erase k' }.destruct k' c).compartments =
      e.compartments.erase k' := by
    unfold destruct
    cases c.context <;> rfl
  intro c' found
  rw [erased, Arena.get?_erase] at found
  split at found
  · cases found
  · exact recalling c' found

/-! ## Opening -/

theorem recalls_founding (e : Engine) (a : Algorithm) (context : Option Context) :
    (e.founding a context).Recalls [] := by
  refine ⟨?_, ?_, rfl, rfl⟩
  · simp [founding, sinceCleared]
  · simp [founding, sinceSent]

theorem Remembers.created (remembers : Remembers k events e) (tidy : e.compartments.Tidy)
    (created : create algorithm e = .ok k' opened) : Remembers k events opened := by
  have opens := opens_of_create tidy created
  by_cases here : k = k'
  · subst here
    obtain rfl := remembers.vacant opens.fresh
    obtain ⟨e₁, a, context, found⟩ := founding_of_create tidy created
    refine ⟨fun c same => ?_, fun _ => rfl⟩
    cases found.symm.trans same
    exact recalls_founding e₁ a context
  · refine ⟨fun c found => remembers.recalling c ?_, fun vacant => remembers.vacant ?_⟩
    · rw [← opens.others k here, found]
    · rw [← opens.others k here, vacant]

theorem Remembers.sender (remembers : Remembers k events e) (tidy : e.compartments.Tidy)
    (sender : Sender e algorithm compartment k' opened) : Remembers k events opened := by
  cases sender with
  | given _ => exact remembers
  | opened created => exact remembers.created tidy created

theorem Remembers.destination (remembers : Remembers k events e) (tidy : e.compartments.Tidy)
    (destination : Destination e d k' opened) : Remembers k events opened := by
  cases destination with
  | existing _ => exact remembers
  | fresh created => exact remembers.created tidy created

/-- Nothing is known of a peer before its compartment is opened. -/
theorem recorded_of_destination (tidy : e.compartments.Tidy)
    (destination : Destination e d k opened)
    (found : opened.compartments.get? k = some c) : e.recorded k = c.remote := by
  cases destination with
  | existing found' =>
    rw [recorded, found]
    rfl
  | fresh created =>
    have opens := opens_of_create tidy created
    obtain ⟨e₁, a, context, new⟩ := founding_of_create tidy created
    cases found.symm.trans new
    rw [recorded, opens.fresh]
    rfl

/-! ## Machines that wait -/

/-- The feedback of a machine that waits is the one in the header of its message. -/
def Past.Knows (past : Past) (e : Engine) : Prop :=
  ∀ κ w, e.pending.machines.get? κ = some w → past.feedback w.id = w.feedback

theorem named?_eq_none {o : Operation} (other : ∀ data t, o ≠ .decompress data t) :
    Past.named? e o = none := by
  unfold Past.named?
  split
  · exact absurd rfl (other _ _)
  · rfl

/-- Only with a message does a machine come to wait. -/
theorem waits_of_perform {o : Operation} {κ : Key} (timely : e.Timely) (tidy : e.compartments.Tidy)
    (other : ∀ data t, o ≠ .decompress data t)
    (waits : (after (o.perform e)).pending.machines.get? κ = some w) :
    e.pending.machines.get? κ = some w := by
  have outcome := attending_perform timely tidy o
  generalize o.perform e = result at outcome waits
  cases outcome with
  | idle _ pending _ => rwa [pending] at waits
  | refused _ pending _ =>
    simp only [after, pending] at waits
    exact (timely.get?_reap_eq_some_iff.1 waits).1
  | taken _ _ _ pending _ =>
    simp only [after, pending, Pending.get?_without] at waits
    split at waits
    · cases waits
    · exact (timely.get?_reap_eq_some_iff.1 waits).1
  | @read data t _ _ _ _ => exact absurd rfl (other data t)
  | @suspended data t _ _ _ _ _ _ _ _ => exact absurd rfl (other data t)

theorem Past.Knows.fewer {o : Operation} (knows : past.Knows e) (nobody : named? e o = none)
    (fewer : ∀ κ w, e'.pending.machines.get? κ = some w → e.pending.machines.get? κ = some w) :
    (past.next k e o).Knows e' := by
  intro κ w waits
  have same : (past.next k e o).feedbacks = past.feedbacks := by
    rw [next, nobody]
    rfl
  rw [feedback, same]
  exact knows κ w (fewer κ w waits)

theorem Past.feedback_cons (past : Past) (id id' : MachineId) (item : Option Bytes)
    (events : List Event) : Past.feedback ⟨(id, item) :: past.feedbacks, events⟩ id' =
      if id = id' then item else past.feedback id' := by
  unfold feedback
  by_cases same : id = id'
  · simp [same]
  · simp [same]

/-- No other machine that waits has the name of one that comes to wait. -/
theorem Past.Knows.suspended {m : Machine} {item : Option Bytes} {κ : Key} (knows : past.Knows e)
    (timely : e.Timely)
    (suspends : e.reap.pending.Suspends m item (e.clock.now + e.timeout) κ id e'.pending)
    (events : List Event) : Past.Knows ⟨(id, item) :: past.feedbacks, events⟩ e' := by
  intro κ' w found
  have there : e'.pending.machines.get? κ = some ⟨id, m, item⟩ :=
    (suspends.view κ).trans (if_pos rfl)
  rw [feedback_cons]
  by_cases same : id = w.id
  · rw [if_pos same]
    obtain ⟨_, rfl⟩ := (timely.reap.suspend suspends).toNamed.name_unique there found same
    rfl
  · rw [if_neg same]
    rw [suspends.view] at found
    split at found
    · cases found
      exact absurd rfl same
    · exact knows κ' w (timely.get?_reap_eq_some_iff.1 found).1

theorem knows_decompress (knows : past.Knows e) (timely : e.Timely) (data : Bytes) (t : Transport) :
    (past.next k e (.decompress data t)).Knows
      (after (Operation.perform (.decompress data t) e)) := by
  have reaped : ∀ κ w, e.reap.pending.machines.get? κ = some w →
      e.pending.machines.get? κ = some w :=
    fun κ w waits => (timely.get?_reap_eq_some_iff.1 waits).1
  have outcome := receiving_decompress data t e
  cases read : decompress data t e with
  | error r e' =>
    have performed : Operation.perform (.decompress data t) e = .error r e' := run_bind_error read _
    rw [read] at outcome
    cases outcome
    rw [performed]
    exact knows.fewer (by simp only [Past.named?, performed]) reaped
  | ok text e' =>
    have performed :
        Operation.perform (.decompress data t) e = .ok (.decompressed text.1 text.2) e' :=
      run_bind_ok read _
    rw [read] at outcome
    rw [performed]
    cases outcome with
    | read plain warnings => exact knows.fewer (by simp [Past.named?, performed]) reaped
    | @suspended plain warnings message m id p parsed waits =>
      obtain ⟨κ, suspends⟩ := Pending.suspends_suspend timely.reap.toNamed waits
      have named : Past.named? e (.decompress data t) = some (id, message.feedback) := by
        simp only [Past.named?, performed]
        rw [if_neg suspends.name, parsed]
        rfl
      unfold Past.next
      rw [named]
      exact knows.suspended timely suspends _

theorem knows_perform (knows : past.Knows e) (timely : e.Timely) (tidy : e.compartments.Tidy)
    (o : Operation) : (past.next k e o).Knows (after (o.perform e)) := by
  by_cases reads : ∃ data t, o = .decompress data t
  · obtain ⟨data, t, rfl⟩ := reads
    exact knows_decompress knows timely data t
  · have other : ∀ data t, o ≠ .decompress data t := fun data t same => reads ⟨data, t, same⟩
    exact knows.fewer (named?_eq_none other) fun κ w => waits_of_perform timely tidy other

/-! ## Operations -/

theorem recalling_create (remembers : Remembers k events e) (tidy : e.compartments.Tidy)
    (algorithm : Option String) : Recalling k events (after (create algorithm e)) := by
  cases created : create algorithm e with
  | ok k' opened => exact (remembers.created tidy created).recalling
  | error r e' => exact remembers.recalling.congr (compartments_of_unopened created)

theorem recalling_close (recalling : Recalling k events e) (k' : Key) :
    Recalling k events (after (close k' e)) := by
  simp only [close, compartment]
  cases e.compartments.get? k' with
  | none => exact recalling
  | some c => exact recalling.closed c

theorem recalling_resendBytecode (recalling : Recalling k past.events e) (k' : Key) :
    Recalling k ((past.event? k e (.resendBytecode k')).toList ++ past.events)
      (after (Operation.perform (.resendBytecode k') e)) := by
  cases found : e.compartments.get? k' with
  | none =>
    have refused : resendBytecode k' e = .error .destructed e := by
      unfold resendBytecode
      rw [run_get, compartment_of_vacant found, run_ofExcept_error]
    have performed : Operation.perform (.resendBytecode k') e = _ := run_bind_error refused _
    simp only [Past.event?, performed]
    exact recalling
  | some c =>
    have done :
        resendBytecode k' e = .ok () (e.putCompartment k' { c with sendBytecode := true }) := by
      unfold resendBytecode
      rw [run_get, compartment_of_get? found, run_ofExcept_ok]
      rfl
    have performed : Operation.perform (.resendBytecode k') e = _ := run_bind_ok done _
    simp only [Past.event?, performed]
    exact recalling.put (some .cleared) found fun recalls => recalls.cleared

theorem recalling_compress (remembers : Remembers k past.events e) (tidy : e.compartments.Tidy)
    (compartment : Option Key) (algorithm : Option String) (plain : Bytes) (t : Transport) :
    Recalling k
      ((past.event? k e (.compress compartment algorithm plain t)).toList ++ past.events)
      (after (Operation.perform (.compress compartment algorithm plain t) e)) := by
  have outcome := compressing_compress tidy compartment algorithm plain t
  simp only [Past.event?, Operation.perform, bind, EStateM.bind]
  generalize compress compartment algorithm plain t e = result at outcome
  cases outcome with
  | closed _ => exact remembers.recalling
  | unopened refused => exact remembers.recalling.congr (compartments_of_unopened refused)
  | @failed _ k' opened c text context sender found _ =>
    have before := (remembers.sender tidy sender).recalling
    exact (before.congr rfl : Recalling k _ (opened.consulted k' c t)).putWritten found context
  | @sent _ k' opened c message context sender found _ =>
    have before := (remembers.sender tidy sender).recalling
    have told : Recalling k past.events ((opened.consulted k' c t).warned
      (bytecodeWarnings k' (c.writeContext context) message)) := before.congr rfl
    exact told.put (some .sent) found fun recalls => (recalls.written context).sent

theorem recorded_settled (found : e.compartments.get? k = some c) (w : Suspended) :
    (e.settled k c w).recorded k =
      (c.settle e.store e.clock.now w.machine w.feedback).1.1.remote := by
  have there : (e.settled k c w).compartments.get? k = _ :=
    (Arena.get?_put found _).trans (if_pos rfl)
  rw [recorded, there]
  rfl

theorem recalling_settled (recalling : Recalling k events e)
    (found : e.compartments.get? k' = some c) (brief : Message.Brief w.feedback) :
    Recalling k
      ((if k' = k then
        some (Event.settled w.feedback (decide ((e.settled k' c w).recorded k' ≠ c.remote)))
        else none).toList ++ events) (e.settled k' c w) := by
  rw [recorded_settled found]
  have stored : Recalling k events
      { e with store := (c.settle e.store e.clock.now w.machine w.feedback).1.2 } :=
    recalling.congr rfl
  refine (stored.put (some _) found fun recalls => ?_).congr rfl
  exact recalls.settled e.store e.clock.now w.machine brief

theorem recalling_declare (remembers : Remembers k past.events e) (knows : past.Knows e)
    (brief : e.FeedbackBrief) (timely : e.Timely) (tidy : e.compartments.Tidy) (id : MachineId)
    (d : Declaration) :
    Recalling k ((past.event? k e (.declare id d)).toList ++ past.events)
      (after (Operation.perform (.declare id d) e)) := by
  have outcome := declaring_declare tidy id d
  simp only [Past.event?, Operation.perform, Functor.map, EStateM.map]
  generalize declare id d e = result at outcome
  cases outcome with
  | nobody _ => exact remembers.recalling
  | closed _ _ => exact remembers.recalling
  | unopened _ refused => exact remembers.recalling.congr (compartments_of_unopened refused)
  | unclaimed _ _ => exact remembers.recalling.congr rfl
  | unknown _ _ _ => exact remembers.recalling.congr rfl
  | @rolledBack algorithm k' opened r _ created _ =>
    have before := (remembers.created tidy created).recalling
    have given : Recalling k past.events opened.reap := before.congr rfl
    obtain ⟨c, found⟩ := (Destination.fresh created).opens tidy |>.1
    have there : opened.reap.compartments.get? k' = some c := found
    simp only [after]
    rw [rollBack_of_found there]
    exact given.closed c
  | discarded _ _ => exact remembers.recalling.congr rfl
  | @settled _ k' opened c w p _ destination found claimed =>
    obtain ⟨κ, waits, rfl, rfl⟩ := timely.reap.toNamed.claim_eq_ok_iff.1 claimed
    have waited := (timely.get?_reap_eq_some_iff.1 waits).1
    have before := (remembers.destination tidy destination).recalling
    have still : Recalling k past.events
        { opened.reap with pending := e.reap.pending.without κ } := before.congr rfl
    simp only [recorded_of_destination tidy destination found, knows κ w waited]
    exact recalling_settled still found (brief κ w waited)

/-- One operation, as far as the compartment is concerned. -/
theorem recalling_perform (remembers : Remembers k past.events e) (knows : past.Knows e)
    (brief : e.FeedbackBrief) (timely : e.Timely) (tidy : e.compartments.Tidy) (o : Operation) :
    Recalling k ((past.event? k e o).toList ++ past.events) (after (o.perform e)) := by
  cases o with
  | create algorithm =>
    rw [after_perform]
    exact recalling_create remembers tidy algorithm
  | close k' =>
    rw [after_perform]
    exact recalling_close remembers.recalling k'
  | resendBytecode k' => exact recalling_resendBytecode remembers.recalling k'
  | declare id d => exact recalling_declare remembers knows brief timely tidy id d
  | compress k' algorithm plain t => exact recalling_compress remembers tidy k' algorithm plain t
  | decompress data t =>
    rw [after_perform]
    exact remembers.recalling.congr (compartments_decompress data t e)
  | advance ms => exact remembers.recalling.congr rfl
  | addAlgorithm d compressor => exact remembers.recalling.congr (compartments_of_registers rfl e)
  | addDictionary data access => exact remembers.recalling.congr (compartments_of_registers rfl e)

theorem remembers_perform (remembers : Remembers k past.events e) (knows : past.Knows e)
    (brief : e.FeedbackBrief) (timely : e.Timely) (tidy : e.compartments.Tidy) (o : Operation) :
    Remembers k (past.next k e o).events (after (o.perform e)) := by
  have recalling := recalling_perform remembers knows brief timely tidy o
  cases there : (after (o.perform e)).compartments.get? k with
  | none =>
    have forgotten : (past.next k e o).events = [] := by
      simp only [Past.next, there, Option.isSome_none, Bool.false_eq_true, if_false]
    refine ⟨fun c found => ?_, fun _ => forgotten⟩
    rw [there] at found
    cases found
  | some c =>
    have events : (past.next k e o).events = (past.event? k e o).toList ++ past.events := by
      simp only [Past.next, there, Option.isSome_some, if_true]
    refine ⟨events ▸ recalling, fun vacant => ?_⟩
    rw [there] at vacant
    cases vacant

/-! ## Histories -/

/-- Any number of operations. -/
theorem remembers_run (remembers : Remembers k past.events e) (knows : past.Knows e)
    (brief : e.FeedbackBrief) (timely : e.Timely) (consistent : Consistent pinned e)
    (operations : List Operation) :
    Remembers k (e.recount k past operations).events (e.run operations) := by
  induction operations generalizing e past pinned with
  | nil => exact remembers
  | cons o rest ih =>
    have tidy := consistent.tidy
    exact ih (remembers_perform remembers knows brief timely tidy o)
      (knows_perform knows timely tidy o)
      (feedbackBrief_invariant.perform consistent brief o) (timely_perform consistent timely o)
      (consistent_perform consistent o)

theorem remembers_of_start {settings : Settings} (started : start settings = .ok e) (k : Key)
    (operations : List Operation) : Remembers k (e.eventsOf k operations) (e.run operations) := by
  have reachable : Reachable e := .start started
  have remembers : Remembers k [] e := by
    refine ⟨fun c found => ?_, fun _ => rfl⟩
    rw [nothing_open started] at found
    cases found
  have knows : Past.Knows {} e := by
    intro κ w waits
    rw [nothing_waits started] at waits
    cases waits
  exact remembers_run remembers knows (feedbackBrief_invariant.reachable reachable)
    (timely_of_reachable reachable) (consistent_of_start started) operations

/-- What leaves the past of a compartment as it is: what is refused, time that passes, a message
while it has not been declared, and one that is not declared to be for the compartment. -/
inductive Immaterial (e : Engine) (k : Key) : Operation → Prop
  | refused {o : Operation} {r : Error} {e' : Engine} : o.perform e = .error r e' → Immaterial e k o
  | passed (ms : Nat) : Immaterial e k (.advance ms)
  | read (data : Bytes) (t : Transport) : Immaterial e k (.decompress data t)
  | elsewhere {id : MachineId} {d : Declaration} {answer : Option Key} {e' : Engine} :
    declare id d e = .ok answer e' → answer ≠ some k → Immaterial e k (.declare id d)

theorem Immaterial.event? {o : Operation} (immaterial : Immaterial e k o) (past : Past) :
    past.event? k e o = none := by
  cases immaterial with
  | @refused _ r e' refused =>
    simp only [Past.event?, refused]
  | passed ms => rfl
  | read data t => rfl
  | @elsewhere id d answer e' declared other =>
    simp only [Past.event?, Operation.perform, Functor.map, EStateM.map, declared]
    cases answer with
    | none => rfl
    | some k' => exact if_neg fun same => other (congrArg some same)

theorem recount_snoc (e : Engine) (k : Key) (past : Past) (operations : List Operation)
    (o : Operation) : e.recount k past (operations ++ [o]) =
      (e.recount k past operations).next k (e.run operations) o := by
  induction operations generalizing e past with
  | nil => rfl
  | cons o' rest ih => exact ih _ _

/-- While the compartment stays open its past is the same. -/
theorem eventsOf_of_immaterial {operations : List Operation} {o : Operation}
    (immaterial : Immaterial (e.run operations) k o)
    (still : (e.run (operations ++ [o])).compartments.get? k = some c) :
    e.eventsOf k (operations ++ [o]) = e.eventsOf k operations := by
  rw [run_snoc] at still
  simp only [eventsOf, recount_snoc, Past.next, still, immaterial.event?, Option.isSome_some,
    if_true, Option.toList_none, List.nil_append]

/-- The algorithm of a compartment is called with what is recorded of it, and what it makes of the
message is the answer. -/
theorem consulted_compress (sender : Sender e algorithm compartment k opened)
    (found : opened.compartments.get? k = some c) (plain : Bytes) (t : Transport) :
    (after (compress compartment algorithm plain t e)).journal.callbacks =
      opened.journal.callbacks ++
        [.compress c.algorithm.name k t c.contextBytes (opened.briefing c)] ∧
    ((∃ message, (opened.consult k c plain t).1 = .ok message ∧
        answer? (compress compartment algorithm plain t e) = some (k, message)) ∨
      ∃ text, (opened.consult k c plain t).1 = .error text ∧
        reason? (compress compartment algorithm plain t e) =
          some (.algorithm c.algorithm.name text)) := by
  rw [compress_of_sender sender]
  cases made : opened.consult k c plain t with
  | mk result context =>
    cases result with
    | error text =>
      rw [run_bind_error (compressFor_of_error found made)]
      exact ⟨rfl, .inr ⟨text, rfl, rfl⟩⟩
    | ok message =>
      rw [run_bind_ok (compressFor_of_ok found made)]
      exact ⟨rfl, .inl ⟨message, rfl, rfl⟩⟩

/-- Without a compartment no algorithm is called. -/
theorem refused_of_no_sender (tidy : e.compartments.Tidy)
    (nobody : ∀ k opened, ¬ Sender e algorithm compartment k opened) (plain : Bytes)
      (t : Transport) :
    ∃ r e', compress compartment algorithm plain t e = .error r e' ∧
      e'.journal.callbacks = e.journal.callbacks := by
  have outcome := compressing_compress tidy compartment algorithm plain t
  generalize compress compartment algorithm plain t e = result at outcome
  cases outcome with
  | closed _ => exact ⟨_, e, rfl, rfl⟩
  | @unopened r e' refused =>
    refine ⟨r, e', rfl, ?_⟩
    have attempt := creating_create e algorithm
    rw [refused] at attempt
    cases attempt <;> rfl
  | failed sender _ _ => exact absurd sender (nobody _ _)
  | sent sender _ _ => exact absurd sender (nobody _ _)

/-- Whatever has been done to an engine before: when a message is to be compressed, the algorithm of
the compartment is told what follows from the compartment's past, and if there is no compartment no
algorithm is called.  Nothing that is refused counts among that past, nor does a message that is
discarded, or given up after some time, or declared to be for another compartment. -/
theorem briefings_follow_history {settings : Settings} {first : Engine}
    (started : start settings = .ok first) (operations : List Operation) (compartment : Option Key)
    (algorithm : Option String) (plain : Bytes) (t : Transport) :
    (∀ k opened, Sender (first.run operations) algorithm compartment k opened →
      ∃ c, opened.compartments.get? k = some c ∧
        Follows (first.eventsOf k operations) (opened.briefing c) ∧
        (after (compress compartment algorithm plain t (first.run operations))).journal.callbacks =
          opened.journal.callbacks ++
            [.compress c.algorithm.name k t c.contextBytes (opened.briefing c)] ∧
        ((∃ message, (opened.consult k c plain t).1 = .ok message ∧
            answer? (compress compartment algorithm plain t (first.run operations)) =
              some (k, message)) ∨
          ∃ text, (opened.consult k c plain t).1 = .error text ∧
            reason? (compress compartment algorithm plain t (first.run operations)) =
              some (.algorithm c.algorithm.name text))) ∧
    ((∀ k opened, ¬ Sender (first.run operations) algorithm compartment k opened) →
      ∃ r e', compress compartment algorithm plain t (first.run operations) = .error r e' ∧
        e'.journal.callbacks = (first.run operations).journal.callbacks) ∧
    ∀ k o c, Immaterial (first.run operations) k o →
      (first.run (operations ++ [o])).compartments.get? k = some c →
      first.eventsOf k (operations ++ [o]) = first.eventsOf k operations := by
  obtain ⟨_, tidy⟩ := ready_run started operations
  refine ⟨fun k opened sender => ?_, fun nobody => refused_of_no_sender tidy nobody plain t,
    fun k o c immaterial still => eventsOf_of_immaterial immaterial still⟩
  have remembers := (remembers_of_start started k operations).sender tidy sender
  obtain ⟨c, found⟩ := sender.opens tidy
  have follows := (remembers.recalling c found).follows opened.catalogue.ownIds
    opened.settings.dictionaryMandatory
  exact ⟨c, found, follows, consulted_compress sender found plain t⟩

/-- A message with feedback has come since one was sent.  The feedback is still to be passed on when
a second compression has failed, and the bytecode need not be sent again. -/
theorem feedback_waits_for_success :
    ∃ settings first operations opened c, start settings = .ok first ∧
      Sender (first.run operations) none (some ⟨0, 0⟩) ⟨0, 0⟩ opened ∧
      opened.compartments.get? ⟨0, 0⟩ = some c ∧
      first.eventsOf ⟨0, 0⟩ operations = [.settled (some [5]) false, .sent] ∧
      (opened.briefing c).resetContext = false ∧ (opened.briefing c).remoteChanged = false ∧
      (opened.briefing c).returnedFeedback = [5] ∧ (opened.briefing c).incoming = 1 := by
  let first : Engine := ⟨{}, {}, .ofSettings {}, { capacity := 10 }, .ofSettings {}, {}, {}⟩
  let operations : List Operation := [
    .addAlgorithm { name := "a", code := [0] } ⟨fun job context =>
        (if job.plain = [] then .error "empty" else .ok job.plain, context),
      fun _ context => context⟩,
    .create none, .compress (some ⟨0, 0⟩) none [1] .message,
    .decompress [0xfc, 0x05, 0x00, 0x81, 0x23, 0x00, 0x00, 0x02, 0x00, 0x00, 0x06, 0x00] .message,
    .declare 1024 (.existing ⟨0, 0⟩), .compress (some ⟨0, 0⟩) none [] .message]
  have course : first.eventsOf ⟨0, 0⟩ operations = [.settled (some [5]) false, .sent] ∧
      ((first.run operations).compartments.get? ⟨0, 0⟩).isSome = true := by
    decide +kernel
  obtain ⟨past, there⟩ := course
  obtain ⟨c, found⟩ := Option.isSome_iff_exists.1 there
  have sender : Sender (first.run operations) none (some ⟨0, 0⟩) ⟨0, 0⟩ (first.run operations) :=
    .given found
  have started : start {} = .ok first := rfl
  obtain ⟨told, _⟩ := briefings_follow_history started operations (some ⟨0, 0⟩) none [] .message
  obtain ⟨c', found', follows, _⟩ := told _ _ sender
  rw [past] at follows
  obtain ⟨reset, changed, returned, incoming⟩ := follows
  refine ⟨{}, first, operations, _, c', started, sender, found', past, ?_, ?_, returned, incoming⟩
  · rw [Bool.eq_false_iff, ne_eq, reset]
    simp
  · rw [Bool.eq_false_iff, ne_eq, changed]
    simp

end Engine

end SigComp
