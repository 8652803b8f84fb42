import SigComp.Proofs.DeclarationOutcomes

/-!
# What waits, operation by operation

* `Operation.Reaps`: the operations that give up the machines whose time is over.
* `Engine.Receiving`: all that can come of a message, and `receiving_decompress`; compartments are
  left as they are (`compartments_decompress`).
* `Engine.Attending`: all that can become of the machines that wait with one operation, and
  `attending_perform`.
* `Engine.Timely`: the machines that wait are orderly, with the engine's clock and timeout;
  `timely_of_reachable`: they always are.
-/

namespace SigComp

/-- The operation gives up the machines whose time is over: a message does so in any case, and a
declaration if it comes to look for its machine. -/
def Operation.Reaps (e : Engine) : Operation → Prop
  | decompress .. => True
  | declare id (.fresh algorithm) => id ≠ 0 ∧ ∃ k opened, Engine.create algorithm e = .ok k opened
  | declare id (.existing k) => id ≠ 0 ∧ ∃ c, e.compartment k = .ok c
  | declare id .unauthorized => id ≠ 0
  | _ => False

namespace Engine

open Pending (Orderly Suspends)

variable {e e' : Engine} {k : Key} {id : MachineId} {d : Declaration} {w : Suspended}
  {pinned : List Key} {o : Operation}

/-- How many milliseconds a machine waits. -/
def timeout (e : Engine) : Nat := e.settings.pendingSeconds * 1000

/-- The machines that wait are orderly. -/
def Timely (e : Engine) : Prop := e.pending.Orderly e.clock.now e.timeout

theorem Timely.reap (timely : e.Timely) : e.reap.pending.Orderly e.clock.now e.timeout :=
  Orderly.reap timely e.clock.now

/-! ## One operation -/

/-- All that can become of the machines that wait, with one operation and its outcome. -/
inductive Attending (e : Engine) : Operation → EStateM.Result Error Engine Answer → Prop
  | idle {o : Operation} {result : EStateM.Result Error Engine Answer} : ¬ o.Reaps e →
    (after result).pending = e.pending → e.clock.now ≤ (after result).clock.now →
    Attending e o result
  | refused {id : MachineId} {d : Declaration} {r : Error} {e' : Engine} :
    (Operation.declare id d).Reaps e → e'.pending = e.reap.pending → e'.clock = e.clock →
    Attending e (.declare id d) (.error r e')
  | taken {id : MachineId} {d : Declaration} {answer : Option Key} {κ : Key} {w : Suspended}
      {e' : Engine} : (Operation.declare id d).Reaps e → e.reap.pending.machines.get? κ = some w →
    w.id = id → e'.pending = e.reap.pending.without κ → e'.clock = e.clock →
    Attending e (.declare id d) (.ok (.declared answer) e')
  | read {data : Bytes} {t : Transport} {result : EStateM.Result Error Engine Answer} :
    (after result).pending = e.reap.pending → (after result).clock = e.clock →
    (∀ plain id e', result = .ok (.decompressed plain id) e' → id = 0) →
    Attending e (.decompress data t) result
  | suspended {data : Bytes} {t : Transport} {plain : Bytes} {m : Machine} {feedback : Option Bytes}
      {κ : Key} {id : MachineId} {e' : Engine} :
    Suspends e.reap.pending m feedback (e.clock.now + e.timeout) κ id e'.pending →
    e'.clock = e.clock → Attending e (.decompress data t) (.ok (.decompressed plain id) e')

theorem suspend_eq_ok {m : Machine} {feedback : Option Bytes} {p : Pending}
    (waits : e.pending.suspend m feedback (e.clock.now + e.timeout) = some (id, p)) :
    suspend m feedback e = .ok id { e with pending := p } := by
  rw [timeout] at waits
  simp only [suspend, waits]

theorem suspend_eq_error {m : Machine} {feedback : Option Bytes}
    (full : e.pending.suspend m feedback (e.clock.now + e.timeout) = none) :
    suspend m feedback e = .error (.outOfResources .machineSlots) e := by
  rw [timeout] at full
  simp only [suspend, full]

/-- The feedback that waits with a machine is that of the message's header. -/
theorem parsed_of_reading {data : Bytes} {t : Transport} {plain : Bytes} {m : Machine}
    {feedback : Option Bytes} (read : (e.reading data t).2 = .ok (plain, some (m, feedback))) :
    ∃ message, Message.parse? data = some message ∧ message.feedback = feedback := by
  unfold reading at read
  cases parsed : Message.parse? data with
  | none =>
    rw [parsed] at read
    cases read
  | some message =>
    refine ⟨message, rfl, ?_⟩
    simp only [parsed] at read
    split at read
    · cases read
    split at read
    · cases read
    split at read
    · cases read
    · cases read
      rfl

/-- All that can come of a message. -/
inductive Receiving (e : Engine) (data : Bytes) :
    EStateM.Result Error Engine (Bytes × MachineId) → Prop
  | refused (r : Error) (warnings : List Warning) :
    Receiving e data (.error r (e.reap.warned warnings))
  | read (plain : Bytes) (warnings : List Warning) :
    Receiving e data (.ok (plain, 0) (e.reap.warned warnings))
  | suspended {plain : Bytes} {warnings : List Warning} {message : Message} {m : Machine}
      {id : MachineId} {p : Pending} : Message.parse? data = some message →
    e.reap.pending.suspend m message.feedback (e.clock.now + e.timeout) = some (id, p) →
    Receiving e data (.ok (plain, id) { e.reap.warned warnings with pending := p })

theorem receiving_decompress (data : Bytes) (t : Transport) (e : Engine) :
    Receiving e data (decompress data t e) := by
  rw [decompress_eq]
  split
  · rw [← e.reap.warned_nil]
    exact .refused _ []
  cases read : (e.reading data t).2 with
  | error r => exact .refused r _
  | ok text =>
    obtain ⟨plain, waiting⟩ := text
    cases waiting with
    | none => exact .read plain _
    | some machine =>
      obtain ⟨m, feedback⟩ := machine
      obtain ⟨message, parsed, rfl⟩ := parsed_of_reading read
      simp only [deliver]
      cases waits : e.reap.pending.suspend m message.feedback (e.clock.now + e.timeout) with
      | none =>
        have refused := suspend_eq_error (e := e.reap.warned (e.reading data t).1) waits
        rw [run_bind_error refused]
        exact .refused _ _
      | some named =>
        have waiting := suspend_eq_ok (e := e.reap.warned (e.reading data t).1) waits
        rw [run_bind_ok waiting]
        exact .suspended parsed waits

theorem compartments_decompress (data : Bytes) (t : Transport) (e : Engine) :
    (after (decompress data t e)).compartments = e.compartments := by
  have outcome := receiving_decompress data t e
  generalize decompress data t e = result at outcome
  cases outcome <;> rfl

theorem attending_decompress (timely : e.Timely) (data : Bytes) (t : Transport) :
    Attending e (.decompress data t) (Operation.perform (.decompress data t) e) := by
  have outcome := receiving_decompress data t e
  simp only [Operation.perform, bind, EStateM.bind]
  generalize decompress data t e = result at outcome
  cases outcome with
  | refused r warnings =>
    refine .read rfl rfl fun _ _ _ impossible => ?_
    cases impossible
  | read plain warnings =>
    refine .read rfl rfl fun _ _ _ same => ?_
    cases same
    rfl
  | suspended _ waits =>
    obtain ⟨κ, suspends⟩ := Pending.suspends_suspend timely.reap.toNamed waits
    exact .suspended suspends rfl

theorem rollBack_aside (e : Engine) (k : Key) :
    (e.rollBack k).pending = e.pending ∧ (e.rollBack k).clock = e.clock := by
  have same := (blind_close k).after e
  unfold rollBack
  cases closed : close k e with
  | ok _ e' =>
    rw [closed] at same
    exact same
  | error r e' =>
    rw [closed] at same
    exact same

theorem attending_declare (timely : e.Timely) (tidy : e.compartments.Tidy) (id : MachineId)
    (d : Declaration) : Attending e (.declare id d) (Operation.perform (.declare id d) e) := by
  have outcome := declaring_declare tidy id d
  simp only [Operation.perform, Functor.map, EStateM.map]
  generalize declare id d e = result at outcome
  cases outcome with
  | nobody nameless =>
    refine .idle ?_ rfl (Nat.le_refl _)
    cases d with
    | fresh algorithm => exact fun reaps => reaps.1 nameless
    | existing k => exact fun reaps => reaps.1 nameless
    | unauthorized => exact fun reaps => reaps nameless
  | @closed k named found =>
    refine .idle ?_ rfl (Nat.le_refl _)
    rintro ⟨_, c, opened⟩
    rw [compartment_eq_ok opened] at found
    cases found
  | @unopened algorithm r e' named refused =>
    have same := (blind_create algorithm).after e
    rw [refused] at same
    refine .idle ?_ same.1 (Nat.le_of_eq (congrArg Clock.now same.2.symm))
    rintro ⟨_, k, opened, created⟩
    rw [refused] at created
    cases created
  | unclaimed named _ => exact .refused named rfl rfl
  | @unknown k c r named found _ =>
    exact .refused ⟨named, c, compartment_of_get? found⟩ rfl rfl
  | @rolledBack algorithm k opened r named created _ =>
    have destination : Destination e (.fresh algorithm) k opened := .fresh created
    obtain ⟨pending, clock⟩ := rollBack_aside opened.reap k
    exact .refused ⟨named, k, opened, created⟩ (pending.trans destination.reap)
      (clock.trans destination.aside.2)
  | @discarded w p named claimed =>
    obtain ⟨κ, waits, same, rfl⟩ := timely.reap.toNamed.claim_eq_ok_iff.1 claimed
    exact .taken named waits same rfl rfl
  | @settled _ k opened c w p named destination found claimed =>
    obtain ⟨κ, waits, same, rfl⟩ := timely.reap.toNamed.claim_eq_ok_iff.1 claimed
    refine .taken ?_ waits same rfl destination.aside.2
    cases destination with
    | existing found => exact ⟨named, _, compartment_of_get? found⟩
    | fresh created => exact ⟨named, _, _, created⟩

theorem attending_perform (timely : e.Timely) (tidy : e.compartments.Tidy) (o : Operation) :
    Attending e o (o.perform e) := by
  cases attends : o.attends with
  | false =>
    obtain ⟨pending, clock⟩ := (blind_perform attends).after e
    refine .idle ?_ pending (Nat.le_of_eq (congrArg Clock.now clock.symm))
    cases o with
    | decompress data t => cases attends
    | declare id d => cases attends
    | _ => exact not_false
  | true =>
    cases o with
    | decompress data t => exact attending_decompress timely data t
    | declare id d => exact attending_declare timely tidy id d
    | advance ms => exact .idle not_false rfl (e.clock.now_le_advance ms)
    | _ => cases attends

/-! ## Runs -/

theorem settings_perform (consistent : Consistent pinned e) (o : Operation) :
    (after (o.perform e)).settings = e.settings := by
  cases ordinary : o.registers with
  | false => exact (spares_perform consistent ordinary).settings
  | true =>
    have outcome := registration_perform ordinary e
    generalize o.perform e = result at outcome
    cases outcome <;> rfl

theorem timely_perform (consistent : Consistent pinned e) (timely : e.Timely) (o : Operation) :
    (after (o.perform e)).Timely := by
  have settings := settings_perform consistent o
  have outcome := attending_perform timely consistent.tidy o
  generalize o.perform e = result at settings outcome
  unfold Timely timeout
  rw [settings]
  cases outcome with
  | idle _ pending passed =>
    rw [pending]
    exact Orderly.later timely passed
  | refused _ pending clock =>
    simp only [after, pending, clock]
    exact timely.reap
  | @taken _ _ _ κ _ _ _ _ _ pending clock =>
    simp only [after, pending, clock]
    exact timely.reap.claim κ
  | read pending clock _ =>
    rw [pending, clock]
    exact timely.reap
  | suspended suspends clock =>
    simp only [after, clock]
    exact timely.reap.suspend suspends

/-- Whatever has been done to an engine, the machines that wait are orderly. -/
theorem timely_of_reachable (reachable : Reachable e) : e.Timely := by
  induction reachable with
  | start started =>
    obtain rfl := start_eq_ok started
    exact Pending.orderly_ofSettings _ _ _
  | perform o reachable timely =>
    obtain ⟨_, consistent⟩ := consistent_of_reachable reachable
    exact timely_perform consistent timely o

/-! ## Settled machines -/

/-- The machine that waits under `κ`, and whose time is not over, is settled with the compartment
`k`: its requests are carried out and its feedback is kept there, once, and neither other
compartments nor other machines are concerned. -/
structure Settles (e : Engine) (κ : Key) (w : Suspended) (d : Declaration) (k : Key) (e' : Engine) :
    Prop where
  waits : e.reap.pending.machines.get? κ = some w
  taken : e'.pending = e.reap.pending.without κ
  effects : ∃ opened c c' warnings, Destination e d k opened ∧ opened.compartments.get? k = some c ∧
    c.settle opened.store e.clock.now w.machine w.feedback = ((c', e'.store), warnings) ∧
    e'.compartments.get? k = some c'
  others : ∀ k', k' ≠ k → e'.compartments.get? k' = e.compartments.get? k'

theorem settles_of_claim {κ : Key} {opened : Engine} {c : Compartment} (tidy : e.compartments.Tidy)
    (destination : Destination e d k opened) (found : opened.compartments.get? k = some c)
    (waits : e.reap.pending.machines.get? κ = some w) :
    Settles e κ w d k
      ({ opened.reap with pending := e.reap.pending.without κ }.settled k c w) := by
  have now : opened.clock.now = e.clock.now := congrArg Clock.now destination.aside.2
  have put : ∀ c' k', (opened.compartments.modify k fun _ => c').get? k' =
      if k' = k then some c' else opened.compartments.get? k' := fun c' _ => Arena.get?_put found c'
  simp only [settled]
  generalize settles : c.settle _ _ w.machine w.feedback = outcome
  obtain ⟨⟨c', s⟩, warnings⟩ := outcome
  change c.settle opened.store opened.clock.now _ _ = _ at settles
  rw [now] at settles
  refine ⟨waits, rfl, ⟨opened, c, c', warnings, destination, found, settles, ?_⟩,
    fun k' other => ?_⟩
  · exact (put c' k).trans (if_pos rfl)
  · exact (put c' k').trans ((if_neg other).trans ((destination.opens tidy).2 k' other))

/-- A declaration that is answered with a compartment has settled the machine of its name. -/
theorem settles_of_declare (timely : e.Timely) (tidy : e.compartments.Tidy)
    (declared : declare id d e = .ok (some k) e') : ∃ κ w, w.id = id ∧ Settles e κ w d k e' := by
  have outcome := declaring_declare tidy id d
  rw [declared] at outcome
  cases outcome with
  | settled named destination found claimed =>
    obtain ⟨κ, waits, same, rfl⟩ := timely.reap.toNamed.claim_eq_ok_iff.1 claimed
    exact ⟨κ, _, same, settles_of_claim tidy destination found waits⟩

/-- A machine whose time is not over is settled, if the compartment that is declared for it is open
or can be opened. -/
theorem declare_of_destination {κ : Key} {opened : Engine} (timely : e.Timely)
    (tidy : e.compartments.Tidy) (destination : Destination e d k opened)
    (waits : e.reap.pending.machines.get? κ = some w) :
    ∃ e', declare w.id d e = .ok (some k) e' ∧ Settles e κ w d k e' := by
  have claimed : e.reap.pending.claim w.id = .ok (w, e.reap.pending.without κ) :=
    timely.reap.toNamed.claim_eq_ok_iff.2 ⟨κ, waits, rfl, rfl⟩
  have named := (timely.reap.named κ w waits).2
  obtain ⟨⟨c, found⟩, _⟩ := destination.opens tidy
  exact ⟨_, declare_of_claim named destination found claimed,
    settles_of_claim tidy destination found waits⟩

end Engine

end SigComp
