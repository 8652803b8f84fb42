import SigComp.Engine.Operation
import SigComp.Proofs.RunBudget

/-!
# Operations and the machines that wait

Only messages and declarations have to do with the machines that wait.

* `Engine.Commutes f x e`: it makes no difference to an action whether an engine is changed
  before it or after it; `Commutes.bind` takes an action apart.
* `Engine.Blind`: other machines that wait and another clock make no difference to an
  action, so it leaves them as they are.  `blind_perform`: so it is with all operations but
  messages, declarations and the passing of time.
* `Engine.reading`: what a message comes to does not depend on what waits or what time it
  is; `decompress_eq`: only whether there is a place for its machine does.
-/

namespace SigComp

/-- The operation has to do with the machines that wait, or with the clock. -/
def Operation.attends : Operation → Bool
  | decompress .. | declare .. | advance .. => true
  | _ => false

namespace Engine

variable {e e' : Engine} {α β : Type} {f : Engine → Engine} {k : Key}

/-! ## Changes that make no difference -/

/-- The outcome, with the engine changed that it leaves behind. -/
def mapAfter (f : Engine → Engine) : EStateM.Result Error Engine α → EStateM.Result Error Engine α
  | .ok a e => .ok a (f e)
  | .error r e => .error r (f e)

/-- To change an engine before an action comes to the same as to change it afterwards. -/
def Commutes (f : Engine → Engine) (x : Action α) (e : Engine) : Prop := x (f e) = mapAfter f (x e)

theorem Commutes.bind {x : Action α} {next : α → Action β} (first : Commutes f x e)
    (rest : ∀ a e', x e = .ok a e' → Commutes f (next a) e') : Commutes f (x >>= next) e := by
  simp only [Commutes, Bind.bind, EStateM.bind] at first ⊢
  rw [first]
  cases ran : x e with
  | ok a e' => exact rest a e' ran
  | error r e' => rfl

theorem Commutes.map {x : Action α} (g : α → β) (first : Commutes f x e) : Commutes f (g <$> x) e :=
  (first.bind fun _ _ _ => rfl : Commutes f (x >>= fun a => pure (g a)) e)

theorem after_mapAfter (result : EStateM.Result Error Engine α) :
    after (mapAfter f result) = f (after result) := by
  cases result <;> rfl

/-! ## Blind actions -/

/-- The engine with other machines that wait and another clock. -/
def within (e : Engine) (p : Pending) (c : Clock) : Engine := { e with pending := p, clock := c }

@[simp] theorem settings_within (e : Engine) (p : Pending) (c : Clock) :
    (e.within p c).settings = e.settings := rfl

@[simp] theorem store_within (e : Engine) (p : Pending) (c : Clock) :
    (e.within p c).store = e.store := rfl

@[simp] theorem compartments_within (e : Engine) (p : Pending) (c : Clock) :
    (e.within p c).compartments = e.compartments := rfl

@[simp] theorem catalogue_within (e : Engine) (p : Pending) (c : Clock) :
    (e.within p c).catalogue = e.catalogue := rfl

/-- An action to which it makes no difference which machines wait and what time it is. -/
def Blind (x : Action α) : Prop := ∀ e p c, Commutes (within · p c) x e

/-- What a blind action does not see it does not change. -/
theorem Blind.after {x : Action α} (blind : Blind x) (e : Engine) :
    (after (x e)).pending = e.pending ∧ (after (x e)).clock = e.clock := by
  have same : x e = mapAfter (within · e.pending e.clock) (x e) := blind e e.pending e.clock
  rw [same, after_mapAfter]
  exact ⟨rfl, rfl⟩

theorem Blind.bind {x : Action α} {next : α → Action β} (first : Blind x)
    (rest : ∀ a, Blind (next a)) : Blind (x >>= next) :=
  fun e p c => (first e p c).bind fun a e' _ => rest a e' p c

theorem Blind.map {x : Action α} (g : α → β) (first : Blind x) : Blind (g <$> x) :=
  fun e p c => (first e p c).map g

theorem blind_onStore (x : Store.Action α) : Blind (onStore x) := by
  intro e p c
  simp only [Commutes, onStore, within]
  cases x e.store <;> rfl

theorem within_introduce (e : Engine) (p : Pending) (c : Clock) (k : Key) (d : Compartment) :
    (e.within p c).introduce k d = (e.introduce k d).within p c := by
  unfold introduce
  cases d.context <;> rfl

theorem within_destruct (e : Engine) (p : Pending) (c : Clock) (k : Key) (d : Compartment) :
    (e.within p c).destruct k d = (e.destruct k d).within p c := by
  unfold destruct
  cases d.context <;> rfl

theorem blind_lendContext (d : Descriptor) : Blind (lendContext d) := by
  unfold lendContext
  split
  · exact fun _ _ _ => rfl
  · exact (blind_onStore _).bind fun _ _ _ _ => rfl

theorem blind_openFor (a : Algorithm) : Blind (openFor a) := by
  refine (blind_lendContext a.descriptor).bind fun context e p c => ?_
  simp only [Commutes, run_get, compartments_within, settings_within]
  cases e.compartments.insert? {
      algorithm := a
      context
      own := .ofSettings e.settings
      maxStates := e.settings.statesPerCompartment } with
  | none => rfl
  | some opened =>
    obtain ⟨k, compartments⟩ := opened
    exact congrArg (EStateM.Result.ok k) (within_introduce { e with compartments } p c k _)

theorem blind_create (algorithm : Option String) : Blind (create algorithm) := by
  intro e p c
  simp only [Commutes, create, run_get, catalogue_within]
  cases e.catalogue.select? algorithm with
  | none => rfl
  | some a => exact blind_openFor a e p c

theorem blind_close (k : Key) : Blind (close k) := by
  intro e p c
  simp only [Commutes, close, compartment, compartments_within]
  cases e.compartments.get? k with
  | none => rfl
  | some d =>
    exact congrArg (EStateM.Result.ok ())
      (within_destruct { e with compartments := e.compartments.erase k } p c k d)

theorem blind_resendBytecode (k : Key) : Blind (resendBytecode k) := by
  intro e p c
  simp only [Commutes, resendBytecode, run_get, compartment, compartments_within]
  cases e.compartments.get? k <;> rfl

theorem blind_compressFor (k : Key) (plain : Bytes) (t : Transport) :
    Blind (compressFor k plain t) := by
  intro e p c
  unfold Commutes compressFor
  rw [run_get, run_get]
  cases found : e.compartments.get? k with
  | none =>
    have closed : e.compartment k = .error .destructed := compartment_of_vacant found
    have closed' : (e.within p c).compartment k = .error .destructed := closed
    rw [closed, closed', run_ofExcept_error, run_ofExcept_error]
    rfl
  | some d =>
    have opened : e.compartment k = .ok d := compartment_of_get? found
    have opened' : (e.within p c).compartment k = .ok d := opened
    have told : (e.within p c).briefing d = e.briefing d := rfl
    rw [opened, opened', run_ofExcept_ok, run_ofExcept_ok, told]
    obtain ⟨result, context⟩ := d.algorithm.compressor.compress
      ⟨k, d.algorithm.descriptor, e.briefing d, plain, t⟩ d.contextBytes
    cases result <;> rfl

theorem blind_compress (compartment : Option Key) (algorithm : Option String) (plain : Bytes)
    (t : Transport) : Blind (compress compartment algorithm plain t) := by
  have sent : ∀ k, Blind (do return (k, ← compressFor k plain t) : Action (Key × Bytes)) :=
    fun k => (blind_compressFor k plain t).bind fun _ _ _ _ => rfl
  unfold compress
  cases compartment with
  | some k => exact sent k
  | none => exact (blind_create algorithm).bind sent

theorem blind_addAlgorithm (d : Descriptor) (compressor : Compressor) :
    Blind (addAlgorithm d compressor) := by
  intro e p c
  unfold Commutes addAlgorithm
  split
  · rfl
  have same : (e.within p c).catalogue.find? d.name = e.catalogue.find? d.name := rfl
  rw [same]
  cases e.catalogue.find? d.name with
  | some known => rfl
  | none =>
    simp only []
    by_cases full : Settings.maxAlgorithms ≤ e.catalogue.algorithms.length
    · rw [if_pos full]
      exact if_pos full
    rw [if_neg full]
    refine (if_neg full).trans ?_
    split
    · rfl
    simp only [onStore, store_within]
    cases Store.savePermanent d.codeLabel d.code e.store <;> rfl

theorem blind_addDictionary (data : Bytes) (access : UInt16) :
    Blind (addDictionary data access) := by
  intro e p c
  unfold Commutes addDictionary
  split
  · rfl
  by_cases full : Settings.maxDictionaries ≤ e.catalogue.dictionaries.length
  · rw [if_pos full]
    exact if_pos full
  rw [if_neg full]
  refine (if_neg full).trans ?_
  simp only [onStore, store_within]
  cases Store.savePermanent (Dictionary.ofData data access).label data e.store <;> rfl

/-- Only messages, declarations and the passing of time have to do with the machines that wait. -/
theorem blind_perform {o : Operation} (aside : o.attends = false) : Blind o.perform := by
  cases o with
  | addAlgorithm d compressor => exact (blind_addAlgorithm d compressor).map _
  | addDictionary data access => exact (blind_addDictionary data access).map _
  | create algorithm => exact (blind_create algorithm).map _
  | close k => exact (blind_close k).bind fun _ _ _ _ => rfl
  | resendBytecode k => exact (blind_resendBytecode k).bind fun _ _ _ _ => rfl
  | decompress data t => cases aside
  | declare id d => cases aside
  | compress k algorithm plain t =>
    exact (blind_compress k algorithm plain t).bind fun _ _ _ _ => rfl
  | advance ms => cases aside

/-! ## Messages -/

/-- What a message comes to, with the warnings that its machine gave: it may be refused, or come to
a plain text, with a machine that is to wait if there is something to settle. -/
def reading (e : Engine) (data : Bytes) (t : Transport) :
    List Warning × Except Error (Bytes × Option (Machine × Option Bytes)) :=
  match Message.parse? data with
  | none => ([], .error (.malformed .messageFormat))
  | some message =>
    match e.machineFor message data.length t with
    | .error r => ([], .error r)
    | .ok machine =>
      let (m, report) := machine.run (message.cycles e.settings.cyclesPerBit) e.store
      match report.verdict with
      | .error p => (report.warnings, .error (.ofPostmortem p))
      | .ok completion =>
        let (plain, m) := m.takeOutput
        if completion = .finished ∧ message.feedback = none then
          (report.warnings, .ok (plain, none))
        else (report.warnings, .ok (plain, some (m, message.feedback)))

/-- What has been read is answered, and its machine waits if need be. -/
def deliver : Except Error (Bytes × Option (Machine × Option Bytes)) → Action (Bytes × MachineId)
  | .error r => throw r
  | .ok (plain, none) => return (plain, 0)
  | .ok (plain, some (m, feedback)) => do return (plain, ← suspend m feedback)

theorem warned_nil (e : Engine) : e.warned [] = e := by
  rw [warned, List.append_nil]

/-- A message is read when the machines whose time is over have been given up, and only if there is
a place for one more. -/
theorem decompress_eq (data : Bytes) (t : Transport) (e : Engine) :
    decompress data t e =
      if e.reap.pending.machines.isFull then .error (.outOfResources .machineSlots) e.reap
      else deliver (e.reading data t).2 (e.reap.warned (e.reading data t).1) := by
  unfold decompress
  rw [run_modify, run_get]
  split
  · rfl
  have sameMachine : ∀ m, e.reap.machineFor m data.length t = e.machineFor m data.length t :=
    fun _ => rfl
  unfold reading
  cases Message.parse? data with
  | none =>
    rw [warned_nil]
    rfl
  | some message =>
    simp only [sameMachine]
    cases e.machineFor message data.length t with
    | error r =>
      rw [warned_nil]
      rfl
    | ok machine =>
      simp only [run_ofExcept_ok, runMachine, run_get, settings_reap, store_reap]
      generalize machine.run (message.cycles e.settings.cyclesPerBit) e.store = outcome
      obtain ⟨m, verdict, warnings⟩ := outcome
      cases verdict with
      | error p => rfl
      | ok completion =>
        simp only [run_modify, conclude]
        split <;> rfl

end Engine

end SigComp
