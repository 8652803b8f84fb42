import SigComp.Proofs.EngineSteps
import SigComp.Proofs.RefusedCompression

/-!
# What comes of opening a compartment and of sending

* `Engine.effect`: the engine that an operation leaves, without its answer (`after_perform`).
* `Engine.Creating e algorithm`: all that can come of opening a compartment, and
  `creating_create`; the compartment is then as new (`founding_of_create`).
* `Engine.Sender e algorithm compartment k opened`: the compartment that a message is sent
  from, in the engine in which it is open.
* `Engine.consult`: what its algorithm makes of the message, when it is told what the
  compartment knows, and `Engine.consulted`: the engine in which this has been noted.
* `Engine.Compressing`: all that can come of a compression, and `compressing_compress`.
-/

namespace SigComp.Engine

variable {e e' opened : Engine} {k : Key} {c : Compartment} {algorithm : Option String}
  {compartment : Option Key} {plain : Bytes} {t : Transport}

/-! ## Answers -/

theorem after_map {α β : Type} (f : α → β) (x : Action α) (e : Engine) :
    after ((f <$> x) e) = after (x e) := by
  simp only [Functor.map, EStateM.map]
  cases x e <;> rfl

theorem after_bind_pure {α β : Type} (x : Action α) (f : α → β) (e : Engine) :
    after ((x >>= fun a => pure (f a)) e) = after (x e) := by
  simp only [bind, EStateM.bind]
  cases x e <;> rfl

/-- The engine that an operation leaves. -/
def effect (e : Engine) : Operation → Engine
  | .addAlgorithm d compressor => after (addAlgorithm d compressor e)
  | .addDictionary data access => after (addDictionary data access e)
  | .create algorithm => after (create algorithm e)
  | .close k => after (close k e)
  | .resendBytecode k => after (resendBytecode k e)
  | .decompress data t => after (decompress data t e)
  | .declare id d => after (declare id d e)
  | .compress k algorithm plain t => after (compress k algorithm plain t e)
  | .advance ms => e.advance ms

/-- What is answered makes no difference to the engine. -/
theorem after_perform (o : Operation) (e : Engine) : after (o.perform e) = e.effect o := by
  cases o with
  | addAlgorithm d compressor => exact after_map Answer.registered (addAlgorithm d compressor) e
  | addDictionary data access => exact after_map Answer.registered (addDictionary data access) e
  | create algorithm => exact after_map Answer.opened (create algorithm) e
  | close k => exact after_bind_pure (close k) _ e
  | resendBytecode k => exact after_bind_pure (resendBytecode k) _ e
  | decompress data t => exact after_bind_pure (decompress data t) _ e
  | declare id d => exact after_map Answer.declared (declare id d) e
  | compress k algorithm plain t => exact after_bind_pure (compress k algorithm plain t) _ e
  | advance ms => rfl

/-! ## Opening -/

/-- All that can come of opening a compartment. -/
inductive Creating (e : Engine) (algorithm : Option String) : EStateM.Result Error Engine Key → Prop
  | unknown : e.catalogue.select? algorithm = none → Creating e algorithm (.error .notFound e)
  | refused (r : Error) (s : Store) : Creating e algorithm (.error r { e with store := s })
  | opened {a : Algorithm} {context : Option Context} {e₁ : Engine} {k : Key}
      {compartments : Arena Compartment} : e.catalogue.select? algorithm = some a →
    lendContext a.descriptor e = .ok context e₁ →
    e₁.compartments.insert? (e₁.founding a context) = some (k, compartments) →
    Creating e algorithm (.ok k ({ e₁ with compartments }.introduce k (e₁.founding a context)))

theorem returnContext_aside (e : Engine) (context : Option Context) :
    e.returnContext context = { e with store := (e.returnContext context).store } := rfl

theorem creating_create (e : Engine) (algorithm : Option String) :
    Creating e algorithm (create algorithm e) := by
  unfold create
  rw [run_get]
  cases selected : e.catalogue.select? algorithm with
  | none => exact .unknown selected
  | some a =>
    simp only []
    cases lent : lendContext a.descriptor e with
    | error r e₁ =>
      rw [openFor, run_bind_error lent, lendContext_eq_error lent]
      exact .refused r e.store
    | ok context e₁ =>
      cases inserted : e₁.compartments.insert? (e₁.founding a context) with
      | none =>
        rw [openFor_of_full lent inserted, returnContext_aside, lendContext_aside lent]
        exact .refused _ _
      | some new =>
        rw [openFor_of_room lent inserted]
        exact .opened selected lent inserted

theorem founding_introduce {a : Algorithm} {context : Option Context}
    (found : e.compartments.get? k = some (e.founding a context)) :
    ∃ context', (e.introduce k (e.founding a context)).compartments.get? k =
      some (e.founding a context') := by
  unfold introduce
  cases (e.founding a context).context with
  | none => exact ⟨context, found⟩
  | some lease => exact ⟨_, (Arena.get?_put found _).trans (if_pos rfl)⟩

/-- A compartment is as new when it has been opened. -/
theorem founding_of_create (tidy : e.compartments.Tidy)
    (created : create algorithm e = .ok k opened) :
    ∃ e₁ a context, opened.compartments.get? k = some (founding e₁ a context) := by
  have outcome := creating_create e algorithm
  rw [created] at outcome
  cases outcome with
  | @opened a context e₁ _ compartments _ lent inserted =>
    have tidy₁ : e₁.compartments.Tidy := compartments_of_lendContext lent ▸ tidy
    obtain ⟨_, _, view⟩ := Arena.insert?_eq_some tidy₁ inserted
    have there : compartments.get? k = some (e₁.founding a context) := (view k).trans (if_pos rfl)
    obtain ⟨context', found⟩ := founding_introduce (e := { e₁ with compartments }) there
    exact ⟨_, a, context', found⟩

theorem compartments_of_unopened {r : Error} (refused : create algorithm e = .error r e') :
    e'.compartments = e.compartments := by
  have outcome := creating_create e algorithm
  rw [refused] at outcome
  cases outcome <;> rfl

/-! ## Sending -/

/-- What the algorithm of a compartment makes of a message, and of its context. -/
def consult (e : Engine) (k : Key) (c : Compartment) (plain : Bytes) (t : Transport) :
    Except String Bytes × Bytes :=
  c.algorithm.compressor.compress ⟨k, c.algorithm.descriptor, e.briefing c, plain, t⟩ c.contextBytes

/-- The engine in which it is noted that the algorithm of a compartment has been called to
compress. -/
def consulted (e : Engine) (k : Key) (c : Compartment) (t : Transport) : Engine :=
  e.called (.compress c.algorithm.name k t c.contextBytes (e.briefing c))

theorem compressFor_of_vacant (vacant : e.compartments.get? k = none) (plain : Bytes)
    (t : Transport) :
    compressFor k plain t e = .error .destructed e := by
  unfold compressFor
  rw [run_get, compartment_of_vacant vacant, run_ofExcept_error]

theorem compressFor_of_error {text : String} {context : Bytes}
    (found : e.compartments.get? k = some c)
    (failed : e.consult k c plain t = (.error text, context)) :
    compressFor k plain t e = .error (.algorithm c.algorithm.name text)
      ((e.consulted k c t).putCompartment k (c.writeContext context)) := by
  unfold consult at failed
  unfold compressFor
  rw [run_get, compartment_of_get? found, run_ofExcept_ok]
  simp only [failed]
  rfl

theorem compressFor_of_ok {message context : Bytes} (found : e.compartments.get? k = some c)
    (made : e.consult k c plain t = (.ok message, context)) :
    compressFor k plain t e = .ok message
      (((e.consulted k c t).warned
        (bytecodeWarnings k (c.writeContext context) message)).putCompartment
        k (c.writeContext context).sent) := by
  unfold consult at made
  unfold compressFor
  rw [run_get, compartment_of_get? found, run_ofExcept_ok]
  simp only [made]
  rfl

/-- The compartment that a message is sent from, and the engine in which it is open. -/
inductive Sender (e : Engine) (algorithm : Option String) : Option Key → Key → Engine → Prop
  | given {k : Key} {c : Compartment} : e.compartments.get? k = some c →
    Sender e algorithm (some k) k e
  | opened {k : Key} {opened : Engine} : create algorithm e = .ok k opened →
    Sender e algorithm none k opened

/-- All that can come of a compression. -/
inductive Compressing (e : Engine) (algorithm : Option String) (plain : Bytes) (t : Transport) :
    Option Key → EStateM.Result Error Engine (Key × Bytes) → Prop
  | closed {k : Key} : e.compartments.get? k = none →
    Compressing e algorithm plain t (some k) (.error .destructed e)
  | unopened {r : Error} {e' : Engine} : create algorithm e = .error r e' →
    Compressing e algorithm plain t none (.error r e')
  | failed {compartment : Option Key} {k : Key} {opened : Engine} {c : Compartment} {text : String}
      {context : Bytes} : Sender e algorithm compartment k opened →
    opened.compartments.get? k = some c → opened.consult k c plain t = (.error text, context) →
    Compressing e algorithm plain t compartment (.error (.algorithm c.algorithm.name text)
      ((opened.consulted k c t).putCompartment k (c.writeContext context)))
  | sent {compartment : Option Key} {k : Key} {opened : Engine} {c : Compartment} {message : Bytes}
      {context : Bytes} : Sender e algorithm compartment k opened →
    opened.compartments.get? k = some c → opened.consult k c plain t = (.ok message, context) →
    Compressing e algorithm plain t compartment (.ok (k, message)
      (((opened.consulted k c t).warned (bytecodeWarnings k (c.writeContext context) message)
        ).putCompartment k (c.writeContext context).sent))

theorem Sender.opens (tidy : e.compartments.Tidy)
    (sender : Sender e algorithm compartment k opened) :
    ∃ c, opened.compartments.get? k = some c := by
  cases sender with
  | given found => exact ⟨_, found⟩
  | opened created => exact (opens_of_create tidy created).opened

/-- Sending begins when the compartment is open. -/
theorem compress_of_sender (sender : Sender e algorithm compartment k opened) (plain : Bytes)
    (t : Transport) : compress compartment algorithm plain t e =
      (do return (k, ← compressFor k plain t) : Action (Key × Bytes)) opened := by
  unfold compress
  cases sender with
  | given _ => rfl
  | opened created => exact run_bind_ok created _

/-- The compartment is open, so its algorithm is asked. -/
theorem compressing_of_sender (tidy : e.compartments.Tidy)
    (sender : Sender e algorithm compartment k opened) (plain : Bytes) (t : Transport) :
    Compressing e algorithm plain t compartment (compress compartment algorithm plain t e) := by
  obtain ⟨c, found⟩ := sender.opens tidy
  rw [compress_of_sender sender]
  cases made : opened.consult k c plain t with
  | mk result context =>
    cases result with
    | error text =>
      rw [run_bind_error (compressFor_of_error found made)]
      exact .failed sender found made
    | ok message =>
      rw [run_bind_ok (compressFor_of_ok found made)]
      exact .sent sender found made

theorem compressing_compress (tidy : e.compartments.Tidy) (compartment : Option Key)
    (algorithm : Option String) (plain : Bytes) (t : Transport) :
    Compressing e algorithm plain t compartment (compress compartment algorithm plain t e) := by
  cases compartment with
  | some k =>
    cases found : e.compartments.get? k with
    | none =>
      have refused : compress (some k) algorithm plain t e = .error .destructed e :=
        run_bind_error (compressFor_of_vacant found plain t) _
      rw [refused]
      exact .closed found
    | some c => exact compressing_of_sender tidy (.given found) plain t
  | none =>
    cases created : create algorithm e with
    | error r e' =>
      have refused : compress none algorithm plain t e = .error r e' := run_bind_error created _
      rw [refused]
      exact .unopened created
    | ok k opened => exact compressing_of_sender tidy (.opened created) plain t

end SigComp.Engine
