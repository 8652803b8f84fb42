import SigComp.Proofs.ArenaGenerations
import SigComp.Proofs.CallbackCourses
import SigComp.Proofs.RefusedDeclaration
import SigComp.Proofs.SendingOutcomes
import SigComp.Proofs.SettlementRecords

/-!
# The lives of compartments, as algorithms see them

Compartments come to their end by being closed, by a declaration that fails, or with the
engine, and the slot of one is used again by another.

* `Engine.foundings`: the compartments that a history opens, also those that are closed again
  at once, and `Engine.enrolments`: the algorithms that it registers.
* `Chronicled founded names e`: what holds of an engine at all times, and
  `chronicled_perform`: one operation.
* `course_shutDown`: when the engine is shut down nothing is left open.
* `lifecycles_are_paired`: so in a whole life every compartment is begun and ended once, with
  all its messages in between, and so is every algorithm, after all compartments.
-/

namespace SigComp

/-- The name of the algorithm for which an operation opens a compartment, if it opens one. -/
def Operation.opens? : Operation → Option (Option String)
  | create algorithm | compress none algorithm .. => some algorithm
  | declare id (.fresh algorithm) => if id = 0 then none else some algorithm
  | _ => none

namespace Engine

open Arena (Numbered)
open Callback (under)

variable {e e' opened : Engine} {k : Key} {c c' : Compartment} {id : MachineId} {d : Declaration}
  {o : Operation}
  {founded : List (Key × Algorithm)} {names : List String} {pinned : List Key}
  {algorithm : Option String} {compartment : Option Key}

/-! ## What a history opens and registers -/

/-- The compartment that would be opened for the algorithm of a name. -/
def opening (e : Engine) (algorithm : Option String) : List (Key × Algorithm) :=
  match e.catalogue.select? algorithm, create algorithm e with
  | some a, .ok k _ => [(k, a)]
  | _, _ => []

/-- The compartment that an operation opens, whether or not it stays open. -/
def opens (e : Engine) (o : Operation) : List (Key × Algorithm) := o.opens?.elim [] e.opening

/-- The compartments that operations open, with their algorithms, in order. -/
def foundings (e : Engine) : List Operation → List (Key × Algorithm)
  | [] => []
  | o :: rest => e.opens o ++ (after (o.perform e)).foundings rest

/-- The name under which an operation registers an algorithm. -/
def enrols (e : Engine) (o : Operation) : List String :=
  match o, o.perform e with
  | .addAlgorithm d _, .ok _ _ => [d.name]
  | _, _ => []

/-- The names under which operations register algorithms, in order. -/
def enrolments (e : Engine) : List Operation → List String
  | [] => []
  | o :: rest => e.enrols o ++ (after (o.perform e)).enrolments rest

/-- The algorithms of the compartments that have been opened under a key. -/
def algorithmsUnder (founded : List (Key × Algorithm)) (k : Key) : List Algorithm :=
  (founded.filter (·.1 == k)).map Prod.snd

/-! ## Chronicles -/

/-- A compartment has a context if its algorithm needs one. -/
def Equipped (c : Compartment) : Prop :=
  c.context = none ↔ c.algorithm.descriptor.contextSize = 0

theorem Equipped.sized {context : Context} (equipped : Equipped c)
    (lent : c.context = some context) :
    c.algorithm.descriptor.contextSize ≠ 0 := by
  intro bare
  rw [equipped.2 bare] at lent
  cases lent

/-- The compartments in `founded` have been opened and the algorithms in `names` registered, and the
algorithms have been called accordingly. -/
structure Chronicled (founded : List (Key × Algorithm)) (names : List String) (e : Engine) :
    Prop where
  numbered : Numbered (founded.map Prod.fst) e.compartments
  course : ∀ k, Course k (algorithmsUnder founded k)
    ((e.compartments.get? k).map Compartment.algorithm) (under k e.journal.callbacks)
  equipped : ∀ k c, e.compartments.get? k = some c → Equipped c
  initialized : e.journal.callbacks.filterMap Callback.initialized? =
    e.catalogue.algorithms.map Algorithm.name
  distinct : (e.catalogue.algorithms.map Algorithm.name).Nodup
  registered : ∀ name, name ∈ e.catalogue.algorithms.map Algorithm.name ↔ name ∈ names
  going : e.journal.callbacks.filterMap Callback.ended? = []

theorem chronicled_of_start {settings : Settings} (started : start settings = .ok e) :
    Chronicled [] [] e := by
  have nothing := nothing_open started
  obtain rfl := start_eq_ok started
  refine ⟨Numbered.empty _, fun k => ?_, fun k c found => ?_, rfl, List.nodup_nil, fun _ => Iff.rfl,
    rfl⟩
  · simp only [nothing]
    exact .start
  · rw [nothing] at found
    cases found

namespace Chronicled

theorem of_opens?_none (chronicled : Chronicled founded names e') (nothing : o.opens? = none)
    (e : Engine) : Chronicled (founded ++ e.opens o) names e' := by
  rw [opens, nothing, Option.elim_none, List.append_nil]
  exact chronicled

theorem congr (chronicled : Chronicled founded names e)
    (compartments : e'.compartments = e.compartments)
    (callbacks : e'.journal.callbacks = e.journal.callbacks)
    (algorithms : e'.catalogue.algorithms = e.catalogue.algorithms) :
    Chronicled founded names e' := by
  obtain ⟨numbered, course, equipped, initialized, distinct, registered, going⟩ := chronicled
  refine ⟨compartments ▸ numbered, ?_, compartments ▸ equipped, ?_, algorithms ▸ distinct,
    algorithms ▸ registered, callbacks ▸ going⟩
  · rw [compartments, callbacks]
    exact course
  · rw [callbacks, algorithms]
    exact initialized

/-- Something happens under one key: compartments are opened there, and algorithms called for
them. -/
theorem change (chronicled : Chronicled founded names e) (extra : List (Key × Algorithm))
    (calls : List Callback) (under_key : ∀ f ∈ extra, f.1 = k)
    (about : ∀ u ∈ calls, u.compartment? = some k)
    (numbered : Numbered ((founded ++ extra).map Prod.fst) e'.compartments)
    (others : ∀ k', k' ≠ k → e'.compartments.get? k' = e.compartments.get? k')
    (callbacks : e'.journal.callbacks = e.journal.callbacks ++ calls)
    (catalogue : e'.catalogue = e.catalogue)
    (course : Course k (algorithmsUnder founded k ++ extra.map Prod.snd)
      ((e'.compartments.get? k).map Compartment.algorithm) (under k e.journal.callbacks ++ calls))
    (equipped : ∀ c, e'.compartments.get? k = some c → Equipped c) :
    Chronicled (founded ++ extra) names e' := by
  refine ⟨numbered, fun k' => ?_, fun k' c found => ?_, ?_, ?_, ?_, ?_⟩
  · rw [callbacks, Callback.under_append, algorithmsUnder, List.filter_append, List.map_append]
    by_cases here : k' = k
    · subst here
      rw [Callback.under_of_forall about,
        List.filter_eq_self.2 fun f among => beq_of_eq (under_key f among)]
      exact course
    · have nobody : extra.filter (·.1 == k') = [] := by
        refine List.filter_eq_nil_iff.2 fun f among same => here ?_
        exact (eq_of_beq same).symm.trans (under_key f among)
      rw [Callback.under_of_ne about here, nobody, others k' here, List.map_nil, List.append_nil,
        List.append_nil]
      exact chronicled.course k'
  · by_cases here : k' = k
    · subst here
      exact equipped c found
    · exact chronicled.equipped k' c (others k' here ▸ found)
  · rw [callbacks, List.filterMap_append, Callback.filterMap_initialized? about, List.append_nil,
      catalogue]
    exact chronicled.initialized
  · rw [catalogue]
    exact chronicled.distinct
  · rw [catalogue]
    exact chronicled.registered
  · rw [callbacks, List.filterMap_append, Callback.filterMap_ended? about, List.append_nil]
    exact chronicled.going

/-- An open compartment is put back after its algorithm has been called for messages. -/
theorem put (chronicled : Chronicled founded names e) (calls : List Callback)
    (found : e.compartments.get? k = some c)
    (messages : ∀ u ∈ calls,
      u.compartment? = some k ∧ u.isMessage = true ∧ u.algorithm = c.algorithm.name)
    (compartments : e'.compartments = e.compartments.modify k fun _ => c')
    (callbacks : e'.journal.callbacks = e.journal.callbacks ++ calls)
    (catalogue : e'.catalogue = e.catalogue) (algorithm : c'.algorithm = c.algorithm)
    (context : c'.context = none ↔ c.context = none) : Chronicled founded names e' := by
  have here : e'.compartments.get? k = some c' := by
    rw [compartments, Arena.get?_put found, if_pos rfl]
  have course := chronicled.course k
  rw [found] at course
  have after := chronicled.change [] calls (by simp) (fun u among => (messages u among).1) ?_
    (fun k' other => ?_) callbacks catalogue ?_ ?_
  · rwa [List.append_nil] at after
  · rw [List.append_nil, compartments]
    exact chronicled.numbered.modify k _
  · rw [compartments, Arena.get?_put found, if_neg other]
  · rw [here, Option.map_some, algorithm, List.map_nil, List.append_nil]
    exact course.messages fun u among => (messages u among).2
  · intro c'' same
    cases here.symm.trans same
    rw [Equipped, algorithm]
    exact context.trans (chronicled.equipped k c found)

theorem introduced {compartments : Arena Compartment} (chronicled : Chronicled founded names e)
    (tidy : e.compartments.Tidy) (equipped : Equipped c)
    (inserted : e.compartments.insert? c = some (k, compartments)) :
    Chronicled (founded ++ [(k, c.algorithm)]) names ({ e with compartments }.introduce k c) := by
  obtain ⟨_, fresh, view⟩ := Arena.insert?_eq_some tidy inserted
  have there : compartments.get? k = some c := (view k).trans (if_pos rfl)
  have numbered : Numbered ((founded ++ [(k, c.algorithm)]).map Prod.fst) compartments := by
    rw [List.map_append]
    exact chronicled.numbered.insert tidy inserted
  have course := chronicled.course k
  rw [fresh] at course
  unfold introduce
  cases lent : c.context with
  | none =>
    refine chronicled.change _ [] (by simp) (by simp) numbered
      (fun k' other => (view k').trans (if_neg other)) (List.append_nil _).symm rfl ?_ ?_
    · simp only [there, List.append_nil]
      exact course.openedBare (equipped.1 lent)
    · intro c' same
      cases there.symm.trans same
      exact equipped
  | some context =>
    refine chronicled.change (k := k) _ [_] (by simp) (by simp [Callback.compartment?])
      (numbered.modify k _) (fun k' other => ?_) rfl rfl ?_ ?_
    · exact (Arena.get?_put there _).trans ((if_neg other).trans ((view k').trans (if_neg other)))
    · simp only [putCompartment, called, Arena.get?_put there, if_true]
      exact course.opened context.bytes (equipped.sized lent)
    · intro c' same
      simp only [putCompartment, called, Arena.get?_put there, if_true, Option.some.injEq] at same
      rw [← same, Equipped, Compartment.writeContext, Option.map_eq_none_iff]
      exact equipped

/-- A compartment is no longer among the open ones, and its algorithm may have been told. -/
theorem removed (chronicled : Chronicled founded names e) (calls : List Callback)
    (about : ∀ u ∈ calls, u.compartment? = some k)
    (compartments : e'.compartments = e.compartments.erase k)
    (callbacks : e'.journal.callbacks = e.journal.callbacks ++ calls)
    (catalogue : e'.catalogue = e.catalogue)
    (course : Course k (algorithmsUnder founded k) none (under k e.journal.callbacks ++ calls)) :
    Chronicled founded names e' := by
  have gone : e'.compartments.get? k = none := by
    rw [compartments, Arena.get?_erase_same]
  have after := chronicled.change [] calls (by simp) about ?_ (fun k' other => ?_) callbacks
    catalogue ?_ ?_
  · rwa [List.append_nil] at after
  · rw [List.append_nil, compartments]
    exact chronicled.numbered.erase k
  · rw [compartments, Arena.get?_erase, if_neg other]
  · rw [gone, Option.map_none, List.map_nil, List.append_nil]
    exact course
  · rw [gone]
    intro c' none
    cases none

theorem closed (chronicled : Chronicled founded names e) (found : e.compartments.get? k = some c) :
    Chronicled founded names ({ e with compartments := e.compartments.erase k }.destruct k c) := by
  have course := chronicled.course k
  rw [found] at course
  have equipped := chronicled.equipped k c found
  unfold destruct
  cases lent : c.context with
  | none =>
    refine chronicled.removed [] (by simp) rfl (List.append_nil _).symm rfl ?_
    rw [List.append_nil]
    exact course.closedBare (equipped.1 lent)
  | some context =>
    refine chronicled.removed (k := k) [_] ?_ rfl rfl rfl
      (course.closed context.bytes (equipped.sized lent))
    simp [Callback.compartment?]

end Chronicled

/-! ## Operations -/

theorem context_of_lendContext {a : Descriptor} {context : Option Context}
    (lent : lendContext a e = .ok context e') : context = none ↔ a.contextSize = 0 := by
  unfold lendContext at lent
  split at lent
  · next bare =>
    cases lent
    exact ⟨fun _ => bare, fun _ => rfl⟩
  · next sized =>
    simp only [bind, EStateM.bind, onStore] at lent
    split at lent
    · cases lent
      exact ⟨fun none => (by cases none), fun bare => absurd bare sized⟩
    · cases lent

theorem chronicled_create (chronicled : Chronicled founded names e) (tidy : e.compartments.Tidy)
    (algorithm : Option String) :
    Chronicled (founded ++ e.opening algorithm) names (after (create algorithm e)) := by
  have outcome := creating_create e algorithm
  unfold opening
  generalize create algorithm e = result at outcome ⊢
  cases outcome with
  | unknown none =>
    rw [none, List.append_nil]
    exact chronicled
  | refused r s =>
    have same : Chronicled (founded ++ []) names { e with store := s } := by
      rw [List.append_nil]
      exact chronicled.congr rfl rfl rfl
    cases e.catalogue.select? algorithm <;> exact same
  | @opened a context e₁ k compartments selected lent inserted =>
    have before : Chronicled founded names e₁ := by
      rw [lendContext_aside lent]
      exact chronicled.congr rfl rfl rfl
    have tidy₁ : e₁.compartments.Tidy := compartments_of_lendContext lent ▸ tidy
    rw [selected]
    exact before.introduced tidy₁ (context_of_lendContext lent) inserted

theorem chronicled_settled (chronicled : Chronicled founded names e)
    (found : e.compartments.get? k = some c) (w : Suspended) :
    Chronicled founded names (e.settled k c w) := by
  obtain ⟨_, notified⟩ := c.notified_settle e.store e.clock.now w.machine w.feedback
  have context := c.context_settle e.store e.clock.now w.machine w.feedback
  have algorithm :
      (c.settle e.store e.clock.now w.machine w.feedback).1.1.algorithm = c.algorithm :=
    notified.algorithm
  have lent : (c.settle e.store e.clock.now w.machine w.feedback).1.1.context = none ↔
      c.context = none := by rw [context]
  refine chronicled.put [_] found ?_ rfl rfl rfl algorithm lent
  intro u among
  rw [List.mem_singleton.1 among]
  exact ⟨rfl, rfl, congrArg Algorithm.name algorithm⟩

/-- An operation that opens a compartment for an algorithm, when it has done so. -/
theorem chronicled_opened (chronicled : Chronicled founded names e) (tidy : e.compartments.Tidy)
    (opening : o.opens? = some algorithm) :
    Chronicled (founded ++ e.opens o) names (after (create algorithm e)) := by
  rw [opens, opening]
  exact chronicled_create chronicled tidy algorithm

theorem chronicled_destination (chronicled : Chronicled founded names e)
    (tidy : e.compartments.Tidy) (named : id ≠ 0) (destination : Destination e d k opened) :
    Chronicled (founded ++ e.opens (.declare id d)) names opened := by
  cases destination with
  | existing _ => exact chronicled.of_opens?_none rfl e
  | @fresh algorithm _ _ created =>
    have after :=
      chronicled_opened (o := .declare id (.fresh algorithm)) chronicled tidy (if_neg named)
    rwa [created] at after

theorem chronicled_declare (chronicled : Chronicled founded names e) (tidy : e.compartments.Tidy)
    (id : MachineId) (d : Declaration) :
    Chronicled (founded ++ e.opens (.declare id d)) names (after (declare id d e)) := by
  have reaped : Chronicled founded names e.reap := chronicled.congr rfl rfl rfl
  have outcome := declaring_declare tidy id d
  generalize declare id d e = result at outcome
  cases outcome with
  | nobody none =>
    refine chronicled.of_opens?_none ?_ e
    cases d with
    | fresh algorithm => exact if_pos none
    | existing k => rfl
    | unauthorized => rfl
  | closed _ _ => exact chronicled.of_opens?_none rfl e
  | @unopened algorithm _ _ named refused =>
    have after :=
      chronicled_opened (o := .declare id (.fresh algorithm)) chronicled tidy (if_neg named)
    rwa [refused] at after
  | unclaimed _ _ => exact reaped.of_opens?_none rfl e
  | unknown _ _ _ => exact reaped.of_opens?_none rfl e
  | @rolledBack algorithm k opened r named created _ =>
    have destination : Destination e (.fresh algorithm) k opened := .fresh created
    obtain ⟨c, found⟩ := (destination.opens tidy).1
    have before := chronicled_destination chronicled tidy named destination
    have there : opened.reap.compartments.get? k = some c := found
    have given : Chronicled _ names opened.reap := before.congr rfl rfl rfl
    change Chronicled _ names (opened.reap.rollBack k)
    rw [rollBack_of_found there]
    exact given.closed there
  | discarded _ _ =>
    refine Chronicled.of_opens?_none ?_ rfl e
    exact chronicled.congr rfl rfl rfl
  | @settled d k opened c w p named destination found _ =>
    have before := chronicled_destination chronicled tidy named destination
    have waiting : Chronicled _ names { opened.reap with pending := p } := before.congr rfl rfl rfl
    exact chronicled_settled waiting found w

theorem chronicled_sender (chronicled : Chronicled founded names e) (tidy : e.compartments.Tidy)
    (sender : Sender e algorithm compartment k opened) (plain : Bytes) (t : Transport) :
    Chronicled (founded ++ e.opens (.compress compartment algorithm plain t)) names opened := by
  cases sender with
  | given _ => exact chronicled.of_opens?_none rfl e
  | opened created =>
    have after := chronicled_opened (o := .compress none algorithm plain t) chronicled tidy rfl
    rwa [created] at after

theorem chronicled_compress (chronicled : Chronicled founded names e) (tidy : e.compartments.Tidy)
    (compartment : Option Key) (algorithm : Option String) (plain : Bytes) (t : Transport) :
    Chronicled (founded ++ e.opens (.compress compartment algorithm plain t)) names
      (after (compress compartment algorithm plain t e)) := by
  have outcome := compressing_compress tidy compartment algorithm plain t
  generalize compress compartment algorithm plain t e = result at outcome
  cases outcome with
  | closed _ => exact chronicled.of_opens?_none rfl e
  | unopened refused =>
    have after := chronicled_opened (o := .compress none algorithm plain t) chronicled tidy rfl
    rwa [refused] at after
  | @failed _ k opened c text context sender found _ =>
    have before := chronicled_sender chronicled tidy sender plain t
    refine before.put [_] found ?_ rfl rfl rfl rfl ?_
    · intro u among
      rw [List.mem_singleton.1 among]
      exact ⟨rfl, rfl, rfl⟩
    · rw [Compartment.writeContext, Option.map_eq_none_iff]
  | @sent _ k opened c message context sender found _ =>
    have before := chronicled_sender chronicled tidy sender plain t
    refine before.put [_] found ?_ rfl rfl rfl rfl ?_
    · intro u among
      rw [List.mem_singleton.1 among]
      exact ⟨rfl, rfl, rfl⟩
    · rw [Compartment.sent, Compartment.writeContext, Option.map_eq_none_iff]

theorem chronicled_close (chronicled : Chronicled founded names e) (k : Key) :
    Chronicled founded names (after (close k e)) := by
  simp only [close, compartment]
  cases found : e.compartments.get? k with
  | none => exact chronicled
  | some c => exact chronicled.closed found

theorem chronicled_resendBytecode (chronicled : Chronicled founded names e) (k : Key) :
    Chronicled founded names (after (resendBytecode k e)) := by
  unfold resendBytecode
  rw [run_get]
  cases found : e.compartments.get? k with
  | none =>
    rw [compartment_of_vacant found, run_ofExcept_error]
    exact chronicled
  | some c =>
    rw [compartment_of_get? found, run_ofExcept_ok]
    exact chronicled.put [] found (by simp) rfl (List.append_nil _).symm rfl rfl Iff.rfl

/-- What a message is made of and what becomes of its machine is no matter of compartments. -/
theorem chronicled_decompress (chronicled : Chronicled founded names e) (data : Bytes)
    (t : Transport) : Chronicled founded names (after (decompress data t e)) := by
  have outcome := receiving_decompress data t e
  generalize decompress data t e = result at outcome
  cases outcome <;> exact chronicled.congr rfl rfl rfl

/-- A registration that is new calls the algorithm. -/
theorem chronicled_algorithmAdded (chronicled : Chronicled founded names e) {d : Descriptor}
    (unknown : e.catalogue.find? d.name = none) (compressor : Compressor) (s : Store) :
    Chronicled founded (names ++ [d.name]) (e.algorithmAdded d compressor s) := by
  have others : ∀ k, under k [.initialized d.name] = [] := fun k => rfl
  have added : (e.algorithmAdded d compressor s).catalogue.algorithms.map Algorithm.name =
      e.catalogue.algorithms.map Algorithm.name ++ [d.name] := by
    simp only [algorithmAdded, withAlgorithm, called, List.map_append]
    rfl
  obtain ⟨numbered, course, equipped, initialized, distinct, registered, going⟩ := chronicled
  refine ⟨numbered, fun k => ?_, equipped, ?_, ?_, fun name => ?_, ?_⟩
  · simp only [algorithmAdded, withAlgorithm, called, Callback.under_append, others,
      List.append_nil]
    exact course k
  · rw [added]
    simp only [algorithmAdded, withAlgorithm, called, List.filterMap_append, initialized]
    rfl
  · rw [added]
    refine List.nodup_append.2 ⟨distinct, List.nodup_singleton _, ?_⟩
    intro name among other new same
    rw [List.mem_singleton.1 new] at same
    obtain ⟨a, there, named⟩ := List.mem_map.1 among
    have differs := List.find?_eq_none.1 unknown a there
    exact differs (beq_of_eq (named.trans same))
  · rw [added, List.mem_append, List.mem_append, registered]
  · simp only [algorithmAdded, withAlgorithm, called, List.filterMap_append, going]
    rfl

/-- A name that is taken may be registered again, and nobody is called. -/
theorem chronicled_known (chronicled : Chronicled founded names e) {name : String} {a : Algorithm}
    (known : e.catalogue.find? name = some a) : Chronicled founded (names ++ [name]) e := by
  have found : e.catalogue.algorithms.find? (·.name == name) = some a := known
  have same : (a.name == name) = true :=
    List.find?_some (p := fun a : Algorithm => a.name == name) found
  have there : name ∈ e.catalogue.algorithms.map Algorithm.name :=
    List.mem_map.2 ⟨a, List.mem_of_find?_eq_some found, eq_of_beq same⟩
  obtain ⟨numbered, course, equipped, initialized, distinct, registered, going⟩ := chronicled
  refine ⟨numbered, course, equipped, initialized, distinct, fun other => ?_, going⟩
  rw [List.mem_append, List.mem_singleton, ← registered]
  constructor
  · exact fun among => .inl among
  · intro h
    rcases h with among | rfl
    · exact among
    · exact there

theorem chronicled_registration (chronicled : Chronicled founded names e)
    (registers : o.registers = true) :
    Chronicled founded (names ++ e.enrols o) (after (o.perform e)) := by
  have outcome := registration_perform registers e
  unfold enrols
  generalize o.perform e = result at outcome ⊢
  cases outcome with
  | refused o r =>
    cases o <;> exact (List.append_nil names).symm ▸ chronicled
  | known found => exact chronicled_known chronicled found
  | algorithm unknown _ => exact chronicled_algorithmAdded chronicled unknown _ _
  | dictionary _ =>
    rw [List.append_nil]
    exact chronicled.congr rfl rfl rfl

/-- One operation. -/
theorem chronicled_perform (chronicled : Chronicled founded names e) (tidy : e.compartments.Tidy)
    (o : Operation) :
    Chronicled (founded ++ e.opens o) (names ++ e.enrols o) (after (o.perform e)) := by
  cases ordinary : o.registers with
  | true =>
    have registration := chronicled_registration chronicled ordinary
    refine registration.of_opens?_none ?_ e
    cases o <;> first | rfl | cases ordinary
  | false =>
    have nobody : e.enrols o = [] := by
      cases o <;> first | rfl | cases ordinary
    rw [nobody, List.append_nil, after_perform]
    cases o with
    | addAlgorithm d compressor => cases ordinary
    | addDictionary data access => cases ordinary
    | create algorithm => exact chronicled_opened (o := .create algorithm) chronicled tidy rfl
    | close k => exact (chronicled_close chronicled k).of_opens?_none rfl e
    | resendBytecode k => exact (chronicled_resendBytecode chronicled k).of_opens?_none rfl e
    | decompress data t => exact (chronicled_decompress chronicled data t).of_opens?_none rfl e
    | declare id d => exact chronicled_declare chronicled tidy id d
    | compress k algorithm plain t => exact chronicled_compress chronicled tidy k algorithm plain t
    | advance ms =>
      refine Chronicled.of_opens?_none ?_ rfl e
      exact chronicled.congr rfl rfl rfl

/-- Any number of operations. -/
theorem chronicled_run (chronicled : Chronicled founded names e) (consistent : Consistent pinned e)
    (operations : List Operation) :
    Chronicled (founded ++ e.foundings operations) (names ++ e.enrolments operations)
      (e.run operations) := by
  induction operations generalizing e founded names pinned with
  | nil =>
    rw [foundings, enrolments, List.append_nil, List.append_nil]
    exact chronicled
  | cons o rest ih =>
    have first := chronicled_perform chronicled consistent.tidy o
    rw [foundings, enrolments, ← List.append_assoc, ← List.append_assoc]
    exact ih first (consistent_perform consistent o)

/-! ## Shutting down -/

/-- The last call for an open compartment. -/
def farewell (entry : Key × Compartment) : Option Callback :=
  entry.2.context.map fun context => .destructed entry.2.algorithm.name entry.1 context.bytes

theorem callbacks_destruct (e : Engine) (k : Key) (c : Compartment) :
    (e.destruct k c).journal.callbacks = e.journal.callbacks ++ (farewell (k, c)).toList ∧
      (e.destruct k c).catalogue = e.catalogue := by
  unfold destruct farewell
  cases c.context with
  | none => exact ⟨(List.append_nil _).symm, rfl⟩
  | some context => exact ⟨rfl, rfl⟩

/-- Compartments come to their end one after the other. -/
def destructs (e : Engine) (still : List (Key × Compartment)) : Engine :=
  still.foldl (fun e entry => e.destruct entry.1 entry.2) e

theorem callbacks_destructs (still : List (Key × Compartment)) (e : Engine) :
    (e.destructs still).journal.callbacks = e.journal.callbacks ++ still.filterMap farewell ∧
      (e.destructs still).catalogue = e.catalogue := by
  induction still generalizing e with
  | nil => exact ⟨(List.append_nil _).symm, rfl⟩
  | cons entry rest ih =>
    obtain ⟨first, same⟩ := callbacks_destruct e entry.1 entry.2
    obtain ⟨others, same'⟩ := ih (e.destruct entry.1 entry.2)
    refine ⟨others.trans ?_, same'.trans same⟩
    rw [first, List.append_assoc, List.filterMap_cons]
    cases farewell entry <;> rfl

theorem callbacks_endings (algorithms : List Algorithm) (e : Engine) :
    (algorithms.foldl (fun e a => e.called (.ended a.name)) e).journal.callbacks =
      e.journal.callbacks ++ (algorithms.map Algorithm.name).map .ended := by
  induction algorithms generalizing e with
  | nil => exact (List.append_nil _).symm
  | cons a rest ih =>
    refine (ih _).trans ?_
    simp [called]

/-- All compartments have come to their end, and the algorithms have not. -/
def vacated (e : Engine) : Engine :=
  { e with compartments := e.compartments.clear }.destructs e.compartments.toList

theorem callbacks_shutDown (e : Engine) :
    e.shutDown.journal.callbacks =
      e.journal.callbacks ++ e.compartments.toList.filterMap farewell ++
        (e.catalogue.algorithms.map Algorithm.name).map .ended := by
  obtain ⟨farewells, same⟩ : e.vacated.journal.callbacks =
      e.journal.callbacks ++ e.compartments.toList.filterMap farewell ∧
        e.vacated.catalogue = e.catalogue := callbacks_destructs _ _
  change (List.foldl _ e.vacated e.vacated.catalogue.algorithms).journal.callbacks = _
  rw [callbacks_endings, farewells, same]

/-- The last calls for the compartments of a key: there is one at most. -/
theorem under_farewells (e : Engine) (k : Key) :
    under k (e.compartments.toList.filterMap farewell) =
      ((e.compartments.get? k).bind fun c => farewell (k, c)).toList := by
  have mine : under k (e.compartments.toList.filterMap farewell) =
      (e.compartments.toList.filter (·.1 == k)).filterMap farewell := by
    rw [under, List.filter_filterMap, List.filterMap_filter]
    congr 1
    funext entry
    obtain ⟨k', c⟩ := entry
    unfold farewell
    cases c.context with
    | none => simp
    | some context => by_cases here : k' = k <;> simp [Callback.compartment?, here, Option.filter]
  rw [mine, Arena.filter_toList]
  cases e.compartments.get? k with
  | none => rfl
  | some c => cases lent : farewell (k, c) <;> simp [lent]

theorem filterMap_farewells {β : Type} (f : Callback → Option β)
    (silent : ∀ name k context, f (.destructed name k context) = none)
    (still : List (Key × Compartment)) : (still.filterMap farewell).filterMap f = [] := by
  refine List.filterMap_eq_nil_iff.2 fun u among => ?_
  obtain ⟨entry, _, last⟩ := List.mem_filterMap.1 among
  obtain ⟨context, _, rfl⟩ := Option.map_eq_some_iff.1 last
  exact silent _ _ _

/-- With the last calls the course of every key comes to an end. -/
theorem course_shutDown (chronicled : Chronicled founded names e) (k : Key) :
    Course k (algorithmsUnder founded k) none (under k e.shutDown.journal.callbacks) := by
  have endings : under k ((e.catalogue.algorithms.map Algorithm.name).map .ended) = [] := by
    simp [under, Callback.compartment?]
  have course := chronicled.course k
  rw [callbacks_shutDown, Callback.under_append, Callback.under_append, endings, List.append_nil,
    under_farewells]
  cases found : e.compartments.get? k with
  | none =>
    rw [found] at course
    rw [Option.bind_none, Option.toList_none, List.append_nil]
    exact course
  | some c =>
    rw [found] at course
    have equipped := chronicled.equipped k c found
    rw [Option.bind_some, farewell]
    cases lent : c.context with
    | none =>
      simp only [Option.map_none, Option.toList_none, List.append_nil]
      exact course.closedBare (equipped.1 lent)
    | some context =>
      exact course.closed context.bytes (equipped.sized lent)

/-! ## Whole lives -/

theorem algorithmsUnder_of_mem {a : Algorithm} (distinct : (founded.map Prod.fst).Nodup)
    (among : (k, a) ∈ founded) : algorithmsUnder founded k = [a] := by
  have one : (founded.filter (·.1 == k)).length ≤ 1 := by
    have once := List.nodup_iff_count_le_one.1 distinct k
    rwa [List.count, List.countP_map, List.countP_eq_length_filter] at once
  have there : (k, a) ∈ founded.filter (·.1 == k) :=
    List.mem_filter.2 ⟨among, beq_self_eq_true k⟩
  unfold algorithmsUnder
  generalize founded.filter (·.1 == k) = here at one there
  cases here with
  | nil => cases there
  | cons f rest =>
    have nothing : rest = [] := List.length_eq_zero_iff.1 (by simpa using one)
    subst nothing
    rw [← List.mem_singleton.1 there]
    rfl

theorem algorithmsUnder_of_not_mem (absent : k ∉ founded.map Prod.fst) :
    algorithmsUnder founded k = [] := by
  have nobody : founded.filter (·.1 == k) = [] := by
    refine List.filter_eq_nil_iff.2 fun f among same => absent ?_
    exact List.mem_map.2 ⟨f, among, eq_of_beq same⟩
  rw [algorithmsUnder, nobody, List.map_nil]

/-- All calls of algorithms in the life of an engine, which ends with its shutting down. -/
def calls (e : Engine) (operations : List Operation) : List Callback :=
  (e.run operations).shutDown.journal.callbacks

/-- Whatever is done to an engine until it is shut down, as long as no slot is used again 4294967296
times: the compartments that have been opened, be it for a moment, have keys of their own; an
algorithm with a context is called when its compartment begins, when it ends, and in between for its
messages only; and every algorithm is called once when it is first registered, and once in the end,
when all compartments have ended. -/
theorem lifecycles_are_paired {settings : Settings} {first : Engine}
    (started : start settings = .ok first) (operations : List Operation)
    (few : ∀ i, Arena.turns ((first.foundings operations).map Prod.fst) i ≤ 4294967296) :
    ((first.foundings operations).map Prod.fst).Nodup ∧
    (∀ k a, (k, a) ∈ first.foundings operations → a.descriptor.contextSize ≠ 0 →
      ∃ x during y, under k (first.calls operations) =
          .created a.name k x :: (during ++ [.destructed a.name k y]) ∧
        ∀ u ∈ during, u.isMessage = true ∧ u.algorithm = a.name) ∧
    (∀ k, k ∉ (first.foundings operations).map Prod.fst → under k (first.calls operations) = []) ∧
    ∃ names before, first.calls operations = before ++ names.map .ended ∧
      names.Nodup ∧ (∀ name, name ∈ names ↔ name ∈ first.enrolments operations) ∧
      before.filterMap Callback.initialized? = names ∧ before.filterMap Callback.ended? = [] := by
  have chronicled : Chronicled (first.foundings operations) (first.enrolments operations)
      (first.run operations) :=
    chronicled_run (chronicled_of_start started) (consistent_of_start started) operations
  have distinct := chronicled.numbered.nodup few
  refine ⟨distinct, fun k a among sized => ?_, fun k absent => ?_, _, _, callbacks_shutDown _,
    chronicled.distinct, chronicled.registered, ?_, ?_⟩
  · have course := course_shutDown chronicled k
    rw [algorithmsUnder_of_mem distinct among] at course
    obtain ⟨x, during, within, ⟨impossible, _⟩ | ⟨_, y, whole⟩⟩ := course.life rfl sized
    · cases impossible
    · exact ⟨x, during, y, whole, within⟩
  · have course := course_shutDown chronicled k
    rw [algorithmsUnder_of_not_mem absent] at course
    exact (course.of_nil rfl).2
  · rw [List.filterMap_append, chronicled.initialized, filterMap_farewells Callback.initialized?,
      List.append_nil]
    exact fun _ _ _ => rfl
  · rw [List.filterMap_append, chronicled.going, filterMap_farewells Callback.ended?]
    · rfl
    · exact fun _ _ _ => rfl

/-- A slot is used three times: by a compartment that is closed, by one for a machine that does not
wait any more, and by one for a message. -/
theorem three_lives_of_a_slot :
    ∃ settings first operations, start settings = .ok first ∧
      (∀ i, Arena.turns ((first.foundings operations).map Prod.fst) i ≤ 4294967296) ∧
      (first.foundings operations).map Prod.fst = [⟨0, 0⟩, ⟨0, 1⟩, ⟨0, 2⟩] ∧
      ∀ k ∈ (first.foundings operations).map Prod.fst, ∃ x during y,
        under k (first.calls operations) =
            .created "a" k x :: (during ++ [.destructed "a" k y]) ∧
          ∀ u ∈ during, u.isMessage = true ∧ u.algorithm = "a" := by
  let first : Engine := ⟨{}, {}, .ofSettings {}, { capacity := 10 }, .ofSettings {}, {}, {}⟩
  let operations : List Operation := [
    .addAlgorithm { name := "a", code := [0], contextSize := 16 }
      ⟨fun _ context => (.ok [], context), fun _ context => context⟩,
    .create none, .compress (some ⟨0, 0⟩) none [] .message, .close ⟨0, 0⟩,
    .declare 1 (.fresh none), .compress none (some "a") [] .message]
  have course : (first.foundings operations).map
      (fun f => (f.1, f.2.name, f.2.descriptor.contextSize)) =
        [(⟨0, 0⟩, "a", 16), (⟨0, 1⟩, "a", 16), (⟨0, 2⟩, "a", 16)] := by
    decide +kernel
  have keys : (first.foundings operations).map Prod.fst = [⟨0, 0⟩, ⟨0, 1⟩, ⟨0, 2⟩] := by
    have firsts := congrArg (List.map Prod.fst) course
    rwa [List.map_map] at firsts
  have few : ∀ i, Arena.turns ((first.foundings operations).map Prod.fst) i ≤ 4294967296 := by
    intro i
    have within : Arena.turns ((first.foundings operations).map Prod.fst) i ≤ 3 := by
      rw [keys]
      exact List.countP_le_length
    omega
  have started : start {} = .ok first := rfl
  obtain ⟨_, lives, _⟩ := lifecycles_are_paired started operations few
  refine ⟨{}, first, operations, started, few, keys, fun k among => ?_⟩
  obtain ⟨⟨k, a⟩, there, rfl⟩ := List.mem_map.1 among
  have entry : (k, a.name, a.descriptor.contextSize) ∈
      [((⟨0, 0⟩ : Key), "a", 16), (⟨0, 1⟩, "a", 16), (⟨0, 2⟩, "a", 16)] :=
    course ▸ List.mem_map.2 ⟨(k, a), there, rfl⟩
  have same : a.name = "a" ∧ a.descriptor.contextSize = 16 := by
    simp only [List.mem_cons, Prod.mk.injEq, List.not_mem_nil, or_false] at entry
    rcases entry with ⟨_, same⟩ | ⟨_, same⟩ | ⟨_, same⟩ <;> exact same
  have life := lives k a there (by rw [same.2]; decide)
  rwa [same.1] at life

end Engine

end SigComp
