import SigComp.Proofs.ReferenceCounts

/-!
# Refused compression

What an engine looks like after a message could not be compressed.

* `Engine.Unaltered`: the open compartments with all that is recorded of them, the states
  with their counts, the buffers in use, the machines that wait and the catalogue are what
  they were; the bytes of contexts and the peaks of counters may be others.
* `unaltered_of_compressFor`: an algorithm that fails alters nothing, and
  `leaves_opens`: neither does a compartment that cannot be opened.
* `Opens`: a compartment that is opened is one more, under a key of its own.
* `refused_compression_unaltered_iff`: so a refusal alters an engine exactly if the
  compartment was opened for the message, and that compartment stays open.
-/

namespace SigComp

/-- A compartment but for what its algorithm has written into its context. -/
def Compartment.record (c : Compartment) : Compartment :=
  { c with context := c.context.map fun context => { context with bytes := [] } }

@[simp] theorem Compartment.record_writeContext (c : Compartment) (data : Bytes) :
    (c.writeContext data).record = c.record := by
  unfold record writeContext
  cases c.context <;> rfl

namespace Engine

variable {e e' e'' : Engine} {k k' : Key} {c : Compartment} {a : Algorithm} {r : Error}
  {compartment : Option Key} {algorithm : Option String} {plain : Bytes} {t : Transport}

/-! ## What a refusal should leave as it is -/

/-- The open compartments and what is recorded of each, the states and their counts, the buffers in
use, the machines that wait and the catalogue are the same. -/
structure Unaltered (e e' : Engine) : Prop where
  compartments : ∀ k, (e'.compartments.get? k).map Compartment.record =
    (e.compartments.get? k).map Compartment.record
  states : ∀ k, e'.store.states.get? k = e.store.states.get? k
  buffers : e'.store.tiers.map Tier.inUse = e.store.tiers.map Tier.inUse
  pending : e'.pending = e.pending
  catalogue : e'.catalogue = e.catalogue

theorem Unaltered.refl (e : Engine) : Unaltered e e :=
  ⟨fun _ => rfl, fun _ => rfl, rfl, rfl, rfl⟩

theorem Unaltered.trans (first : Unaltered e e') (second : Unaltered e' e'') : Unaltered e e'' := by
  refine ⟨fun k => ?_, fun k => ?_, ?_, ?_, ?_⟩
  · rw [second.compartments, first.compartments]
  · rw [second.states, first.states]
  · rw [second.buffers, first.buffers]
  · rw [second.pending, first.pending]
  · rw [second.catalogue, first.catalogue]

theorem unaltered_called (e : Engine) (callback : Callback) : Unaltered e (e.called callback) :=
  ⟨fun _ => rfl, fun _ => rfl, rfl, rfl, rfl⟩

theorem unaltered_putCompartment {c' : Compartment} (found : e.compartments.get? k = some c)
    (same : c'.record = c.record) : Unaltered e (e.putCompartment k c') := by
  refine ⟨fun k' => ?_, fun _ => rfl, rfl, rfl, rfl⟩
  simp only [putCompartment, Arena.get?_put found]
  by_cases here : k' = k
  · rw [if_pos here, here, found, Option.map_some, Option.map_some, same]
  · rw [if_neg here]

/-! ## The algorithm fails -/

/-- Either there is no such compartment or its algorithm has failed, and nothing is altered. -/
theorem unaltered_of_compressFor (failed : compressFor k plain t e = .error r e') :
    Unaltered e e' ∧ ((e.compartments.get? k = none ∧ r = .destructed) ∨
      ∃ c text, e.compartments.get? k = some c ∧ r = .algorithm c.algorithm.name text) := by
  unfold compressFor at failed
  rw [run_get] at failed
  cases found : e.compartments.get? k with
  | none =>
    have absent : e.compartment k = .error .destructed := by
      rw [Engine.compartment, found]
    rw [absent, run_ofExcept_error] at failed
    cases failed
    exact ⟨.refl e, .inl ⟨rfl, rfl⟩⟩
  | some c =>
    have opened : e.compartment k = .ok c := by
      rw [Engine.compartment, found]
    rw [opened, run_ofExcept_ok] at failed
    -- the context is written over whatever the algorithm answers
    revert failed
    obtain ⟨result, context⟩ := c.algorithm.compressor.compress
      ⟨k, c.algorithm.descriptor, e.briefing c, plain, t⟩ c.contextBytes
    cases result with
    | ok message =>
      intro failed
      cases failed
    | error text =>
      intro failed
      cases failed
      have written : (c.writeContext context).record = c.record := c.record_writeContext context
      have put := unaltered_putCompartment (e := e.called (.compress c.algorithm.name k t
        c.contextBytes (e.briefing c))) found written
      exact ⟨(unaltered_called e _).trans put, .inr ⟨c, text, rfl, rfl⟩⟩

/-! ## Opening a compartment -/

/-- A context that is lent is one buffer in use until it comes back. -/
theorem leaves_lent (e : Engine) (d : Descriptor) :
    Leaves (Unaltered e) (fun context e' =>
      Unaltered e (e'.returnContext context) ∧ e'.compartments = e.compartments)
      (lendContext d e) := by
  unfold lendContext
  split
  · exact ⟨.refl e, rfl⟩
  · simp only [bind, EStateM.bind, onStore]
    cases taken : Store.allocContext d.contextSize e.store with
    | ok context s =>
      obtain ⟨_, reserved⟩ := Store.allocContext_eq_ok taken
      have given := Store.inUse_giveBack_of_reserve reserved
      obtain ⟨_, rfl⟩ := Store.reserve_eq_ok reserved
      exact ⟨⟨fun _ => rfl, fun _ => rfl, given, rfl, rfl⟩, rfl⟩
    | error r s =>
      rw [Store.allocContext_eq_error taken]
      exact .refl e

/-- There is one compartment more, under a key that named none. -/
structure Opens (e : Engine) (k : Key) (e' : Engine) : Prop where
  fresh : e.compartments.get? k = none
  opened : ∃ c, e'.compartments.get? k = some c
  others : ∀ k', k' ≠ k → e'.compartments.get? k' = e.compartments.get? k'

theorem Opens.introduce (opens : Opens e k e') (found : e'.compartments.get? k = some c) :
    Opens e k (e'.introduce k c) := by
  unfold Engine.introduce
  split
  · exact opens
  · refine ⟨opens.fresh, ⟨_, (Arena.get?_put found _).trans (if_pos rfl)⟩, fun k' other => ?_⟩
    exact (Arena.get?_put found _).trans ((if_neg other).trans (opens.others k' other))

/-- A compartment is opened, or nothing is altered: a context that was lent for it comes back. -/
theorem leaves_opens (tidy : e.compartments.Tidy) (algorithm : Option String) :
    Leaves (Unaltered e) (Opens e) (create algorithm e) := by
  unfold create
  rw [run_get]
  cases e.catalogue.select? algorithm with
  | none => exact .refl e
  | some a =>
    refine Leaves.bind (leaves_lent e a.descriptor) fun context e₁ lent => ?_
    obtain ⟨unaltered, compartments⟩ := lent
    rw [run_get]
    cases inserted : e₁.compartments.insert? {
        algorithm := a
        context
        own := .ofSettings e₁.settings
        maxStates := e₁.settings.statesPerCompartment } with
    | none => exact unaltered
    | some new =>
      obtain ⟨k, after⟩ := new
      rw [compartments] at inserted
      obtain ⟨_, fresh, view⟩ := Arena.insert?_eq_some tidy inserted
      have here := (view k).trans (if_pos rfl)
      have opens : Opens e k { e₁ with compartments := after } :=
        ⟨fresh, ⟨_, here⟩, fun k' other => (view k').trans (if_neg other)⟩
      exact opens.introduce here

theorem opens_of_create (tidy : e.compartments.Tidy) (created : create algorithm e = .ok k e') :
    Opens e k e' := by
  have opens := leaves_opens tidy algorithm
  rwa [created] at opens

/-! ## Refused compression -/

/-- A compartment is opened for the message, because none is given and one can be. -/
def OpensFor (compartment : Option Key) (algorithm : Option String) (e : Engine) : Prop :=
  compartment = none ∧ ∃ k e', create algorithm e = .ok k e'

/-- Where a compression can be refused. -/
inductive Refusal (compartment : Option Key) (algorithm : Option String) (plain : Bytes)
    (t : Transport) (e : Engine) (r : Error) (e' : Engine) : Prop
  | given {k : Key} : compartment = some k → compressFor k plain t e = .error r e' →
      Refusal compartment algorithm plain t e r e'
  | unopened : compartment = none → create algorithm e = .error r e' →
      Refusal compartment algorithm plain t e r e'
  | opened {k : Key} {e₁ : Engine} : compartment = none → create algorithm e = .ok k e₁ →
      compressFor k plain t e₁ = .error r e' → Refusal compartment algorithm plain t e r e'

theorem refusal_of_compress (refused : compress compartment algorithm plain t e = .error r e') :
    Refusal compartment algorithm plain t e r e' := by
  have sent : ∀ (k : Key) (e : Engine),
      ((do return (k, ← compressFor k plain t) : Action (Key × Bytes)) e) = .error r e' →
        compressFor k plain t e = .error r e' := by
    intro k e failed
    simp only [bind, EStateM.bind] at failed
    cases ran : compressFor k plain t e with
    | ok message e₁ =>
      rw [ran] at failed
      cases failed
    | error r e₁ =>
      rw [ran] at failed
      cases failed
      rfl
  unfold compress at refused
  cases compartment with
  | some k => exact .given rfl (sent k e refused)
  | none =>
    simp only [bind, EStateM.bind] at refused
    cases ran : create algorithm e with
    | ok k e₁ =>
      rw [ran] at refused
      exact .opened rfl ran (sent k e₁ refused)
    | error r e₁ =>
      rw [ran] at refused
      cases refused
      exact .unopened rfl ran

/-- A message that is refused leaves the engine as it was, with one exception: if a compartment was
opened for it, the algorithm of that compartment has failed, and the engine is left as it was after
the opening, with a compartment more under a key that the caller is not told. -/
theorem refused_compression_unaltered_iff (reachable : Reachable e)
    (refused : compress compartment algorithm plain t e = .error r e') :
    (Unaltered e e' ↔ ¬ OpensFor compartment algorithm e) ∧
    ∀ k opened, compartment = none → create algorithm e = .ok k opened →
      (∃ name text, r = .algorithm name text) ∧ Unaltered opened e' ∧
      e.compartments.get? k = none ∧ (∃ c, e'.compartments.get? k = some c) ∧
      ∀ k', k' ≠ k → (e'.compartments.get? k').map Compartment.record =
        (e.compartments.get? k').map Compartment.record := by
  obtain ⟨_, consistent⟩ := consistent_of_reachable reachable
  have creation := leaves_opens consistent.tidy algorithm
  cases refusal_of_compress refused with
  | given given failed =>
    have unopened : compartment ≠ none := by
      rw [given]
      exact Option.some_ne_none _
    have unaltered := (unaltered_of_compressFor failed).1
    refine ⟨⟨fun _ opens => unopened opens.1, fun _ => unaltered⟩, ?_⟩
    exact fun _ _ absent => absurd absent unopened
  | unopened _ failed =>
    rw [failed] at creation
    have unopened : ∀ k opened, create algorithm e ≠ .ok k opened := by
      intro k opened done
      rw [failed] at done
      cases done
    refine ⟨⟨fun _ opens => ?_, fun _ => creation⟩, ?_⟩
    · obtain ⟨_, k, opened, done⟩ := opens
      exact unopened k opened done
    · exact fun k opened _ done => absurd done (unopened k opened)
  | @opened k e₁ absent opened failed =>
    rw [opened] at creation
    obtain ⟨fresh, ⟨c, here⟩, others⟩ := creation
    obtain ⟨unaltered, reason⟩ := unaltered_of_compressFor failed
    have stays : ∃ c', e'.compartments.get? k = some c' := by
      have still := unaltered.compartments k
      rw [here] at still
      obtain ⟨c', found, _⟩ := Option.map_eq_some_iff.1 still
      exact ⟨c', found⟩
    have altered : ¬ Unaltered e e' := by
      intro same
      have gone := same.compartments k
      obtain ⟨c', found⟩ := stays
      rw [fresh, found] at gone
      cases gone
    refine ⟨⟨fun same => absurd same altered, fun nothing => ?_⟩, ?_⟩
    · exact absurd ⟨absent, k, e₁, opened⟩ nothing
    · intro k' e₂ _ again
      rw [opened] at again
      cases again
      refine ⟨?_, unaltered, fresh, stays, fun k' other => ?_⟩
      · rcases reason with ⟨closed, _⟩ | ⟨c, text, _, failed⟩
        · rw [here] at closed
          cases closed
        · exact ⟨_, text, failed⟩
      · rw [unaltered.compartments, others k' other]

/-- Why an operation was refused, if it was. -/
def reason? {α : Type} : EStateM.Result Error Engine α → Option Error
  | .ok _ _ => none
  | .error r _ => some r

/-- The only algorithm of an endpoint fails, and a compartment stays open of which the caller knows
nothing. -/
theorem failed_algorithm_leaves_compartment :
    ∃ e e' c, Reachable e ∧
      compress none none [] .message e = .error (.algorithm "a" "refused") e' ∧
      e.compartment ⟨0, 0⟩ = .error .destructed ∧ e'.compartment ⟨0, 0⟩ = .ok c ∧
      OpensFor none none e ∧ ¬ Unaltered e e' := by
  let first : Engine := ⟨{}, {}, .ofSettings {}, { capacity := 10 }, .ofSettings {}, {}, {}⟩
  let e : Engine := first.run
    [.addAlgorithm { name := "a", code := [0] }
      ⟨fun _ context => (.error "refused", context), fun _ context => context⟩]
  have reachable : e.Reachable := (Engine.Reachable.start (s := {}) rfl).run _
  have course : reason? (compress none none [] .message e) = some (.algorithm "a" "refused") ∧
      (e.compartments.get? ⟨0, 0⟩).isSome = false ∧
      ((Engine.after (compress none none [] .message e)).compartments.get? ⟨0, 0⟩).isSome =
      true := by
    decide +kernel
  obtain ⟨reason, vacant, there⟩ := course
  rw [Option.isSome_eq_false_iff, Option.isNone_iff_eq_none] at vacant
  obtain ⟨c, found⟩ := Option.isSome_iff_exists.1 there
  have closed : e.compartment ⟨0, 0⟩ = .error .destructed := by
    rw [Engine.compartment, vacant]
  cases refused : compress none none [] .message e with
  | ok _ e' =>
    rw [refused] at reason
    cases reason
  | error r e' =>
    rw [refused] at reason found
    cases reason
    change e'.compartments.get? ⟨0, 0⟩ = some c at found
    have opened : e'.compartment ⟨0, 0⟩ = .ok c := by
      rw [Engine.compartment, found]
    have altered : ¬ Unaltered e e' := by
      intro same
      have again := same.compartments ⟨0, 0⟩
      rw [vacant, found] at again
      cases again
    have exception := (refused_compression_unaltered_iff reachable refused).1
    refine ⟨e, e', c, reachable, refused, closed, opened, ?_, altered⟩
    exact Classical.byContradiction fun nothing => altered (exception.2 nothing)

end Engine

end SigComp
