import SigComp.Proofs.PendingRun
import SigComp.Proofs.RegisteredStates

/-!
# Refused declarations

What an engine looks like after a declaration has been refused.

* `Store.unmarked`: a store but for the peaks of its tiers.  A buffer that is taken and given
  back leaves no other trace.
* `Engine.Restored e e'`: everything in the engine is as it was, but for what is called or
  noted, for peaks and generations, and for the machines whose time is over.
* `restored_of_founds`: a compartment that is opened and closed again leaves the engine
  restored.
* `refused_declaration_restores`: so does every declaration that is refused, and the machine
  can be declared again as if nothing had happened.
-/

namespace SigComp

/-! ## Tiers -/

/-- A tier but for its peak. -/
def Tier.unmarked (t : Tier) : Tier := { t with peak := 0 }

namespace Tier

theorem unmarked_giveBack_take (tiers : List Tier) (i : Nat) :
    ((tiers.modify i take).modify i giveBack).map unmarked = tiers.map unmarked := by
  apply List.ext_getElem?
  intro j
  simp only [List.getElem?_map, List.getElem?_modify]
  cases tiers[j]? with
  | none => rfl
  | some t =>
    by_cases same : i = j
    · simp [same, take, giveBack, unmarked]
    · simp [same]

theorem largest_unmarked (tiers : List Tier) : largest (tiers.map unmarked) = largest tiers := by
  unfold largest
  rw [List.getLast?_map, Option.map_map]
  rfl

theorem offers_unmarked (size : Nat) : offers size ∘ unmarked = offers size := rfl

end Tier

namespace Store

variable {s s' : Store} {size tier : Nat}

/-- A store but for the peaks of its tiers. -/
def unmarked (s : Store) : Store := { s with tiers := s.tiers.map Tier.unmarked }

theorem unmarked_giveBack (reserved : reserve size s = .ok tier s') :
    (s'.giveBack tier).unmarked = s.unmarked := by
  obtain ⟨_, rfl⟩ := reserve_eq_ok reserved
  simp only [unmarked, giveBack, Tier.unmarked_giveBack_take]

/-- Whether a buffer can be had, and of which tier, can be told from the sizes and counts. -/
theorem exists_reserve_iff :
    (∃ s', reserve size s = .ok tier s') ↔
      ¬ Tier.largest s.tiers < size ∧ s.tiers.findIdx? (Tier.offers size) = some tier := by
  unfold reserve Tier.reserve
  by_cases large : Tier.largest s.tiers < size
  · simp [large]
  · rw [if_neg large]
    cases s.tiers.findIdx? (Tier.offers size) <;> simp [large]

/-- Peaks are no matter of what can be had. -/
theorem exists_reserve_congr (same : s'.unmarked = s.unmarked) :
    (∃ t, reserve size s' = .ok tier t) ↔ ∃ t, reserve size s = .ok tier t := by
  have tiers : s'.tiers.map Tier.unmarked = s.tiers.map Tier.unmarked := congrArg Store.tiers same
  have largest : Tier.largest s'.tiers = Tier.largest s.tiers := by
    rw [← Tier.largest_unmarked, tiers, Tier.largest_unmarked]
  have first : s'.tiers.findIdx? (Tier.offers size) = s.tiers.findIdx? (Tier.offers size) := by
    rw [← Tier.offers_unmarked, ← List.findIdx?_map, tiers, List.findIdx?_map]
  rw [exists_reserve_iff, exists_reserve_iff, largest, first]

end Store

namespace Engine

variable {e e' opened : Engine} {k : Key} {c : Compartment} {id : MachineId} {d : Declaration}
  {r : Error} {algorithm : Option String}

/-! ## Restored engines -/

/-- The open compartments with all that is recorded of them, the states with their counts, the
index, the buffers in use, the catalogue and the clock are the same, and so are the machines that
wait, unless those whose time is over have been given up.  There is room for a compartment if there
was. -/
structure Restored (e e' : Engine) : Prop where
  settings : e'.settings = e.settings
  clock : e'.clock = e.clock
  catalogue : e'.catalogue = e.catalogue
  compartments : ∀ k, e'.compartments.get? k = e.compartments.get? k
  size : e'.compartments.size = e.compartments.size
  room : e.compartments.Roomy → e'.compartments.Roomy
  store : e'.store.unmarked = e.store.unmarked
  pending : e'.pending = e.pending ∨ e'.pending = e.reap.pending

theorem Restored.refl (e : Engine) : Restored e e :=
  ⟨rfl, rfl, rfl, fun _ => rfl, rfl, id, rfl, .inl rfl⟩

theorem restored_reap (e : Engine) : Restored e e.reap :=
  ⟨rfl, rfl, rfl, fun _ => rfl, rfl, id, rfl, .inr rfl⟩

/-! ## Opening a compartment -/

/-- A compartment has been opened that holds no states, and nothing else has been done but to lend
it a context. -/
structure Founds (e : Engine) (k : Key) (c : Compartment) (opened : Engine) : Prop where
  settings : opened.settings = e.settings
  catalogue : opened.catalogue = e.catalogue
  fresh : e.compartments.get? k = none
  view : ∀ k', opened.compartments.get? k' = if k' = k then some c else e.compartments.get? k'
  size : opened.compartments.size = e.compartments.size + 1
  empty : c.members = []
  store : (opened.returnContext c.context).store.unmarked = e.store.unmarked

/-- A context that is lent leaves nothing behind once it comes back. -/
theorem leaves_lendContext (e : Engine) (d : Descriptor) :
    Leaves (Restored e) (fun context e' => (∃ s, e' = { e with store := s }) ∧
      (e'.returnContext context).store.unmarked = e.store.unmarked) (lendContext d e) := by
  cases lends : lendContext d e with
  | error r e' =>
    rw [lendContext_eq_error lends]
    exact .refl e
  | ok context e' =>
    rcases lendContext_eq_ok lends with ⟨rfl, rfl⟩ | ⟨lease, s, rfl, taken, rfl⟩
    · exact ⟨⟨e'.store, rfl⟩, rfl⟩
    · obtain ⟨_, reserved⟩ := Store.allocContext_eq_ok taken
      exact ⟨⟨s, rfl⟩, Store.unmarked_giveBack reserved⟩

theorem Founds.introduce (founds : Founds e k c opened) :
    ∃ c', Founds e k c' (opened.introduce k c) := by
  obtain ⟨settings, catalogue, fresh, view, size, empty, store⟩ := founds
  unfold Engine.introduce
  cases lent : c.context with
  | none => exact ⟨c, settings, catalogue, fresh, view, size, empty, store⟩
  | some context =>
    have found : opened.compartments.get? k = some c := (view k).trans (if_pos rfl)
    refine ⟨c.writeContext (c.algorithm.compressor.created k context.bytes), settings, catalogue,
      fresh,
      fun k' => (Arena.get?_put found _).trans ?_, (Arena.size_modify _ _ _).trans size, empty, ?_⟩
    · rw [view]
      by_cases here : k' = k
      · rw [if_pos here, if_pos here]
      · rw [if_neg here, if_neg here, if_neg here]
    · -- the buffer of a context is the same, whatever is written into it
      rw [lent] at store
      simp only [Compartment.writeContext, lent]
      exact store

/-- A compartment is opened, or nothing is left of the attempt. -/
theorem leaves_founds (tidy : e.compartments.Tidy) (algorithm : Option String) :
    Leaves (Restored e) (fun k e' => ∃ c, Founds e k c e') (create algorithm e) := by
  unfold create
  rw [run_get]
  cases e.catalogue.select? algorithm with
  | none => exact .refl e
  | some a =>
    simp only []
    have lending := leaves_lendContext e a.descriptor
    cases lends : lendContext a.descriptor e with
    | error r e₁ =>
      rw [lends] at lending
      rw [openFor, run_bind_error lends]
      exact lending
    | ok context e₁ =>
      rw [lends] at lending
      obtain ⟨⟨s, rfl⟩, returned⟩ := lending
      cases inserted : e.compartments.insert? (e.founding a context) with
      | none =>
        rw [openFor_of_full lends inserted]
        exact ⟨rfl, rfl, rfl, fun _ => rfl, rfl, id, returned, .inl rfl⟩
      | some new =>
        obtain ⟨k, compartments⟩ := new
        obtain ⟨_, fresh, view⟩ := Arena.insert?_eq_some tidy inserted
        have founds : Founds e k (e.founding a context) { e with store := s, compartments } :=
          ⟨rfl, rfl, fresh, view, (Arena.counters_insert inserted).1, rfl, returned⟩
        rw [openFor_of_room lends inserted]
        exact founds.introduce

/-! ## Closing it again -/

/-- The end of a compartment that holds no states gives its context back, and is only noted. -/
theorem destruct_of_empty (empty : c.members = []) (e : Engine) (k : Key) :
    ∃ journal, e.destruct k c = { e.returnContext c.context with journal } := by
  have nothing : c.releaseAll e.store = e.store := by
    rw [Compartment.releaseAll, empty, List.foldl_nil]
  unfold destruct
  rw [nothing]
  cases c.context <;> exact ⟨_, rfl⟩

theorem rollBack_of_found (found : e.compartments.get? k = some c) :
    e.rollBack k = { e with compartments := e.compartments.erase k }.destruct k c := by
  simp only [rollBack, close, compartment, found]

/-- A compartment that is opened and closed again leaves nothing behind. -/
theorem restored_of_founds (founds : Founds e k c opened)
    (aside : opened.pending = e.pending ∧ opened.clock = e.clock) :
    Restored e (opened.reap.rollBack k) := by
  obtain ⟨settings, catalogue, fresh, view, size, empty, store⟩ := founds
  obtain ⟨pending, clock⟩ := aside
  have found : opened.reap.compartments.get? k = some c := (view k).trans (if_pos rfl)
  rw [rollBack_of_found found]
  obtain ⟨journal, closed⟩ := destruct_of_empty empty
    { opened.reap with compartments := opened.reap.compartments.erase k } k
  rw [closed]
  refine ⟨settings, clock, catalogue, fun k' => ?_, ?_, fun _ => Arena.roomy_erase found, store,
    .inr ?_⟩
  · refine (Arena.get?_erase opened.compartments k k').trans ?_
    rw [view]
    by_cases here : k' = k
    · rw [if_pos here, here, fresh]
    · rw [if_neg here, if_neg here]
  · change (opened.reap.compartments.erase k).size = _
    rw [Arena.erase_of_get? found]
    exact Nat.sub_eq_of_eq_add size
  · change (opened.pending.reap opened.clock.now).1 = (e.pending.reap e.clock.now).1
    rw [pending, clock]

/-! ## Opening one later -/

theorem exists_lendContext_iff (e : Engine) (d : Descriptor) :
    (∃ context e', lendContext d e = .ok context e') ↔
      d.contextSize = 0 ∨ ∃ tier s, Store.reserve d.contextSize e.store = .ok tier s := by
  unfold lendContext
  by_cases none : d.contextSize = 0
  · simp only [none, true_or, iff_true]
    exact ⟨_, _, rfl⟩
  · simp only [if_neg none, none, false_or, bind, EStateM.bind, onStore, Store.allocContext]
    cases Store.reserve d.contextSize e.store with
    | ok tier s => exact ⟨fun _ => ⟨tier, s, rfl⟩, fun _ => ⟨_, _, rfl⟩⟩
    | error r s => simp

/-- There must be a buffer for the context, and room for the compartment. -/
theorem exists_openFor_iff (e : Engine) (a : Algorithm) :
    (∃ k opened, openFor a e = .ok k opened) ↔
      (∃ context e', lendContext a.descriptor e = .ok context e') ∧ e.compartments.Roomy := by
  have lending := leaves_lendContext e a.descriptor
  cases lends : lendContext a.descriptor e with
  | error r e₁ => simp [openFor, run_bind_error lends]
  | ok context e₁ =>
    rw [lends] at lending
    obtain ⟨⟨s, rfl⟩, _⟩ := lending
    rw [← e.compartments.exists_insert_iff (e.founding a context)]
    cases inserted : e.compartments.insert? (e.founding a context) with
    | none => simp [openFor_of_full lends inserted]
    | some new =>
      obtain ⟨k, compartments⟩ := new
      simp [openFor_of_room lends inserted]

/-- A compartment can be opened exactly if there is such an algorithm, a buffer for its context, and
room for the compartment. -/
theorem exists_create_iff (e : Engine) (algorithm : Option String) :
    (∃ k opened, create algorithm e = .ok k opened) ↔
      ∃ a, e.catalogue.select? algorithm = some a ∧
        (a.descriptor.contextSize = 0 ∨
          ∃ tier s, Store.reserve a.descriptor.contextSize e.store = .ok tier s) ∧
        e.compartments.Roomy := by
  unfold create
  rw [run_get]
  cases e.catalogue.select? algorithm with
  | none =>
    constructor
    · rintro ⟨_, _, impossible⟩
      cases impossible
    · rintro ⟨_, impossible, _⟩
      cases impossible
  | some a =>
    simp only [Option.some.injEq, exists_eq_left', ← exists_lendContext_iff]
    exact exists_openFor_iff e a

theorem Restored.create (restored : Restored e e')
    (h : ∃ k opened, create algorithm e = .ok k opened) :
    ∃ k opened, create algorithm e' = .ok k opened := by
  rw [exists_create_iff] at h ⊢
  obtain ⟨a, selected, lent, room⟩ := h
  refine ⟨a, restored.catalogue ▸ selected, lent.imp_right fun ⟨tier, reserved⟩ => ?_,
    restored.room room⟩
  exact ⟨tier, (Store.exists_reserve_congr restored.store).2 reserved⟩

/-- The compartment that a declaration is for is open, or it can be opened. -/
def Placeable (e : Engine) (d : Declaration) : Prop := ∃ k opened, Destination e d k opened

theorem Restored.placeable (restored : Restored e e') (placeable : Placeable e d) :
    Placeable e' d := by
  obtain ⟨k, opened, destination⟩ := placeable
  cases destination with
  | existing found => exact ⟨k, e', .existing ((restored.compartments k).trans found)⟩
  | fresh created =>
    obtain ⟨k', opened', created'⟩ := restored.create ⟨k, opened, created⟩
    exact ⟨k', opened', .fresh created'⟩

/-- Time makes no difference to that. -/
theorem Placeable.advance (placeable : Placeable e d) (ms : Nat) : Placeable (e.advance ms) d := by
  obtain ⟨k, opened, destination⟩ := placeable
  cases destination with
  | existing found => exact ⟨k, _, .existing found⟩
  | @fresh algorithm _ _ created =>
    have later : create algorithm (e.advance ms) = _ :=
      blind_create algorithm e e.pending (e.clock.advance ms)
    rw [created] at later
    exact ⟨k, _, .fresh later⟩

/-! ## Refused declarations -/

theorem restored_of_declare (tidy : e.compartments.Tidy) (refused : declare id d e = .error r e') :
    Restored e e' := by
  have outcome := declaring_declare tidy id d
  rw [refused] at outcome
  cases outcome with
  | closed _ _ => exact .refl e
  | @unopened algorithm _ _ _ unopened =>
    have attempt := leaves_founds tidy algorithm
    rw [unopened] at attempt
    exact attempt
  | unclaimed _ _ => exact restored_reap e
  | unknown _ _ _ => exact restored_reap e
  | @rolledBack algorithm k opened _ _ created _ =>
    have attempt := leaves_founds tidy algorithm
    rw [created] at attempt
    obtain ⟨c, founds⟩ := attempt
    exact restored_of_founds founds (Destination.fresh created).aside

/-- A machine whose time is not over waits on. -/
theorem Restored.waits {κ : Key} {w : Suspended} {due : Nat} (restored : Restored e e')
    (timely : e.Timely) (waits : e.pending.machines.get? κ = some w)
    (queued : (κ, due) ∈ e.pending.deadlines) (ahead : e.clock.now < due) :
    e'.pending.machines.get? κ = some w ∧ (κ, due) ∈ e'.pending.deadlines := by
  rcases restored.pending with same | same
  · rw [same]
    exact ⟨waits, queued⟩
  · rw [same]
    refine ⟨(timely.get?_reap_eq_some_iff).2 ⟨waits, due, queued, ahead⟩, ?_⟩
    have left : e.reap.pending.deadlines = _ := timely.deadlines_reap e.clock.now
    rw [left, List.mem_filter]
    exact ⟨queued, decide_eq_true ahead⟩

/-- Whatever was declared and for whatever machine, if the declaration is refused it leaves the
engine restored.  A machine whose time is not over waits as before, and as soon as a compartment is
declared for it in time that is open, or that can be opened, it is settled with that compartment. -/
theorem refused_declaration_restores (reachable : Reachable e)
    (refused : declare id d e = .error r e') :
    Restored e e' ∧
    ∀ κ w due, e.pending.machines.get? κ = some w → (κ, due) ∈ e.pending.deadlines →
      e.clock.now < due →
      e'.pending.machines.get? κ = some w ∧ (κ, due) ∈ e'.pending.deadlines ∧
      ∀ ms d', e.clock.now + ms < due → Placeable e d' →
        ∃ k e'', declare w.id d' (e'.advance ms) = .ok (some k) e'' ∧
          Settles (e'.advance ms) κ w d' k e'' := by
  obtain ⟨_, consistent⟩ := consistent_of_reachable reachable
  have timely := timely_of_reachable reachable
  have restored := restored_of_declare consistent.tidy refused
  refine ⟨restored, fun κ w due waits queued ahead => ?_⟩
  obtain ⟨waits', queued'⟩ := restored.waits timely waits queued ahead
  refine ⟨waits', queued', fun ms d' inTime placeable => ?_⟩
  -- the engine after the refusal, and after more time, is reachable too
  have left : after (Operation.perform (.declare id d) e) = e' := by
    simp only [Operation.perform, Functor.map, EStateM.map, refused, after]
  have reachable' : Reachable e' := left ▸ reachable.perform (.declare id d)
  have later : Reachable (e'.advance ms) := reachable'.perform (.advance ms)
  obtain ⟨_, consistent'⟩ := consistent_of_reachable later
  have timely' := timely_of_reachable later
  obtain ⟨k, opened, destination⟩ := (restored.placeable placeable).advance ms
  have still : (e'.advance ms).reap.pending.machines.get? κ = some w := by
    refine timely'.get?_reap_eq_some_iff.2 ⟨waits', due, queued', ?_⟩
    change e'.clock.origin + (e'.clock.elapsed + ms) < due
    rw [restored.clock, ← Nat.add_assoc]
    exact inTime
  obtain ⟨e'', declared, settles⟩ :=
    declare_of_destination timely' consistent'.tidy destination still
  exact ⟨k, e'', declared, settles⟩

/-- A message of a peer waits for its declaration. -/
def waitingText : List Operation :=
  [.addAlgorithm { name := "a", code := [0], contextSize := 16 }
      ⟨fun _ context => (.ok [], context), fun _ context => context⟩,
    .decompress [0xf8, 0x00, 0x81, 0x23, 0x00, 0x00, 0x02, 0x00, 0x00, 0x06, 0x00] .message]

/-- A name that no machine has is declared for a new peer.  The compartment that is opened for it is
closed again, and three seconds later the machine that waits is settled with another. -/
theorem declared_after_misnaming :
    ∃ e e' w k e'', Reachable e ∧ declare 2048 (.fresh none) e = .error .notFound e' ∧
      e'.journal.callbacks.length = e.journal.callbacks.length + 2 ∧ Restored e e' ∧ w.id = 1024 ∧
      declare 1024 (.fresh none) (e'.advance 3000) = .ok (some k) e'' ∧
      Settles (e'.advance 3000) ⟨0, 0⟩ w (.fresh none) k e'' := by
  let first : Engine := ⟨{}, {}, .ofSettings {}, { capacity := 10 }, .ofSettings {}, {}, {}⟩
  let e := first.run waitingText
  have reachable : Reachable e := (Reachable.start (s := {}) rfl).run waitingText
  have course : reason? (declare 2048 (.fresh none) e) = some .notFound ∧
      (after (declare 2048 (.fresh none) e)).journal.callbacks.length =
        e.journal.callbacks.length + 2 ∧
      (e.pending.machines.get? ⟨0, 0⟩).map Suspended.id = some 1024 ∧
      e.pending.deadlines = [(⟨0, 0⟩, 5000)] ∧ e.clock.now = 0 ∧
      answer? (create none e) = some ⟨0, 0⟩ := by
    decide +kernel
  obtain ⟨reason, called, waiting, deadlines, now, opens⟩ := course
  obtain ⟨w, waits, name⟩ := Option.map_eq_some_iff.1 waiting
  obtain ⟨opened, created⟩ := eq_ok_of_answer? opens
  cases refused : declare 2048 (.fresh none) e with
  | ok _ e' =>
    rw [refused] at reason
    cases reason
  | error r e' =>
    rw [refused] at reason called
    cases reason
    obtain ⟨restored, waiters⟩ := refused_declaration_restores reachable refused
    have queued : (⟨0, 0⟩, 5000) ∈ e.pending.deadlines := deadlines ▸ List.mem_singleton_self _
    obtain ⟨_, _, settle⟩ := waiters ⟨0, 0⟩ w 5000 waits queued (by rw [now]; decide)
    obtain ⟨k, e'', declared, settles⟩ :=
      settle 3000 (.fresh none) (by rw [now]; decide) ⟨_, opened, .fresh created⟩
    rw [name] at declared
    exact ⟨e, e', w, k, e'', reachable, refused, called, restored, name, declared, settles⟩

end Engine

end SigComp
