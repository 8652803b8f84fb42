import SigComp.Engine.Operation
import SigComp.Proofs.CompartmentHoldings

/-!
# Consistent engines

What holds of an engine at all times: its store, its open compartments and the machines
that wait agree with one another.

* `Engine.Consistent pinned`: the states are held by the members of the open compartments
  and by `pinned`, once for each; every open compartment is balanced and backed; and
  the machines that wait have lawful requests.
* `Consistent.focus` and `Consistent.putBack`: one open compartment is seen by itself,
  with all the others as bystanders, and put back after something was done for it.
* `Engine.Leaves`: what an outcome leaves behind, refused or not; `Leaves.bind` takes an
  action apart.
-/

namespace SigComp.Engine

open Store (Keeps Referenced)
open Compartment (Kept Carries SameBooks)

variable {e e' : Engine} {k k' : Key} {c c' : Compartment} {s : Store} {pinned : List Key}
  {α β : Type}

/-! ## Memberships -/

/-- The states that the members of compartments stand for, one for each membership. -/
def heldBy (compartments : Arena Compartment) : List Key :=
  compartments.toList.flatMap fun entry => entry.2.keys

/-- The memberships of the open compartments. -/
def memberships (e : Engine) : List Key := heldBy e.compartments

theorem heldBy_perm {a b : Arena Compartment} (same : a.toList.Perm ((k, c) :: b.toList)) :
    (heldBy a).Perm (c.keys ++ heldBy b) := by
  have flat := same.flatMap_right fun entry => entry.2.keys
  rwa [List.flatMap_cons] at flat

theorem mem_heldBy {compartments : Arena Compartment} {key : Key} :
    key ∈ heldBy compartments ↔ ∃ k c, compartments.get? k = some c ∧ key ∈ c.keys := by
  simp only [heldBy, List.mem_flatMap]
  constructor
  · rintro ⟨⟨k, c⟩, opened, among⟩
    exact ⟨k, c, Arena.mem_toList.1 opened, among⟩
  · rintro ⟨k, c, opened, among⟩
    exact ⟨(k, c), Arena.mem_toList.2 opened, among⟩

/-! ## Consistency -/

/-- A compartment is kept as the settings have it, and its members are backed by the store. -/
structure Open (settings : Settings) (s : Store) (c : Compartment) : Prop where
  balanced : c.Balanced
  backed : c.Backed s
  own : c.own = .ofSettings settings
  maxStates : c.maxStates = settings.statesPerCompartment

/-- The store, the open compartments and the machines that wait agree with one another. -/
structure Consistent (pinned : List Key) (e : Engine) : Prop where
  tidy : e.compartments.Tidy
  referenced : e.store.Referenced pinned e.memberships
  opened : ∀ k c, e.compartments.get? k = some c → Open e.settings e.store c
  waiting : e.pending.machines.Tidy
  lawful : ∀ k w, e.pending.machines.get? k = some w → w.machine.requests.Lawful
  allowed : 0 < e.settings.statesPerCompartment

namespace Consistent

/-- Nothing else of an engine matters. -/
theorem congr (consistent : Consistent pinned e) (settings : e'.settings = e.settings)
    (store : e'.store = e.store) (compartments : e'.compartments = e.compartments)
    (pending : e'.pending = e.pending) : Consistent pinned e' := by
  obtain ⟨tidy, referenced, opened, waiting, lawful, allowed⟩ := consistent
  refine ⟨compartments ▸ tidy, ?_, ?_, pending ▸ waiting, pending ▸ lawful, settings ▸ allowed⟩
  · rw [store, memberships, compartments]
    exact referenced
  · rw [store, settings, compartments]
    exact opened

theorem warned (consistent : Consistent pinned e) (ws : List Warning) :
    Consistent pinned (e.warned ws) :=
  consistent.congr rfl rfl rfl rfl

/-- Buffers are no matter of consistency. -/
theorem withStore (consistent : Consistent pinned e) (states : s.states = e.store.states)
    (index : s.index = e.store.index) : Consistent pinned { e with store := s } := by
  obtain ⟨tidy, referenced, opened, waiting, lawful, allowed⟩ := consistent
  refine ⟨tidy, referenced.congr states index, fun k c found => ?_, waiting, lawful, allowed⟩
  rcases opened k c found with ⟨balanced, backed, own, maxStates⟩
  exact ⟨balanced, backed.fewer (.refl _) (Store.keeps_congr _ states), own, maxStates⟩

/-- The machines that wait may be others. -/
theorem withPending {p : Pending} (consistent : Consistent pinned e) (waiting : p.machines.Tidy)
    (lawful : ∀ k w, p.machines.get? k = some w → w.machine.requests.Lawful) :
    Consistent pinned { e with pending := p } :=
  ⟨consistent.tidy, consistent.referenced, consistent.opened, waiting, lawful, consistent.allowed⟩

/-! ## One compartment among others -/

theorem focus (consistent : Consistent pinned e) (found : e.compartments.get? k = some c) :
    Kept pinned (heldBy (e.compartments.erase k)) (c, e.store) := by
  rcases consistent.opened k c found with ⟨balanced, backed, _, _⟩
  exact ⟨balanced, backed, consistent.referenced.perm (heldBy_perm (Arena.toList_perm found))⟩

/-- Other compartments are open and backed as before, after what was done for one. -/
theorem bystander (consistent : Consistent pinned e)
    (keeps : Keeps (pinned ++ heldBy (e.compartments.erase k)) e.store s)
    (found : e.compartments.get? k' = some c') (other : k' ≠ k) : Open e.settings s c' := by
  rcases consistent.opened k' c' found with ⟨balanced, backed, own, maxStates⟩
  refine ⟨balanced, backed.fewer (.refl _) (keeps.mono ?_), own, maxStates⟩
  intro key among
  apply List.mem_append_right
  rw [mem_heldBy]
  refine ⟨k', c', ?_, among⟩
  rw [Arena.get?_erase, if_neg other]
  exact found

theorem putBack (consistent : Consistent pinned e) (found : e.compartments.get? k = some c)
    (carries : Carries pinned (heldBy (e.compartments.erase k)) (c, e.store) (c', s)) :
    Consistent pinned ({ e with store := s }.putCompartment k c') := by
  obtain ⟨⟨balanced, backed, referenced⟩, keeps, own, maxStates⟩ := carries
  obtain ⟨_, _, own₀, maxStates₀⟩ := consistent.opened k c found
  refine ⟨consistent.tidy.modify k _, ?_, ?_, consistent.waiting, consistent.lawful,
    consistent.allowed⟩
  · exact referenced.perm (heldBy_perm (Arena.toList_put_perm found c')).symm
  · intro k' c'' found'
    simp only [putCompartment, Arena.get?_put found] at found'
    split at found'
    · cases found'
      exact ⟨balanced, backed, own.trans own₀, maxStates.trans maxStates₀⟩
    · next other => exact consistent.bystander keeps found' other

/-- What is no matter of the members of a compartment may change. -/
theorem putSame (consistent : Consistent pinned e) (found : e.compartments.get? k = some c)
    (same : SameBooks c c') : Consistent pinned (e.putCompartment k c') :=
  consistent.putBack found (Compartment.carries_of_sameBooks (consistent.focus found) same)

/-- A compartment without members is opened. -/
theorem openNew {compartments : Arena Compartment} (consistent : Consistent pinned e)
    (inserted : e.compartments.insert? c = some (k, compartments)) (empty : c.members = [])
    (available : c.available = c.own.stateMemory) (own : c.own = .ofSettings e.settings)
    (maxStates : c.maxStates = e.settings.statesPerCompartment) :
    Consistent pinned { e with compartments } := by
  obtain ⟨tidy, _, view⟩ := Arena.insert?_eq_some consistent.tidy inserted
  have nobody : c.keys = [] := by
    rw [Compartment.keys, empty, List.map_nil]
  refine ⟨tidy, ?_, ?_, consistent.waiting, consistent.lawful, consistent.allowed⟩
  · have more := heldBy_perm (Arena.toList_insert_perm consistent.tidy inserted)
    rw [nobody, List.nil_append] at more
    exact consistent.referenced.perm more.symm
  · intro k' c' found
    simp only [view] at found
    split at found
    · cases found
      refine ⟨⟨?_, ?_, ?_⟩, ⟨?_, ?_⟩, own, maxStates⟩
      · simp [Compartment.spent, empty, available]
      · simp [empty]
      · rw [maxStates]
        exact consistent.allowed
      · simp [empty]
      · simp [empty]
    · exact consistent.opened k' c' found

end Consistent

/-- A new engine is as the settings have it, and there is nothing in it. -/
theorem start_eq_ok {settings : Settings} (started : start settings = .ok e) :
    e = {
      settings := settings.normalized
      store := .ofSettings settings.normalized
      compartments := { capacity := settings.normalized.openCompartments }
      pending := .ofSettings settings.normalized } := by
  simp only [start, bind, Except.bind] at started
  split at started
  · cases started
  · cases started
    rfl

theorem nothing_open {settings : Settings} (started : start settings = .ok e) (k : Key) :
    e.compartments.get? k = none := by
  obtain rfl := start_eq_ok started
  exact Arena.get?_eq_none_of_beyond (Nat.zero_le _)

theorem nothing_waits {settings : Settings} (started : start settings = .ok e) (k : Key) :
    e.pending.machines.get? k = none := by
  obtain rfl := start_eq_ok started
  exact Arena.get?_eq_none_of_beyond (Nat.zero_le _)

theorem consistent_of_start {settings : Settings} (started : start settings = .ok e) :
    Consistent [] e := by
  have opened := nothing_open started
  have waiting := nothing_waits started
  obtain rfl := start_eq_ok started
  refine ⟨Arena.Tidy.empty _, Store.referenced_ofSettings _, ?_, Arena.Tidy.empty _, ?_, ?_⟩
  · intro k c found
    rw [opened] at found
    cases found
  · intro k w found
    rw [waiting] at found
    cases found
  · change 0 < min (max settings.statesPerCompartment 1) 512
    omega

/-! ## Outcomes -/

/-- What an outcome leaves behind: an answer and an engine as `Q` says, or an engine as `I` says. -/
def Leaves (I : Engine → Prop) (Q : α → Engine → Prop) : EStateM.Result Error Engine α → Prop
  | .ok a e => Q a e
  | .error _ e => I e

variable {I : Engine → Prop} {P : α → Engine → Prop} {Q : β → Engine → Prop}

theorem Leaves.of_forall {result : EStateM.Result Error Engine α} (refused : ∀ e, I e)
    (answered : ∀ a e, P a e) : Leaves I P result := by
  cases result with
  | ok a e => exact answered a e
  | error r e => exact refused e

theorem Leaves.imp {P' : α → Engine → Prop} {result : EStateM.Result Error Engine α}
    (h : Leaves I P result) (weaken : ∀ a e, P a e → P' a e) : Leaves I P' result := by
  cases result with
  | ok a e => exact weaken a e h
  | error r e => exact h

theorem Leaves.bind {x : Action α} {next : α → Action β} (first : Leaves I P (x e))
    (rest : ∀ a e', P a e' → Leaves I Q (next a e')) : Leaves I Q ((x >>= next) e) := by
  simp only [Bind.bind, EStateM.bind]
  cases ran : x e with
  | ok a e' =>
    rw [ran] at first
    exact rest a e' first
  | error r e' =>
    rw [ran] at first
    exact first

theorem Leaves.ofExcept {x : Except Error α} {next : α → Action β} (holds : I e)
    (rest : ∀ a, x = .ok a → Leaves I Q (next a e)) :
    Leaves I Q ((MonadExcept.ofExcept x >>= next) e) := by
  cases x with
  | ok a => exact rest a rfl
  | error r => exact holds

theorem Leaves.map {x : Action α} (f : α → β) (h : Leaves I (fun a => Q (f a)) (x e)) :
    Leaves I Q ((f <$> x) e) := by
  simp only [Functor.map, EStateM.map]
  cases ran : x e with
  | ok a e' =>
    rw [ran] at h
    exact h
  | error r e' =>
    rw [ran] at h
    exact h

/-- What holds either way. -/
theorem Leaves.after {result : EStateM.Result Error Engine α} (h : Leaves I (fun _ => I) result) :
    I (after result) := by
  cases result with
  | ok a e => exact h
  | error r e => exact h

end SigComp.Engine
