import SigComp.Algorithm

/-!
# Calls for the compartments of a key

An algorithm is called when a compartment is opened for it, for every message, and when
the compartment ends.

* `Callback.under k`: the calls for the compartments of one key, in order.
* `Course k as a calls`: these calls, for compartments that have been opened one after the
  other under `k` with the algorithms `as`; that of the one that is open is `a`.
* `Course.life`: if there has been one compartment only, its calls begin with its beginning,
  and they end with its end if it has ended.
-/

namespace SigComp

/-! ## Calls -/

namespace Callback

/-- The compartment that an algorithm is called for. -/
def compartment? : Callback → Option Key
  | created _ k _ | destructed _ k _ | peerMessage _ k _ | compress _ k .. => some k
  | initialized _ | ended _ => none

/-- The algorithm is called for a message of a compartment. -/
def isMessage : Callback → Bool
  | peerMessage .. | compress .. => true
  | _ => false

/-- The algorithm that has just been registered, if it is called for that. -/
def initialized? : Callback → Option String
  | initialized name => some name
  | _ => none

/-- The algorithm that ends, if it is called for that. -/
def ended? : Callback → Option String
  | ended name => some name
  | _ => none

/-- The calls for the compartments of one key. -/
def under (k : Key) (calls : List Callback) : List Callback :=
  calls.filter (·.compartment? == some k)

variable {k k' : Key} {calls : List Callback}

theorem under_append (k : Key) (calls more : List Callback) :
    under k (calls ++ more) = under k calls ++ under k more :=
  List.filter_append ..

theorem under_of_forall (about : ∀ u ∈ calls, u.compartment? = some k) : under k calls = calls :=
  List.filter_eq_self.2 fun u among => beq_of_eq (about u among)

theorem under_of_ne (about : ∀ u ∈ calls, u.compartment? = some k) (other : k' ≠ k) :
    under k' calls = [] := by
  refine List.filter_eq_nil_iff.2 fun u among same => other ?_
  have here := eq_of_beq same
  rw [about u among] at here
  exact (Option.some.inj here).symm

/-- Calls for compartments are no registrations. -/
theorem filterMap_initialized? (about : ∀ u ∈ calls, u.compartment? = some k) :
    calls.filterMap initialized? = [] := by
  refine List.filterMap_eq_nil_iff.2 fun u among => ?_
  have here := about u among
  cases u with
  | initialized name => cases here
  | _ => rfl

theorem filterMap_ended? (about : ∀ u ∈ calls, u.compartment? = some k) :
    calls.filterMap ended? = [] := by
  refine List.filterMap_eq_nil_iff.2 fun u among => ?_
  have here := about u among
  cases u with
  | ended name => cases here
  | _ => rfl

end Callback

/-! ## Courses -/

/-- The calls for compartments that have been opened one after the other under a key.  Only
algorithms with a context are called when one of them begins or ends. -/
inductive Course (k : Key) : List Algorithm → Option Algorithm → List Callback → Prop
  | start : Course k [] none []
  | opened {as : List Algorithm} {calls : List Callback} {a : Algorithm} (context : Bytes) :
    a.descriptor.contextSize ≠ 0 → Course k as none calls →
    Course k (as ++ [a]) (some a) (calls ++ [.created a.name k context])
  | openedBare {as : List Algorithm} {calls : List Callback} {a : Algorithm} :
    a.descriptor.contextSize = 0 → Course k as none calls → Course k (as ++ [a]) (some a) calls
  | message {as : List Algorithm} {calls : List Callback} {a : Algorithm} {u : Callback} :
    u.isMessage = true → u.algorithm = a.name → Course k as (some a) calls →
    Course k as (some a) (calls ++ [u])
  | closed {as : List Algorithm} {calls : List Callback} {a : Algorithm} (context : Bytes) :
    a.descriptor.contextSize ≠ 0 → Course k as (some a) calls →
    Course k as none (calls ++ [.destructed a.name k context])
  | closedBare {as : List Algorithm} {calls : List Callback} {a : Algorithm} :
    a.descriptor.contextSize = 0 → Course k as (some a) calls → Course k as none calls

namespace Course

variable {k : Key} {as : List Algorithm} {a b : Algorithm} {o : Option Algorithm}
  {calls us : List Callback}

/-- The algorithm of an open compartment is called for any number of messages. -/
theorem messages (course : Course k as (some a) calls)
    (messages : ∀ u ∈ us, u.isMessage = true ∧ u.algorithm = a.name) :
    Course k as (some a) (calls ++ us) := by
  induction us generalizing calls with
  | nil => rwa [List.append_nil]
  | cons u rest ih =>
    rw [List.append_cons]
    obtain ⟨message, mine⟩ := messages u List.mem_cons_self
    refine ih (course.message message mine) fun u among => ?_
    exact messages u (List.mem_cons_of_mem _ among)

/-- If no compartment has been opened nobody has been called. -/
theorem of_nil (course : Course k as o calls) (nobody : as = []) : o = none ∧ calls = [] := by
  induction course with
  | start => exact ⟨rfl, rfl⟩
  | opened _ _ _ _ => simp at nobody
  | openedBare _ _ _ => simp at nobody
  | message _ _ _ ih => cases (ih nobody).1
  | closed _ _ _ ih => cases (ih nobody).1
  | closedBare _ _ ih => cases (ih nobody).1

/-- The calls for one compartment, from its beginning on; the last is its end if it has ended. -/
def Life (k : Key) (a : Algorithm) (o : Option Algorithm) (calls : List Callback) : Prop :=
  ∃ x during, (∀ u ∈ during, u.isMessage = true ∧ u.algorithm = a.name) ∧
    ((o = some a ∧ calls = .created a.name k x :: during) ∨
      o = none ∧ ∃ y, calls = .created a.name k x :: (during ++ [.destructed a.name k y]))

theorem life (course : Course k as o calls) (one : as = [a])
    (sized : a.descriptor.contextSize ≠ 0) :
    Life k a o calls := by
  induction course with
  | start => cases one
  | opened context _ before _ =>
    obtain ⟨rfl, same⟩ := List.append_inj' (one.trans (List.nil_append [a]).symm) rfl
    obtain ⟨-, rfl⟩ := before.of_nil rfl
    cases same
    exact ⟨context, [], by simp, .inl ⟨rfl, rfl⟩⟩
  | openedBare bare before _ =>
    obtain ⟨rfl, same⟩ := List.append_inj' (one.trans (List.nil_append [a]).symm) rfl
    cases same
    exact absurd bare sized
  | @message _ _ _ u message mine _ ih =>
    obtain ⟨x, during, within, ⟨same, rfl⟩ | ⟨none, _⟩⟩ := ih one
    · cases same
      refine ⟨x, during ++ [u], fun v among => ?_, .inl ⟨rfl, rfl⟩⟩
      rcases List.mem_append.1 among with before | last
      · exact within v before
      · rw [List.mem_singleton.1 last]
        exact ⟨message, mine⟩
    · cases none
  | closed context _ _ ih =>
    obtain ⟨x, during, within, ⟨same, rfl⟩ | ⟨none, _⟩⟩ := ih one
    · cases same
      exact ⟨x, during, within, .inr ⟨rfl, context, rfl⟩⟩
    · cases none
  | closedBare bare _ ih =>
    obtain ⟨x, during, within, ⟨same, rfl⟩ | ⟨none, _⟩⟩ := ih one
    · cases same
      exact absurd bare sized
    · cases none

end Course

end SigComp
