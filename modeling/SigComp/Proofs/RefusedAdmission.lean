import SigComp.Proofs.ReferenceCounts

/-!
# Refused admissions

What a compartment and its store look like after a state that was to become a member has
been refused.

* `Attained`: a compartment of a reachable engine with its store, and what becomes of
  the two by admissions and expulsions of any kind.
* `Unchanged`: members, memory and counter of the compartment, and live states, counts
  and buffers in use of the store are what they were.
* `Displaces`: the state passes every check of the compartment and a buffer is found, but
  there is no room, so members are given up before the store is asked.
* `refused_unchanged_iff`: that is the one case in which a refusal changes anything.
-/

namespace SigComp

/-- What the store itself refuses to save: what would be named by zeros, what collides with a state
that it has, and what it has no place for. -/
theorem Store.refusal_of_save {d : Draft} {l : Label} {content : Content} {s s' : Store} {r : Error}
    (sized : d.size = content.length) (failed : Store.save d l content s = .error r s') :
    (r = .badParam .zeroId ∧ l.id.isZero = true) ∨ r = .collision ∨
      (r = .outOfResources .stateStructs ∧
        s.insert? { l with data := content.bytes } (some d.tier) = none) := by
  unfold Store.save at failed
  split at failed
  · next zero =>
    cases failed
    exact .inl ⟨rfl, zero⟩
  split at failed
  · next other => exact absurd sized.symm other
  split at failed
  · cases failed
  · next r probed =>
    cases failed
    unfold probe at probed
    obtain ⟨k, _, collides⟩ := Option.map_eq_some_iff.1 probed
    split at collides
    · cases collides
      exact .inr (.inl rfl)
    · split at collides
      · cases collides
      · cases collides
        exact .inr (.inl rfl)
  · split at failed
    · cases failed
    · next none =>
      cases failed
      exact .inr (.inr ⟨rfl, none⟩)

theorem Store.reason_of_save {d : Draft} {l : Label} {content : Content} {s s' : Store} {r : Error}
    (sized : d.size = content.length) (failed : Store.save d l content s = .error r s') :
    r = .badParam .zeroId ∨ r = .collision ∨ r = .outOfResources .stateStructs :=
  (refusal_of_save sized failed).imp And.left (Or.imp_right And.left)

namespace Compartment

variable {c : Compartment} {s : Store} {l : Label} {content : Content} {r : Error}
  {p q : Compartment × Store} {ms : List Member}

/-! ## Compartments as they come about -/

/-- A compartment and its store in a reachable engine, and what becomes of them when states are
admitted and expelled, whatever their labels. -/
inductive Attained : Compartment × Store → Prop
  | opened {e : Engine} {k : Key} {c : Compartment} :
    e.Reachable → e.compartment k = .ok c → Attained (c, e.store)
  | accept {c : Compartment} {s : Store} (l : Label) (content : Content) :
    Attained (c, s) → Attained (after (accept l content (c, s)))
  | expel {c : Compartment} {s : Store} (partialId : Bytes) :
    Attained (c, s) → Attained (after (expel partialId (c, s)))

theorem Attained.balanced (attained : Attained p) : p.1.Balanced := by
  induction attained with
  | opened reachable opened =>
    obtain ⟨_, consistent⟩ := Engine.consistent_of_reachable reachable
    exact (consistent.opened _ _ (Engine.compartment_eq_ok opened)).balanced
  | accept l content _ ih => exact ih.accept l content _
  | expel partialId _ ih => exact ih.expel partialId _

/-! ## What a refusal changes -/

/-- Nothing is lost: the members with their priorities and order, the memory and the counter of the
compartment are the same, and so are the store's live states, their counts and the buffers in
use. -/
structure Unchanged (p q : Compartment × Store) : Prop where
  members : q.1.members = p.1.members
  available : q.1.available = p.1.available
  admitted : q.1.admitted = p.1.admitted
  states : ∀ k, q.2.states.get? k = p.2.states.get? k
  buffers : q.2.tiers.map Tier.inUse = p.2.tiers.map Tier.inUse

theorem Unchanged.refl (p : Compartment × Store) : Unchanged p p :=
  ⟨rfl, rfl, rfl, fun _ => rfl, rfl⟩

/-- A state that is new to the compartment passes all of its checks and a buffer can be had, but
there is no room for it. -/
def Displaces (l : Label) (content : Content) (p : Compartment × Store) : Prop :=
  (∃ d s, Admissible l content p d s) ∧
    p.1.hasRoom (content.length + stateOverhead) = false

theorem GivesUp.length (gives : GivesUp ms p q) :
    p.1.members.length = ms.length + q.1.members.length := by
  rw [gives.perm.length_eq, List.length_append]

/-- If there was room the buffer alone was taken, and it has been given back. -/
theorem unchanged_of_room {d : Draft} {s₁ s' : Store}
    (admissible : Admissible l content (c, s) d s₁)
    (failed : Store.save d l content s₁ = .error r s') : Unchanged (c, s) (c, s') := by
  obtain ⟨_, reserved⟩ := Store.create_eq_ok admissible.reserved
  have given := Store.inUse_giveBack_of_reserve reserved
  obtain ⟨_, rfl⟩ := Store.reserve_eq_ok reserved
  rw [Store.save_eq_error failed]
  exact ⟨rfl, rfl, rfl, fun _ => rfl, given⟩

/-- A refused state leaves everything as it was, with one exception: members are given up for a
state that lacks room before the store is asked, and stay given up when the store then refuses
it. -/
theorem refused_unchanged_iff (attained : Attained p) (refused : accept l content p = .error r q) :
    (Unchanged p q ↔ ¬ Displaces l content p) ∧
    (Displaces l content p →
      (r = .badParam .zeroId ∨ r = .collision ∨ r = .outOfResources .stateStructs) ∧
        q.1.members.Sublist p.1.members ∧ q.1.members.length < p.1.members.length) := by
  obtain ⟨c, s⟩ := p
  have outcome := accept_admission attained.balanced l content s
  rw [refused] at outcome
  cases outcome with
  | refused _ inadmissible =>
    have nothing : ¬ Displaces l content (c, s) := by
      rintro ⟨⟨d, s', admissible⟩, _⟩
      exact inadmissible d s' admissible
    exact ⟨⟨fun _ => nothing, fun _ => .refl _⟩, fun displaces => absurd displaces nothing⟩
  | @unsaved d ms c' s₁ s₂ s' _ admissible gives needed failed =>
    have sized := (Store.create_eq_ok admissible.reserved).1
    by_cases room : c.hasRoom (content.length + stateOverhead) = true
    · have nobody := needed.2 room
      subst nobody
      cases gives
      have nothing : ¬ Displaces l content (c, s) := by
        rintro ⟨_, full⟩
        rw [room] at full
        cases full
      exact ⟨⟨fun _ => nothing, fun _ => unchanged_of_room admissible failed⟩,
        fun displaces => absurd displaces nothing⟩
    · have displaces : Displaces l content (c, s) :=
        ⟨⟨d, s₁, admissible⟩, by simpa using room⟩
      have some : 0 < ms.length := List.length_pos_iff.2 fun nobody => room (needed.1 nobody)
      have fewer : c'.members.length < c.members.length := by
        have total := gives.length
        simp only [] at total
        omega
      refine ⟨⟨fun unchanged => ?_, fun nothing => absurd displaces nothing⟩, fun _ => ?_⟩
      · rw [unchanged.members] at fewer
        exact absurd fewer (Nat.lt_irrefl _)
      · exact ⟨Store.reason_of_save sized failed, gives.sublist, fewer⟩

/-- Why an operation was refused, if it was. -/
def reason? : EStateM.Result Error (Compartment × Store) Saved → Option Error
  | .ok _ _ => none
  | .error r _ => some r

/-- A state whose identifier begins like that of the algorithm's bytecode is refused, and the only
member of the compartment has been given up for it. -/
theorem collision_gives_up_member :
    ∃ p q l content, Attained p ∧ accept l content p = .error .collision q ∧
      p.1.members.length = 1 ∧ q.1.members.length = 0 ∧ Displaces l content p ∧
      ¬ Unchanged p q := by
  let settings : Settings := { stateMemory := 72 }
  let first : Engine :=
    ⟨settings, {}, .ofSettings settings, { capacity := 10 }, .ofSettings settings, {}, {}⟩
  let d : Descriptor := { name := "a", code := [0] }
  let e : Engine := first.run
    [.addAlgorithm d ⟨fun _ context => (.ok [], context), fun _ context => context⟩, .create none]
  have reachable : e.Reachable := (Engine.Reachable.start (s := settings) rfl).run _
  let one : Label := ⟨⟨Vector.replicate 20 1⟩, 0, 0, 6, 0⟩
  let other : Label := ⟨⟨d.codeId.octets.set 19 (d.codeId.octets[19] + 1)⟩, 0, 0, 6, 0⟩
  let eight : Content := .ofBytes [1, 2, 3, 4, 5, 6, 7, 8]
  have course : (e.compartments.get? ⟨0, 0⟩).map (fun c =>
      let p := after (accept one eight (c, e.store))
      let result := accept other eight p
      (p.1.members.length, reason? result, (after result).1.members.length)) =
        some (1, some .collision, 0) := by
    decide +kernel
  obtain ⟨c, found, same⟩ := Option.map_eq_some_iff.1 course
  have opened : e.compartment ⟨0, 0⟩ = .ok c := by
    rw [Engine.compartment, found]
  have attained := (Attained.opened reachable opened).accept one eight
  rcases Prod.mk.inj same with ⟨member, outcome⟩
  rcases Prod.mk.inj outcome with ⟨reason, nobody⟩
  cases refused : accept other eight (after (accept one eight (c, e.store))) with
  | ok saved q =>
    rw [refused] at reason
    cases reason
  | error r q =>
    rw [refused] at reason nobody
    cases reason
    change q.1.members.length = 0 at nobody
    have lost : ¬ Unchanged (after (accept one eight (c, e.store))) q := by
      intro unchanged
      rw [unchanged.members, member] at nobody
      cases nobody
    have exception := (refused_unchanged_iff attained refused).1
    refine ⟨_, q, other, eight, attained, refused, member, nobody, ?_, lost⟩
    exact Classical.byContradiction fun none => lost (exception.2 none)

end Compartment

end SigComp
