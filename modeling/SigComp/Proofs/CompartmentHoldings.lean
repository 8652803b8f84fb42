import SigComp.Proofs.CommitmentLabels
import SigComp.Proofs.CompartmentBooks

/-!
# What a compartment holds

Every member of a compartment is a reference to a live state, and nothing that is done
for one compartment takes a state from another.

* `Compartment.Kept pinned others`: the compartment is balanced, its members are backed
  by the store, and they and `others` are all the references that can be given up.
* `Compartment.Carries`: what each operation of a compartment makes of that, and that the
  states of `pinned` and `others` stay what they are.
* `GivesUp.carries`, `carries_accept`, `carries_expel`, `carries_settle`: the operations,
  from a single member given up to a whole machine settled.
* `referenced_releaseAll`: what remains when the compartment ends.
-/

namespace SigComp

namespace Compartment

open Store (Keeps Referenced Gains)

variable {c c' : Compartment} {s s' : Store} {m : Member} {ms : List Member}
  {l : Label} {content : Content} {p q t : Compartment × Store} {pinned others : List Key}

/-! ## Members and their states -/

/-- The members have different identifiers, and each stands for a live state that has the member's
identifier and length. -/
structure Backed (c : Compartment) (s : Store) : Prop where
  distinct : (c.members.map Member.id).Nodup
  live : ∀ m ∈ c.members,
    ∃ state, s.state? m.key = some state ∧ state.id = m.id ∧ state.data.length = m.length

/-- A state has one identifier, so members with different identifiers stand for different states. -/
theorem Backed.nodup_keys (backed : c.Backed s) : c.keys.Nodup := by
  have named : c.keys.map (fun k => (s.state? k).map (·.id)) =
      (c.members.map Member.id).map some := by
    rw [keys, List.map_map, List.map_map]
    apply List.map_congr_left
    intro m among
    rcases backed.live m among with ⟨state, live, named, _⟩
    simp [live, named]
  have distinct : (c.keys.map fun k => (s.state? k).map (·.id)).Nodup := by
    rw [named]
    exact List.Pairwise.map some (fun _ _ => mt Option.some.inj) backed.distinct
  have apart (k k' : Key) (other : (s.state? k).map (·.id) ≠ (s.state? k').map (·.id)) :
      k ≠ k' := by
    rintro rfl
    exact other rfl
  exact List.Pairwise.of_map _ apart distinct

/-- Some of the members are backed if their states have stayed. -/
theorem Backed.fewer (backed : c.Backed s) (sub : c'.members.Sublist c.members)
    (keeps : Keeps c'.keys s s') : c'.Backed s' := by
  refine ⟨backed.distinct.sublist (sub.map _), fun m among => ?_⟩
  rcases backed.live m (sub.subset among) with ⟨state, live, named, length⟩
  have stays := keeps m.key (List.mem_map_of_mem among)
  exact ⟨state, stays.trans live, named, length⟩

theorem others_subset (mine : List Key) : pinned ++ others ⊆ pinned ++ (mine ++ others) :=
  ((List.sublist_append_right mine others).append_left pinned).subset

/-- A compartment is balanced and backed, and its members and `others` are all the references to
states that can be given up. -/
structure Kept (pinned others : List Key) (p : Compartment × Store) : Prop where
  balanced : p.1.Balanced
  backed : p.1.Backed p.2
  referenced : p.2.Referenced pinned (p.1.keys ++ others)

/-- The compartment and the store are in order afterwards, and the states that others hold stay what
they are. -/
structure Carries (pinned others : List Key) (p q : Compartment × Store) : Prop where
  kept : Kept pinned others q
  keeps : Keeps (pinned ++ others) p.2 q.2
  own : q.1.own = p.1.own
  maxStates : q.1.maxStates = p.1.maxStates

theorem Carries.refl (kept : Kept pinned others p) : Carries pinned others p p :=
  ⟨kept, .refl _ _, rfl, rfl⟩

theorem Carries.trans (first : Carries pinned others p q) (second : Carries pinned others q t) :
    Carries pinned others p t :=
  ⟨second.kept, first.keeps.trans second.keeps, second.own.trans first.own,
    second.maxStates.trans first.maxStates⟩

/-- What is no matter of the members may change. -/
theorem carries_of_sameBooks (kept : Kept pinned others (c, s)) (same : SameBooks c c') :
    Carries pinned others (c, s) (c', s) := by
  obtain ⟨balanced, backed, referenced⟩ := kept
  have keys : c'.keys = c.keys := congrArg (List.map Member.key) same.members
  refine ⟨⟨balanced.congr same, ?_, ?_⟩, .refl _ _, same.own, same.maxStates⟩
  · have sub : c'.members.Sublist c.members := same.members ▸ List.Sublist.refl c'.members
    exact backed.fewer sub (.refl _ s)
  · change s.Referenced pinned (c'.keys ++ others)
    rw [keys]
    exact referenced

/-- What is no matter of the states may change. -/
theorem carries_of_states (kept : Kept pinned others (c, s)) (states : s'.states = s.states)
    (index : s'.index = s.index) : Carries pinned others (c, s) (c, s') := by
  obtain ⟨balanced, backed, referenced⟩ := kept
  refine ⟨⟨balanced, ?_, referenced.congr states index⟩, Store.keeps_congr _ states, rfl, rfl⟩
  exact backed.fewer (.refl _) (Store.keeps_congr _ states)

/-! ## Giving up members -/

theorem carries_giveUp (kept : Kept pinned others (c, s)) (among : m ∈ c.members) :
    Carries pinned others (c, s) (c.without m, s.release m.key true) := by
  obtain ⟨balanced, backed, referenced⟩ := kept
  have one : (c.keys ++ others).Perm (m.key :: ((c.without m).keys ++ others)) :=
    (keys_perm_without among).append_right others
  rcases (referenced.perm one).release with ⟨released, keeps⟩
  refine ⟨⟨balanced.without among, ?_, released⟩, ?_, rfl, rfl⟩
  · apply backed.fewer List.erase_sublist
    apply keeps.mono
    exact fun k held => List.mem_append_right _ (List.mem_append_left _ held)
  · exact keeps.mono (others_subset _)

theorem GivesUp.carries (gives : GivesUp ms p q) (kept : Kept pinned others p) :
    Carries pinned others p q := by
  induction gives with
  | nobody p => exact .refl kept
  | next weakest _ ih =>
    have first := carries_giveUp kept (mem_of_weakest? weakest)
    exact first.trans (ih first.kept)

theorem carries_expel (kept : Kept pinned others (c, s)) (partialId : Bytes) :
    Carries pinned others (c, s) (after (expel partialId (c, s))) := by
  cases done : expel partialId (c, s) with
  | ok _ p =>
    rcases expel_eq_ok done with ⟨m, among, rfl⟩
    exact carries_giveUp kept among
  | error r p =>
    rw [expel_eq_error done]
    exact .refl kept

/-! ## Admission -/

theorem unknown_iff {id : StateId} : c.member? id = none ↔ ∀ m ∈ c.members, m.id ≠ id := by
  simp [member?]

/-- A state that has just been saved backs the member that it becomes. -/
theorem Backed.enroll {d : Draft} {saved : Saved} (backed : c.Backed s) (sound : s.Sound)
    (unknown : c.member? l.id = none) (done : Store.save d l content s = .ok saved s') :
    (c.enroll saved.key l content.length).Backed s' := by
  obtain ⟨_, state, gains, named, bytes, _⟩ := Store.save_eq_ok sound done
  refine ⟨?_, fun m among => ?_⟩
  · simp only [Compartment.enroll, List.map_append, List.map_cons, List.map_nil]
    refine List.nodup_append.2 ⟨backed.distinct, List.pairwise_singleton _ _, ?_⟩
    simpa using unknown_iff.1 unknown
  · simp only [Compartment.enroll, List.mem_append, List.mem_singleton] at among
    rcases among with before | rfl
    · obtain ⟨other, live, rest⟩ := backed.live m before
      exact ⟨other, gains.stays live, rest⟩
    · exact ⟨state, gains.state, named, by rw [bytes, Content.length_bytes]⟩

/-- A state that has just been saved becomes a member. -/
theorem carries_enroll {d : Draft} {saved : Saved} (kept : Kept pinned others (c, s))
    (unknown : c.member? l.id = none)
    (room : c.hasRoom (content.length + stateOverhead) = true)
    (done : Store.save d l content s = .ok saved s') (ordinary : l.priority ≠ permanentPriority) :
    Carries pinned others (c, s) (c.enroll saved.key l content.length, s') := by
  obtain ⟨balanced, backed, referenced⟩ := kept
  rcases Store.save_eq_ok referenced.sound done with ⟨sound, state, gains, _, _, whole⟩
  have keeps := referenced.keeps_of_gains gains
  have further : s'.Referenced pinned (saved.key :: (c.keys ++ others)) := by
    apply referenced.gain sound gains
    intro vacant
    rw [whole vacant]
    exact ordinary
  have keys : (c.enroll saved.key l content.length).keys = c.keys ++ [saved.key] := by
    simp [Compartment.keys, enroll]
  refine ⟨⟨balanced.enroll room saved.key l, backed.enroll referenced.sound unknown done, ?_⟩, ?_,
    rfl, rfl⟩
  · apply further.perm
    change (saved.key :: (c.keys ++ others)).Perm
      ((c.enroll saved.key l content.length).keys ++ others)
    rw [keys, List.append_assoc, List.singleton_append]
    exact List.perm_middle.symm
  · exact keeps.mono (others_subset _)

section Priority

variable (id : StateId) (priority : UInt16)

theorem kept_reprioritize (m : Member) :
    (if m.id = id then { m with priority } else m).id = m.id ∧
      (if m.id = id then { m with priority } else m).key = m.key ∧
      (if m.id = id then { m with priority } else m).length = m.length := by
  split <;> exact ⟨rfl, rfl, rfl⟩

theorem keys_reprioritize (c : Compartment) : (c.reprioritize id priority).keys = c.keys := by
  rw [Compartment.keys, members_reprioritize, List.map_map]
  exact List.map_congr_left fun m _ => (kept_reprioritize id priority m).2.1

theorem Backed.reprioritize (backed : c.Backed s) : (c.reprioritize id priority).Backed s := by
  refine ⟨?_, fun m among => ?_⟩
  · have ids : (c.reprioritize id priority).members.map Member.id = c.members.map Member.id := by
      rw [members_reprioritize, List.map_map]
      exact List.map_congr_left fun m _ => (kept_reprioritize id priority m).1
    rw [ids]
    exact backed.distinct
  · rw [members_reprioritize] at among
    obtain ⟨before, there, rfl⟩ := List.mem_map.1 among
    obtain ⟨named, key, length⟩ := kept_reprioritize id priority before
    rw [named, key, length]
    exact backed.live before there

theorem carries_reprioritize (kept : Kept pinned others (c, s)) :
    Carries pinned others (c, s) (c.reprioritize id priority, s) := by
  obtain ⟨balanced, backed, referenced⟩ := kept
  refine ⟨⟨balanced.reprioritize id priority, backed.reprioritize id priority, ?_⟩, .refl _ _,
    rfl, rfl⟩
  change s.Referenced pinned ((c.reprioritize id priority).keys ++ others)
  rw [keys_reprioritize]
  exact referenced

end Priority

/-- Room is made for a state after its buffer has been reserved. -/
theorem Admissible.carries {d : Draft} {s₁ : Store} (admissible : Admissible l content (c, s) d s₁)
    (kept : Kept pinned others (c, s)) (gives : GivesUp ms (c, s₁) q) :
    Carries pinned others (c, s) q := by
  rcases Store.create_eq_ok admissible.reserved with ⟨_, reserved⟩
  rcases Store.reserve_eq_ok reserved with ⟨_, taken⟩
  have reserved : Carries pinned others (c, s) (c, s₁) :=
    carries_of_states kept (by rw [taken]) (by rw [taken])
  exact reserved.trans (gives.carries reserved.kept)

theorem carries_accept (kept : Kept pinned others (c, s)) (l : Label) (content : Content)
    (ordinary : l.priority ≠ permanentPriority) :
    Carries pinned others (c, s) (after (accept l content (c, s))) := by
  have outcome := accept_admission kept.balanced l content s
  generalize accept l content (c, s) = result at outcome
  cases outcome with
  | refused r _ => exact .refl kept
  | refreshed _ _ _ => exact carries_reprioritize l.id l.priority kept
  | saved admissible gives room done =>
    have made := admissible.carries kept gives
    refine made.trans (carries_enroll made.kept ?_ room done ordinary)
    rw [unknown_iff]
    intro m among
    exact unknown_iff.1 admissible.unknown m (gives.sublist.subset among)
  | unsaved admissible gives _ failed =>
    have made := admissible.carries kept gives
    rw [Store.save_eq_error failed]
    exact made.trans (carries_of_states made.kept rfl rfl)

/-! ## What is no matter of the members -/

theorem sameBooks_learn (c : Compartment) (packed version : UInt8) :
    SameBooks c (c.learn packed version) := by
  unfold learn
  simp only []
  split <;> exact ⟨rfl, rfl, rfl, rfl⟩

theorem sameBooks_requestFeedback {keepStates sendIds : Bool} {item : Option Bytes}
    (h : c.requestFeedback keepStates sendIds item = .ok c') : SameBooks c c' := by
  unfold requestFeedback at h
  simp only [] at h
  split at h
  · cases h
  · cases h
    exact ⟨rfl, rfl, rfl, rfl⟩

theorem sameBooks_acceptFeedback (c : Compartment) (item : Option Bytes) :
    SameBooks c (c.acceptFeedback item).1 := by
  cases item with
  | none => exact ⟨rfl, rfl, rfl, rfl⟩
  | some item =>
    simp only [acceptFeedback, returnFeedback]
    split
    · next taken =>
      split at taken
      · cases taken
      · cases taken
        exact ⟨rfl, rfl, rfl, rfl⟩
    · exact ⟨rfl, rfl, rfl, rfl⟩

/-! ## Settlement -/

theorem carries_carryOut (kept : Kept pinned others (c, s)) {todo : Commitment}
    (ordinary : todo.Ordinary) : Carries pinned others (c, s) (c.carryOut s todo).1 := by
  cases todo with
  | capabilities packed version =>
    exact carries_of_sameBooks kept (sameBooks_learn c packed version)
  | remoteIds ids => exact carries_of_sameBooks kept ⟨rfl, rfl, rfl, rfl⟩
  | feedback keepStates sendIds item =>
    simp only [carryOut]
    split
    · next taken => exact carries_of_sameBooks kept (sameBooks_requestFeedback taken)
    · exact .refl kept
  | save l content =>
    rw [carryOut_save]
    exact carries_accept kept l content ordinary
  | skipSave reason address length => exact .refl kept
  | free partialId =>
    rw [carryOut_free]
    exact carries_expel kept partialId
  | skipFree reason => exact .refl kept

theorem carries_carryOutAll {todo : List Commitment} (kept : Kept pinned others (c, s))
    (ordinary : ∀ one ∈ todo, one.Ordinary) :
    Carries pinned others (c, s) (c.carryOutAll s todo).1 := by
  induction todo generalizing c s with
  | nil => exact .refl kept
  | cons one rest ih =>
    have first := carries_carryOut kept (ordinary one List.mem_cons_self)
    have others := ih first.kept fun other among => ordinary other (List.mem_cons_of_mem one among)
    exact first.trans others

/-- A machine is settled with a compartment, whatever it leaves to be done. -/
theorem carries_settle {m : Machine} (kept : Kept pinned others (c, s)) (lawful : m.requests.Lawful)
    (now : Nat) (feedback : Option Bytes) :
    Carries pinned others (c, s) (c.settle s now m feedback).1 := by
  have ordinary := m.ordinary_commitments lawful c.own.stateMemory remoteIdsCapacity
  have counted : Carries pinned others (c, s) (c.received now, s) :=
    carries_of_sameBooks kept ⟨rfl, rfl, rfl, rfl⟩
  have done := counted.trans (carries_carryOutAll counted.kept ordinary)
  exact done.trans (carries_of_sameBooks done.kept (sameBooks_acceptFeedback _ feedback))

/-! ## The end of a compartment -/

theorem referenced_releaseAll (c : Compartment) (refs : s.Referenced pinned (c.keys ++ others)) :
    (c.releaseAll s).Referenced pinned others ∧ Keeps (pinned ++ others) s (c.releaseAll s) := by
  have each : ∀ (ms : List Member) (s : Store),
      s.Referenced pinned (ms.map Member.key ++ others) →
        (ms.foldl (fun s m => s.release m.key true) s).Referenced pinned others ∧
          Keeps (pinned ++ others) s (ms.foldl (fun s m => s.release m.key true) s) := by
    intro ms
    induction ms with
    | nil => exact fun s refs => ⟨refs, .refl _ s⟩
    | cons m ms ih =>
      intro s refs
      obtain ⟨released, keeps⟩ := refs.release
      rcases ih _ released with ⟨rest, others⟩
      exact ⟨rest, (keeps.mono (others_subset _)).trans others⟩
  exact each c.members s refs

end Compartment

end SigComp
