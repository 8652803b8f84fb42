import SigComp.Proofs.EngineInvariants
import SigComp.Proofs.EvictionLine
import SigComp.Proofs.RefusedAdmission

/-!
# The order of admission

Whom a compartment gives up for a new member, and where the others are afterwards, however
the compartment has come about.

* `Compartment.Counted`: how many states a compartment has admitted since it last had none.
* `Compartment.Numbered`: as long as these are fewer than the counter can tell apart, the
  members are numbered in their order.
* `Compartment.ComesLast`: what becomes of a compartment that admits a state.
* `members_of_reprioritize`: a state that is saved again leaves its member in its place.
-/

namespace SigComp.Compartment

open Engine (Reachable Steps Step)

variable {c c' : Compartment} {s s' : Store} {m : Member} {ms : List Member} {l : Label}
  {content : Content} {saved : Saved} {p q : Compartment × Store} {n : Nat}

/-! ## Compartments as they come about -/

/-- A compartment of an engine, which may be half-way through an operation, and the engine's
store. -/
def IsOpen (c : Compartment) (s : Store) : Prop :=
  ∃ first e k, first.Reachable ∧ Steps (fun _ => True) first e ∧
    e.compartments.get? k = some c ∧ e.store = s

/-- What is no matter of the members may have changed, but not their cost or their counter. -/
structure SameRoll (c c' : Compartment) : Prop extends SameBooks c c' where
  admitted : c'.admitted = c.admitted

/-- The number of admissions that counts for a compartment with these members: if there are none it
starts anew. -/
def since (n : Nat) : List Member → Nat
  | [] => 0
  | _ :: _ => n

/-- A compartment and its store as they come about, and how many states the compartment has admitted
since it last had no members.  Labels may be any, also such as no program can ask for. -/
inductive Counted : Nat → Compartment × Store → Prop
  | opened {e : Engine} {a : Algorithm} {context : Option Context} {s : Store} :
    IsOpen (e.founding a context) s → Counted 0 (e.founding a context, s)
  | elsewhere {n : Nat} {c : Compartment} {s s' : Store} :
    Counted n (c, s) → IsOpen c s' → Counted n (c, s')
  | amended {n : Nat} {c c' : Compartment} {s : Store} :
    Counted n (c, s) → SameRoll c c' → Counted n (c', s)
  | admitted {n : Nat} {p q : Compartment × Store} {l : Label} {content : Content} {saved : Saved} :
    Counted n p → p.1.member? l.id = none → accept l content p = .ok saved q →
      Counted (since n q.1.members.dropLast + 1) q
  | refreshed {n : Nat} {p q : Compartment × Store} {l : Label} {content : Content} {m : Member}
      {saved : Saved} :
    Counted n p → p.1.member? l.id = some m → accept l content p = .ok saved q → Counted n q
  | refused {n : Nat} {p q : Compartment × Store} {l : Label} {content : Content} {r : Error} :
    Counted n p → accept l content p = .error r q → Counted (since n q.1.members) q
  | expelled {n : Nat} {p q : Compartment × Store} {partialId : Bytes} :
    Counted n p → expel partialId p = .ok () q → Counted (since n q.1.members) q

/-! ## Numbers of members -/

/-- The counter has counted to `n`, and unless it has run over, the members are numbered in their
order. -/
structure Numbered (n : Nat) (c : Compartment) : Prop where
  counter : c.admitted = UInt32.ofNat n
  nobody : c.members = [] → n = 0
  ascending : n < 1 <<< 32 → Ascending c.members
  counted : n < 1 <<< 32 → ∀ m ∈ c.members, m.order.toNat ≤ n

theorem since_of_sublist {ms ms' : List Member} (sub : ms'.Sublist ms) :
    since (since n ms) ms' = since n ms' := by
  cases ms' with
  | nil => rfl
  | cons m' ms' =>
    cases ms with
    | nil => cases sub
    | cons m ms => rfl

theorem Numbered.since_eq (numbered : Numbered n c) : since n c.members = n := by
  cases members : c.members with
  | nil => exact (numbered.nobody members).symm
  | cons m ms => rfl

theorem Numbered.congr (numbered : Numbered n c) (same : SameRoll c c') : Numbered n c' := by
  obtain ⟨counter, nobody, ascending, counted⟩ := numbered
  rw [← same.members] at nobody ascending counted
  exact ⟨same.admitted.trans counter, nobody, ascending, counted⟩

theorem admitted_without (c : Compartment) (m : Member) : (c.without m).admitted =
    if (c.without m).members.isEmpty then 0 else c.admitted :=
  rfl

theorem Numbered.without (numbered : Numbered n c) (m : Member) :
    Numbered (since n (c.without m).members) (c.without m) := by
  have sub : (c.without m).members.Sublist c.members := List.erase_sublist
  cases rest : (c.without m).members with
  | nil =>
    have anew : (c.without m).admitted = 0 := by
      rw [admitted_without, rest]
      rfl
    refine ⟨anew, fun _ => rfl, fun _ => ?_, fun _ m' among => ?_⟩
    · rw [rest]
      exact .nil
    · rw [rest] at among
      cases among
  | cons first others =>
    have goesOn : (c.without m).admitted = c.admitted := by
      rw [admitted_without, rest]
      rfl
    refine ⟨goesOn.trans numbered.counter, fun nobody => ?_, fun few => ?_, fun few m' among => ?_⟩
    · rw [rest] at nobody
      cases nobody
    · exact (numbered.ascending few).sublist sub
    · exact numbered.counted few m' (sub.subset among)

theorem GivesUp.numbered (gives : GivesUp ms p q) (numbered : Numbered n p.1) :
    Numbered (since n q.1.members) q.1 := by
  induction gives generalizing n with
  | nobody p =>
    rw [numbered.since_eq]
    exact numbered
  | @next m ms c s q weakest rest ih =>
    have later := ih (numbered.without m)
    rwa [since_of_sublist rest.sublist] at later

theorem Numbered.enroll (numbered : Numbered n c) (k : Key) (l : Label) (length : Nat) :
    Numbered (n + 1) (c.enroll k l length) := by
  have counter : c.admitted + 1 = UInt32.ofNat (n + 1) := by
    rw [numbered.counter, UInt32.ofNat_add]
    rfl
  have members : (c.enroll k l length).members =
      c.members ++ [⟨k, l.id, length, l.priority, UInt32.ofNat (n + 1)⟩] := by
    rw [← counter]
    rfl
  have last : n + 1 < 1 <<< 32 → (UInt32.ofNat (n + 1)).toNat = n + 1 := by
    intro few
    exact UInt32.toNat_ofNat_of_lt' few
  refine ⟨counter, fun nobody => ?_, fun few => ?_, fun few m among => ?_⟩
  · rw [members] at nobody
    exact absurd nobody (List.append_ne_nil_of_right_ne_nil _ (List.cons_ne_nil _ _))
  · rw [members]
    refine List.pairwise_append.2 ⟨numbered.ascending (Nat.lt_of_succ_lt few),
      List.pairwise_singleton _ _, fun a front b back => ?_⟩
    rw [List.mem_singleton.1 back, UInt32.lt_iff_toNat_lt, last few]
    exact Nat.lt_succ_of_le (numbered.counted (Nat.lt_of_succ_lt few) a front)
  · rw [members] at among
    rcases List.mem_append.1 among with before | new
    · exact Nat.le_succ_of_le (numbered.counted (Nat.lt_of_succ_lt few) m before)
    · rw [List.mem_singleton.1 new]
      exact Nat.le_of_eq (last few)

theorem Numbered.reprioritize (numbered : Numbered n c) (id : StateId) (priority : UInt16) :
    Numbered n (c.reprioritize id priority) := by
  obtain ⟨counter, nobody, ascending, counted⟩ := numbered
  have order : ∀ m : Member, (if m.id = id then { m with priority } else m).order = m.order := by
    intro m
    split <;> rfl
  refine ⟨counter, fun empty => nobody ?_, fun few => ?_, fun few m among => ?_⟩
  · rw [members_reprioritize] at empty
    exact List.map_eq_nil_iff.1 empty
  · refine List.pairwise_map.2 ((ascending few).imp fun less => ?_)
    rwa [order, order]
  · rw [members_reprioritize] at among
    obtain ⟨before, there, rfl⟩ := List.mem_map.1 among
    rw [order]
    exact counted few before there

/-! ## Members and their states -/

theorem nodup_members (backed : c.Backed s) : c.members.Nodup :=
  List.Pairwise.of_map Member.id (fun _ _ => mt (congrArg Member.id)) backed.distinct

/-- The state of a member that is given up is that of no other member. -/
theorem keeps_giveUp (backed : c.Backed s) (among : m ∈ c.members) :
    Store.Keeps (c.without m).keys s (s.release m.key true) := by
  obtain ⟨state, live, _⟩ := backed.live m among
  have distinct := (keys_perm_without among).nodup_iff.1 backed.nodup_keys
  intro k held
  refine (Store.loses_release live true).others k ?_
  rintro rfl
  exact (List.nodup_cons.1 distinct).1 held

theorem GivesUp.keeps (gives : GivesUp ms p q) (sound : p.2.Sound) (backed : p.1.Backed p.2) :
    q.2.Sound ∧ q.1.Backed q.2 ∧ Store.Keeps q.1.keys p.2 q.2 := by
  induction gives with
  | nobody p => exact ⟨sound, backed, .refl _ _⟩
  | @next m ms c s q weakest rest ih =>
    have among := mem_of_weakest? weakest
    obtain ⟨state, live, _⟩ := backed.live m among
    have first := keeps_giveUp backed among
    have sub : (c.without m).members.Sublist c.members := List.erase_sublist
    obtain ⟨after, still, others⟩ :=
      ih (Store.sound_release sound live) (backed.fewer sub first)
    have fewer : q.1.keys ⊆ (c.without m).keys := (rest.sublist.map Member.key).subset
    exact ⟨after, still, (first.mono fewer).trans others⟩

/-! ## One operation -/

/-- A compartment is in order with its store, and its members are numbered. -/
structure Orderly (n : Nat) (p : Compartment × Store) : Prop where
  numbered : Numbered n p.1
  balanced : p.1.Balanced
  sound : p.2.Sound
  backed : p.1.Backed p.2

theorem Orderly.of_states (orderly : Orderly n (c, s)) (states : s'.states = s.states)
    (index : s'.index = s.index) : Orderly n (c, s') := by
  obtain ⟨numbered, balanced, sound, backed⟩ := orderly
  exact ⟨numbered, balanced, sound.congr states index,
    backed.fewer (.refl _) (Store.keeps_congr _ states)⟩

theorem Orderly.congr (orderly : Orderly n (c, s)) (same : SameRoll c c') : Orderly n (c', s) := by
  obtain ⟨numbered, balanced, sound, backed⟩ := orderly
  have sub : c'.members.Sublist c.members := same.members ▸ List.Sublist.refl c'.members
  exact ⟨numbered.congr same, balanced.congr same.toSameBooks, sound, backed.fewer sub (.refl _ s)⟩

theorem Orderly.givesUp (orderly : Orderly n p) (gives : GivesUp ms p q) :
    Orderly (since n q.1.members) q := by
  obtain ⟨numbered, balanced, sound, backed⟩ := orderly
  obtain ⟨after, still, _⟩ := gives.keeps sound backed
  exact ⟨gives.numbered numbered, gives.balanced balanced, after, still⟩

/-- A buffer is no matter of the members. -/
theorem Orderly.reserved {d : Draft} (orderly : Orderly n (c, s))
    (admissible : Admissible l content (c, s) d s') : Orderly n (c, s') := by
  obtain ⟨_, reserved⟩ := Store.create_eq_ok admissible.reserved
  obtain ⟨_, taken⟩ := Store.reserve_eq_ok reserved
  exact orderly.of_states (by rw [taken]) (by rw [taken])

theorem dropLast_enroll (c : Compartment) (k : Key) (l : Label) (length : Nat) :
    (c.enroll k l length).members.dropLast = c.members :=
  List.dropLast_concat

theorem Orderly.admitted (orderly : Orderly n p) (unknown : p.1.member? l.id = none)
    (done : accept l content p = .ok saved q) :
    Orderly (since n q.1.members.dropLast + 1) q := by
  obtain ⟨c, s⟩ := p
  have outcome := accept_admission orderly.balanced l content s
  rw [done] at outcome
  cases outcome with
  | refreshed known _ _ =>
    rw [unknown] at known
    cases known
  | saved admissible gives room kept =>
    have made := (orderly.reserved admissible).givesUp gives
    have stranger := unknown_iff.2 fun m among =>
      unknown_iff.1 unknown m (gives.sublist.subset among)
    rw [dropLast_enroll]
    exact ⟨made.numbered.enroll _ _ _, made.balanced.enroll room _ _,
      (Store.save_eq_ok made.sound kept).1, made.backed.enroll made.sound stranger kept⟩

theorem Orderly.refused {r : Error} (orderly : Orderly n p)
    (failed : accept l content p = .error r q) :
    Orderly (since n q.1.members) q := by
  obtain ⟨c, s⟩ := p
  have outcome := accept_admission orderly.balanced l content s
  rw [failed] at outcome
  cases outcome with
  | refused _ _ =>
    rw [orderly.numbered.since_eq]
    exact orderly
  | unsaved admissible gives _ unsaved =>
    have made := (orderly.reserved admissible).givesUp gives
    rw [Store.save_eq_error unsaved]
    exact made.of_states rfl rfl

theorem Orderly.expelled {partialId : Bytes} (orderly : Orderly n p)
    (done : expel partialId p = .ok () q) : Orderly (since n q.1.members) q := by
  obtain ⟨c, s⟩ := p
  obtain ⟨numbered, balanced, sound, backed⟩ := orderly
  obtain ⟨m, among, rfl⟩ := expel_eq_ok done
  obtain ⟨state, live, _⟩ := backed.live m among
  exact ⟨numbered.without m, balanced.without among, Store.sound_release sound live,
    backed.fewer List.erase_sublist (keeps_giveUp backed among)⟩

/-- What is a member already gets its new priority and stays in its place. -/
theorem refreshed_of_accept (balanced : c.Balanced) (known : c.member? l.id = some m)
    (done : accept l content (c, s) = .ok saved q) :
    saved = .duplicate m.key ∧ q = (c.reprioritize l.id l.priority, s) := by
  have outcome := accept_admission balanced l content s
  rw [done] at outcome
  cases outcome with
  | @refreshed m' state known' _ _ =>
    cases known.symm.trans known'
    exact ⟨rfl, rfl⟩
  | saved admissible _ _ _ =>
    have unknown := admissible.unknown
    rw [known] at unknown
    cases unknown

theorem Orderly.refreshed (orderly : Orderly n p) (known : p.1.member? l.id = some m)
    (done : accept l content p = .ok saved q) : Orderly n q := by
  obtain ⟨c, s⟩ := p
  obtain ⟨_, rfl⟩ := refreshed_of_accept orderly.balanced known done
  obtain ⟨numbered, balanced, sound, backed⟩ := orderly
  exact ⟨numbered.reprioritize _ _, balanced.reprioritize _ _, sound, backed.reprioritize _ _⟩

/-! ## All compartments -/

theorem IsOpen.orderly (isOpen : IsOpen c s) (numbered : Numbered n c) : Orderly n (c, s) := by
  obtain ⟨first, e, k, reachable, steps, found, rfl⟩ := isOpen
  obtain ⟨pinned, consistent⟩ := Engine.consistent_of_reachable reachable
  have now := Engine.consistent_of_steps consistent steps
  have opened := now.opened k c found
  exact ⟨numbered, opened.balanced, now.referenced.sound, opened.backed⟩

theorem numbered_founding (e : Engine) (a : Algorithm) (context : Option Context) :
    Numbered 0 (e.founding a context) :=
  ⟨rfl, fun _ => rfl, fun _ => .nil, fun _ _ among => absurd among List.not_mem_nil⟩

theorem Counted.orderly (counted : Counted n p) : Orderly n p := by
  induction counted with
  | opened isOpen => exact isOpen.orderly (numbered_founding _ _ _)
  | elsewhere _ isOpen ih => exact isOpen.orderly ih.numbered
  | amended _ same ih => exact ih.congr same
  | admitted _ unknown done ih => exact ih.admitted unknown done
  | refreshed _ known done ih => exact ih.refreshed known done
  | refused _ failed ih => exact ih.refused failed
  | expelled _ done ih => exact ih.expelled done

theorem since_le (n : Nat) (ms : List Member) : since n ms ≤ n := by
  cases ms with
  | nil => exact Nat.zero_le n
  | cons m ms => exact Nat.le_refl n

theorem Counted.accept (counted : Counted n p) (l : Label) (content : Content) :
    ∃ n' ≤ n + 1, Counted n' (after (accept l content p)) := by
  cases done : Compartment.accept l content p with
  | error r q => exact ⟨_, Nat.le_succ_of_le (since_le n _), counted.refused done⟩
  | ok saved q =>
    cases known : p.1.member? l.id with
    | none => exact ⟨_, Nat.succ_le_succ (since_le n _), counted.admitted known done⟩
    | some m => exact ⟨n, Nat.le_succ n, counted.refreshed known done⟩

theorem sameRoll_learn (c : Compartment) (packed version : UInt8) :
    SameRoll c (c.learn packed version) := by
  refine ⟨sameBooks_learn c packed version, ?_⟩
  unfold learn
  simp only []
  split <;> rfl

theorem sameRoll_requestFeedback {keepStates sendIds : Bool} {item : Option Bytes}
    (taken : c.requestFeedback keepStates sendIds item = .ok c') : SameRoll c c' := by
  refine ⟨sameBooks_requestFeedback taken, ?_⟩
  unfold requestFeedback at taken
  simp only [] at taken
  split at taken
  · cases taken
  · cases taken
    rfl

theorem sameRoll_acceptFeedback (c : Compartment) (item : Option Bytes) :
    SameRoll c (c.acceptFeedback item).1 := by
  refine ⟨sameBooks_acceptFeedback c item, ?_⟩
  cases item with
  | none => rfl
  | some item =>
    simp only [acceptFeedback, returnFeedback]
    by_cases long : item.length > Header.maxFeedback
    · rw [if_pos long]
    · rw [if_neg long]

theorem sameRoll_amends (amends : c.Amends c') : SameRoll c c' := by
  refine ⟨Engine.sameBooks_amends amends, ?_⟩
  cases amends <;> rfl

/-! ## Who goes and who comes -/

/-- All that happens when a new state is admitted. -/
theorem admitted_of_accept (unknown : c.member? l.id = none)
    (done : accept l content (c, s) = .ok saved q) :
    ∃ d s₀ c₁ s₁ s₂, Admissible l content (c, s) d s₀ ∧
      makeRoom (content.length + stateOverhead) c s₀ = .ok () (c₁, s₁) ∧
      Store.save d l content s₁ = .ok saved s₂ ∧
      q = (c₁.enroll saved.key l content.length, s₂) := by
  simp only [accept, unknown, acceptNew] at done
  split at done
  · next access =>
    split at done
    · cases done
    · next small =>
      split at done
      · cases done
      · next d s₀ reserved =>
        split at done
        · cases done
        · next c₁ s₁ made =>
          split at done
          · cases done
          · next saved' s₂ kept =>
            cases done
            exact ⟨d, s₀, c₁, s₁, s₂, ⟨access, unknown, Nat.not_lt.1 small, reserved⟩, made, kept,
              rfl⟩
  · cases done

/-- What becomes of a compartment and its store when a state becomes a new member, after `n`
admissions. -/
structure ComesLast (n : Nat) (p : Compartment × Store) (l : Label) (content : Content)
    (saved : Saved) (q : Compartment × Store) : Prop where
  /-- Members are given up from the front of the line, by the shortest front that suffices.  The
  others stay in their order, and the new member comes behind them. -/
  members : ∃ k,
    let gone := (lineUp p.1.members).take k
    let stay := p.1.members.filter (· ∉ gone)
    p.1.Suffices (content.length + stateOverhead) gone ∧
    (∀ j < k, ¬ p.1.Suffices (content.length + stateOverhead) ((lineUp p.1.members).take j)) ∧
    q.1.members = stay ++
      [⟨saved.key, l.id, content.length, l.priority, UInt32.ofNat (since n stay + 1)⟩]
  /-- Those who stay have their states. -/
  stay : ∀ m ∈ q.1.members, m ∈ p.1.members → ∃ state, p.2.state? m.key = some state ∧
    q.2.state? m.key = some state ∧ state.id = m.id ∧ state.data.length = m.length
  /-- The new member has the state that was to be admitted. -/
  comes : ∃ state, q.2.state? saved.key = some state ∧ state.id = l.id ∧ state.data = content.bytes

theorem Orderly.comesLast (orderly : Orderly n p) (few : n < 1 <<< 32)
    (unknown : p.1.member? l.id = none) (done : accept l content p = .ok saved q) :
    ComesLast n p l content saved q := by
  obtain ⟨c, s⟩ := p
  obtain ⟨d, s₀, c₁, s₁, s₂, admissible, made, kept, rfl⟩ := admitted_of_accept unknown done
  have reserved := orderly.reserved admissible
  obtain ⟨k, gives, enough, needed⟩ :=
    makeRoom_gives_up_front (reserved.numbered.ascending few) made
  have after := reserved.givesUp gives
  obtain ⟨_, _, keeps⟩ := gives.keeps reserved.sound reserved.backed
  obtain ⟨_, state, gains, named, bytes, _⟩ := Store.save_eq_ok after.sound kept
  have stays : c₁.members = c.members.filter (· ∉ (lineUp c.members).take k) :=
    gives.members_eq (nodup_members orderly.backed)
  refine ⟨⟨k, enough, needed, ?_⟩, fun m among before => ?_, state, gains.state, named, bytes⟩
  · have number : c₁.admitted + 1 = UInt32.ofNat (since n c₁.members + 1) := by
      rw [after.numbered.counter, UInt32.ofNat_add]
      rfl
    rw [← stays, ← number]
    rfl
  · obtain ⟨held, live, rest⟩ := orderly.backed.live m before
    have stayed : m ∈ c₁.members := by
      rcases List.mem_append.1 among with there | new
      · exact there
      · rw [List.mem_singleton.1 new] at before
        exact absurd rfl (unknown_iff.1 unknown _ before)
    have same : s₀.state? m.key = s.state? m.key := by
      obtain ⟨_, reserved⟩ := Store.create_eq_ok admissible.reserved
      obtain ⟨_, taken⟩ := Store.reserve_eq_ok reserved
      exact Store.state?_congr (by rw [taken])
    have later := (keeps m.key (List.mem_map_of_mem stayed)).trans (same.trans live)
    exact ⟨held, live, gains.stays later, rest⟩

/-- Only the member of the identifier gets another priority, and it stays where it is. -/
theorem members_of_reprioritize (backed : c.Backed s) {id : StateId}
    (known : c.member? id = some m) (priority : UInt16) :
    ∃ before behind, c.members = before ++ m :: behind ∧
      (c.reprioritize id priority).members = before ++ { m with priority } :: behind := by
  have named : m.id = id := by simpa using List.find?_some known
  obtain ⟨before, behind, whole⟩ := List.append_of_mem (List.mem_of_find?_eq_some known)
  have distinct := backed.distinct
  rw [whole, List.map_append, List.map_cons] at distinct
  obtain ⟨_, later, apart⟩ := List.nodup_append.1 distinct
  have others : ∀ ms : List Member, (∀ m' ∈ ms, m'.id ≠ id) →
      (ms.map fun m' => if m'.id = id then { m' with priority } else m') = ms := by
    intro ms strange
    refine (List.map_congr_left fun m' among => if_neg (strange m' among)).trans ?_
    exact List.map_id ms
  refine ⟨before, behind, whole, ?_⟩
  rw [members_reprioritize, whole, List.map_append, List.map_cons, if_pos named, others, others]
  · intro m' among same
    apply (List.nodup_cons.1 later).1
    rw [named, ← same]
    exact List.mem_map_of_mem among
  · intro m' among same
    refine apart _ (List.mem_map_of_mem among) m.id List.mem_cons_self ?_
    rw [same, named]

end SigComp.Compartment
