import SigComp.Proofs.HonestStates
import SigComp.Proofs.ReferenceCounts
import SigComp.Proofs.StoreLookup

/-!
# Registered states

What has been registered stays usable for the life of an engine.

* `Engine.Shelved pinned`: a pinned state has an identifier and bytes.  It is pinned that
  keeps it, so it makes no difference whose state it was first.
* `Engine.Stocked pinned`: a consistent engine whose states are honest and whose
  algorithms all have their bytecode shelved; `stocks_perform` and `stocked_run`.
* `StateId.preimage`: what is hashed, and `CollisionFree`: no two of some byte strings
  have the same digest.  Only the access length of a dictionary rests on this: a peer
  may have had the same text saved under a label of its own.
* `registrations_stay_usable`: every registration of a history can be looked up at its
  end, and every dictionary by the prefix that is announced for it.
-/

namespace SigComp

/-! ## Digests -/

/-- The bytes whose digest names a state. -/
def StateId.preimage (data : Bytes) (address instruction access : UInt16) : Bytes :=
  Bytes.ofWord (UInt16.ofNat data.length) ++ Bytes.ofWord address ++ Bytes.ofWord instruction ++
    Bytes.ofWord access ++ data

theorem StateId.ofData_eq (data : Bytes) (address instruction access : UInt16) :
    ofData data address instruction access =
      ⟨Sha1.digest (preimage data address instruction access)⟩ := by
  simp only [ofData, ofPieces, preimage, List.flatten_cons, List.flatten_nil, List.append_nil]

/-- The access length can be read off what is hashed. -/
theorem StateId.access_of_preimage {data data' : Bytes}
    {address address' instruction instruction' access access' : UInt16}
    (same : preimage data address instruction access =
      preimage data' address' instruction' access') : access = access' := by
  simp only [preimage, Bytes.ofWord, List.cons_append, List.nil_append, List.cons.injEq] at same
  obtain ⟨_, _, _, _, _, _, high, low, _⟩ := same
  rw [← word_ofWord access, ← word_ofWord access', high, low]

/-- What is hashed for a state. -/
def State.preimage (state : State) : Bytes :=
  StateId.preimage state.data state.address state.instruction state.access

/-- No two different ones of the byte strings have the same digest. -/
def CollisionFree (texts : List Bytes) : Prop :=
  ∀ x ∈ texts, ∀ y ∈ texts, Sha1.digest x = Sha1.digest y → x = y

instance (texts : List Bytes) : Decidable (CollisionFree texts) :=
  inferInstanceAs (Decidable (∀ x ∈ texts, ∀ y ∈ texts, Sha1.digest x = Sha1.digest y → x = y))

/-! ## What is registered -/

/-- The bytes that a registration stands for: those that are given, unless the algorithm of that
name is known already. -/
def Operation.content (e : Engine) : Operation → Bytes
  | addAlgorithm d _ => ((e.catalogue.find? d.name).map (·.descriptor.code)).getD d.code
  | addDictionary data _ => data
  | _ => []

/-- The text of a dictionary that an operation adds, and the access length that is asked for, if the
operation is not refused. -/
def Operation.added? (o : Operation) (e : Engine) : Option (Bytes × UInt16) :=
  match o, o.perform e with
  | addDictionary data access, .ok .. => some (data, access)
  | _, _ => none

namespace Engine

open Store (Keeps)

variable {settings : Settings} {e e' : Engine} {pinned more : List Key} {id : StateId}
  {data : Bytes} {s s' : Store}

/-- The dictionaries that operations add as they are done one after the other. -/
def added (e : Engine) : List Operation → List (Bytes × UInt16)
  | [] => []
  | o :: rest => (o.added? e).toList ++ (after (o.perform e)).added rest

/-- The dictionaries that have been added, as they stand in the catalogue. -/
def addedDictionaries (e : Engine) (operations : List Operation) : List Dictionary :=
  (e.added operations).map fun entry => .ofData entry.1 entry.2

/-- What has been hashed for the states that there are after operations, and for the dictionaries
that these have added. -/
def hashed (e : Engine) (operations : List Operation) : List Bytes :=
  (e.run operations).store.states.toList.map (fun entry => entry.2.state.preimage) ++
    (e.added operations).map fun entry =>
      StateId.preimage entry.1 0 0 (Dictionary.clampAccess entry.2)

/-! ## Shelves -/

/-- A pinned state has the identifier and the bytes. -/
def Shelved (pinned : List Key) (s : Store) (id : StateId) (data : Bytes) : Prop :=
  ∃ key ∈ pinned, ∃ state, s.state? key = some state ∧ state.id = id ∧ state.data = data

theorem Shelved.keep (shelved : Shelved pinned s id data) (keeps : Keeps pinned s s')
    (more : List Key) : Shelved (pinned ++ more) s' id data := by
  obtain ⟨key, among, state, live, rest⟩ := shelved
  exact ⟨key, List.mem_append_left more among, state, (keeps key among).trans live, rest⟩

/-- A consistent engine with honest states, in which the bytecode of each algorithm is shelved. -/
structure Stocked (pinned : List Key) (e : Engine) : Prop where
  consistent : Consistent pinned e
  honest : e.store.Honest
  algorithms : ∀ a ∈ e.catalogue.algorithms,
    Shelved pinned e.store a.descriptor.codeId a.descriptor.code

/-- A new engine holds no states and has neither algorithms nor dictionaries. -/
theorem empty_of_start (started : start settings = .ok e) :
    e.memberships = [] ∧ e.catalogue = {} := by
  obtain rfl := start_eq_ok started
  exact ⟨rfl, rfl⟩

theorem stocked_of_start (started : start settings = .ok e) : Stocked [] e := by
  have consistent := consistent_of_start started
  obtain ⟨nobody, nothing⟩ := empty_of_start started
  refine ⟨consistent, fun k state live => ?_, fun a among => ?_⟩
  · have held := consistent.referenced.mem_of_live k state live
    rw [nobody] at held
    cases held
  · rw [nothing] at among
    cases among

/-- An operation that leads from one engine to another leaves it stocked, keeps what is pinned, and
shelves what it registers. -/
structure Stocks (pinned : List Key) (e : Engine) (o : Operation) (e' : Engine) : Prop where
  stocked : Stocked (pinned ++ (o.registered? e).toList) e'
  keeps : Keeps pinned e.store e'.store
  shelved : ∀ id e'', o.perform e = .ok (.registered id) e'' →
    Shelved (pinned ++ (o.registered? e).toList) e'.store id (o.content e)
  dictionaries : e'.catalogue.dictionaries =
    e.catalogue.dictionaries ++ (o.added? e).toList.map fun entry => .ofData entry.1 entry.2
  texts : ∀ entry, o.added? e = some entry →
    Shelved (pinned ++ (o.registered? e).toList) e'.store
      (Dictionary.ofData entry.1 entry.2).id entry.1

theorem stocks_ordinary (stocked : Stocked pinned e) {o : Operation}
    (ordinary : o.registers = false) :
    Stocks pinned e o (after (o.perform e)) := by
  obtain ⟨consistent, honest, algorithms⟩ := stocked
  have spares := spares_perform consistent ordinary
  have keeps : Keeps pinned e.store (after (o.perform e)).store :=
    fun key among => spares.keeps key (.inl among)
  have nothing : o.added? e = none := by
    cases o with
    | addDictionary data access => cases ordinary
    | _ => rfl
  refine ⟨⟨consistent_perform consistent o, honest_perform consistent honest ordinary, ?_⟩, keeps,
    fun id e' performed => ?_, ?_, fun entry added => ?_⟩
  · intro a among
    rw [spares.catalogue] at among
    exact (algorithms a among).keep keeps _
  · have answered := answered_ordinarily (e := e) ordinary
    rw [performed] at answered
    exact absurd rfl (answered id)
  · rw [spares.catalogue, nothing, Option.toList_none, List.map_nil, List.append_nil]
  · rw [nothing] at added
    cases added

theorem honest_codeLabel (d : Descriptor) :
    State.Honest { d.codeLabel with priority := permanentPriority, data := d.code } :=
  ⟨rfl, rfl⟩

theorem clampAccess_bounds (access : UInt16) :
    6 ≤ (Dictionary.clampAccess access).toNat ∧ (Dictionary.clampAccess access).toNat ≤ 20 := by
  have nearest : Dictionary.clampAccess access =
      if (if access ≤ 6 then 6 else access) ≤ 20 then (if access ≤ 6 then 6 else access) else 20 :=
      rfl
  rw [nearest]
  by_cases short : access ≤ 6
  · simp [short]
  · rw [if_neg short]
    by_cases long : access ≤ 20
    · rw [if_pos long]
      rw [UInt16.le_iff_toNat_le] at short long
      exact ⟨Nat.le_of_lt (Nat.lt_of_not_le short), long⟩
    · rw [if_neg long]
      decide

theorem honest_label (data : Bytes) (access : UInt16) :
    State.Honest
      { (Dictionary.ofData data access).label with priority := permanentPriority, data } :=
  ⟨rfl, Store.isPartialLength_iff.2 (clampAccess_bounds access)⟩

theorem Pins.shelved {l : Label} {key : Key} (pins : Pins pinned e l data key s) :
    Shelved (pinned ++ [key]) s l.id data := by
  obtain ⟨state, live, named, bytes⟩ := pins.state
  exact ⟨key, List.mem_append_right pinned List.mem_cons_self, state, live, named, bytes⟩

/-- A registration that is refused, or of something known, changes nothing. -/
theorem stocks_unchanged (stocked : Stocked pinned e) {o : Operation}
    (nothing : o.registered? e = none) (unadded : o.added? e = none)
    (shelved : ∀ id e'', o.perform e = .ok (.registered id) e'' →
      Shelved pinned e.store id (o.content e)) : Stocks pinned e o e := by
  refine ⟨?_, .refl _ _, ?_, ?_, fun entry added => ?_⟩
  · rw [nothing, Option.toList_none, List.append_nil]
    exact stocked
  · rw [nothing, Option.toList_none, List.append_nil]
    exact shelved
  · rw [unadded, Option.toList_none, List.map_nil, List.append_nil]
  · rw [unadded] at added
    cases added

theorem stocks_perform (stocked : Stocked pinned e) (o : Operation) :
    Stocks pinned e o (after (o.perform e)) := by
  cases ordinary : o.registers with
  | false => exact stocks_ordinary stocked ordinary
  | true =>
    obtain ⟨consistent, honest, algorithms⟩ := id stocked
    have sound := consistent.referenced.sound
    have still := consistent_perform consistent o
    have outcome := registration_perform ordinary e
    generalize performed : o.perform e = result at outcome still
    cases outcome with
    | refused o r =>
      have unadded : o.added? e = none := by
        simp only [Operation.added?, performed]
      refine stocks_unchanged stocked (registered?_of_refused performed) unadded ?_
      intro id e'' answered
      rw [performed] at answered
      cases answered
    | @known d compressor a found =>
      refine stocks_unchanged stocked (registered?_of_known performed rfl) rfl ?_
      intro id e'' answered
      rw [performed] at answered
      cases answered
      simp only [Operation.content, found, Option.map_some, Option.getD_some]
      exact algorithms a (List.mem_of_find?_eq_some found)
    | @algorithm d compressor saved s unknown done =>
      have pins := consistent.pin done
      have registered :=
        registered?_of_new performed (entries_algorithmAdded e d compressor s) pins.found
      rw [registered] at still
      refine ⟨?_, pins.keeps, ?_, (List.append_nil _).symm, fun entry added => nomatch added⟩
      · rw [registered]
        refine ⟨still, honest.savePermanent sound done (honest_codeLabel d), fun a among => ?_⟩
        rcases List.mem_append.1 among with before | last
        · exact (algorithms a before).keep pins.keeps _
        · cases List.mem_singleton.1 last
          exact pins.shelved
      · intro id e'' answered
        rw [performed] at answered
        cases answered
        rw [registered]
        simp only [Operation.content, unknown, Option.map_none, Option.getD_none]
        exact pins.shelved
    | @dictionary data access saved s done =>
      have pins := consistent.pin done
      have registered := registered?_of_new performed (entries_dictionaryAdded e _ s) pins.found
      have added : Operation.added? (.addDictionary data access) e = some (data, access) := by
        simp only [Operation.added?, performed]
      rw [registered] at still
      refine ⟨?_, pins.keeps, ?_, ?_, fun entry adds => ?_⟩
      · rw [registered]
        refine ⟨still, honest.savePermanent sound done (honest_label data access),
          fun a among => ?_⟩
        exact (algorithms a among).keep pins.keeps _
      · intro id e'' answered
        rw [performed] at answered
        cases answered
        rw [registered]
        exact pins.shelved
      · rw [added]
        rfl
      · rw [added] at adds
        cases adds
        rw [registered]
        exact pins.shelved

/-! ## Histories -/

/-- What a history leaves of what was shelved before it, and what it has shelved itself. -/
structure Keeping (pinned : List Key) (e : Engine) (operations : List Operation) : Prop where
  stocked : Stocked (pinned ++ e.registrations operations) (e.run operations)
  keeps : Keeps pinned e.store (e.run operations).store
  dictionaries : (e.run operations).catalogue.dictionaries =
    e.catalogue.dictionaries ++ e.addedDictionaries operations
  texts : ∀ entry ∈ e.added operations,
    Shelved (pinned ++ e.registrations operations) (e.run operations).store
      (Dictionary.ofData entry.1 entry.2).id entry.1

theorem stocked_run (stocked : Stocked pinned e) (operations : List Operation) :
    Keeping pinned e operations := by
  induction operations generalizing e pinned with
  | nil =>
    refine ⟨?_, .refl _ _, (List.append_nil _).symm, fun entry among => nomatch among⟩
    rw [registrations, List.append_nil]
    exact stocked
  | cons o rest ih =>
    have first := stocks_perform stocked o
    have others := ih first.stocked
    have whole : e.registrations (o :: rest) =
        (o.registered? e).toList ++ (after (o.perform e)).registrations rest := rfl
    refine ⟨?_, ?_, ?_, fun entry among => ?_⟩
    · rw [whole, ← List.append_assoc]
      exact others.stocked
    · exact first.keeps.trans (others.keeps.mono (List.sublist_append_left _ _).subset)
    · have later := others.dictionaries
      rw [first.dictionaries, List.append_assoc] at later
      simp only [addedDictionaries, added, List.map_append]
      exact later
    · rw [whole, ← List.append_assoc]
      rcases List.mem_append.1 among with now | later
      · exact (first.texts entry (Option.mem_toList.1 now)).keep others.keeps _
      · exact others.texts entry later

/-! ## Lookup -/

/-- What is shelved is found by its identifier, whatever the access length. -/
theorem Stocked.lookup (stocked : Stocked pinned e) (shelved : Shelved pinned e.store id data)
    (ignoreAccess : Bool) :
    ∃ state, e.store.lookup id.toBytes ignoreAccess = .ok state ∧ state.data = data := by
  obtain ⟨key, _, state, live, rfl, bytes⟩ := shelved
  have whole : state.id.toBytes.length = 20 := StateId.length_toBytes _
  have access := Store.isPartialLength_iff.1 (stocked.honest key state live).access
  refine ⟨state, (Store.lookup_eq_ok_iff stocked.consistent.referenced.sound).2 ⟨key, ?_⟩, bytes⟩
  refine ⟨?_, live, List.prefix_refl _, .inr ?_⟩
  · rw [whole]
    decide
  · rw [whole]
    exact access.2

/-- The prefix that is announced for a dictionary. -/
def announced (entry : Bytes × UInt16) : Bytes :=
  let d := Dictionary.ofData entry.1 entry.2
  d.id.toBytes.take d.access.toNat

theorem length_announced (entry : Bytes × UInt16) :
    (announced entry).length = (Dictionary.clampAccess entry.2).toNat := by
  have bounds := clampAccess_bounds entry.2
  rw [announced, List.length_take, StateId.length_toBytes]
  exact Nat.min_eq_left bounds.2

theorem announcement_eq (entry : Bytes × UInt16) :
    (Dictionary.ofData entry.1 entry.2).announcement =
      UInt8.ofNat (announced entry).length :: announced entry := by
  rw [length_announced]
  rfl

/-- A state that has the text and the identifier of a dictionary has its access length too, if the
two have not been hashed alike by accident. -/
theorem Stocked.lookup_announced {operations : List Operation}
    (stocked : Stocked pinned (e.run operations)) (free : CollisionFree (e.hashed operations))
    {entry : Bytes × UInt16} (among : entry ∈ e.added operations)
    (shelved : Shelved pinned (e.run operations).store (Dictionary.ofData entry.1 entry.2).id
      entry.1) :
    ∃ state, (e.run operations).store.lookup (announced entry) false = .ok state ∧
      state.data = entry.1 := by
  obtain ⟨key, _, state, live, named, bytes⟩ := shelved
  have bounds := clampAccess_bounds entry.2
  have length := length_announced entry
  have digests : Sha1.digest state.preimage =
      Sha1.digest (StateId.preimage entry.1 0 0 (Dictionary.clampAccess entry.2)) := by
    have same := (stocked.honest key state live).named.symm.trans named
    simp only [Dictionary.ofData, StateId.ofData_eq, StateId.mk.injEq] at same
    exact same
  have first : state.preimage ∈ e.hashed operations := by
    obtain ⟨entry, found, rfl⟩ := Store.state?_eq_some_iff.1 live
    exact List.mem_append_left _
      (List.mem_map.2 ⟨(key, entry), Arena.mem_toList.2 found, rfl⟩)
  have second :
      StateId.preimage entry.1 0 0 (Dictionary.clampAccess entry.2) ∈ e.hashed operations :=
    List.mem_append_right _ (List.mem_map.2 ⟨entry, among, rfl⟩)
  have access : state.access = Dictionary.clampAccess entry.2 :=
    StateId.access_of_preimage (free _ first _ second digests)
  refine ⟨state, (Store.lookup_eq_ok_iff stocked.consistent.referenced.sound).2 ⟨key, ?_⟩, bytes⟩
  refine ⟨?_, live, ?_, .inr ?_⟩
  · rw [length]
    exact bounds
  · rw [named]
    exact List.take_prefix _ _
  · exact Nat.le_of_eq ((congrArg UInt16.toNat access).trans length.symm)

/-- Whatever has been done to an engine, what a registration of its history has answered is found in
the store, with the bytes that were registered.  The identifiers that peers may use are those of the
dictionaries that were added, in order: each is announced by a prefix of 6 to 20 bytes, and by that
prefix the text of the dictionary is found, unless two different byte strings among those hashed for
states and dictionaries have the same digest. -/
theorem registrations_stay_usable (started : start settings = .ok e) (operations : List Operation) :
    let now := e.run operations
    (∀ before o rest id e', operations = before ++ o :: rest →
      o.perform (e.run before) = .ok (.registered id) e' → ∀ ignoreAccess,
        ∃ state, now.store.lookup id.toBytes ignoreAccess = .ok state ∧
          state.data = o.content (e.run before)) ∧
    (CollisionFree (e.hashed operations) →
      ∃ entries : List (Bytes × Bytes),
        entries.map Prod.snd = (e.added operations).map Prod.fst ∧
        now.catalogue.ownIds =
          entries.flatMap (fun entry => UInt8.ofNat entry.1.length :: entry.1) ∧
        ∀ entry ∈ entries, 6 ≤ entry.1.length ∧ entry.1.length ≤ 20 ∧
          ∃ state, now.store.lookup entry.1 false = .ok state ∧ state.data = entry.2) := by
  intro now
  have stocked := stocked_of_start started
  refine ⟨?_, fun free => ?_⟩
  · rintro before o rest id e' whole performed ignoreAccess
    have first := stocks_perform (stocked_run stocked before).stocked o
    have later := stocked_run first.stocked rest
    have last : (after (o.perform (e.run before))).run rest = now := by
      simp only [now, whole, run, List.foldl_append, List.foldl_cons]
    rw [← last]
    exact later.stocked.lookup ((first.shelved id e' performed).keep later.keeps _) ignoreAccess
  · have keeping := stocked_run stocked operations
    refine ⟨(e.added operations).map fun entry => (announced entry, entry.1), ?_, ?_, ?_⟩
    · rw [List.map_map]
      rfl
    · have dictionaries := keeping.dictionaries
      rw [(empty_of_start started).2] at dictionaries
      rw [Catalogue.ownIds, dictionaries, List.nil_append, addedDictionaries, List.flatMap_map,
        List.flatMap_map]
      congr 1
      funext entry
      exact announcement_eq entry
    · intro entry among
      obtain ⟨source, added, rfl⟩ := List.mem_map.1 among
      have bounds := clampAccess_bounds source.2
      have length := length_announced source
      refine ⟨length ▸ bounds.1, length ▸ bounds.2, ?_⟩
      exact keeping.stocked.lookup_announced free added (keeping.texts source added)

/-- What an operation was answered with, if it was not refused. -/
def answer? {α : Type} : EStateM.Result Error Engine α → Option α
  | .ok a _ => some a
  | .error _ _ => none

theorem eq_ok_of_answer? {α : Type} {result : EStateM.Result Error Engine α} {a : α}
    (answered : answer? result = some a) : ∃ e', result = .ok a e' := by
  cases result with
  | ok b e' =>
    cases answered
    exact ⟨e', rfl⟩
  | error r e' => cases answered

/-- A peer has two bytes saved. -/
def savedText : List Operation :=
  [.addAlgorithm { name := "a", code := [0] }
      ⟨fun _ context => (.ok [], context), fun _ context => context⟩,
    .decompress [0xf8, 0x00, 0x81, 0x23, 0x00, 0x00, 0x02, 0x00, 0x00, 0x06, 0x00] .message,
    .declare 1024 (.fresh none)]

/-- A dictionary of the same two bytes is added, and the peer's compartment closed. -/
def adoptedText : List Operation := savedText ++ [.addDictionary [0x1f, 0xf5] 6, .close ⟨0, 0⟩]

/-- The state that a peer had saved outlives the peer, because it has become that of a
dictionary. -/
theorem lookup_of_adoptedText :
    ∃ e id, start {} = .ok e ∧ (e.run savedText).memberships = [⟨1, 0⟩] ∧
      (e.run adoptedText).memberships = [] ∧
      answer? (Operation.perform (.addDictionary [0x1f, 0xf5] 6) (e.run savedText)) =
        some (.registered id) ∧
      (∃ state, (e.run adoptedText).store.lookup id.toBytes false = .ok state ∧
        state.data = [0x1f, 0xf5]) ∧
      CollisionFree (e.hashed adoptedText) ∧
      ∃ entries : List (Bytes × Bytes), entries.map Prod.snd = [[0x1f, 0xf5]] ∧
        ∀ entry ∈ entries, ∃ state, (e.run adoptedText).store.lookup entry.1 false = .ok state ∧
          state.data = entry.2 := by
  let e : Engine := ⟨{}, {}, .ofSettings {}, { capacity := 10 }, .ofSettings {}, {}, {}⟩
  let id : StateId := .ofData [0x1f, 0xf5] 0 0 6
  have started : start {} = .ok e := rfl
  have course : (e.run savedText).memberships = [⟨1, 0⟩] ∧ (e.run adoptedText).memberships = [] ∧
      answer? (Operation.perform (.addDictionary [0x1f, 0xf5] 6) (e.run savedText)) =
        some (.registered id) ∧
      (e.added adoptedText).map Prod.fst = [[0x1f, 0xf5]] ∧
      CollisionFree (e.hashed adoptedText) := by
    decide +kernel
  obtain ⟨before, after, answered, texts, free⟩ := course
  have usable := registrations_stay_usable started adoptedText
  obtain ⟨e', performed⟩ := eq_ok_of_answer? answered
  have found := usable.1 savedText _ [.close ⟨0, 0⟩] id e' rfl performed false
  obtain ⟨entries, names, _, each⟩ := usable.2 free
  refine ⟨e, id, started, before, after, answered, found, free, entries, names.trans texts, ?_⟩
  exact fun entry among => (each entry among).2.2

end Engine

end SigComp
