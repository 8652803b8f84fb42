import SigComp.Proofs.EngineOperations

/-!
# Honest states

Every state in the store of an engine is known by the digest of what it consists of,
whoever had it saved, and may be named by as many bytes as a prefix can have.

* `Store.Honest`: all states of a store are honest.  Nothing that ends makes a difference,
  and what is saved has to be honest itself.
* `Compartment.honest_settle`: a machine that is settled with a compartment leaves an
  honest store, whatever is given up and admitted.
* `Engine.honest_moves`: and so does every operation of an engine that registers nothing.
-/

namespace SigComp

namespace Store

variable {s s' : Store} {k : Key} {state : State} {d : Draft} {l : Label} {c : Content}
  {saved : Saved}

/-- All states of the store are honest. -/
def Honest (s : Store) : Prop := ∀ k state, s.state? k = some state → state.Honest

theorem Honest.congr (honest : s.Honest) (states : s'.states = s.states) : s'.Honest :=
  fun k state live => honest k state (state?_congr states ▸ live)

theorem Honest.gain (honest : s.Honest) (gains : Gains k state s s')
    (new : s.state? k = none → state.Honest) : s'.Honest := by
  intro k' other live
  by_cases same : k' = k
  · subst same
    rw [gains.state] at live
    cases live
    rcases gains.before with absent | present
    · exact new absent
    · exact honest k' state present
  · rw [gains.others k' same] at live
    exact honest k' other live

theorem Honest.save (honest : s.Honest) (sound : s.Sound) (done : save d l c s = .ok saved s')
    (new : State.Honest { l with data := c.bytes }) : s'.Honest := by
  obtain ⟨_, state, gains, _, _, whole⟩ := save_eq_ok sound done
  exact honest.gain gains fun vacant => whole vacant ▸ new

theorem Honest.savePermanent {data : Bytes} (honest : s.Honest) (sound : s.Sound)
    (done : savePermanent l data s = .ok saved s')
    (new : State.Honest { l with priority := permanentPriority, data }) : s'.Honest := by
  obtain ⟨_, state, gains, _, _, whole⟩ := savePermanent_eq_ok sound done
  exact honest.gain gains fun vacant => whole vacant ▸ new

theorem Honest.release (honest : s.Honest) (k : Key) : (s.release k true).Honest := by
  intro k' other live
  cases found : s.states.get? k with
  | none =>
    simp only [Store.release, found] at live
    exact honest k' other live
  | some e =>
    have loses := loses_release (state?_eq_some_iff.2 ⟨e, found, rfl⟩) true
    by_cases same : k' = k
    · subst same
      rw [loses.state] at live
      split at live
      · cases live
        exact honest k' _ loses.before
      · cases live
    · rw [loses.others k' same] at live
      exact honest k' other live

end Store

/-! ## Compartments -/

namespace Compartment

variable {c c' : Compartment} {s s' : Store} {ms : List Member} {l : Label} {content : Content}
  {p q : Compartment × Store} {pinned others : List Key}

theorem GivesUp.honest (gives : GivesUp ms p q) (honest : p.2.Honest) : q.2.Honest := by
  induction gives with
  | nobody p => exact honest
  | next _ _ ih => exact ih (honest.release _)

theorem honest_expel (honest : s.Honest) (partialId : Bytes) :
    (after (expel partialId (c, s))).2.Honest := by
  cases done : expel partialId (c, s) with
  | ok _ p =>
    rcases expel_eq_ok done with ⟨m, _, rfl⟩
    exact honest.release m.key
  | error r p =>
    rw [expel_eq_error done]
    exact honest

theorem Admissible.honest {d : Draft} {s₁ : Store} (admissible : Admissible l content (c, s) d s₁)
    (honest : s.Honest) : s₁.Honest := by
  rcases Store.create_eq_ok admissible.reserved with ⟨_, reserved⟩
  rcases Store.reserve_eq_ok reserved with ⟨_, rfl⟩
  exact honest.congr rfl

theorem honest_accept (kept : Kept pinned others (c, s)) (honest : s.Honest)
    (new : State.Honest { l with data := content.bytes }) :
    (after (accept l content (c, s))).2.Honest := by
  have outcome := accept_admission kept.balanced l content s
  generalize accept l content (c, s) = result at outcome
  cases outcome with
  | refused r _ => exact honest
  | refreshed _ _ _ => exact honest
  | saved admissible gives _ done =>
    have sound := (admissible.carries kept gives).kept.referenced.sound
    exact (gives.honest (admissible.honest honest)).save sound done new
  | unsaved admissible gives _ failed =>
    rw [Store.save_eq_error failed]
    exact (gives.honest (admissible.honest honest)).congr rfl

theorem honest_carryOut (kept : Kept pinned others (c, s)) (honest : s.Honest) {todo : Commitment}
    (new : todo.Honest) : (c.carryOut s todo).1.2.Honest := by
  cases todo with
  | save l content =>
    rw [carryOut_save]
    exact honest_accept kept honest new
  | free partialId =>
    rw [carryOut_free]
    exact honest_expel honest partialId
  | feedback keepStates sendIds item =>
    simp only [carryOut]
    split <;> exact honest
  | _ => exact honest

theorem honest_carryOutAll {todo : List Commitment} (kept : Kept pinned others (c, s))
    (honest : s.Honest) (ordinary : ∀ one ∈ todo, one.Ordinary) (new : ∀ one ∈ todo, one.Honest) :
    (c.carryOutAll s todo).1.2.Honest := by
  induction todo generalizing c s with
  | nil => exact honest
  | cons one rest ih =>
    have first := carries_carryOut kept (ordinary one List.mem_cons_self)
    have after := honest_carryOut kept honest (new one List.mem_cons_self)
    exact ih first.kept after (fun other among => ordinary other (List.mem_cons_of_mem one among))
      fun other among => new other (List.mem_cons_of_mem one among)

theorem honest_settle {m : Machine} (kept : Kept pinned others (c, s)) (honest : s.Honest)
    (lawful : m.requests.Lawful) (now : Nat) (feedback : Option Bytes) :
    (c.settle s now m feedback).1.2.Honest := by
  have counted : Carries pinned others (c, s) (c.received now, s) :=
    carries_of_sameBooks kept ⟨rfl, rfl, rfl, rfl⟩
  exact honest_carryOutAll counted.kept honest
    (m.ordinary_commitments lawful c.own.stateMemory remoteIdsCapacity)
    (m.honest_commitments lawful c.own.stateMemory remoteIdsCapacity)

theorem honest_releaseAll (c : Compartment) (honest : s.Honest) : (c.releaseAll s).Honest := by
  have each : ∀ (ms : List Member) (s : Store), s.Honest →
      (ms.foldl (fun s m => s.release m.key true) s).Honest := by
    intro ms
    induction ms with
    | nil => exact fun s honest => honest
    | cons m ms ih => exact fun s honest => ih _ (honest.release m.key)
  exact each c.members s honest

end Compartment

/-! ## Engines -/

namespace Engine

variable {e e' : Engine} {pinned : List Key} {mine : Key → Prop}

theorem honest_move (consistent : Consistent pinned e) (honest : e.store.Honest)
    (move : Move mine e e') : e'.store.Honest := by
  cases move with
  | noted _ store _ _ _ => exact store ▸ honest
  | buffered states _ => exact honest.congr states
  | reaped => exact honest
  | suspended _ _ => exact honest
  | discarded _ => exact honest
  | @settled k c c' id w p s warnings _ found claimed settled =>
    rcases claim_eq_ok consistent.waiting claimed with ⟨_, key, waited⟩
    have after := Compartment.honest_settle (consistent.focus found) honest
      (consistent.lawful key w waited) e.clock.now w.feedback
    rw [settled] at after
    exact after
  | opened _ _ _ _ _ _ => exact honest
  | amended _ _ _ => exact honest
  | closed _ _ => exact Compartment.honest_releaseAll _ honest

/-- Whatever is done without a registration, the states of an engine stay honest. -/
theorem honest_moves (consistent : Consistent pinned e) (honest : e.store.Honest)
    (moves : Moves mine e e') : e'.store.Honest := by
  induction moves with
  | refl => exact honest
  | tail before move ih => exact honest_move (spares_moves consistent before).consistent ih move

theorem honest_perform (consistent : Consistent pinned e) (honest : e.store.Honest) {o : Operation}
    (ordinary : o.registers = false) : (after (o.perform e)).store.Honest := by
  have moving : Moving (fun _ => True) e (o.perform e) :=
    moves_perform consistent.tidy ordinary fun _ _ => trivial
  exact honest_moves consistent honest moving.after

end Engine

end SigComp
