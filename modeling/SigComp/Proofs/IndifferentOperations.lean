import SigComp.Proofs.PendingRun

/-!
# Operations that do not regard a machine that waits

What a machine has left to be done takes effect only when it is settled.  This is said by
putting another machine in its place: no other operation can tell the one from the other.

* `Pending.recast`: another machine waits under a key, with the same name.
* `Engine.Indifferent`: an operation to which it makes no difference which machine waits
  there; `indifferent_iff`: these are all but the declarations that settle it.
-/

namespace SigComp

namespace Pending

variable {p q : Pending} {now t span due : Nat} {k κ : Key} {w v : Suspended} {id : MachineId}
  {m : Machine} {feedback : Option Bytes}

/-! ## Another machine in the place of one that waits -/

/-- Another machine waits under a key. -/
def recast (p : Pending) (κ : Key) (v : Suspended) : Pending :=
  { p with machines := p.machines.modify κ fun _ => v }

theorem recast_of_vacant (vacant : p.machines.get? κ = none) (v : Suspended) :
    p.recast κ v = p := by
  rw [recast, Arena.modify_of_vacant vacant]

theorem get?_recast (waits : p.machines.get? κ = some w) (v : Suspended) (k : Key) :
    (p.recast κ v).machines.get? k = if k = κ then some v else p.machines.get? k :=
  Arena.get?_put waits v

theorem without_recast (p : Pending) (k κ : Key) (v : Suspended) :
    (p.recast κ v).without k = (p.without k).recast κ v := by
  simp only [without, recast, Arena.erase_modify]

theorem Orderly.recast (orderly : Orderly now span p) (waits : p.machines.get? κ = some w)
    (same : v.id = w.id) : Orderly now span (p.recast κ v) := by
  obtain ⟨counted, small, once, queued, sorted, near, named⟩ := orderly
  refine ⟨counted.modify κ _, ?_, once, fun k => ?_, sorted, near, fun k u found => ?_⟩
  · exact Nat.le_trans (Nat.le_of_eq (Arena.capacity_modify _ _ _)) small
  · rw [get?_recast waits]
    refine (queued k).trans ?_
    by_cases here : k = κ
    · rw [if_pos here, here, waits]
      exact ⟨fun _ => ⟨v, rfl⟩, fun _ => ⟨w, rfl⟩⟩
    · rw [if_neg here]
  · rw [get?_recast waits] at found
    split at found
    · next here =>
      cases found
      rw [same, here]
      exact named κ w waits
    · exact named k u found

/-! ## What the pending machines are asked for -/

/-- Reaping goes by the deadlines and tells only names. -/
theorem reapFrom_recast (queue : List (Key × Nat)) {machines : Arena Suspended}
    (same : ∀ w, machines.get? κ = some w → v.id = w.id) :
    reapFrom t queue (machines.modify κ fun _ => v) =
      ((reapFrom t queue machines).1, (reapFrom t queue machines).2.1.modify κ fun _ => v,
        (reapFrom t queue machines).2.2) := by
  induction queue generalizing machines with
  | nil => rfl
  | cons entry rest ih =>
    obtain ⟨k, due⟩ := entry
    simp only [reapFrom]
    split
    · rfl
    · have rest' : ∀ w, (machines.erase k).get? κ = some w → v.id = w.id := by
        intro w found
        rw [Arena.get?_erase] at found
        split at found
        · cases found
        · exact same w found
      have names : ((machines.modify κ fun _ => v).get? k).map Suspended.id =
          (machines.get? k).map Suspended.id := by
        rw [Arena.get?_modify]
        by_cases here : k = κ
        · rw [if_pos here, here]
          cases found : machines.get? κ with
          | none => rfl
          | some w => exact congrArg some (same w found)
        · rw [if_neg here]
      rw [Arena.erase_modify, ih rest', names]

theorem reap_recast (same : ∀ w, p.machines.get? κ = some w → v.id = w.id) (t : Nat) :
    (p.recast κ v).reap t = ((p.reap t).1.recast κ v, (p.reap t).2) := by
  simp only [reap, recast, reapFrom_recast p.deadlines same]

/-- A name that no machine has is refused. -/
theorem claim_of_unknown (unknown : ∀ k w, p.machines.get? k = some w → w.id ≠ id) :
    p.claim id =
      .error (if p.machines.capacity ≤ slotOf id then .badParam .machineSlot else .notFound) := by
  unfold claim
  split
  · rfl
  split
  · rfl
  · next k w found =>
    rw [if_neg (unknown k w (Arena.getSlot?_eq_some_iff.1 found).2)]

/-- A name that is refused is refused still. -/
theorem claim_recast_error {r : Error} (orderly : Orderly now span p)
    (same : ∀ w, p.machines.get? κ = some w → v.id = w.id) (refused : p.claim id = .error r) :
    (p.recast κ v).claim id = .error r := by
  cases waits : p.machines.get? κ with
  | none => rw [recast_of_vacant waits, refused]
  | some w =>
    have unknown : ∀ k u, p.machines.get? k = some u → u.id ≠ id := by
      intro k u found named
      rw [orderly.toNamed.claim_eq_ok_iff.2 ⟨k, found, named, rfl⟩] at refused
      cases refused
    rw [← refused, claim_of_unknown unknown, claim_of_unknown]
    · rw [recast, Arena.capacity_modify]
    · intro k u found
      rw [get?_recast waits] at found
      split at found
      · cases found
        exact same w waits ▸ unknown κ w waits
      · exact unknown k u found

/-- Another name claims the same machine. -/
theorem claim_recast_ok {u : Suspended} (orderly : Orderly now span p)
    (same : ∀ w, p.machines.get? κ = some w → v.id = w.id)
    (other : ∀ w, p.machines.get? κ = some w → w.id ≠ id) (claimed : p.claim id = .ok (u, q)) :
    (p.recast κ v).claim id = .ok (u, q.recast κ v) := by
  obtain ⟨k, found, named, rfl⟩ := orderly.toNamed.claim_eq_ok_iff.1 claimed
  cases waits : p.machines.get? κ with
  | none =>
    have gone : (p.without k).machines.get? κ = none := by
      rw [get?_without, waits, ite_self]
    rw [recast_of_vacant waits, recast_of_vacant gone, claimed]
  | some w =>
    refine (orderly.recast waits (same w waits)).toNamed.claim_eq_ok_iff.2
      ⟨k, ?_, named, (without_recast p k κ v).symm⟩
    rw [get?_recast waits, if_neg, found]
    rintro rfl
    exact other u found named

theorem suspend_recast (orderly : Orderly now span p) (waits : p.machines.get? κ = some w)
    (v : Suspended) :
    (p.recast κ v).suspend m feedback due =
      (p.suspend m feedback due).map fun (id, q) => (id, q.recast κ v) := by
  simp only [suspend, recast, Arena.insert?_modify orderly.counted.tidy waits, Option.map_map]
  cases inserted : p.machines.insert? ⟨0, m, feedback⟩ with
  | none => rfl
  | some new =>
    obtain ⟨k, machines⟩ := new
    obtain ⟨_, fresh, _⟩ := Arena.insert?_eq_some orderly.counted.tidy inserted
    have other : k ≠ κ := by
      rintro rfl
      rw [fresh] at waits
      cases waits
    simp only [Option.map_some, Function.comp, Arena.modify_modify other]

end Pending

namespace Engine

variable {e e' : Engine} {k κ : Key} {w v : Suspended} {id : MachineId} {d : Declaration}
  {α : Type}

/-! ## The engine with another machine that waits -/

/-- Another machine waits under a key. -/
def recast (e : Engine) (κ : Key) (v : Suspended) : Engine :=
  { e with pending := e.pending.recast κ v }

/-- It makes no difference to an operation if another machine of the same name is the one that
waits. -/
def Indifferent (e : Engine) (κ : Key) (w : Suspended) (o : Operation) : Prop :=
  ∀ v, v.id = w.id → Commutes (recast · κ v) o.perform e

theorem recast_of_vacant (vacant : e.pending.machines.get? κ = none) (v : Suspended) :
    e.recast κ v = e := by
  rw [recast, Pending.recast_of_vacant vacant]

/-- A machine that has ended makes no difference. -/
theorem commutes_of_vacant {x : Action α} (vacant : e.pending.machines.get? κ = none)
    (after_vacant : (after (x e)).pending.machines.get? κ = none) :
    Commutes (recast · κ v) x e := by
  change x (e.recast κ v) = _
  rw [recast_of_vacant vacant]
  cases ran : x e with
  | ok a e' =>
    rw [ran] at after_vacant
    exact congrArg _ (recast_of_vacant after_vacant v).symm
  | error r e' =>
    rw [ran] at after_vacant
    exact congrArg _ (recast_of_vacant after_vacant v).symm

theorem Blind.recast {x : Action α} (blind : Blind x) (e : Engine) :
    Commutes (recast · κ v) x e := by
  obtain ⟨pending, clock⟩ := blind.after e
  have same : x (e.recast κ v) = mapAfter (within · (e.pending.recast κ v) e.clock) (x e) :=
    blind e (e.pending.recast κ v) e.clock
  change x (e.recast κ v) = _
  rw [same]
  cases ran : x e with
  | ok a e' =>
    rw [ran] at pending clock
    simp only [mapAfter, Engine.recast, within, ← pending, ← clock]
    rfl
  | error r e' =>
    rw [ran] at pending clock
    simp only [mapAfter, Engine.recast, within, ← pending, ← clock]
    rfl

theorem reap_recast (same : ∀ w, e.pending.machines.get? κ = some w → v.id = w.id) :
    (e.recast κ v).reap = e.reap.recast κ v := by
  have reaped := Pending.reap_recast same e.clock.now
  simp only [reap, Engine.recast]
  rw [reaped]
  rfl

/-! ## Messages -/

theorem commutes_suspend {m : Machine} {feedback : Option Bytes} {now span : Nat}
    (orderly : e.pending.Orderly now span) (waits : e.pending.machines.get? κ = some w)
    (v : Suspended) : Commutes (recast · κ v) (suspend m feedback) e := by
  have waiting : (e.pending.recast κ v).suspend m feedback
      (e.clock.now + e.settings.pendingSeconds * 1000) = _ :=
    Pending.suspend_recast orderly waits v
  change suspend m feedback (e.recast κ v) = _
  simp only [suspend, Engine.recast, waiting]
  cases e.pending.suspend m feedback (e.clock.now + e.settings.pendingSeconds * 1000) <;> rfl

theorem commutes_deliver {now span : Nat} (orderly : e.pending.Orderly now span)
    (waits : e.pending.machines.get? κ = some w) (v : Suspended)
    (outcome : Except Error (Bytes × Option (Machine × Option Bytes))) :
    Commutes (recast · κ v) (deliver outcome) e := by
  cases outcome with
  | error r => rfl
  | ok text =>
    obtain ⟨plain, waiting⟩ := text
    cases waiting with
    | none => rfl
    | some machine => exact (commutes_suspend orderly waits v).bind fun _ _ _ => rfl

/-- A machine whose time is over does not come back with a message. -/
theorem gone_after_decompress (timely : e.Timely) (waits : e.pending.machines.get? κ = some w)
    (past : e.reap.pending.machines.get? κ = none) (data : Bytes) (t : Transport) :
    (after (decompress data t e)).pending.machines.get? κ = none := by
  have same : after (Operation.perform (.decompress data t) e) = after (decompress data t e) := by
    simp only [Operation.perform, bind, EStateM.bind]
    cases decompress data t e <;> rfl
  rw [← same]
  have outcome := attending_decompress timely data t
  generalize Operation.perform (.decompress data t) e = result at outcome
  cases outcome with
  | idle still _ _ => exact absurd trivial still
  | read pending _ _ => rw [pending, past]
  | suspended suspends _ =>
    refine (suspends.view κ).trans ?_
    rw [if_neg, past]
    rintro rfl
    have fresh : e.pending.machines.get? _ = none := suspends.fresh_before
    rw [waits] at fresh
    cases fresh

theorem commutes_decompress (timely : e.Timely) (waits : e.pending.machines.get? κ = some w)
    (same : ∀ w, e.pending.machines.get? κ = some w → v.id = w.id) (data : Bytes) (t : Transport) :
    Commutes (recast · κ v) (decompress data t) e := by
  have reaped := reap_recast same
  have read : (e.recast κ v).reading data t = e.reading data t := rfl
  have room : (e.reap.recast κ v).pending.machines.isFull = e.reap.pending.machines.isFull := by
    simp only [Engine.recast, Pending.recast, Arena.isFull, Arena.capacity_modify,
      Arena.size_modify]
  have course := decompress_eq data t e
  change decompress data t (e.recast κ v) = _
  rw [decompress_eq, course, reaped, room, read]
  by_cases full : e.reap.pending.machines.isFull = true
  · rw [if_pos full, if_pos full]
    rfl
  rw [if_neg full] at course ⊢
  rw [if_neg full]
  -- it only matters whether the machine still waits when the message is read
  cases still : e.reap.pending.machines.get? κ with
  | some u => exact commutes_deliver (e := e.reap.warned _) timely.reap still v _
  | none =>
    have gone := gone_after_decompress timely waits still data t
    rw [course] at gone
    exact commutes_of_vacant (e := e.reap.warned _) still gone

/-! ## Declarations -/

section Declarations

variable {now span : Nat}

/-- A claim that is for another machine, or comes too late for this one, does not regard it. -/
theorem commutes_claim (orderly : e.pending.Orderly now span)
    (same : ∀ w, e.pending.machines.get? κ = some w → v.id = w.id)
    (other : ∀ w, e.reap.pending.machines.get? κ = some w → w.id ≠ id) :
    Commutes (recast · κ v) (claim id) e := by
  have reaped : e.reap.pending.Orderly now span := orderly.reap e.clock.now
  have left : ∀ w, e.reap.pending.machines.get? κ = some w → v.id = w.id :=
    fun w still => same w (orderly.get?_reap_eq_some_iff.1 still).1
  have reaping := reap_recast same
  change claim id (e.recast κ v) = _
  cases claimed : e.reap.pending.claim id with
  | error r =>
    have again : (e.recast κ v).reap.pending.claim id = .error r :=
      reaping ▸ Pending.claim_recast_error reaped left claimed
    rw [claim_of_error claimed, claim_of_error again, reaping]
    rfl
  | ok taken =>
    obtain ⟨u, q⟩ := taken
    have again : (e.recast κ v).reap.pending.claim id = .ok (u, q.recast κ v) :=
      reaping ▸ Pending.claim_recast_ok reaped left other claimed
    rw [claim_of_ok claimed, claim_of_ok again, reaping]
    rfl

theorem commutes_settle (orderly : e.pending.Orderly now span)
    (same : ∀ w, e.pending.machines.get? κ = some w → v.id = w.id)
    (other : ∀ w, e.reap.pending.machines.get? κ = some w → w.id ≠ id) (k : Key) :
    Commutes (recast · κ v) (settle id k) e := by
  refine (commutes_claim orderly same other).bind fun u e₁ _ => ?_
  have there : (e₁.recast κ v).compartment k = e₁.compartment k := rfl
  change ((get : Action Engine) >>= _) (e₁.recast κ v) = _
  rw [run_get, run_get, there]
  cases e₁.compartment k <;> rfl

theorem rollBack_recast (e : Engine) (k : Key) :
    (e.recast κ v).rollBack k = (e.rollBack k).recast κ v := by
  have closing : close k (e.recast κ v) = mapAfter (recast · κ v) (close k e) :=
    (blind_close k).recast e
  unfold rollBack
  rw [closing]
  cases close k e <;> rfl

theorem commutes_settleFresh (orderly : e.pending.Orderly now span)
    (same : ∀ w, e.pending.machines.get? κ = some w → v.id = w.id) (algorithm : Option String)
    (other : ∀ k opened, create algorithm e = .ok k opened →
      ∀ w, e.reap.pending.machines.get? κ = some w → w.id ≠ id) :
    Commutes (recast · κ v) (settleFresh id algorithm) e := by
  refine ((blind_create algorithm).recast e).bind fun k opened created => ?_
  have destination : Destination e (.fresh algorithm) k opened := .fresh created
  obtain ⟨pending, _⟩ := destination.aside
  have settling :
      settle id k (opened.recast κ v) = mapAfter (recast · κ v) (settle id k opened) := by
    refine commutes_settle (pending ▸ orderly) (pending ▸ same) ?_ k
    rw [destination.reap]
    exact other k opened created
  simp only [Commutes, settling]
  cases settle id k opened with
  | ok _ e₂ => rfl
  | error r e₂ => exact congrArg _ (rollBack_recast e₂ k)

/-- A machine that is not to be settled is only told from others by its name. -/
theorem commutes_discard (orderly : e.pending.Orderly now span)
    (same : ∀ w, e.pending.machines.get? κ = some w → v.id = w.id) (id : MachineId) :
    Commutes (recast · κ v) (do let _ ← claim id; return none : Action (Option Key)) e := by
  by_cases other : ∀ w, e.reap.pending.machines.get? κ = some w → w.id ≠ id
  · exact (commutes_claim orderly same other).bind fun _ _ _ => rfl
  -- the name is that of the machine itself, which is taken out on both sides
  obtain ⟨w, still, named⟩ : ∃ w, e.reap.pending.machines.get? κ = some w ∧ w.id = id := by
    simpa using other
  have reaped : e.reap.pending.Orderly now span := orderly.reap e.clock.now
  have name : v.id = w.id := same w (orderly.get?_reap_eq_some_iff.1 still).1
  have gone : (e.reap.pending.without κ).machines.get? κ = none := Arena.get?_erase_same _ _
  have first : claim id e = .ok w { e.reap with pending := e.reap.pending.without κ } :=
    claim_of_ok (reaped.toNamed.claim_eq_ok_iff.2 ⟨κ, still, named, rfl⟩)
  have second : claim id (e.recast κ v) =
      .ok v { e.reap with pending := e.reap.pending.without κ } := by
    have claimed : (e.recast κ v).reap.pending.claim id = .ok (v, e.reap.pending.without κ) := by
      rw [reap_recast same]
      refine (reaped.recast still name).toNamed.claim_eq_ok_iff.2 ⟨κ, ?_, name.trans named, ?_⟩
      · exact (Pending.get?_recast still v κ).trans (if_pos rfl)
      · rw [Pending.without_recast, Pending.recast_of_vacant gone]
    rw [claim_of_ok claimed, reap_recast same]
    rfl
  change ((claim id >>= fun _ => return none : Action (Option Key)) (e.recast κ v)) = _
  rw [run_bind_ok first, run_bind_ok second]
  exact congrArg _ (recast_of_vacant (e := { e.reap with pending := _ }) gone v).symm

/-- A declaration does not regard a machine that it does not settle. -/
theorem commutes_declare (orderly : e.pending.Orderly now span)
    (same : ∀ w, e.pending.machines.get? κ = some w → v.id = w.id)
    (other : ∀ k opened, Destination e d k opened →
      ∀ w, e.reap.pending.machines.get? κ = some w → w.id ≠ id) :
    Commutes (recast · κ v) (declare id d) e := by
  unfold declare
  split
  · rfl
  cases d with
  | fresh algorithm =>
    refine (commutes_settleFresh orderly same algorithm fun k opened created => ?_).bind
      fun _ _ _ => rfl
    exact other k opened (.fresh created)
  | existing k =>
    have there : (e.recast κ v).compartment k = e.compartment k := rfl
    change ((get : Action Engine) >>= _) (e.recast κ v) = _
    simp only []
    rw [run_get, run_get, there]
    cases opened : e.compartment k with
    | error r => rfl
    | ok c =>
      rw [run_ofExcept_ok, run_ofExcept_ok]
      refine (commutes_settle orderly same ?_ k).bind fun _ _ _ => rfl
      exact other k e (.existing (compartment_eq_ok opened))
  | unauthorized => exact commutes_discard orderly same id

end Declarations

/-! ## All operations -/

/-- An operation is a declaration that settles the machine of a name with a compartment. -/
def Settling (e : Engine) (id : MachineId) (o : Operation) : Prop :=
  ∃ d k e', o = .declare id d ∧ o.perform e = .ok (.declared (some k)) e'

/-- An operation is a declaration that discards the machine of a name. -/
def Discarding (e : Engine) (id : MachineId) (o : Operation) : Prop :=
  ∃ d e', o = .declare id d ∧ o.perform e = .ok (.declared none) e'

theorem perform_declare_eq_ok_iff {answer : Option Key} :
    Operation.perform (.declare id d) e = .ok (.declared answer) e' ↔
      declare id d e = .ok answer e' := by
  simp only [Operation.perform, Functor.map, EStateM.map]
  cases declare id d e with
  | ok a e₁ => simp
  | error r e₁ => simp

theorem indifferent_of_not_settling {o : Operation} (timely : e.Timely) (tidy : e.compartments.Tidy)
    (waits : e.pending.machines.get? κ = some w) (unsettled : ¬ Settling e w.id o) :
    Indifferent e κ w o := by
  intro v name
  have same : ∀ u, e.pending.machines.get? κ = some u → v.id = u.id := by
    intro u found
    rw [waits] at found
    cases found
    exact name
  cases attends : o.attends with
  | false => exact (blind_perform attends).recast e
  | true =>
    cases o with
    | decompress data t =>
      exact (commutes_decompress timely waits same data t).bind fun _ _ _ => rfl
    | declare id d =>
      refine (commutes_declare timely same fun k opened destination u still named => ?_).map _
      obtain ⟨e', declared, _⟩ := declare_of_destination timely tidy destination still
      have here := (timely.get?_reap_eq_some_iff.1 still).1
      rw [waits] at here
      cases here
      rw [named] at declared unsettled
      exact unsettled ⟨d, k, e', rfl, perform_declare_eq_ok_iff.2 declared⟩
    | advance ms => rfl
    | _ => cases attends

/-- What a settled machine's message brought along as feedback is kept by the compartment. -/
theorem returnedFeedback_of_settle {c c' : Compartment} {s s' : Store} {now : Nat} {m : Machine}
    {item : Bytes} {warnings : List Warning} (short : item.length ≤ Header.maxFeedback)
    (settled : c.settle s now m (some item) = ((c', s'), warnings)) :
    c'.returnedFeedback = item := by
  simp only [Compartment.settle, Compartment.acceptFeedback, Compartment.returnFeedback,
    if_neg (Nat.not_lt_of_le short)] at settled
  cases settled
  rfl

/-- A machine that is settled is regarded: with other feedback the compartment would be another. -/
theorem not_indifferent_of_settling {o : Operation} (timely : e.Timely) (tidy : e.compartments.Tidy)
    (waits : e.pending.machines.get? κ = some w) (settling : Settling e w.id o) :
    ¬ Indifferent e κ w o := by
  obtain ⟨d, k, e', rfl, performed⟩ := settling
  intro indifferent
  have kept : ∀ item : Bytes, item.length ≤ Header.maxFeedback →
      ∃ c', e'.compartments.get? k = some c' ∧ c'.returnedFeedback = item := by
    intro item short
    let v : Suspended := { w with feedback := some item }
    have timely' : (e.recast κ v).Timely := Pending.Orderly.recast timely waits rfl
    have declared : declare w.id d (e.recast κ v) = .ok (some k) (e'.recast κ v) := by
      rw [← perform_declare_eq_ok_iff]
      have same : Operation.perform (.declare w.id d) (e.recast κ v) = _ := indifferent v rfl
      rw [performed] at same
      exact same
    obtain ⟨κ', u, name, settles⟩ := settles_of_declare timely' tidy declared
    have still := (timely'.get?_reap_eq_some_iff.1 settles.waits).1
    have here : (e.recast κ v).pending.machines.get? κ = some v :=
      (Pending.get?_recast waits v κ).trans (if_pos rfl)
    obtain ⟨_, rfl⟩ := timely'.toNamed.name_unique still here name
    obtain ⟨opened, c, c', warnings, _, _, settled, found⟩ := settles.effects
    exact ⟨c', found, returnedFeedback_of_settle short settled⟩
  obtain ⟨c₁, found₁, first⟩ := kept [] (by decide)
  obtain ⟨c₂, found₂, second⟩ := kept [0] (by decide)
  rw [found₁] at found₂
  cases found₂
  rw [first] at second
  cases second

/-- The operations that regard a machine that waits are the declarations that settle it. -/
theorem indifferent_iff {o : Operation} (timely : e.Timely) (tidy : e.compartments.Tidy)
    (waits : e.pending.machines.get? κ = some w) : Indifferent e κ w o ↔ ¬ Settling e w.id o := by
  constructor
  · exact fun indifferent settling =>
      not_indifferent_of_settling timely tidy waits settling indifferent
  · exact indifferent_of_not_settling timely tidy waits

end Engine

end SigComp
