import SigComp.Compartment.Basic

/-!
# Membership

Which states a compartment holds.  Each costs its length and an overhead out of the
compartment's state memory; to make room the compartment gives up members, those of
least priority first and among them those admitted first.

* `Compartment.accept` takes a state in;
* `Compartment.expel` gives up the member named by a prefix;
* `Compartment.makeRoom` ends because every round gives a member up.
-/

namespace SigComp.Compartment

/-- An operation on a compartment and the store that it shares with others.  A failure carries both
with it. -/
abbrev Action := EStateM Error (Compartment × Store)

/-! ## Giving up members -/

/-- Members of lesser rank are given up first.  Permanence is a promise of the store and counts for
nothing here. -/
def rank (m : Member) : Nat :=
  (if m.priority = permanentPriority then 0 else m.priority.toNat) <<< 32 + m.order.toNat

/-- The member that is given up first. -/
def weakest? (c : Compartment) : Option Member := c.members.minOn? rank

/-- The compartment without a member, whose cost is available again. -/
def without (c : Compartment) (m : Member) : Compartment :=
  let members := c.members.erase m
  { c with
    members
    available := c.available + m.cost
    admitted := if members.isEmpty then 0 else c.admitted }

theorem length_members_without {c : Compartment} {m : Member} (h : m ∈ c.members) :
    (c.without m).members.length < c.members.length := by
  have : 0 < c.members.length := List.length_pos_of_mem h
  rw [without, List.length_erase_of_mem h]
  omega

/-- A state of the given cost can be admitted as things are. -/
def hasRoom (c : Compartment) (cost : Nat) : Bool :=
  cost ≤ c.available && c.members.length < c.maxStates

/-- Members are given up, the weakest first, until a state of the given cost can be admitted. -/
def makeRoom (cost : Nat) (c : Compartment) (s : Store) :
    EStateM.Result Error (Compartment × Store) Unit :=
  if c.hasRoom cost then .ok () (c, s)
  else
    match _ : c.weakest? with
    | none => .error (.outOfResources .stateMemory) (c, s)
    | some m => makeRoom cost (c.without m) (s.release m.key true)
termination_by c.members.length
decreasing_by exact length_members_without (List.minOn?_mem ‹c.weakest? = some m›)

/-! ## Admission -/

/-- The member of an identifier. -/
def member? (c : Compartment) (id : StateId) : Option Member := c.members.find? (·.id = id)

/-- The member of an identifier gets a new priority and keeps its place. -/
def reprioritize (c : Compartment) (id : StateId) (priority : UInt16) : Compartment :=
  { c with members := c.members.map fun m => if m.id = id then { m with priority } else m }

/-- The compartment with one member more, the last to be admitted. -/
def enroll (c : Compartment) (key : Key) (l : Label) (length : Nat) : Compartment :=
  let m : Member := ⟨key, l.id, length, l.priority, c.admitted + 1⟩
  { c with
    members := c.members ++ [m]
    admitted := m.order
    available := c.available - m.cost }

/-- A state that the compartment does not hold yet is saved, once there is room for it.  The buffer
is reserved before room is made, and given back if none can be. -/
def acceptNew (l : Label) (content : Content) : Action Saved := fun (c, s) =>
  match Store.create content.length s with
  | .error e s => .error e (c, s)
  | .ok draft s =>
    match makeRoom (content.length + stateOverhead) c s with
    | .error e (c, s) => .error e (c, s.drop draft)
    | .ok () (c, s) =>
      match Store.save draft l content s with
      | .error e s => .error e (c, s)
      | .ok saved s => .ok saved (c.enroll saved.key l content.length, s)

/-- A state becomes a member.  One that is a member already only gets its new priority, if it is the
same state. -/
def accept (l : Label) (content : Content) : Action Saved := fun (c, s) =>
  if StateId.isPartialLength l.access.toNat then
    match c.member? l.id with
    | some m =>
      if (s.state? m.key).any fun state => content.agrees state.data then
        .ok (.duplicate m.key) (c.reprioritize l.id l.priority, s)
      else .error .collision (c, s)
    | none =>
      if c.own.stateMemory < content.length + stateOverhead then
        .error (.badParam .stateMemory) (c, s)
      else acceptNew l content (c, s)
  else .error (.badParam .accessLength) (c, s)

/-! ## Expulsion -/

/-- The member named by a prefix is given up; states of other compartments are not found. -/
def expel (partialId : Bytes) : Action Unit := fun (c, s) =>
  match s.findKey partialId true with
  | .error e => .error e (c, s)
  | .ok k =>
    match c.members.find? (·.key = k) with
    | none => .error .notFound (c, s)
    | some m => .ok () (c.without m, s.release k true)

/-- What is left in the store when a compartment ends: its members are released in order. -/
def releaseAll (c : Compartment) (s : Store) : Store :=
  c.members.foldl (fun s m => s.release m.key true) s

end SigComp.Compartment
