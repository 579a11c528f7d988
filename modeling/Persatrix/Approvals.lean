import Persatrix.Bytes
import Persatrix.Timestamps
import Persatrix.AuditEvent
import Mathlib.Data.List.Nodup

/-!
# Approval rows

The table of the approvals that wait for a person, under the constraints of its schema: a table
that breaks one cannot be built.
-/
namespace Persatrix.Society

inductive Kind where
  | action | graphChange | tie
  | unknown (name : GoString)
deriving DecidableEq

inductive State where
  | unset | pending | approved | denied | expired | withdrawn | spent
  | unknown (name : GoString)
deriving DecidableEq

/-- The queue's lifecycle. -/
def moves : State → List State
  | .pending => [.approved, .denied, .expired, .withdrawn]
  | .approved => [.spent, .expired, .withdrawn]
  | _ => []

structure HeldTurn where
  protectionLevel : GoString
  cascadeDepth : ℤ
  origin : GoString

/-- A row of the table; a column that is NULL is `none`. -/
structure Row where
  id : GoString
  kind : Kind
  actorID : GoString
  actionHash : GoString
  nonce : GoString
  state : State
  expiresAt : ℤ
  /-- The three columns of a held turn are NULL together. -/
  held : Option HeldTurn
  tieGroup : Option GoString
  payload : Option GoString
  decidedBy : Option GoString
  decidedAt : Option ℤ
  deliveredAt : Option ℤ
  createdAt : ℤ

namespace Row

def isOpen (r : Row) : Bool := r.state = .pending || r.state = .approved

def action (r : Row) : GoString × GoString := (r.actorID, r.actionHash)

/-- The checks of the table. -/
structure Checked (r : Row) : Prop where
  kind : r.kind = .action ∨ r.kind = .graphChange ∨ r.kind = .tie
  state : r.state ∈ [State.pending, .approved, .denied, .expired, .withdrawn, .spent]
  held : r.held.isSome = true → r.kind = .action
  depth : ∀ turn ∈ r.held, 0 ≤ turn.cascadeDepth
  tie : r.kind = .tie ↔ r.tieGroup.isSome = true
  decision : r.decidedBy.isSome = r.decidedAt.isSome
  payload : r.isOpen = true ∨ r.payload = none

instance (r : Row) : Decidable r.Checked :=
  decidable_of_iff
    ((r.kind = .action ∨ r.kind = .graphChange ∨ r.kind = .tie) ∧
      r.state ∈ [State.pending, .approved, .denied, .expired, .withdrawn, .spent] ∧
      (r.held.isSome = true → r.kind = .action) ∧ (∀ turn ∈ r.held, 0 ≤ turn.cascadeDepth) ∧
      (r.kind = .tie ↔ r.tieGroup.isSome = true) ∧ r.decidedBy.isSome = r.decidedAt.isSome ∧
      (r.isOpen = true ∨ r.payload = none))
    ⟨fun ⟨hkind, hstate, hheld, hdepth, htie, hdecision, hpayload⟩ =>
      ⟨hkind, hstate, hheld, hdepth, htie, hdecision, hpayload⟩,
    fun h => ⟨h.kind, h.state, h.held, h.depth, h.tie, h.decision, h.payload⟩⟩

end Row

/-- What every stored table satisfies. -/
structure Consistent (rows : List Row) : Prop where
  checked : ∀ r ∈ rows, r.Checked
  ids : (rows.map Row.id).Nodup
  nonces : (rows.map Row.nonce).Nodup
  opens : ((rows.filter Row.isOpen).map Row.action).Nodup

instance (rows : List Row) : Decidable (Consistent rows) :=
  decidable_of_iff
    ((∀ r ∈ rows, r.Checked) ∧ (rows.map Row.id).Nodup ∧ (rows.map Row.nonce).Nodup ∧
      ((rows.filter Row.isOpen).map Row.action).Nodup)
    ⟨fun ⟨hchecked, hids, hnonces, hopens⟩ => ⟨hchecked, hids, hnonces, hopens⟩,
    fun h => ⟨h.checked, h.ids, h.nonces, h.opens⟩⟩

/-- The rows in the order of their rowids. -/
structure Table where
  rows : List Row
  consistent : Consistent rows

/-- A constraint that refuses a statement, as the driver's code tells it. -/
inductive Constraint where
  | check
  | primaryKey
  | unique
deriving DecidableEq

namespace Table

def empty : Table := ⟨[], fun _ hr => (by cases hr), List.nodup_nil, List.nodup_nil, List.nodup_nil⟩

/-- The first constraint that a list of rows breaks. -/
def broken (rows : List Row) : Constraint :=
  if ¬∀ r ∈ rows, r.Checked then .check
  else if ¬(rows.map Row.id).Nodup then .primaryKey
  else .unique

/-- A statement writes rows, or fails and leaves the table. -/
def write (rows : List Row) : Except Constraint Table :=
  if h : Consistent rows then .ok ⟨rows, h⟩ else .error (broken rows)

def insert (t : Table) (r : Row) : Except Constraint Table := write (t.rows ++ [r])

def update (t : Table) (select : Row → Bool) (f : Row → Row) : Except Constraint Table :=
  write (t.rows.map fun r => if select r then f r else r)

variable {t t' : Table}

theorem rows_of_write {rows : List Row} (h : write rows = .ok t) : t.rows = rows := by
  unfold write at h
  split_ifs at h
  cases h
  rfl

theorem write_of_consistent {rows : List Row} (h : Consistent rows) : write rows = .ok ⟨rows, h⟩ :=
  dif_pos h

/-- The rows that are open after a change were so before. -/
theorem sublist_opens {g : Row → Row} (haction : ∀ r, (g r).action = r.action) {rows : List Row}
    (hopen : ∀ r ∈ rows, (g r).isOpen = true → r.isOpen = true) :
    (((rows.map g).filter Row.isOpen).map Row.action).Sublist
      ((rows.filter Row.isOpen).map Row.action) := by
  induction rows with
  | nil => exact List.Sublist.refl _
  | cons r rows ih =>
    have hrest := ih fun r' hr' => hopen r' (List.mem_cons_of_mem _ hr')
    rw [List.map_cons]
    by_cases hafter : (g r).isOpen = true
    · have hbefore := hopen r List.mem_cons_self hafter
      rw [List.filter_cons_of_pos hafter, List.filter_cons_of_pos hbefore, List.map_cons,
        List.map_cons, haction]
      exact hrest.cons_cons _
    · rw [List.filter_cons_of_neg hafter]
      by_cases hbefore : r.isOpen = true
      · rw [List.filter_cons_of_pos hbefore, List.map_cons]
        exact hrest.cons _
      · rw [List.filter_cons_of_neg hbefore]
        exact hrest

/-- An update that keeps the keys of the rows, and opens none, breaks no unique constraint. -/
theorem update_ok {select : Row → Bool} {f : Row → Row}
    (hchecked : ∀ r ∈ t.rows, select r = true → (f r).Checked)
    (hid : ∀ r, (f r).id = r.id) (hnonce : ∀ r, (f r).nonce = r.nonce)
    (haction : ∀ r, (f r).action = r.action)
    (hopen : ∀ r ∈ t.rows, select r = true → (f r).isOpen = true → r.isOpen = true) :
    ∃ t', t.update select f = .ok t' ∧
      t'.rows = t.rows.map fun r => if select r then f r else r := by
  have hmap {β : Type} (g : Row → β) (hg : ∀ r, g (f r) = g r) (rows : List Row) :
      (rows.map fun r => if select r then f r else r).map g = rows.map g := by
    rw [List.map_map]
    apply List.map_congr_left
    intro r _
    dsimp only [Function.comp_apply]
    split_ifs
    · exact hg r
    · rfl
  have hconsistent : Consistent (t.rows.map fun r => if select r then f r else r) := by
    refine ⟨?_, ?_, ?_, ?_⟩
    · intro r hr
      obtain ⟨r', hr', rfl⟩ := List.mem_map.mp hr
      split_ifs with hselect
      · exact hchecked r' hr' hselect
      · exact t.consistent.checked r' hr'
    · rw [hmap Row.id hid]
      exact t.consistent.ids
    · rw [hmap Row.nonce hnonce]
      exact t.consistent.nonces
    · refine t.consistent.opens.sublist (sublist_opens (fun r => ?_) fun r hr => ?_)
      · split_ifs
        · exact haction r
        · rfl
      · split_ifs with hselect
        · exact hopen r hr hselect
        · exact id
  exact ⟨⟨_, hconsistent⟩, write_of_consistent hconsistent, rfl⟩

end Table
end Persatrix.Society

/-!
## The approval queue

The store opens a row, and moves one row or all that a query selects. What is JSON is a parameter.
A time is stored as its unix seconds.
-/
namespace Persatrix.Society

/-- The first of January 1970, on the clock of `Time`. -/
def unixEpoch : ℤ := Time.zero.sec + 62135596800

def unix (t : Time) : ℤ := t.sec - unixEpoch

def unixOrNull (t : Time) : Option ℤ := if t.isZero then none else some (unix t)

def fromUnix : Option ℤ → Time
  | none => Time.zero
  | some n => ⟨n + unixEpoch, 0, 0, Time.nsec_zero⟩

structure Approval where
  id : GoString
  kind : Kind
  actorID : GoString
  actionHash : GoString
  nonce : GoString
  state : State
  expiresAt : Time
  held : Option HeldTurn
  tieGroup : GoString
  payload : GoString
  decidedBy : GoString
  decidedAt : Time
  deliveredAt : Time
  createdAt : Time

structure Move where
  source : State
  target : State
  decidedBy : GoString
  decidedAt : Time

structure ApprovalQuery where
  state : State
  isOpen : Bool
  actorID : GoString
  actionHash : GoString
  tieGroup : GoString
  expiredBy : Time
  limit : ℤ

/-- Why a call is refused before a table is touched. -/
inductive Invalid where
  | missing (id : GoString) (fields : List GoString)
  | unknownKind (id : GoString) (kind : Kind)
  | payloadNotJSON (id : GoString)
  | storeMakesNonce (id : GoString)
  | opensPending (id : GoString) (state : State)
  | opensUndecided (id : GoString)
  | heldTurn (id : GoString)
  | cascadeDepth (id : GoString) (depth : ℤ)
  | tieGroup (id : GoString)
  | neverMoves (source target : State)
  | halfDecision
  | unnamedDecision (target : State)
  | oneAtATime (target : State)
  | bulkLimit (limit : ℤ)
  | settled (state : State)
  | stateAndOpen

inductive Error where
  | invalid (why : Invalid)
  | makeNonce
  | openApprovalExists (actorID actionHash : GoString)
  | openApproval (id : GoString) (constraint : Constraint)
  | notFound (id : GoString)
  | wrongState (id : GoString) (want got : State)
  | expired (id : GoString) (at' : Time)
  | moveApproval (id : GoString) (constraint : Constraint)
  | moveApprovals (constraint : Constraint)

def Row.scan (r : Row) : Approval where
  id := r.id
  kind := r.kind
  actorID := r.actorID
  actionHash := r.actionHash
  nonce := r.nonce
  state := r.state
  expiresAt := fromUnix r.expiresAt
  held := r.held
  tieGroup := r.tieGroup.getD []
  payload := r.payload.getD []
  decidedBy := r.decidedBy.getD []
  decidedAt := fromUnix r.decidedAt
  deliveredAt := fromUnix r.deliveredAt
  createdAt := fromUnix r.createdAt

/-! ### Opening a row -/

/-- The names of the fields that every row needs and this one has not, sorted. -/
def missing (a : Approval) : List GoString :=
  (if a.actionHash = [] then [ascii "action hash"] else []) ++
    (if a.actorID = [] then [ascii "actor"] else []) ++
    (if a.expiresAt.isZero then [ascii "expiry"] else []) ++
    (if a.id = [] then [ascii "id"] else [])

def checkNew (jsonValid : GoString → Bool) (a : Approval) : Except Invalid Unit :=
  if missing a ≠ [] then .error (.missing a.id (missing a))
  else if a.kind ≠ .action ∧ a.kind ≠ .graphChange ∧ a.kind ≠ .tie then
    .error (.unknownKind a.id a.kind)
  else if a.payload ≠ [] ∧ jsonValid a.payload = false then .error (.payloadNotJSON a.id)
  else if a.nonce ≠ [] ∨ a.createdAt.isZero = false then .error (.storeMakesNonce a.id)
  else if a.state ≠ .unset ∧ a.state ≠ .pending then .error (.opensPending a.id a.state)
  else if a.decidedBy ≠ [] ∨ a.decidedAt.isZero = false ∨ a.deliveredAt.isZero = false then
    .error (.opensUndecided a.id)
  else if a.held.isSome = true ∧ a.kind ≠ .action then .error (.heldTurn a.id)
  else if ∃ turn ∈ a.held, turn.cascadeDepth < 0 then
    .error (.cascadeDepth a.id ((a.held.map HeldTurn.cascadeDepth).getD 0))
  else if (a.kind = .tie) ≠ (a.tieGroup ≠ []) then .error (.tieGroup a.id)
  else .ok ()

def text (s : GoString) : Option GoString := if s = [] then none else some s

def newRow (now : Time) (raw : GoString) (a : Approval) : Row where
  id := a.id
  kind := a.kind
  actorID := a.actorID
  actionHash := a.actionHash
  nonce := Security.hexString raw
  state := .pending
  expiresAt := unix a.expiresAt
  held := a.held
  tieGroup := text a.tieGroup
  payload := text a.payload
  decidedBy := none
  decidedAt := none
  deliveredAt := none
  createdAt := unix now

/-- The index of the open rows has refused the row. -/
def openRowTaken (t : Table) (constraint : Constraint) (a : Approval) : Bool :=
  constraint = .unique &&
    t.rows.any fun r => r.actorID = a.actorID && r.actionHash = a.actionHash && r.isOpen

/-- The nonce is made of random bytes, if there are any. -/
def openApproval (jsonValid : GoString → Bool) (now : Time) (raw : Option GoString) (a : Approval)
    (t : Table) : Table × Except Error (List Approval) :=
  match checkNew jsonValid a with
  | .error why => (t, .error (.invalid why))
  | .ok () =>
    match raw with
    | none => (t, .error .makeNonce)
    | some raw =>
      match t.insert (newRow now raw a) with
      | .ok t' => (t', .ok [(newRow now raw a).scan])
      | .error constraint =>
        if openRowTaken t constraint a then
          (t, .error (.openApprovalExists a.actorID a.actionHash))
        else (t, .error (.openApproval a.id constraint))

/-! ### Moving a row -/

def decision (target : State) : Bool := target = .approved || target = .denied

/-- A decision or a spend needs a live row. -/
def needsLive (target : State) : Bool := decision target || target = .spent

def checkMove (m : Move) : Except Invalid Unit :=
  if m.target ∉ moves m.source then .error (.neverMoves m.source m.target)
  else if decide (m.decidedBy = []) ≠ m.decidedAt.isZero then .error .halfDecision
  else if decision m.target = true ∧ m.decidedBy = [] then .error (.unnamedDecision m.target)
  else .ok ()

/-- The rows that the statement moves. -/
def Move.selects (now : Time) (id : GoString) (m : Move) (r : Row) : Bool :=
  r.id = id && r.state = m.source && (!needsLive m.target || decide (unix now < r.expiresAt))

def Move.apply (m : Move) (r : Row) : Row :=
  { r with
    state := m.target
    payload := if m.target ≠ .approved then none else r.payload
    decidedBy := (text m.decidedBy).or r.decidedBy
    decidedAt := (unixOrNull m.decidedAt).or r.decidedAt
    deliveredAt := none }

/-- Why a statement has moved nothing. -/
def whyNot (id : GoString) (m : Move) (t : Table) : Error :=
  match t.rows.find? fun r => r.id = id with
  | none => .notFound id
  | some stored =>
    if stored.state ≠ m.source then .wrongState id m.source stored.state
    else .expired id (fromUnix stored.expiresAt)

def moveApproval (now : Time) (id : GoString) (m : Move) (t : Table) :
    Table × Except Error (List Approval) :=
  match checkMove m with
  | .error why => (t, .error (.invalid why))
  | .ok () =>
    match t.update (m.selects now id) m.apply with
    | .error constraint => (t, .error (.moveApproval id constraint))
    | .ok t' =>
      match t.rows.find? (m.selects now id) with
      | some r => (t', .ok [(m.apply r).scan])
      | none => (t, .error (whyNot id m t))

/-! ### Moving the rows that a query selects -/

/-- The conditions that a query selects by. -/
def approvalWhere (q : ApprovalQuery) : Except Invalid (List (Row → Bool)) :=
  if q.state ≠ .unset ∧ q.isOpen = true then .error .stateAndOpen
  else .ok (
    (if q.isOpen then [Row.isOpen] else []) ++
    (if q.state ≠ .unset then [fun r => decide (r.state = q.state)] else []) ++
    (if q.actorID ≠ [] then [fun r => decide (r.actorID = q.actorID)] else []) ++
    (if q.actionHash ≠ [] then [fun r => decide (r.actionHash = q.actionHash)] else []) ++
    (if q.tieGroup ≠ [] then [fun r => decide (r.tieGroup = some q.tieGroup)] else []) ++
    (if q.expiredBy.isZero = false then [fun r => decide (r.expiresAt ≤ unix q.expiredBy)] else []))

def checkBulk (q : ApprovalQuery) (target : State) : Except Invalid Unit :=
  if target ≠ .expired ∧ target ≠ .withdrawn then .error (.oneAtATime target)
  else if q.limit ≠ 0 then .error (.bulkLimit q.limit)
  else if q.state ≠ .unset ∧ moves q.state = [] then .error (.settled q.state)
  else .ok ()

/-- A query for no state is one for the open rows. -/
def ApprovalQuery.openByDefault (q : ApprovalQuery) : ApprovalQuery :=
  if q.state = .unset then { q with isOpen := true } else q

def settle (target : State) (r : Row) : Row :=
  { r with state := target, payload := none, deliveredAt := none }

def moveApprovals (q : ApprovalQuery) (target : State) (t : Table) :
    Table × Except Error (List Approval) :=
  match checkBulk q target with
  | .error why => (t, .error (.invalid why))
  | .ok () =>
    match approvalWhere q.openByDefault with
    | .error why => (t, .error (.invalid why))
    | .ok conditions =>
      let selected (r : Row) : Bool := conditions.all fun condition => condition r
      match t.update selected (settle target) with
      | .error constraint => (t, .error (.moveApprovals constraint))
      | .ok t' => (t', .ok ((t.rows.filter selected).map fun r => (settle target r).scan))

end Persatrix.Society
