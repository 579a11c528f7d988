import Persatrix.Bytes
import Persatrix.OrderedRows
import Mathlib.Data.List.Lex
import Mathlib.Data.List.Nodup

/-!
# The tables of the organization graph

The rows of the graph under the keys of its tables and what they refer to, with the graph's
version: tables that break a constraint cannot be built.
-/
namespace Persatrix.Society

structure OrganizationRow where
  id : GoString
  name : GoString
  topology : GoString
deriving DecidableEq

structure RoleRow where
  organizationID : GoString
  id : GoString
  authority : GoString
deriving DecidableEq

structure MemberRow where
  organizationID : GoString
  agentID : GoString
  roleID : GoString
deriving DecidableEq

structure ManagesRow where
  organizationID : GoString
  managerID : GoString
  reportID : GoString
  scope : GoString
deriving DecidableEq

/-- A text orders by its bytes. -/
def collate (s : GoString) : List ℕ := s.map UInt8.toNat

theorem collate_injective : Function.Injective collate :=
  List.map_injective_iff.mpr fun _ _ => UInt8.toNat_inj.mp

def OrganizationRow.key (o : OrganizationRow) : List (List ℕ) := [collate o.id]

def RoleRow.key (r : RoleRow) : List (List ℕ) := [collate r.organizationID, collate r.id]

def MemberRow.key (m : MemberRow) : List (List ℕ) := [collate m.organizationID, collate m.agentID]

def MemberRow.role (m : MemberRow) : List (List ℕ) := [collate m.organizationID, collate m.roleID]

def ManagesRow.key (e : ManagesRow) : List (List ℕ) :=
  [collate e.organizationID, collate e.managerID, collate e.reportID, collate e.scope]

def ManagesRow.manager (e : ManagesRow) : List (List ℕ) :=
  [collate e.organizationID, collate e.managerID]

def ManagesRow.report (e : ManagesRow) : List (List ℕ) :=
  [collate e.organizationID, collate e.reportID]

structure GraphRows where
  organizations : List OrganizationRow
  roles : List RoleRow
  members : List MemberRow
  manages : List ManagesRow

namespace GraphRows

def empty : GraphRows := ⟨[], [], [], []⟩

/-- No two rows of a table have one key. -/
structure Keyed (rows : GraphRows) : Prop where
  organizations : (rows.organizations.map OrganizationRow.key).Nodup
  roles : (rows.roles.map RoleRow.key).Nodup
  members : (rows.members.map MemberRow.key).Nodup
  manages : (rows.manages.map ManagesRow.key).Nodup

/-- What a row refers to is there. -/
structure Referring (rows : GraphRows) : Prop where
  role : ∀ r ∈ rows.roles, [collate r.organizationID] ∈ rows.organizations.map OrganizationRow.key
  member : ∀ m ∈ rows.members,
    [collate m.organizationID] ∈ rows.organizations.map OrganizationRow.key
  memberRole : ∀ m ∈ rows.members, m.role ∈ rows.roles.map RoleRow.key
  manager : ∀ e ∈ rows.manages, e.manager ∈ rows.members.map MemberRow.key
  report : ∀ e ∈ rows.manages, e.report ∈ rows.members.map MemberRow.key

instance (rows : GraphRows) : Decidable rows.Keyed :=
  decidable_of_iff
    ((rows.organizations.map OrganizationRow.key).Nodup ∧ (rows.roles.map RoleRow.key).Nodup ∧
      (rows.members.map MemberRow.key).Nodup ∧ (rows.manages.map ManagesRow.key).Nodup)
    ⟨fun ⟨ho, hr, hm, he⟩ => ⟨ho, hr, hm, he⟩,
    fun h => ⟨h.organizations, h.roles, h.members, h.manages⟩⟩

instance (rows : GraphRows) : Decidable rows.Referring :=
  decidable_of_iff
    ((∀ r ∈ rows.roles, [collate r.organizationID] ∈ rows.organizations.map OrganizationRow.key) ∧
      (∀ m ∈ rows.members,
        [collate m.organizationID] ∈ rows.organizations.map OrganizationRow.key) ∧
      (∀ m ∈ rows.members, m.role ∈ rows.roles.map RoleRow.key) ∧
      (∀ e ∈ rows.manages, e.manager ∈ rows.members.map MemberRow.key) ∧
      ∀ e ∈ rows.manages, e.report ∈ rows.members.map MemberRow.key)
    ⟨fun ⟨hr, hm, hmr, hmanager, hreport⟩ => ⟨hr, hm, hmr, hmanager, hreport⟩,
    fun h => ⟨h.role, h.member, h.memberRole, h.manager, h.report⟩⟩

/-- The rows that stay when organizations are gone: a row goes with what it refers to, but a member
not with its role. -/
def cascade (rows : GraphRows) : GraphRows :=
  let members := rows.members.filter fun m =>
    [collate m.organizationID] ∈ rows.organizations.map OrganizationRow.key
  { organizations := rows.organizations
    roles := rows.roles.filter fun r =>
      [collate r.organizationID] ∈ rows.organizations.map OrganizationRow.key
    members := members
    manages := rows.manages.filter fun e =>
      e.manager ∈ members.map MemberRow.key && e.report ∈ members.map MemberRow.key }

theorem cascade_none (rows : GraphRows) : cascade { rows with organizations := [] } = empty := by
  have hnone {α : Type} (l : List α) : l.filter (fun _ => false) = [] :=
    List.filter_eq_nil_iff.mpr fun _ _ h => Bool.false_ne_true h
  unfold cascade empty
  simp only [List.map_nil, List.not_mem_nil, decide_false, hnone, Bool.and_self]

end GraphRows

/-- What one statement inserts. -/
inductive Insert where
  | organization (o : OrganizationRow)
  | role (r : RoleRow)
  | member (m : MemberRow)
  | manages (e : ManagesRow)

def Insert.add (rows : GraphRows) : Insert → GraphRows
  | .organization o => { rows with organizations := rows.organizations ++ [o] }
  | .role r => { rows with roles := rows.roles ++ [r] }
  | .member m => { rows with members := rows.members ++ [m] }
  | .manages e => { rows with manages := rows.manages ++ [e] }

@[ext]
structure GraphTables where
  version : ℤ
  rows : GraphRows
  keyed : rows.Keyed
  referring : rows.Referring
  version_nonneg : 0 ≤ version

inductive GraphConstraint where
  | primaryKey
  | foreignKey
deriving DecidableEq

namespace GraphTables

theorem keyed_empty : GraphRows.empty.Keyed :=
  ⟨List.nodup_nil, List.nodup_nil, List.nodup_nil, List.nodup_nil⟩

theorem referring_empty : GraphRows.empty.Referring :=
  ⟨fun _ h => (by cases h), fun _ h => (by cases h), fun _ h => (by cases h),
    fun _ h => (by cases h), fun _ h => (by cases h)⟩

def new : GraphTables := ⟨0, .empty, keyed_empty, referring_empty, le_rfl⟩

/-- A statement inserts its row, or fails and leaves the tables. -/
def insert (t : GraphTables) (i : Insert) : Except GraphConstraint GraphTables :=
  if hkeyed : (i.add t.rows).Keyed then
    if hreferring : (i.add t.rows).Referring then
      .ok ⟨t.version, i.add t.rows, hkeyed, hreferring, t.version_nonneg⟩
    else .error .foreignKey
  else .error .primaryKey

/-- All organizations are deleted, and what refers to them. -/
def deleteOrganizations (t : GraphTables) : GraphTables where
  version := t.version
  rows := ({ t.rows with organizations := [] } : GraphRows).cascade
  keyed := by
    rw [GraphRows.cascade_none]
    exact keyed_empty
  referring := by
    rw [GraphRows.cascade_none]
    exact referring_empty
  version_nonneg := t.version_nonneg

/-- The version is written if it goes up; whether it was. -/
def updateVersion (t : GraphTables) (version : ℤ) : GraphTables × Bool :=
  if h : t.version < version then
    (⟨version, t.rows, t.keyed, t.referring, t.version_nonneg.trans h.le⟩, true)
  else (t, false)

end GraphTables
end Persatrix.Society

/-!
## The store of the organization graph

The graph is replaced under a savepoint, statement by statement, and read by four queries. A
statement whose context is done does not run.
-/
namespace Persatrix.Society

structure Role where
  id : GoString
  authority : GoString
deriving DecidableEq

structure Member where
  agentID : GoString
  roleID : GoString
deriving DecidableEq

structure Manages where
  managerID : GoString
  reportID : GoString
  scope : GoString
deriving DecidableEq

structure Organization where
  id : GoString
  name : GoString
  topology : GoString
  roles : List Role
  members : List Member
  manages : List Manages
deriving DecidableEq

structure Graph where
  version : ℤ
  organizations : List Organization
deriving DecidableEq

/-- The statement that a call's error is about. -/
inductive GraphStatement where
  | savepoint
  | version
  | readVersion
  | clear
  | insert (i : Insert)

inductive GraphError where
  /-- The context was done before the statement. -/
  | done (s : GraphStatement)
  | refused (i : Insert) (constraint : GraphConstraint)
  | graphVersion (version stored : ℤ)
  | unknownOrganization (id : GoString)

/-! ### The statements of a call -/

/-- How many statements a context lets run before it is done, if it ever is. -/
abbrev Context := Option ℕ

/-- A call on the connection, with the savepoints that are set, the newest first. -/
structure GraphCall where
  context : Context
  tables : GraphTables
  savepoints : List GraphTables

/-- The context after a statement, unless it is done before. -/
def Context.next : Context → Option Context
  | none => some none
  | some 0 => none
  | some (n + 1) => some (some n)

abbrev GraphAction := GraphCall → GraphCall × Except GraphError Unit

/-- A statement runs, or fails as its context is done. -/
def statement (s : GraphStatement)
    (run : GraphTables → List GraphTables → (GraphTables × List GraphTables) × Except GraphError Unit) :
    GraphAction := fun c =>
  match c.context.next with
  | none => (c, .error (.done s))
  | some context =>
    match run c.tables c.savepoints with
    | ((tables, savepoints), result) => (⟨context, tables, savepoints⟩, result)

def GraphAction.andThen (f g : GraphAction) : GraphAction := fun c =>
  match f c with
  | (c, .ok ()) => g c
  | (c, .error e) => (c, .error e)

/-- An action for each, up to the first that fails. -/
def GraphAction.each {α : Type} (f : α → GraphAction) : List α → GraphAction
  | [] => fun c => (c, .ok ())
  | a :: l => (f a).andThen (each f l)

def savepoint : GraphAction :=
  statement .savepoint fun t saved => ((t, t :: saved), .ok ())

/-- `ROLLBACK TO` keeps its savepoint. -/
def rollbackTo : GraphAction :=
  statement .savepoint fun t saved => ((saved.headD t, saved), .ok ())

def release : GraphAction :=
  statement .savepoint fun t saved => ((t, saved.tail), .ok ())

def raiseGraphVersion (version : ℤ) : GraphAction := fun c =>
  match c.context.next with
  | none => (c, .error (.done .version))
  | some context =>
    match c.tables.updateVersion version with
    | (t, true) => (⟨context, t, c.savepoints⟩, .ok ())
    | (t, false) =>
      statement .readVersion (fun t saved => ((t, saved), .error (.graphVersion version t.version)))
        ⟨context, t, c.savepoints⟩

def clear : GraphAction :=
  statement .clear fun t saved => ((t.deleteOrganizations, saved), .ok ())

def insertRow (i : Insert) : GraphAction :=
  statement (.insert i) fun t saved =>
    match t.insert i with
    | .ok t' => ((t', saved), .ok ())
    | .error constraint => ((t, saved), .error (.refused i constraint))

def roleRow (organization : GoString) (r : Role) : RoleRow := ⟨organization, r.id, r.authority⟩

def memberRow (organization : GoString) (m : Member) : MemberRow :=
  ⟨organization, m.agentID, m.roleID⟩

def managesRow (organization : GoString) (e : Manages) : ManagesRow :=
  ⟨organization, e.managerID, e.reportID, e.scope⟩

def insertOrganization (o : Organization) : GraphAction :=
  (insertRow (.organization ⟨o.id, o.name, o.topology⟩)).andThen
    ((GraphAction.each (fun r => insertRow (.role (roleRow o.id r))) o.roles).andThen
      ((GraphAction.each (fun m => insertRow (.member (memberRow o.id m))) o.members).andThen
        (GraphAction.each (fun e => insertRow (.manages (managesRow o.id e))) o.manages)))

/-- The statements between the savepoint and the deferred ones. -/
def replaceRows (g : Graph) : GraphAction :=
  (raiseGraphVersion g.version).andThen
    (clear.andThen (GraphAction.each insertOrganization g.organizations))

/-- The deferred statements run with the call's own context, and what they answer is dropped. -/
def replaceGraph (g : Graph) : GraphAction := fun c =>
  match savepoint c with
  | (c, .error e) => (c, .error e)
  | (c, .ok ()) =>
    match replaceRows g c with
    | (c, .ok ()) => ((release c).1, .ok ())
    | (c, .error e) => ((release (rollbackTo c).1).1, .error e)

/-! ### Reading the graph -/

/-- A row joins the organization that has its id. -/
def join (id : GoString) (f : Organization → Organization) (organizations : List Organization) :
    Except GraphError (List Organization) :=
  if organizations.any fun o => o.id = id then
    .ok (organizations.map fun o => if o.id = id then f o else o)
  else .error (.unknownOrganization id)

def RoleRow.addTo (r : RoleRow) (o : Organization) : Organization :=
  { o with roles := o.roles ++ [⟨r.id, r.authority⟩] }

def MemberRow.addTo (m : MemberRow) (o : Organization) : Organization :=
  { o with members := o.members ++ [⟨m.agentID, m.roleID⟩] }

def ManagesRow.addTo (e : ManagesRow) (o : Organization) : Organization :=
  { o with manages := o.manages ++ [⟨e.managerID, e.reportID, e.scope⟩] }

/-- The rows of a query join their organizations one after the other. -/
def joinAll {ρ : Type} (id : ρ → GoString) (put : ρ → Organization → Organization) (rows : List ρ)
    (organizations : List Organization) : Except GraphError (List Organization) :=
  rows.foldlM (fun os r => join (id r) (put r) os) organizations

def graph (t : GraphTables) : Except GraphError Graph :=
  let bare := (orderBy OrganizationRow.key t.rows.organizations).map fun o =>
    (⟨o.id, o.name, o.topology, [], [], []⟩ : Organization)
  (joinAll RoleRow.organizationID RoleRow.addTo (orderBy RoleRow.key t.rows.roles) bare).bind
    fun os => (joinAll MemberRow.organizationID MemberRow.addTo
      (orderBy MemberRow.key t.rows.members) os).bind
    fun os => (joinAll ManagesRow.organizationID ManagesRow.addTo
      (orderBy ManagesRow.key t.rows.manages) os).map
    fun os => ⟨t.version, os⟩

/-- An organization with its lists in the order of their keys. -/
def Organization.canonical (o : Organization) : Organization :=
  { o with
    roles := orderBy (fun r => [collate r.id]) o.roles
    members := orderBy (fun m => [collate m.agentID]) o.members
    manages := orderBy (fun e => [collate e.managerID, collate e.reportID, collate e.scope])
      o.manages }

def Graph.canonical (g : Graph) : Graph :=
  ⟨g.version, orderBy (fun o => [collate o.id]) (g.organizations.map Organization.canonical)⟩

end Persatrix.Society

/-!
## What the graph's queries read

Of any tables each organization is read with the rows that belong to it, in the order of their
keys, and what its members and edges refer to is read with it.
-/
namespace Persatrix.Society

/-! ### Joining rows to organizations -/

section
variable {ρ : Type} (id : ρ → GoString) (put : ρ → Organization → Organization)

/-- Every row joins the organizations of its id. -/
theorem joinAll_eq (hput : ∀ r o, (put r o).id = o.id) (rows : List ρ)
    (organizations : List Organization)
    (h : ∀ r ∈ rows, id r ∈ organizations.map Organization.id) :
    joinAll id put rows organizations =
      .ok (organizations.map fun o =>
        (rows.filter fun r => id r = o.id).foldl (fun o r => put r o) o) := by
  induction rows generalizing organizations with
  | nil =>
    have hsame : (organizations.map fun o => o) = organizations := List.map_id' _
    exact congrArg Except.ok hsame.symm
  | cons r rows ih =>
    have hany : (organizations.any fun o => o.id = id r) = true := by
      obtain ⟨o, ho, hid⟩ := List.mem_map.mp (h r List.mem_cons_self)
      exact List.any_eq_true.mpr ⟨o, ho, decide_eq_true hid⟩
    have hids : (organizations.map fun o => if o.id = id r then put r o else o).map
        Organization.id = organizations.map Organization.id := by
      rw [List.map_map]
      refine List.map_congr_left fun o _ => ?_
      dsimp only [Function.comp_apply]
      split_ifs
      · exact hput r o
      · rfl
    have hrest : ∀ r' ∈ rows, id r' ∈ (organizations.map fun o =>
        if o.id = id r then put r o else o).map Organization.id := by
      intro r' hr'
      rw [hids]
      exact h r' (List.mem_cons_of_mem _ hr')
    have hjoin : join (id r) (put r) organizations =
        .ok (organizations.map fun o => if o.id = id r then put r o else o) := if_pos hany
    rw [joinAll, List.foldlM_cons, hjoin]
    refine (ih _ hrest).trans (congrArg Except.ok ?_)
    rw [List.map_map]
    refine List.map_congr_left fun o _ => ?_
    dsimp only [Function.comp_apply]
    by_cases ho : o.id = id r
    · have hself : decide (id r = o.id) = true := decide_eq_true ho.symm
      rw [if_pos ho, hput, List.filter_cons, if_pos hself, List.foldl_cons]
    · have hother : ¬decide (id r = o.id) = true := fun hr => ho (of_decide_eq_true hr).symm
      rw [if_neg ho, List.filter_cons, if_neg hother]

end

theorem roles_foldl (rows : List RoleRow) (o : Organization) :
    rows.foldl (fun o r => r.addTo o) o = { o with roles := o.roles ++ rows.map fun r => ⟨r.id, r.authority⟩ } := by
  induction rows generalizing o with
  | nil => rw [List.foldl_nil, List.map_nil, List.append_nil]
  | cons r rows ih =>
    rw [List.foldl_cons, ih, List.map_cons, RoleRow.addTo, List.append_assoc, List.singleton_append]

theorem members_foldl (rows : List MemberRow) (o : Organization) :
    rows.foldl (fun o m => m.addTo o) o = { o with members := o.members ++ rows.map fun m => ⟨m.agentID, m.roleID⟩ } := by
  induction rows generalizing o with
  | nil => rw [List.foldl_nil, List.map_nil, List.append_nil]
  | cons r rows ih =>
    rw [List.foldl_cons, ih, List.map_cons, MemberRow.addTo, List.append_assoc, List.singleton_append]

theorem manages_foldl (rows : List ManagesRow) (o : Organization) :
    rows.foldl (fun o e => e.addTo o) o = { o with manages := o.manages ++ rows.map fun e => ⟨e.managerID, e.reportID, e.scope⟩ } := by
  induction rows generalizing o with
  | nil => rw [List.foldl_nil, List.map_nil, List.append_nil]
  | cons r rows ih =>
    rw [List.foldl_cons, ih, List.map_cons, ManagesRow.addTo, List.append_assoc, List.singleton_append]

/-! ### The graph of some tables -/

/-- An organization with its rows, each table's in the order of its key. -/
def GraphRows.organization (rows : GraphRows) (o : OrganizationRow) : Organization where
  id := o.id
  name := o.name
  topology := o.topology
  roles := ((orderBy RoleRow.key rows.roles).filter fun r => r.organizationID = o.id).map fun r =>
    ⟨r.id, r.authority⟩
  members := ((orderBy MemberRow.key rows.members).filter fun m => m.organizationID = o.id).map
    fun m => ⟨m.agentID, m.roleID⟩
  manages := ((orderBy ManagesRow.key rows.manages).filter fun e => e.organizationID = o.id).map
    fun e => ⟨e.managerID, e.reportID, e.scope⟩

variable {t : GraphTables}

theorem mem_map_id {rows : GraphRows} {id : GoString}
    (h : [collate id] ∈ rows.organizations.map OrganizationRow.key) :
    ∃ o ∈ rows.organizations, o.id = id := by
  obtain ⟨o, ho, hkey⟩ := List.mem_map.mp h
  exact ⟨o, ho, collate_injective (List.cons.inj hkey).1⟩

/-- An edge belongs to the organization of its manager. -/
theorem manages_organization {e : ManagesRow} (he : e ∈ t.rows.manages) :
    ∃ o ∈ t.rows.organizations, o.id = e.organizationID := by
  obtain ⟨m, hm, hkey⟩ := List.mem_map.mp (t.referring.manager e he)
  obtain ⟨o, ho, hid⟩ := mem_map_id (t.referring.member m hm)
  exact ⟨o, ho, hid.trans (collate_injective (List.cons.inj hkey).1)⟩

theorem graph_eq (t : GraphTables) : graph t =
    .ok ⟨t.version, (orderBy OrganizationRow.key t.rows.organizations).map t.rows.organization⟩ := by
  have hmem : ∀ (f : OrganizationRow → Organization), (∀ o, (f o).id = o.id) →
      ∀ id, (∃ o ∈ t.rows.organizations, o.id = id) →
        id ∈ ((orderBy OrganizationRow.key t.rows.organizations).map f).map Organization.id := by
    rintro f hf id ⟨o, ho, rfl⟩
    rw [← hf o]
    exact List.mem_map_of_mem (List.mem_map_of_mem (mem_orderBy.mpr ho))
  have hroles : joinAll RoleRow.organizationID RoleRow.addTo (orderBy RoleRow.key t.rows.roles)
      ((orderBy OrganizationRow.key t.rows.organizations).map fun o =>
        (⟨o.id, o.name, o.topology, [], [], []⟩ : Organization)) =
      .ok ((orderBy OrganizationRow.key t.rows.organizations).map fun o =>
        { t.rows.organization o with members := [], manages := [] }) := by
    refine (joinAll_eq RoleRow.organizationID RoleRow.addTo (fun _ _ => rfl) _ _ fun r hr => ?_).trans (congrArg Except.ok ?_)
    · exact hmem _ (fun _ => rfl) _ (mem_map_id (t.referring.role r (mem_orderBy.mp hr)))
    · rw [List.map_map]
      refine List.map_congr_left fun o _ => ?_
      exact roles_foldl _ _
  have hmembers : joinAll MemberRow.organizationID MemberRow.addTo (orderBy MemberRow.key t.rows.members)
      ((orderBy OrganizationRow.key t.rows.organizations).map fun o =>
        { t.rows.organization o with members := [], manages := [] }) =
      .ok ((orderBy OrganizationRow.key t.rows.organizations).map fun o =>
        { t.rows.organization o with manages := [] }) := by
    refine (joinAll_eq MemberRow.organizationID MemberRow.addTo (fun _ _ => rfl) _ _ fun m hm => ?_).trans (congrArg Except.ok ?_)
    · exact hmem _ (fun _ => rfl) _ (mem_map_id (t.referring.member m (mem_orderBy.mp hm)))
    · rw [List.map_map]
      refine List.map_congr_left fun o _ => ?_
      exact members_foldl _ _
  have hmanages : joinAll ManagesRow.organizationID ManagesRow.addTo (orderBy ManagesRow.key t.rows.manages)
      ((orderBy OrganizationRow.key t.rows.organizations).map fun o =>
        { t.rows.organization o with manages := [] }) =
      .ok ((orderBy OrganizationRow.key t.rows.organizations).map t.rows.organization) := by
    refine (joinAll_eq ManagesRow.organizationID ManagesRow.addTo (fun _ _ => rfl) _ _ fun e he => ?_).trans (congrArg Except.ok ?_)
    · exact hmem _ (fun _ => rfl) _ (manages_organization (mem_orderBy.mp he))
    · rw [List.map_map]
      refine List.map_congr_left fun o _ => ?_
      exact manages_foldl _ _
  unfold graph
  dsimp only
  rw [hroles, Except.bind, hmembers, Except.bind, hmanages, Except.map]

/-! ### What is read together -/

/-- The members of an organization hold its roles, and its edges are between its members. -/
structure Organization.Closed (o : Organization) : Prop where
  role : ∀ m ∈ o.members, ∃ r ∈ o.roles, r.id = m.roleID
  manager : ∀ e ∈ o.manages, ∃ m ∈ o.members, m.agentID = e.managerID
  report : ∀ e ∈ o.manages, ∃ m ∈ o.members, m.agentID = e.reportID

theorem mem_members_of_key {o : OrganizationRow} {agentID : GoString} {organizationID : GoString}
    (ho : organizationID = o.id)
    (h : [collate organizationID, collate agentID] ∈ t.rows.members.map MemberRow.key) :
    ∃ m ∈ (t.rows.organization o).members, m.agentID = agentID := by
  obtain ⟨m, hm, hkey⟩ := List.mem_map.mp h
  have horganization : m.organizationID = organizationID :=
    collate_injective (List.cons.inj hkey).1
  have hagent : m.agentID = agentID :=
    collate_injective (List.cons.inj (List.cons.inj hkey).2).1
  refine ⟨⟨m.agentID, m.roleID⟩, List.mem_map.mpr ⟨m, ?_, rfl⟩, hagent⟩
  exact List.mem_filter.mpr ⟨mem_orderBy.mpr hm, decide_eq_true (horganization.trans ho)⟩

theorem closed_organization (t : GraphTables) (o : OrganizationRow) :
    (t.rows.organization o).Closed where
  role m hm := by
    obtain ⟨row, hrow, rfl⟩ := List.mem_map.mp hm
    obtain ⟨hrow, ho⟩ := List.mem_filter.mp hrow
    have ho : row.organizationID = o.id := of_decide_eq_true ho
    obtain ⟨r, hr, hkey⟩ := List.mem_map.mp (t.referring.memberRole row (mem_orderBy.mp hrow))
    have horganization : r.organizationID = row.organizationID :=
      collate_injective (List.cons.inj hkey).1
    have hrole : r.id = row.roleID :=
      collate_injective (List.cons.inj (List.cons.inj hkey).2).1
    refine ⟨⟨r.id, r.authority⟩, List.mem_map.mpr ⟨r, ?_, rfl⟩, hrole⟩
    exact List.mem_filter.mpr ⟨mem_orderBy.mpr hr, decide_eq_true (horganization.trans ho)⟩
  manager e he := by
    obtain ⟨row, hrow, rfl⟩ := List.mem_map.mp he
    obtain ⟨hrow, ho⟩ := List.mem_filter.mp hrow
    exact mem_members_of_key (of_decide_eq_true ho)
      (t.referring.manager row (mem_orderBy.mp hrow))
  report e he := by
    obtain ⟨row, hrow, rfl⟩ := List.mem_map.mp he
    obtain ⟨hrow, ho⟩ := List.mem_filter.mp hrow
    exact mem_members_of_key (of_decide_eq_true ho)
      (t.referring.report row (mem_orderBy.mp hrow))

end Persatrix.Society
