import Persatrix.GraphStore

/-!
# What replacing the graph does

A graph that the tables take replaces the old one. A call that fails leaves the old graph, unless
its context is done after the version is raised and before the savepoint is restored.
-/
namespace Persatrix.Society

/-! ### Actions one after the other -/

theorem GraphAction.andThen_assoc (f g h : GraphAction) :
    (f.andThen g).andThen h = f.andThen (g.andThen h) := by
  funext c
  unfold GraphAction.andThen
  rcases f c with ⟨c', result⟩
  cases result <;> rfl

theorem GraphAction.each_append {α : Type} (f : α → GraphAction) (l l' : List α) :
    GraphAction.each f (l ++ l') = (GraphAction.each f l).andThen (GraphAction.each f l') := by
  induction l with
  | nil => rfl
  | cons a l ih => rw [List.cons_append, each, ih, each, andThen_assoc]

theorem GraphAction.each_map {α β : Type} (f : β → GraphAction) (g : α → β) (l : List α) :
    GraphAction.each f (l.map g) = GraphAction.each (fun a => f (g a)) l := by
  induction l with
  | nil => rfl
  | cons a l ih => rw [List.map_cons, each, ih, each]

/-- The rows of an organization in the order in which they are inserted. -/
def Organization.inserts (o : Organization) : List Insert :=
  .organization ⟨o.id, o.name, o.topology⟩ ::
    (o.roles.map (fun r => .role (roleRow o.id r)) ++
      (o.members.map (fun m => .member (memberRow o.id m)) ++
        o.manages.map fun e => .manages (managesRow o.id e)))

def Graph.inserts (g : Graph) : List Insert := g.organizations.flatMap Organization.inserts

theorem insertOrganization_eq (o : Organization) :
    insertOrganization o = GraphAction.each insertRow o.inserts := by
  unfold insertOrganization Organization.inserts
  rw [GraphAction.each, GraphAction.each_append, GraphAction.each_append, GraphAction.each_map,
    GraphAction.each_map, GraphAction.each_map]

theorem each_insertOrganization (l : List Organization) : GraphAction.each insertOrganization l =
    GraphAction.each insertRow (l.flatMap Organization.inserts) := by
  induction l with
  | nil => rfl
  | cons o l ih =>
    rw [GraphAction.each, ih, insertOrganization_eq, List.flatMap_cons, GraphAction.each_append]

/-! ### Contexts -/

namespace Context

/-- Some statements run before the context is done. -/
def Allows (c : Context) (k : ℕ) : Prop := ∀ n, c = some n → k ≤ n

instance (c : Context) (k : ℕ) : Decidable (c.Allows k) :=
  match c with
  | none => isTrue fun _ h => (by cases h)
  | some n => decidable_of_iff (k ≤ n) ⟨fun h _ hn => Option.some.inj hn ▸ h, fun h => h n rfl⟩

def after (c : Context) (k : ℕ) : Context := c.map (· - k)

variable {c d : Context}

theorem after_zero (c : Context) : c.after 0 = c := by
  cases c <;> rfl

theorem eq_zero_of_next (h : c.next = none) : c = some 0 := by
  match c with
  | none => cases h
  | some 0 => rfl
  | some (n + 1) => cases h

theorem allows_succ (h : c.next = some d) (k : ℕ) : c.Allows (k + 1) ↔ d.Allows k := by
  match c with
  | none =>
    cases h
    exact ⟨fun _ n hn => (by cases hn), fun _ n hn => (by cases hn)⟩
  | some 0 => cases h
  | some (n + 1) =>
    cases h
    constructor
    · intro hc m hm
      cases hm
      exact Nat.le_of_succ_le_succ (hc _ rfl)
    · intro hd m hm
      cases hm
      exact Nat.succ_le_succ (hd _ rfl)

theorem after_succ (h : c.next = some d) (k : ℕ) : c.after (k + 1) = d.after k := by
  match c with
  | none =>
    cases h
    rfl
  | some 0 => cases h
  | some (n + 1) =>
    cases h
    exact congrArg some (Nat.add_sub_add_right n 1 k)

theorem allows_zero (c : Context) : c.Allows 0 := fun _ _ => Nat.zero_le _

/-- Of a context that lets some statements run one more runs if it lets that many run. -/
theorem allows_after {k : ℕ} (h : c.Allows k) (j : ℕ) : (c.after k).Allows j ↔ c.Allows (k + j) := by
  cases c with
  | none => exact ⟨fun _ n hn => (by cases hn), fun _ n hn => (by cases hn)⟩
  | some m =>
    have hk : k ≤ m := h m rfl
    constructor
    · intro hj n hn
      cases hn
      have := hj (m - k) rfl
      omega
    · intro hj n hn
      cases hn
      have := hj m rfl
      show j ≤ m - k
      omega

end Context

/-! ### Inserting rows -/

/-- How many statements insert the rows, up to the first that is refused, and whether none is. -/
def tried : GraphRows → List Insert → ℕ × Bool
  | _, [] => (0, true)
  | rows, i :: l =>
    if (i.add rows).Keyed ∧ (i.add rows).Referring then
      ((tried (i.add rows) l).1 + 1, (tried (i.add rows) l).2)
    else (1, false)

/-- What the inserts leave. -/
inductive Inserted (l : List Insert) (c : GraphCall) : GraphCall × Except GraphError Unit → Prop
  | taken (t : GraphTables) : c.context.Allows (tried c.tables.rows l).1 →
      (tried c.tables.rows l).2 = true → t.version = c.tables.version →
      t.rows = l.foldl Insert.add c.tables.rows →
      Inserted l c (⟨c.context.after (tried c.tables.rows l).1, t, c.savepoints⟩, .ok ())
  | refused (t : GraphTables) (e : GraphError) : c.context.Allows (tried c.tables.rows l).1 →
      (tried c.tables.rows l).2 = false → t.version = c.tables.version →
      Inserted l c (⟨c.context.after (tried c.tables.rows l).1, t, c.savepoints⟩, .error e)
  | done (t : GraphTables) (e : GraphError) : ¬c.context.Allows (tried c.tables.rows l).1 →
      t.version = c.tables.version → Inserted l c (⟨some 0, t, c.savepoints⟩, .error e)

theorem each_insertRow (l : List Insert) (c : GraphCall) :
    Inserted l c (GraphAction.each insertRow l c) := by
  induction l generalizing c with
  | nil =>
    have htaken := Inserted.taken (l := []) (c := c) c.tables (Context.allows_zero _) rfl rfl rfl
    unfold tried at htaken
    rw [Context.after_zero] at htaken
    exact htaken
  | cons i l ih =>
    obtain ⟨context, t, saved⟩ := c
    cases hnext : context.next with
    | none =>
      have heach : GraphAction.each insertRow (i :: l) ⟨context, t, saved⟩ =
          (⟨context, t, saved⟩, .error (.done (.insert i))) := by
        simp only [GraphAction.each, GraphAction.andThen, insertRow, statement, hnext]
      rw [heach]
      obtain rfl := Context.eq_zero_of_next hnext
      refine .done t _ (fun hallows => ?_) rfl
      have hle := hallows 0 rfl
      unfold tried at hle
      split_ifs at hle
      · exact Nat.not_succ_le_zero _ hle
      · exact Nat.not_succ_le_zero _ hle
    | some d =>
      have hallows := Context.allows_succ hnext
      have hafter := Context.after_succ hnext
      by_cases hfits : (i.add t.rows).Keyed ∧ (i.add t.rows).Referring
      · have hinsert : t.insert i =
            .ok ⟨t.version, i.add t.rows, hfits.1, hfits.2, t.version_nonneg⟩ := by
          unfold GraphTables.insert
          rw [dif_pos hfits.1, dif_pos hfits.2]
        have heach : GraphAction.each insertRow (i :: l) ⟨context, t, saved⟩ =
            GraphAction.each insertRow l
              ⟨d, ⟨t.version, i.add t.rows, hfits.1, hfits.2, t.version_nonneg⟩, saved⟩ := by
          simp only [GraphAction.each, GraphAction.andThen, insertRow, statement, hnext, hinsert]
        have htried : tried t.rows (i :: l) =
            ((tried (i.add t.rows) l).1 + 1, (tried (i.add t.rows) l).2) := if_pos hfits
        have hrest := ih ⟨d, ⟨t.version, i.add t.rows, hfits.1, hfits.2, t.version_nonneg⟩, saved⟩
        rw [heach]
        generalize GraphAction.each insertRow l _ = r at hrest
        cases hrest with
        | taken t' h hall hversion hrows =>
          have htaken := Inserted.taken (l := i :: l) (c := ⟨context, t, saved⟩) t'
            (by rw [htried]; exact (hallows _).mpr h) (by rw [htried]; exact hall) hversion hrows
          rw [htried, hafter] at htaken
          exact htaken
        | refused t' e h hall hversion =>
          have hrefused := Inserted.refused (l := i :: l) (c := ⟨context, t, saved⟩) t' e
            (by rw [htried]; exact (hallows _).mpr h) (by rw [htried]; exact hall) hversion
          rw [htried, hafter] at hrefused
          exact hrefused
        | done t' e h hversion =>
          refine .done t' e (fun hallow => h ?_) hversion
          rw [htried] at hallow
          exact (hallows _).mp hallow
      · have htried : tried t.rows (i :: l) = (1, false) := if_neg hfits
        have hinsert : ∃ constraint, t.insert i = .error constraint := by
          unfold GraphTables.insert
          split_ifs with hkeyed hreferring
          · exact absurd ⟨hkeyed, hreferring⟩ hfits
          · exact ⟨_, rfl⟩
          · exact ⟨_, rfl⟩
        obtain ⟨constraint, hinsert⟩ := hinsert
        have heach : GraphAction.each insertRow (i :: l) ⟨context, t, saved⟩ =
            (⟨d, t, saved⟩, .error (.refused i constraint)) := by
          simp only [GraphAction.each, GraphAction.andThen, insertRow, statement, hnext, hinsert]
        have hrefused := Inserted.refused (l := i :: l) (c := ⟨context, t, saved⟩) t
          (.refused i constraint)
          (by rw [htried]; exact (hallows 0).mpr (Context.allows_zero d)) (by rw [htried]) rfl
        rw [htried, hafter, Context.after_zero] at hrefused
        rw [heach]
        exact hrefused

/-! ### The rows of a graph -/

def Organization.row (o : Organization) : OrganizationRow := ⟨o.id, o.name, o.topology⟩

def Graph.rows (g : Graph) : GraphRows where
  organizations := g.organizations.map Organization.row
  roles := g.organizations.flatMap fun o => o.roles.map (roleRow o.id)
  members := g.organizations.flatMap fun o => o.members.map (memberRow o.id)
  manages := g.organizations.flatMap fun o => o.manages.map (managesRow o.id)

theorem foldl_add_roles (l : List RoleRow) (rows : GraphRows) :
    (l.map Insert.role).foldl Insert.add rows = { rows with roles := rows.roles ++ l } := by
  induction l generalizing rows with
  | nil => rw [List.map_nil, List.foldl_nil, List.append_nil]
  | cons r l ih => rw [List.map_cons, List.foldl_cons, ih, Insert.add, List.append_assoc,
      List.singleton_append]

theorem foldl_add_members (l : List MemberRow) (rows : GraphRows) :
    (l.map Insert.member).foldl Insert.add rows = { rows with members := rows.members ++ l } := by
  induction l generalizing rows with
  | nil => rw [List.map_nil, List.foldl_nil, List.append_nil]
  | cons m l ih => rw [List.map_cons, List.foldl_cons, ih, Insert.add, List.append_assoc,
      List.singleton_append]

theorem foldl_add_manages (l : List ManagesRow) (rows : GraphRows) :
    (l.map Insert.manages).foldl Insert.add rows = { rows with manages := rows.manages ++ l } := by
  induction l generalizing rows with
  | nil => rw [List.map_nil, List.foldl_nil, List.append_nil]
  | cons e l ih => rw [List.map_cons, List.foldl_cons, ih, Insert.add, List.append_assoc,
      List.singleton_append]

theorem foldl_add_organization (o : Organization) (rows : GraphRows) :
    o.inserts.foldl Insert.add rows =
      { organizations := rows.organizations ++ [o.row]
        roles := rows.roles ++ o.roles.map (roleRow o.id)
        members := rows.members ++ o.members.map (memberRow o.id)
        manages := rows.manages ++ o.manages.map (managesRow o.id) } := by
  have hroles : o.roles.map (fun r => Insert.role (roleRow o.id r)) =
      (o.roles.map (roleRow o.id)).map Insert.role := by rw [List.map_map]; rfl
  have hmembers : o.members.map (fun m => Insert.member (memberRow o.id m)) =
      (o.members.map (memberRow o.id)).map Insert.member := by rw [List.map_map]; rfl
  have hmanages : o.manages.map (fun e => Insert.manages (managesRow o.id e)) =
      (o.manages.map (managesRow o.id)).map Insert.manages := by rw [List.map_map]; rfl
  unfold Organization.inserts
  rw [hroles, hmembers, hmanages, List.foldl_cons, List.foldl_append, List.foldl_append,
    foldl_add_roles, foldl_add_members, foldl_add_manages]
  rfl

/-- The rows that are inserted for a graph are the graph's. -/
theorem foldl_add_inserts (g : Graph) : g.inserts.foldl Insert.add GraphRows.empty = g.rows := by
  have hall : ∀ (l : List Organization) (rows : GraphRows),
      (l.flatMap Organization.inserts).foldl Insert.add rows =
        { organizations := rows.organizations ++ l.map Organization.row
          roles := rows.roles ++ l.flatMap fun o => o.roles.map (roleRow o.id)
          members := rows.members ++ l.flatMap fun o => o.members.map (memberRow o.id)
          manages := rows.manages ++ l.flatMap fun o => o.manages.map (managesRow o.id) } := by
    intro l
    induction l with
    | nil =>
      intro rows
      simp only [List.flatMap_nil, List.map_nil, List.append_nil, List.foldl_nil]
    | cons o l ih =>
      intro rows
      rw [List.flatMap_cons, List.foldl_append, foldl_add_organization, ih]
      simp only [List.flatMap_cons, List.map_cons, List.append_assoc, List.singleton_append]
  exact hall g.organizations GraphRows.empty

/-! ### The whole call -/

/-- The statements that a call needs: the savepoint, the version, the delete and the inserts, and
the restoring of the savepoint if an insert is refused. -/
def Graph.needs (g : Graph) : ℕ :=
  (tried GraphRows.empty g.inserts).1 + 3 + if (tried GraphRows.empty g.inserts).2 then 0 else 1

theorem three_le_needs (g : Graph) : 3 ≤ g.needs :=
  (Nat.le_add_left 3 _).trans (Nat.le_add_right _ _)

/-- A call that fails leaves what it found: its version is not above the stored one, or its context
is done before the version is raised, or not before the call needs no statement more. -/
def Restores (context : Context) (g : Graph) (t : GraphTables) : Prop :=
  g.version ≤ t.version ∨ context = some 0 ∨ context = some 1 ∨ context.Allows g.needs

instance (context : Context) (g : Graph) (t : GraphTables) : Decidable (Restores context g t) := by
  unfold Restores
  infer_instance

inductive Replaced (g : Graph) (c : GraphCall) : GraphCall × Except GraphError Unit → Prop
  | accepted (c' : GraphCall) : c.tables.version < g.version → c'.tables.version = g.version →
      c'.tables.rows = g.rows → Replaced g c (c', .ok ())
  | restored (c' : GraphCall) (e : GraphError) : Restores c.context g c.tables →
      c'.tables = c.tables → Replaced g c (c', .error e)
  | torn (c' : GraphCall) (e : GraphError) : ¬Restores c.context g c.tables →
      c.tables.version < g.version → c'.tables.version = g.version → Replaced g c (c', .error e)

theorem release_tables (c : GraphCall) : (release c).1.tables = c.tables := by
  unfold release statement
  cases c.context.next <;> rfl

theorem rollbackTo_tables {c : GraphCall} {t : GraphTables} {saved : List GraphTables}
    (hsaved : c.savepoints = t :: saved) :
    (rollbackTo c).1.tables = if c.context.Allows 1 then t else c.tables := by
  unfold rollbackTo statement
  cases hnext : c.context.next with
  | none =>
    have hnot : ¬c.context.Allows 1 := by
      rw [Context.eq_zero_of_next hnext]
      exact fun h => Nat.not_succ_le_zero 0 (h 0 rfl)
    rw [if_neg hnot]
  | some d =>
    rw [if_pos ((Context.allows_succ hnext 0).mpr (Context.allows_zero d))]
    dsimp only
    rw [hsaved]
    rfl

theorem replaceGraph_ok {g : Graph} {c c₁ c₂ : GraphCall} (hsavepoint : savepoint c = (c₁, .ok ()))
    (hrows : replaceRows g c₁ = (c₂, .ok ())) : replaceGraph g c = ((release c₂).1, .ok ()) := by
  unfold replaceGraph
  rw [hsavepoint]
  dsimp only
  rw [hrows]

/-- What is left of a call whose statements have failed. -/
theorem replaceGraph_error {g : Graph} {c c₁ c₂ : GraphCall} {e : GraphError}
    (hsavepoint : savepoint c = (c₁, .ok ())) (hrows : replaceRows g c₁ = (c₂, .error e)) :
    replaceGraph g c = ((release (rollbackTo c₂).1).1, .error e) := by
  unfold replaceGraph
  rw [hsavepoint]
  dsimp only
  rw [hrows]

/-- The statements from the delete on, where the version was raised. -/
theorem replaceGraph_raised {g : Graph} {context d₁ d₂ : Context} {t : GraphTables}
    {saved : List GraphTables} (hsavepoint : context.next = some d₁) (hversion : d₁.next = some d₂)
    (hup : t.version < g.version) :
    Replaced g ⟨context, t, saved⟩ (replaceGraph g ⟨context, t, saved⟩) := by
  have hsaved : savepoint ⟨context, t, saved⟩ = (⟨d₁, t, t :: saved⟩, .ok ()) := by
    simp only [savepoint, statement, hsavepoint]
  have hrestores : Restores context g t ↔ context.Allows g.needs := by
    constructor
    · rintro (hle | rfl | rfl | hallows)
      · exact absurd hup (not_lt.mpr hle)
      · cases hsavepoint
      · cases hsavepoint
        cases hversion
      · exact hallows
    · exact fun hallows => .inr (.inr (.inr hallows))
  have hraise : raiseGraphVersion g.version ⟨d₁, t, t :: saved⟩ =
      (⟨d₂, ⟨g.version, t.rows, t.keyed, t.referring, t.version_nonneg.trans hup.le⟩, t :: saved⟩,
        .ok ()) := by
    simp only [raiseGraphVersion, hversion, GraphTables.updateVersion, dif_pos hup]
  cases hclear : d₂.next with
  | none =>
    have hrows : replaceRows g ⟨d₁, t, t :: saved⟩ =
        (⟨d₂, ⟨g.version, t.rows, t.keyed, t.referring, t.version_nonneg.trans hup.le⟩, t :: saved⟩,
          .error (.done .clear)) := by
      simp only [replaceRows, GraphAction.andThen, hraise, clear, statement, hclear]
    rw [replaceGraph_error hsaved hrows]
    obtain rfl := Context.eq_zero_of_next hclear
    have hnot : ¬Context.Allows (some 0) 1 := fun h => Nat.not_succ_le_zero 0 (h 0 rfl)
    refine .torn _ _ (fun h => ?_) hup ?_
    · have hthree : context.Allows 3 := fun n hn =>
        (three_le_needs g).trans (hrestores.mp h n hn)
      exact hnot ((Context.allows_succ hversion 1).mp ((Context.allows_succ hsavepoint 2).mp hthree))
    · rw [release_tables, rollbackTo_tables rfl, if_neg hnot]
  | some d₃ =>
    have hallows (k : ℕ) : context.Allows (k + 3) ↔ d₃.Allows k :=
      ((Context.allows_succ hsavepoint (k + 2)).trans (Context.allows_succ hversion (k + 1))).trans
        (Context.allows_succ hclear k)
    have hempty : (GraphTables.deleteOrganizations ⟨g.version, t.rows, t.keyed, t.referring,
        t.version_nonneg.trans hup.le⟩).rows = GraphRows.empty := GraphRows.cascade_none _
    have hcleared : replaceRows g ⟨d₁, t, t :: saved⟩ =
        GraphAction.each insertRow g.inserts ⟨d₃, GraphTables.deleteOrganizations ⟨g.version,
          t.rows, t.keyed, t.referring, t.version_nonneg.trans hup.le⟩, t :: saved⟩ := by
      simp only [replaceRows, GraphAction.andThen, hraise, clear, statement, hclear]
      exact congrFun (each_insertOrganization g.organizations) _
    have hinserted := each_insertRow g.inserts ⟨d₃, GraphTables.deleteOrganizations ⟨g.version,
      t.rows, t.keyed, t.referring, t.version_nonneg.trans hup.le⟩, t :: saved⟩
    rw [← hcleared] at hinserted
    generalize hresult : replaceRows g ⟨d₁, t, t :: saved⟩ = r at hinserted
    cases hinserted with
    | taken t' h hall htables hrows =>
      rw [replaceGraph_ok hsaved hresult]
      refine .accepted _ hup ?_ ?_
      · rw [release_tables]
        exact htables
      · rw [release_tables]
        dsimp only at hrows ⊢
        rw [hrows, hempty, foldl_add_inserts]
    | refused t' e h hall htables =>
      rw [replaceGraph_error hsaved hresult]
      dsimp only at h hall
      rw [hempty] at h hall
      have hneeds : g.needs = (tried GraphRows.empty g.inserts).1 + 1 + 3 := by
        unfold Graph.needs
        rw [hall, if_neg Bool.false_ne_true, Nat.add_right_comm]
      have hrollback : (d₃.after (tried GraphRows.empty g.inserts).1).Allows 1 ↔
          context.Allows g.needs := by
        rw [Context.allows_after h, hneeds, hallows]
      by_cases hrest : context.Allows g.needs
      · refine .restored _ _ (hrestores.mpr hrest) ?_
        rw [release_tables, rollbackTo_tables rfl, hempty, if_pos (hrollback.mpr hrest)]
      · refine .torn _ _ (fun h => hrest (hrestores.mp h)) hup ?_
        rw [release_tables, rollbackTo_tables rfl, hempty,
          if_neg fun h => hrest (hrollback.mp h)]
        exact htables
    | done t' e h htables =>
      rw [replaceGraph_error hsaved hresult]
      dsimp only at h
      rw [hempty] at h
      have hnot : ¬Context.Allows (some 0) 1 := fun h => Nat.not_succ_le_zero 0 (h 0 rfl)
      refine .torn _ _ (fun hrest => h ?_) hup ?_
      · refine (hallows _).mp fun n hn => le_trans ?_ (hrestores.mp hrest n hn)
        exact Nat.le_add_right _ _
      · rw [release_tables, rollbackTo_tables rfl, if_neg hnot]
        exact htables

theorem replaceGraph_spec (g : Graph) (c : GraphCall) : Replaced g c (replaceGraph g c) := by
  obtain ⟨context, t, saved⟩ := c
  cases hsavepoint : context.next with
  | none =>
    have hcall : replaceGraph g ⟨context, t, saved⟩ =
        (⟨context, t, saved⟩, .error (.done .savepoint)) := by
      simp only [replaceGraph, savepoint, statement, hsavepoint]
    rw [hcall]
    exact .restored _ _ (.inr (.inl (Context.eq_zero_of_next hsavepoint))) rfl
  | some d₁ =>
    have hsaved : savepoint ⟨context, t, saved⟩ = (⟨d₁, t, t :: saved⟩, .ok ()) := by
      simp only [savepoint, statement, hsavepoint]
    -- until the version is raised there is nothing to restore
    have hkept : ∀ d e, replaceRows g ⟨d₁, t, t :: saved⟩ = (⟨d, t, t :: saved⟩, .error e) →
        Restores context g t →
        Replaced g ⟨context, t, saved⟩ (replaceGraph g ⟨context, t, saved⟩) := by
      intro d e hrows hrestores
      rw [replaceGraph_error hsaved hrows]
      refine .restored _ _ hrestores ?_
      rw [release_tables, rollbackTo_tables rfl]
      exact ite_self t
    cases hversion : d₁.next with
    | none =>
      refine hkept d₁ (.done .version)
        (by simp only [replaceRows, GraphAction.andThen, raiseGraphVersion, hversion]) ?_
      obtain rfl := Context.eq_zero_of_next hversion
      match context with
      | none => cases hsavepoint
      | some 0 => cases hsavepoint
      | some (n + 1) =>
        cases hsavepoint
        exact .inr (.inr (.inl rfl))
    | some d₂ =>
      by_cases hup : t.version < g.version
      · exact replaceGraph_raised hsavepoint hversion hup
      · cases hread : d₂.next with
        | none =>
          exact hkept d₂ (.done .readVersion)
            (by simp only [replaceRows, GraphAction.andThen, raiseGraphVersion, hversion,
              GraphTables.updateVersion, dif_neg hup, statement, hread]) (.inl (not_lt.mp hup))
        | some d₃ =>
          exact hkept d₃ (.graphVersion g.version t.version)
            (by simp only [replaceRows, GraphAction.andThen, raiseGraphVersion, hversion,
              GraphTables.updateVersion, dif_neg hup, statement, hread]) (.inl (not_lt.mp hup))

end Persatrix.Society
