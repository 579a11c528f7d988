import Persatrix.GraphReplace
import Persatrix.Transactions

/-!
# What every run of the organization graph keeps

Beside the tables the graphs are kept that were accepted, which is not part of the program: the
tables hold the last of them. A savepoint that a call leaves is below those of later calls, which
go back to their own.
-/
namespace Persatrix.Society
open Transactions

/-! ### A graph is read as it was written -/

theorem filter_organization {ρ : Type} (organizationID : ρ → GoString) (sub : ρ → List (List ℕ))
    (l : List ρ) (id : GoString)
    (hnodup : (l.map fun r => collate (organizationID r) :: sub r).Nodup) :
    (orderBy (fun r => collate (organizationID r) :: sub r) l).filter (fun r => organizationID r = id) =
      orderBy sub (l.filter fun r => organizationID r = id) := by
  apply filter_orderBy
  · have hkeys : ((l.filter fun r => organizationID r = id).map fun r =>
        collate (organizationID r) :: sub r).Nodup := hnodup.sublist (List.filter_sublist.map _)
    have hsame : ((l.filter fun r => organizationID r = id).map fun r =>
        collate (organizationID r) :: sub r) =
        ((l.filter fun r => organizationID r = id).map sub).map (collate id :: ·) := by
      rw [List.map_map]
      refine List.map_congr_left fun r hr => ?_
      have hid : organizationID r = id := of_decide_eq_true (List.mem_filter.mp hr).2
      rw [hid]
      rfl
    rw [hsame] at hkeys
    exact hkeys.of_map _
  · intro a b ha hb hle
    have ha : organizationID a = id := of_decide_eq_true ha
    have hb : organizationID b = id := of_decide_eq_true hb
    rw [ha, hb] at hle
    by_contra hnot
    have hback := List.cons_le_cons (collate id) (le_of_not_ge hnot)
    exact hnot (List.cons.inj (le_antisymm hle hback)).2.le

/-- Of the rows of all organizations those of one. -/
theorem filter_flatMap {ρ σ : Type} {organizationID : ρ → GoString} {mk : GoString → σ → ρ}
    (hmk : ∀ id a, organizationID (mk id a) = id) (list : Organization → List σ)
    {organizations : List Organization} (hids : (organizations.map Organization.id).Nodup)
    {o : Organization} (ho : o ∈ organizations) :
    (organizations.flatMap fun o => (list o).map (mk o.id)).filter
      (fun r => organizationID r = o.id) = (list o).map (mk o.id) := by
  have hall : ((list o).map (mk o.id)).filter (fun r => organizationID r = o.id) =
      (list o).map (mk o.id) := by
    refine List.filter_eq_self.mpr fun r hr => ?_
    obtain ⟨a, -, rfl⟩ := List.mem_map.mp hr
    exact decide_eq_true (hmk _ _)
  have hnone : ∀ p : Organization, p.id ≠ o.id →
      ((list p).map (mk p.id)).filter (fun r => organizationID r = o.id) = [] := by
    intro p hp
    refine List.filter_eq_nil_iff.mpr fun r hr hid => hp ?_
    obtain ⟨a, -, rfl⟩ := List.mem_map.mp hr
    exact (hmk _ _).symm.trans (of_decide_eq_true hid)
  induction organizations with
  | nil => cases ho
  | cons p organizations ih =>
    rw [List.map_cons, List.nodup_cons] at hids
    rw [List.flatMap_cons, List.filter_append]
    rcases List.mem_cons.mp ho with rfl | hmem
    · have hrest : (organizations.flatMap fun p => (list p).map (mk p.id)).filter
          (fun r => organizationID r = o.id) = [] := by
        rw [List.filter_flatMap]
        refine List.flatMap_eq_nil_iff.mpr fun p hp => hnone p fun hid => hids.1 ?_
        rw [← hid]
        exact List.mem_map_of_mem hp
      rw [hall, hrest, List.append_nil]
    · have hne : p.id ≠ o.id := by
        intro hid
        apply hids.1
        rw [hid]
        exact List.mem_map_of_mem hmem
      rw [hnone p hne, List.nil_append]
      exact ih hids.2 hmem

theorem map_sorted {σ ρ : Type} {key : σ → List (List ℕ)} {key' : ρ → List (List ℕ)} {mk : σ → ρ}
    (back : ρ → σ) (l : List σ) (hkey : ∀ a, key' (mk a) = key a) (hback : ∀ a, back (mk a) = a) :
    (orderBy key' (l.map mk)).map back = orderBy key l := by
  rw [← map_orderBy fun a _ => hkey a, List.map_map]
  exact (List.map_congr_left fun a _ => hback a).trans (List.map_id' _)

theorem graph_of_rows {g : Graph} {t : GraphTables} (hrows : t.rows = g.rows) :
    graph t = .ok ⟨t.version, g.canonical.organizations⟩ := by
  have hids : (g.organizations.map Organization.id).Nodup := by
    have hkeys := t.keyed.organizations
    rw [hrows] at hkeys
    have hsame : g.rows.organizations.map OrganizationRow.key =
        (g.organizations.map Organization.id).map fun id => [collate id] := by
      rw [Graph.rows, List.map_map, List.map_map]
      rfl
    rw [hsame] at hkeys
    exact hkeys.of_map _
  have horganization : ∀ o ∈ g.organizations, t.rows.organization o.row = o.canonical := by
    intro o ho
    have hroles := filter_organization RoleRow.organizationID (fun r => [collate r.id]) t.rows.roles
      o.id t.keyed.roles
    have hmembers := filter_organization MemberRow.organizationID (fun m => [collate m.agentID])
      t.rows.members o.id t.keyed.members
    have hmanages := filter_organization ManagesRow.organizationID
      (fun e => [collate e.managerID, collate e.reportID, collate e.scope]) t.rows.manages o.id
      t.keyed.manages
    rw [hrows, Graph.rows, filter_flatMap (fun _ _ => rfl) Organization.roles hids ho] at hroles
    rw [hrows, Graph.rows, filter_flatMap (fun _ _ => rfl) Organization.members hids ho] at hmembers
    rw [hrows, Graph.rows, filter_flatMap (fun _ _ => rfl) Organization.manages hids ho] at hmanages
    rw [hrows, GraphRows.organization, Organization.canonical]
    congr 1
    · exact (congrArg _ hroles).trans (map_sorted _ _ (fun _ => rfl) fun _ => rfl)
    · exact (congrArg _ hmembers).trans (map_sorted _ _ (fun _ => rfl) fun _ => rfl)
    · exact (congrArg _ hmanages).trans (map_sorted _ _ (fun _ => rfl) fun _ => rfl)
  rw [graph_eq]
  refine congrArg (fun l => Except.ok (Graph.mk t.version l)) ?_
  have hmap : (orderBy OrganizationRow.key t.rows.organizations).map t.rows.organization =
      orderBy (fun o => [collate o.id]) (t.rows.organizations.map t.rows.organization) :=
    map_orderBy fun _ _ => rfl
  rw [hmap, Graph.canonical]
  refine congrArg _ ?_
  rw [hrows, Graph.rows, List.map_map, ← Graph.rows, ← hrows]
  exact List.map_congr_left horganization

/-! ### Calls one after the other -/

structure Graphs where
  tables : GraphTables
  accepted : List Graph

structure ReplaceCall where
  context : Context
  graph : Graph

def replace (call : ReplaceCall) (s : Graphs) : Graphs × Except GraphError Unit :=
  match replaceGraph call.graph ⟨call.context, s.tables, []⟩ with
  | (c, .ok ()) => (⟨c.tables, s.accepted ++ [call.graph]⟩, .ok ())
  | (c, .error e) => (⟨c.tables, s.accepted⟩, .error e)

def graphs : System (Store Graphs) (Event ReplaceCall) := system replace ⟨GraphTables.new, []⟩

/-- A store that never had a graph reads as the empty one. -/
def Graphs.current (s : Graphs) : Graph := s.accepted.getLastD ⟨0, []⟩

structure Graphs.Holds (s : Graphs) : Prop where
  version : s.tables.version = s.current.version
  rows : s.tables.rows = s.current.rows
  ascending : s.accepted.Pairwise fun g h => g.version < h.version
  below : ∀ g ∈ s.accepted, g.version ≤ s.tables.version

/-- What one call leaves of what it saw. -/
structure ReplaceCall.Leaves (call : ReplaceCall) (s : Graphs) : Prop where
  accepted : (replace call s).2 = .ok () → (replace call s).1.accepted = s.accepted ++ [call.graph] ∧
    (replace call s).1.tables.rows = call.graph.rows ∧
    (replace call s).1.tables.version = call.graph.version ∧ s.tables.version < call.graph.version
  refused : ∀ e, (replace call s).2 = .error e →
    ((replace call s).1 = s ↔ Restores call.context call.graph s.tables)

theorem leaves (call : ReplaceCall) (s : Graphs) : call.Leaves s := by
  have hspec := replaceGraph_spec call.graph ⟨call.context, s.tables, []⟩
  generalize hresult : replaceGraph call.graph ⟨call.context, s.tables, []⟩ = r at hspec
  cases hspec with
  | accepted c' hup hversion hrows =>
    have hreplace : replace call s = (⟨c'.tables, s.accepted ++ [call.graph]⟩, .ok ()) := by
      rw [replace, hresult]
    refine ⟨fun _ => ?_, fun e he => ?_⟩
    · rw [hreplace]
      exact ⟨rfl, hrows, hversion, hup⟩
    · rw [hreplace] at he
      cases he
  | restored c' e hrestores htables =>
    have hreplace : replace call s = (⟨c'.tables, s.accepted⟩, .error e) := by
      rw [replace, hresult]
    refine ⟨fun hok => ?_, fun e' _ => ⟨fun _ => hrestores, fun _ => ?_⟩⟩
    · rw [hreplace] at hok
      cases hok
    · rw [hreplace, htables]
  | torn c' e hnot hup hversion =>
    have hreplace : replace call s = (⟨c'.tables, s.accepted⟩, .error e) := by
      rw [replace, hresult]
    refine ⟨fun hok => ?_, fun e' _ => ⟨fun hsame => ?_, fun h => absurd h hnot⟩⟩
    · rw [hreplace] at hok
      cases hok
    · rw [hreplace] at hsame
      have htables : c'.tables = s.tables := congrArg Graphs.tables hsame
      rw [htables] at hversion
      exact absurd hup (not_lt.mpr hversion.symm.le)

/-- The calls that leave what they found when they fail. -/
def Whole (call : ReplaceCall) (s : Graphs) : Prop := Restores call.context call.graph s.tables

instance (call : ReplaceCall) (s : Graphs) : Decidable (Whole call s) := by
  unfold Whole
  infer_instance

theorem replace_cases (call : ReplaceCall) (s : Graphs)
    (h : Whole call s ∨ ∃ a, (replace call s).2 = .ok a) :
    (replace call s).1 = s ∨ (replace call s).2 = .ok () := by
  cases hresult : (replace call s).2 with
  | ok => exact .inr rfl
  | error e =>
    rcases h with hwhole | ⟨a, hok⟩
    · exact .inl (((leaves call s).refused e hresult).mpr hwhole)
    · rw [hresult] at hok
      cases hok

theorem holds_new : Graphs.Holds ⟨GraphTables.new, []⟩ where
  version := rfl
  rows := rfl
  ascending := List.Pairwise.nil
  below g hg := by cases hg

theorem holds_replace (call : ReplaceCall) (s : Graphs) (hs : s.Holds)
    (h : Whole call s ∨ ∃ a, (replace call s).2 = .ok a) : (replace call s).1.Holds := by
  rcases replace_cases call s h with hsame | hok
  · rw [hsame]
    exact hs
  · obtain ⟨haccepted, hrows, hversion, hup⟩ := (leaves call s).accepted hok
    have hcurrent : (replace call s).1.current = call.graph := by
      rw [Graphs.current, haccepted, List.getLastD_eq_getLast?, List.getLast?_concat,
        Option.getD_some]
    refine ⟨?_, ?_, ?_, ?_⟩
    · rw [hversion, hcurrent]
    · rw [hrows, hcurrent]
    · rw [haccepted]
      refine List.pairwise_append.mpr ⟨hs.ascending, List.pairwise_singleton _ _, ?_⟩
      intro g hg g' hg'
      obtain rfl := List.mem_singleton.mp hg'
      exact (hs.below g hg).trans_lt hup
    · intro g hg
      rw [haccepted] at hg
      rw [hversion]
      rcases List.mem_append.mp hg with hold | hnew
      · exact (hs.below g hold).trans hup.le
      · exact (congrArg Graph.version (List.mem_singleton.mp hnew)).le

/-! ### Every run -/

/-- What a state's graph is read as. -/
structure Graphs.Reads (s : Graphs) : Prop where
  graph : graph s.tables = .ok s.current.canonical
  closed : ∀ o ∈ s.current.canonical.organizations, o.Closed
  version : s.tables.version = s.current.version
  ascending : s.accepted.Pairwise fun g h => g.version < h.version

theorem reads_of_holds {s : Graphs} (h : s.Holds) : s.Reads where
  graph := by
    rw [graph_of_rows h.rows, h.version]
    rfl
  closed o ho := by
    have hsame := (graph_of_rows h.rows).symm.trans (graph_eq s.tables)
    have horganizations := congrArg Graph.organizations (Except.ok.inj hsame)
    dsimp only at horganizations
    rw [horganizations] at ho
    obtain ⟨row, -, rfl⟩ := List.mem_map.mp ho
    exact closed_organization s.tables row
  version := h.version
  ascending := h.ascending

/-- What was accepted stays so, and without more of it nothing changes. -/
structure Graphs.Before (s t : Graphs) : Prop where
  accepted : s.accepted <+: t.accepted
  version : s.tables.version ≤ t.tables.version
  same : t.accepted = s.accepted → t.tables = s.tables

theorem Graphs.Before.refl (s : Graphs) : s.Before s :=
  ⟨List.prefix_refl _, le_rfl, fun _ => rfl⟩

theorem Graphs.Before.trans {s t u : Graphs} (h : s.Before t) (h' : t.Before u) : s.Before u where
  accepted := h.accepted.trans h'.accepted
  version := h.version.trans h'.version
  same hsame := by
    have hle : t.accepted.length ≤ s.accepted.length := by
      rw [← hsame]
      exact h'.accepted.length_le
    have hmid : t.accepted = s.accepted := (h.accepted.eq_of_length_le hle).symm
    rw [h'.same (hsame.trans hmid.symm), h.same hmid]

theorem before_replace (call : ReplaceCall) (s : Graphs)
    (h : Whole call s ∨ ∃ a, (replace call s).2 = .ok a) : s.Before (replace call s).1 := by
  rcases replace_cases call s h with hsame | hok
  · rw [hsame]
    exact .refl s
  · obtain ⟨haccepted, -, hversion, hup⟩ := (leaves call s).accepted hok
    refine ⟨?_, ?_, fun hnone => ?_⟩
    · rw [haccepted]
      exact List.prefix_append _ _
    · rw [hversion]
      exact hup.le
    · rw [haccepted] at hnone
      have hlength := congrArg List.length hnone
      rw [List.length_append, List.length_singleton] at hlength
      omega

/-- A call as its caller sees it. -/
structure ReplaceCall.Answers (call : ReplaceCall) (s t : Store Graphs) : Prop where
  accepted : (replace call s.view).2 = .ok () →
    Society.graph t.view.tables = .ok call.graph.canonical ∧
    s.view.tables.version < t.view.tables.version
  refused : ∀ e, (replace call s.view).2 = .error e →
    (t = s ↔ s.opened = none ∨ Restores call.context call.graph s.view.tables)

theorem answers {call : ReplaceCall} {s t : Store Graphs} (h : step replace s (.call call) = some t) :
    call.Answers s t where
  accepted hok := by
    obtain ⟨-, hrows, hversion, hup⟩ := (leaves call s.view).accepted hok
    rw [view_call_of_ok hok h]
    refine ⟨?_, hversion ▸ hup⟩
    rw [graph_of_rows hrows, hversion]
    rfl
  refused e herror := by
    obtain ⟨committed, opened⟩ := s
    cases opened with
    | none =>
      have herror : (replace call committed).2 = .error e := herror
      have h : some (Store.mk (alone committed (replace call committed)) none) = some t := h
      obtain rfl := Option.some.inj h
      refine ⟨fun _ => .inl rfl, fun _ => ?_⟩
      rw [alone, herror]
    | some u =>
      have hrefused := (leaves call u).refused e herror
      have h : some (Store.mk committed (some (replace call u).1)) = some t := h
      obtain rfl := Option.some.inj h
      constructor
      · intro hsame
        exact .inr (hrefused.mp (Option.some.inj (congrArg Store.opened hsame)))
      · rintro (hnone | hrestores)
        · cases hnone
        · rw [hrefused.mpr hrestores]

/-- In every run in which no call fails in an open transaction once it has raised the version, but
with its savepoint restored. -/
theorem graph_kept {s : Store Graphs} (h : graphs.Reaches (Calls Whole) s) :
    (∀ q, Sees s q → q.Reads) ∧
      (∀ call t, step replace s (.call call) = some t → call.Answers s t) ∧
      ∀ e t, step replace s e = some t → s.committed.Before t.committed := by
  refine ⟨fun q hq => ?_, fun call t hstep => answers hstep, fun e t hstep => ?_⟩
  · exact reads_of_holds (invariant_sees holds_new holds_replace h hq)
  · exact related_committed holds_new holds_replace Graphs.Before.refl
      (fun _ _ _ => Graphs.Before.trans) (fun call q _ => before_replace call q) h hstep

/-! ### A context that is done halfway -/

def lab (version : ℤ) : Graph :=
  ⟨version, [⟨ascii "lab", ascii "Lab", ascii "tree", [⟨ascii "lead", ascii "high"⟩],
    [⟨ascii "b", ascii "lead"⟩, ⟨ascii "a", ascii "lead"⟩], [⟨ascii "b", ascii "a", []⟩]⟩]⟩

/-- After the delete nothing runs any more. -/
def halfway : ReplaceCall := ⟨some 3, lab 2⟩

theorem graph_torn : ∃ s u, graphs.Reachable s ∧ (replace halfway s.view).2.isOk = false ∧
    graphs.execFrom s [.call halfway, .commit] = some u ∧
    s.committed.tables.version = 1 ∧ u.committed.tables.version = 2 ∧
    s.committed.tables.rows.organizations ≠ [] ∧ u.committed.tables.rows.organizations = [] := by
  have hrun : (graphs.exec [.call ⟨none, lab 1⟩, .begin]).map (fun s => decide
      ((replace halfway s.view).2.isOk = false ∧ s.committed.tables.version = 1 ∧
        s.committed.tables.rows.organizations ≠ [] ∧
        (graphs.execFrom s [.call halfway, .commit]).map (fun u => decide
          (u.committed.tables.version = 2 ∧ u.committed.tables.rows.organizations = [])) =
            some true)) = some true := by
    decide +kernel
  obtain ⟨s, hexec, herror, hversion, hsome, hrest⟩ := System.exists_of_exec hrun
  obtain ⟨u, hu, hlast⟩ := Option.map_eq_some_iff.mp hrest
  obtain ⟨hversion', hnone⟩ := of_decide_eq_true hlast
  exact ⟨s, u, System.reachable_exec hexec, herror, hu, hversion, hversion', hsome, hnone⟩

theorem graph_kept_committed : ∃ s : Store Graphs, s.committed.accepted = [lab 1, lab 2] ∧
    ∀ q, Sees s q → q.Reads := by
  have hrun : ((System.guarded (Calls Whole) graphs).exec [.call ⟨none, lab 1⟩, .begin,
      .call ⟨some 8, lab 1⟩, .call ⟨some 9, lab 2⟩, .commit]).map
      (fun s => decide (s.committed.accepted = [lab 1, lab 2])) = some true := by
    decide +kernel
  obtain ⟨s, hexec, hs⟩ := System.exists_of_exec hrun
  exact ⟨s, hs, (graph_kept (System.reachable_exec hexec).of_guarded).1⟩

end Persatrix.Society
