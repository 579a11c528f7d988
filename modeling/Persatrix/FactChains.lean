import Persatrix.FactTable
import Persatrix.Pointers
import Mathlib.Data.List.Nodup

/-!
# The chains of superseded facts

`superseded_by` is a pointer from id to id. Each statement of a write keeps what the pointers
are known to do: a row points at a row of its chain, or from the legacy session into a named
one, that was asserted no earlier. No cycle appears unless a row is pointed at one that already
leads to it.
-/
namespace Persatrix.Agents
open Pointers

variable {T : Type}

/-- The row before it is superseded. -/
def Fact.written (row : Fact T) : Fact T := { row with supersededBy := none }

@[simp] theorem Fact.written_factID (row : Fact T) : row.written.factID = row.factID := rfl
@[simp] theorem Fact.written_key (row : Fact T) : row.written.key = row.key := rfl
@[simp] theorem Fact.written_assertedAt (row : Fact T) : row.written.assertedAt = row.assertedAt :=
  rfl

theorem Fact.written_eq {row : Fact T} (h : row.Live) : row.written = row := by
  rw [written, ← h]

def rowOf (db : List (Fact T)) (id : String) : Option (Fact T) :=
  db.find? fun row => row.factID = id

def superseder (db : List (Fact T)) (id : String) : Option String :=
  (rowOf db id).bind Fact.supersededBy

theorem rowOf_eq_some {db : List (Fact T)} {id : String} {row : Fact T}
    (h : rowOf db id = some row) : row ∈ db ∧ row.factID = id :=
  ⟨List.mem_of_find?_eq_some h, by simpa using List.find?_some h⟩

theorem rowOf_eq_none {db : List (Fact T)} {id : String} :
    rowOf db id = none ↔ id ∉ db.map Fact.factID := by
  simp [rowOf, List.find?_eq_none]

theorem eq_of_factID {db : List (Fact T)} (hnodup : (db.map Fact.factID).Nodup)
    {r s : Fact T} (hr : r ∈ db) (hs : s ∈ db) (h : r.factID = s.factID) : r = s :=
  List.inj_on_of_nodup_map hnodup hr hs h

theorem rowOf_factID {db : List (Fact T)} (hnodup : (db.map Fact.factID).Nodup) {row : Fact T}
    (hrow : row ∈ db) : rowOf db row.factID = some row := by
  cases h : rowOf db row.factID with
  | none => exact absurd (List.mem_map_of_mem hrow) (rowOf_eq_none.mp h)
  | some row' =>
    obtain ⟨hrow', hid⟩ := rowOf_eq_some h
    rw [eq_of_factID hnodup hrow' hrow hid]

theorem superseder_factID {db : List (Fact T)} (hnodup : (db.map Fact.factID).Nodup)
    {row : Fact T} (hrow : row ∈ db) : superseder db row.factID = row.supersededBy := by
  rw [superseder, rowOf_factID hnodup hrow, Option.bind_some]

/-! ### What the statements do to the table -/

theorem insertRow_eq_some {db db' : List (Fact T)} {row : Fact T}
    (h : insertRow db row = some db') :
    row.factID ∉ db.map Fact.factID ∧ db' = db ++ [row] := by
  unfold insertRow at h
  split_ifs at h with hid
  exact ⟨hid, (Option.some.inj h).symm⟩

theorem superseder_append {db : List (Fact T)} {row : Fact T} (hlive : row.Live) :
    superseder (db ++ [row]) = superseder db := by
  funext id
  unfold superseder rowOf
  rw [List.find?_append]
  cases h : db.find? fun row => row.factID = id with
  | some row' => rfl
  | none =>
    by_cases hrow : row.factID = id
    · simpa [hrow, Fact.Live] using hlive
    · simp [hrow]

theorem written_setSupersededBy (db : List (Fact T)) (agentID : String) (ids : List String)
    (target : String) :
    (setSupersededBy db agentID ids target).map Fact.written = db.map Fact.written := by
  unfold setSupersededBy
  rw [List.map_map]
  apply List.map_congr_left
  intro row _
  rw [Function.comp_apply]
  split_ifs <;> rfl

theorem factID_setSupersededBy (db : List (Fact T)) (agentID : String) (ids : List String)
    (target : String) :
    (setSupersededBy db agentID ids target).map Fact.factID = db.map Fact.factID := by
  have h := congrArg (List.map Fact.factID) (written_setSupersededBy db agentID ids target)
  rwa [List.map_map, List.map_map] at h

/-- The update redirects the pointers of the ids. -/
theorem superseder_setSupersededBy {db : List (Fact T)} (hnodup : (db.map Fact.factID).Nodup)
    {agentID : String} {ids : List String}
    (hids : ∀ id ∈ ids, ∃ row ∈ db, row.factID = id ∧ row.agentID = agentID) (target : String) :
    superseder (setSupersededBy db agentID ids target) = redirect (superseder db) ids target := by
  funext id
  have hnodup' : ((setSupersededBy db agentID ids target).map Fact.factID).Nodup := by
    rwa [factID_setSupersededBy]
  unfold redirect
  by_cases hmem : id ∈ db.map Fact.factID
  · obtain ⟨row, hrow, rfl⟩ := List.mem_map.mp hmem
    have hupdated := List.mem_map_of_mem (f := fun row : Fact T =>
      if row.agentID = agentID ∧ row.factID ∈ ids then { row with supersededBy := some target }
      else row) hrow
    have hagent : row.agentID = agentID ∧ row.factID ∈ ids ↔ row.factID ∈ ids := by
      refine and_iff_right_of_imp fun hid => ?_
      obtain ⟨row', hrow', hid', hagent'⟩ := hids _ hid
      rw [← eq_of_factID hnodup hrow' hrow hid', hagent']
    rw [superseder_factID hnodup hrow]
    simp only [hagent] at hupdated
    split_ifs at hupdated ⊢ with hid
    · exact superseder_factID hnodup' hupdated
    · exact superseder_factID hnodup' hupdated
  · have hid : id ∉ ids := by
      intro hid
      obtain ⟨row, hrow, rfl, -⟩ := hids _ hid
      exact hmem (List.mem_map_of_mem hrow)
    rw [if_neg hid, superseder, superseder, rowOf_eq_none.mpr hmem, rowOf_eq_none.mpr]
    rwa [factID_setSupersededBy]

theorem nodup_written {db : List (Fact T)} (hnodup : (db.map Fact.factID).Nodup) :
    ((db.map Fact.written).map Fact.factID).Nodup := by rwa [List.map_map]

theorem mem_setSupersededBy_live {db : List (Fact T)} {agentID target : String}
    {ids : List String} {row : Fact T} (hrow : row ∈ setSupersededBy db agentID ids target) (hlive : row.Live) :
    row ∈ db ∧ ¬(row.agentID = agentID ∧ row.factID ∈ ids) := by
  obtain ⟨old, hold, rfl⟩ := List.mem_map.mp hrow
  split_ifs at hlive ⊢ with hmem
  · cases hlive
  · exact ⟨hold, hmem⟩

/-! ### The order along the chains -/

section
variable [LinearOrder T]

/-- The row may be superseded by the other one. -/
structure Succeeds (row other : Fact T) : Prop where
  agentID : other.agentID = row.agentID
  subject : other.subject = row.subject
  predicate : other.predicate = row.predicate
  sessionID : row.sessionID ≠ legacySessionID → other.sessionID = row.sessionID
  principalID : other.principalID = row.principalID
  epochID : other.epochID = row.epochID
  assertedAt : row.assertedAt ≤ other.assertedAt

theorem Succeeds.trans {r s t : Fact T} (hrs : Succeeds r s) (hst : Succeeds s t) :
    Succeeds r t where
  agentID := hst.agentID.trans hrs.agentID
  subject := hst.subject.trans hrs.subject
  predicate := hst.predicate.trans hrs.predicate
  sessionID h := by
    have hs := hrs.sessionID h
    rw [← hs] at h ⊢
    exact hst.sessionID h
  principalID := hst.principalID.trans hrs.principalID
  epochID := hst.epochID.trans hrs.epochID
  assertedAt := hrs.assertedAt.trans hst.assertedAt

theorem Succeeds.key_eq {r s : Fact T} (h : Succeeds r s) (hsession : r.sessionID ≠ legacySessionID) :
    s.key = r.key := by
  rw [Fact.key, Fact.key, h.agentID, h.subject, h.predicate, h.sessionID hsession, h.principalID,
    h.epochID]

/-- Rows of the table, as they were written, of which the one may be superseded by the other. -/
def Below (db : List (Fact T)) (id id' : String) : Prop :=
  ∃ r ∈ db.map Fact.written, ∃ s ∈ db.map Fact.written, r.factID = id ∧ s.factID = id' ∧
    Succeeds r s

theorem Below.mono {db db' : List (Fact T)} {id id' : String}
    (hsub : db.map Fact.written ⊆ db'.map Fact.written) (h : Below db id id') :
    Below db' id id' := by
  obtain ⟨r, hr, s, hs, h⟩ := h
  exact ⟨r, hsub hr, s, hsub hs, h⟩

/-- The pointers of the table. -/
structure Chained (db : List (Fact T)) : Prop where
  nodup : (db.map Fact.factID).Nodup
  below : ∀ id id', Points (superseder db) id id' → Below db id id'
  acyclic : NoCycle (superseder db)

theorem Chained.empty : Chained ([] : List (Fact T)) where
  nodup := List.nodup_nil
  below _ _ h := by cases h
  acyclic a h := by
    obtain ⟨b, hab, -⟩ := Relation.TransGen.head'_iff.mp h
    cases hab

/-- What pointers lead to was asserted no earlier. -/
theorem Chained.succeeds_of_reaches {db : List (Fact T)} (h : Chained db) {r s : Fact T}
    (hr : r ∈ db.map Fact.written) (hs : s ∈ db.map Fact.written)
    (hreaches : Reaches (superseder db) r.factID s.factID) : r = s ∨ Succeeds r s := by
  have hall : ∀ id, Reaches (superseder db) r.factID id → ∀ s ∈ db.map Fact.written,
      s.factID = id → r = s ∨ Succeeds r s := by
    intro id hid
    induction hid with
    | refl =>
      intro s hs hsid
      exact .inl (eq_of_factID (nodup_written h.nodup) hr hs hsid.symm)
    | tail _ hbc ih =>
      rintro s hs rfl
      obtain ⟨b, hb, s', hs', hbid, hsid, hsucceeds⟩ := h.below _ _ hbc
      obtain rfl := eq_of_factID (nodup_written h.nodup) hs' hs hsid
      rcases ih b hb hbid with rfl | hrb
      · exact .inr hsucceeds
      · exact .inr (hrb.trans hsucceeds)
  exact hall _ hreaches s hs rfl

/-- Following the pointers from a row ends at a live row that may supersede it. -/
theorem Chained.exists_live {db : List (Fact T)} (h : Chained db) {row : Fact T} (hrow : row ∈ db) :
    ∃ last ∈ db, last.Live ∧ Reaches (superseder db) row.factID last.factID ∧
      (row = last ∨ Succeeds row.written last.written) := by
  have hclosed : ∀ id ∈ db.map Fact.factID, ∀ id', Points (superseder db) id id' →
      id' ∈ db.map Fact.factID := by
    intro id _ id' hpoints
    obtain ⟨-, -, other, hother, -, rfl, -⟩ := h.below id id' hpoints
    obtain ⟨row', hrow', rfl⟩ := List.mem_map.mp hother
    exact List.mem_map.mpr ⟨row', hrow', rfl⟩
  obtain ⟨id, hid, hreaches, hnone⟩ := exists_end h.acyclic hclosed (List.mem_map_of_mem hrow)
  obtain ⟨last, hlast, rfl⟩ := List.mem_map.mp hid
  refine ⟨last, hlast, (superseder_factID h.nodup hlast).symm.trans hnone, hreaches, ?_⟩
  rcases h.succeeds_of_reaches (List.mem_map_of_mem hrow) (List.mem_map_of_mem hlast) hreaches with
    heq | hsucceeds
  · have hid : row.written.factID = last.written.factID := congrArg Fact.factID heq
    exact .inl (eq_of_factID h.nodup hrow hlast hid)
  · exact .inr hsucceeds

/-! ### The statements keep the chains -/

theorem Chained.insert {db : List (Fact T)} (h : Chained db) {row : Fact T} (hlive : row.Live)
    (hid : row.factID ∉ db.map Fact.factID) : Chained (db ++ [row]) where
  nodup := by
    rw [List.map_append]
    exact h.nodup.append (List.nodup_singleton _) (by simpa using hid)
  below id id' hpoints := by
    rw [superseder_append hlive] at hpoints
    apply (h.below id id' hpoints).mono
    rw [List.map_append]
    exact List.subset_append_left _ _
  acyclic := by
    rw [superseder_append hlive]
    exact h.acyclic

theorem Chained.update {db : List (Fact T)} (h : Chained db) {agentID : String}
    {ids : List String} {target : String}
    (hids : ∀ id ∈ ids, ∃ row ∈ db, row.factID = id ∧ row.agentID = agentID)
    (hbelow : ∀ id ∈ ids, Below db id target)
    (hacyclic : ∀ id ∈ ids, ¬Reaches (superseder db) target id) :
    Chained (setSupersededBy db agentID ids target) where
  nodup := by
    rw [factID_setSupersededBy]
    exact h.nodup
  below id id' hpoints := by
    rw [superseder_setSupersededBy h.nodup hids] at hpoints
    have hold : Below db id id' := by
      by_cases hid : id ∈ ids
      · rw [← (points_redirect_of_mem hid).eq hpoints]
        exact hbelow id hid
      · exact h.below id id' ((points_redirect_of_notMem hid).mp hpoints)
    exact hold.mono (by rw [written_setSupersededBy]; exact List.Subset.refl _)
  acyclic := by
    rw [superseder_setSupersededBy h.nodup hids]
    exact noCycle_redirect h.acyclic hacyclic

theorem mem_selectOlder {db : List (Fact T)} {new : Fact T} {id : String} :
    id ∈ selectOlder db new ↔ ∃ row ∈ db, Sweeps new row ∧ row.factID = id := by
  simp [selectOlder, and_assoc]

theorem newest_mem {rows : List (Fact T)} {row : Fact T} (h : newest rows = some row) :
    row ∈ rows := by
  induction rows generalizing row with
  | nil => cases h
  | cons first rows ih =>
    rw [newest] at h
    cases hrest : newest rows with
    | none =>
      rw [hrest] at h
      obtain rfl := Option.some.inj h
      exact List.mem_cons_self
    | some best =>
      rw [hrest] at h
      dsimp only at h
      split_ifs at h
      · obtain rfl := Option.some.inj h
        exact List.mem_cons_self
      · exact List.mem_cons_of_mem _ (ih (hrest.trans h))

theorem newest_eq_none {rows : List (Fact T)} (h : newest rows = none) : rows = [] := by
  cases rows with
  | nil => rfl
  | cons first rows =>
    rw [newest] at h
    split at h
    · cases h
    · split_ifs at h

theorem selectNewer_eq_some {db : List (Fact T)} {new : Fact T} {id : String}
    (h : selectNewer db new = some id) : ∃ row ∈ db, Dominates new row ∧ row.factID = id := by
  obtain ⟨row, hrow, rfl⟩ := Option.map_eq_some_iff.mp h
  obtain ⟨hmem, hdominates⟩ := List.mem_filter.mp (newest_mem hrow)
  exact ⟨row, hmem, of_decide_eq_true hdominates, rfl⟩

theorem selectNewer_eq_none {db : List (Fact T)} {new : Fact T} (h : selectNewer db new = none) :
    ∀ row ∈ db, ¬Dominates new row := by
  have hempty := List.filter_eq_nil_iff.mp (newest_eq_none (Option.map_eq_none_iff.mp h))
  intro row hrow hdominates
  exact hempty row hrow (decide_eq_true hdominates)

theorem Sweeps.succeeds {new row : Fact T} (h : Sweeps new row) :
    Succeeds row.written new.written := by
  obtain ⟨hagent, hsubject, hpredicate, hsession, hprincipal, hepoch, -, hle, -, -⟩ := h
  refine ⟨hagent.symm, hsubject.symm, hpredicate.symm, fun hnamed => ?_, hprincipal.symm,
    hepoch.symm, hle⟩
  unfold olderSessions at hsession
  split_ifs at hsession
  · exact (List.mem_singleton.mp hsession).symm
  · rcases List.mem_cons.mp hsession with heq | hlegacy
    · exact heq.symm
    · exact absurd (List.mem_singleton.mp hlegacy) hnamed

theorem Dominates.succeeds {new row : Fact T} (h : Dominates new row) :
    Succeeds new.written row.written := by
  obtain ⟨hkey, -, hlt⟩ := h
  simp only [Fact.key, ChainKey.mk.injEq] at hkey
  obtain ⟨hagent, hsubject, hpredicate, hsession, hprincipal, hepoch⟩ := hkey
  exact ⟨hagent, hsubject, hpredicate, fun _ => hsession, hprincipal, hepoch, hlt.le⟩

theorem Chained.updateOlder {db : List (Fact T)} (h : Chained db) {new : Fact T}
    (hnew : new ∈ db.map Fact.written) {older : List String}
    (holder : ∀ id ∈ older, ∃ row ∈ db.map Fact.written, row.factID = id ∧ Succeeds row new)
    (hacyclic : ∀ id ∈ older, ¬Reaches (superseder db) new.factID id) :
    Chained (setSupersededBy db new.agentID older new.factID) := by
  refine h.update (fun id hid => ?_) (fun id hid => ?_) hacyclic
  · obtain ⟨other, hother, rfl, hsucceeds⟩ := holder id hid
    obtain ⟨row, hrow, rfl⟩ := List.mem_map.mp hother
    exact ⟨row, hrow, rfl, hsucceeds.agentID.symm⟩
  · obtain ⟨row, hrow, hrowID, hsucceeds⟩ := holder id hid
    exact ⟨row, hrow, new, hnew, hrowID, rfl, hsucceeds⟩

/-- A row that is pointed at one asserted later makes no cycle. -/
theorem Chained.updateSelf {db : List (Fact T)} (h : Chained db) {new newer : Fact T}
    (hnew : new ∈ db.map Fact.written) (hnewer : newer ∈ db.map Fact.written)
    (hsucceeds : Succeeds new newer) (hlt : new.assertedAt < newer.assertedAt) :
    Chained (setSupersededBy db new.agentID [new.factID] newer.factID) := by
  refine h.update (fun id hid => ?_) (fun id hid => ?_) fun id hid hreaches => ?_
  · obtain rfl := List.mem_singleton.mp hid
    obtain ⟨row, hrow, rfl⟩ := List.mem_map.mp hnew
    exact ⟨row, hrow, rfl, rfl⟩
  · obtain rfl := List.mem_singleton.mp hid
    exact ⟨new, hnew, newer, hnewer, rfl, rfl, hsucceeds⟩
  · obtain rfl := List.mem_singleton.mp hid
    rcases h.succeeds_of_reaches hnewer hnew hreaches with rfl | hdown
    · exact lt_irrefl _ hlt
    · exact lt_irrefl _ (hlt.trans_le hdown.assertedAt)

end

end Persatrix.Agents
