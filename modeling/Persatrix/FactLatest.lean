import Persatrix.FactChains

/-!
# The latest assertion wins

Facts are written one after another, at any times and in any order. In a chain of a named
session the live rows are those of the latest time, and they were written together.
-/
namespace Persatrix.Agents
open Pointers

variable {T : Type} [LinearOrder T]

/-- The table after a call: a call that fails leaves it as it was. -/
def afterInsert (casefold : String → String) (db : List (Fact T)) (call : InsertCall T) :
    List (Fact T) :=
  match insertFact casefold db call with
  | .error _ => db
  | .ok (_, _, db) => db

/-- The table after a sequence of calls on an empty one. -/
def afterInserts (casefold : String → String) (calls : List (InsertCall T)) : List (Fact T) :=
  calls.foldl (afterInsert casefold) []

/-- The live rows of the named sessions are the latest of their chains, and written together. -/
structure Latest (db : List (Fact T)) : Prop where
  chained : Chained db
  greatest : ∀ r ∈ db, r.Live → r.sessionID ≠ legacySessionID → ∀ s ∈ db, s.key = r.key →
    s.assertedAt ≤ r.assertedAt
  together : ∀ r ∈ db, ∀ s ∈ db, r.Live → s.Live → r.sessionID ≠ legacySessionID →
    s.key = r.key → s ≠ r → r.sourceInteractionID ≠ none ∧
      s.sourceInteractionID = r.sourceInteractionID ∧ s.object ≠ r.object ∧
      r.predicate ∉ singleValuedPredicates

theorem Latest.empty : Latest ([] : List (Fact T)) :=
  ⟨.empty, fun _ h => absurd h List.not_mem_nil, fun _ h => absurd h List.not_mem_nil⟩

/-! ### One write -/

section
variable {db : List (Fact T)} {new : Fact T}

/-- A row that a write leaves live was live, and was not swept; the new row is left live only
when no row dominates it. -/
theorem live_of_applySupersession {row : Fact T} (hrow : row ∈ (applySupersession db new).2)
    (hlive : row.Live) : row ∈ db ∧ ¬Sweeps new row ∧
      (row.key = new.key → row.factID = new.factID → ∀ s ∈ db, ¬Dominates new s) := by
  unfold applySupersession at hrow
  dsimp only at hrow
  have hswept : ∀ {row : Fact T}, row ∈ (if selectOlder db new = [] then db else
      setSupersededBy db new.agentID (selectOlder db new) new.factID) → row.Live →
      row ∈ db ∧ ¬Sweeps new row := by
    intro row hrow hlive
    have hmem : row ∈ db ∧ ¬(row.agentID = new.agentID ∧ row.factID ∈ selectOlder db new) := by
      split_ifs at hrow with hnone
      · exact ⟨hrow, by simp [hnone]⟩
      · exact mem_setSupersededBy_live hrow hlive
    refine ⟨hmem.1, fun hsweeps => hmem.2 ⟨hsweeps.1, ?_⟩⟩
    exact mem_selectOlder.mpr ⟨row, hmem.1, hsweeps, rfl⟩
  cases hnewer : selectNewer db new with
  | none =>
    rw [hnewer] at hrow
    obtain ⟨hmem, hsweeps⟩ := hswept hrow hlive
    exact ⟨hmem, hsweeps, fun _ _ => selectNewer_eq_none hnewer⟩
  | some id =>
    rw [hnewer] at hrow
    obtain ⟨hrow, hself⟩ := mem_setSupersededBy_live hrow hlive
    obtain ⟨hmem, hsweeps⟩ := hswept hrow hlive
    refine ⟨hmem, hsweeps, fun hkey hid => absurd ⟨?_, ?_⟩ hself⟩
    · exact congrArg ChainKey.agentID hkey
    · exact List.mem_singleton.mpr hid

theorem written_applySupersession :
    (applySupersession db new).2.map Fact.written = db.map Fact.written := by
  unfold applySupersession
  dsimp only
  have hswept : (if selectOlder db new = [] then db else
      setSupersededBy db new.agentID (selectOlder db new) new.factID).map Fact.written =
      db.map Fact.written := by
    split_ifs
    · rfl
    · exact written_setSupersededBy _ _ _ _
  cases selectNewer db new with
  | none => exact hswept
  | some id => exact (written_setSupersededBy _ _ _ _).trans hswept

theorem Chained.applySupersession (h : Chained db) (hnew : new ∈ db) (hlive : new.Live) :
    Chained (applySupersession db new).2 := by
  have hwritten : new.written ∈ db.map Fact.written := List.mem_map_of_mem hnew
  have hswept : Chained (if selectOlder db new = [] then db else
      setSupersededBy db new.agentID (selectOlder db new) new.factID) := by
    split_ifs
    · exact h
    · refine h.updateOlder (Fact.written_eq hlive ▸ hwritten) (fun id hid => ?_)
        fun id hid hreaches => ?_
      · obtain ⟨row, hrow, hsweeps, rfl⟩ := mem_selectOlder.mp hid
        exact ⟨row.written, List.mem_map_of_mem hrow, rfl,
          Fact.written_eq hlive ▸ hsweeps.succeeds⟩
      · obtain ⟨row, -, hsweeps, rfl⟩ := mem_selectOlder.mp hid
        have hend : superseder db new.factID = none := by
          rw [superseder_factID h.nodup hnew]
          exact hlive
        obtain ⟨-, -, -, -, -, -, -, -, hne, -⟩ := hsweeps
        exact hne (hreaches.eq_of_end hend)
  unfold Agents.applySupersession
  dsimp only
  cases hnewer : selectNewer db new with
  | none => exact hswept
  | some id =>
    obtain ⟨row, hrow, hdominates, rfl⟩ := selectNewer_eq_some hnewer
    have hkept : (if selectOlder db new = [] then db else
        setSupersededBy db new.agentID (selectOlder db new) new.factID).map Fact.written =
        db.map Fact.written := by
      split_ifs
      · rfl
      · exact written_setSupersededBy _ _ _ _
    exact @Chained.updateSelf _ _ _ hswept new.written row.written (by rwa [hkept])
      (by rw [hkept]; exact List.mem_map_of_mem hrow) hdominates.succeeds hdominates.2.2

/-- The new row is left live only when it is the latest of its chain. -/
theorem Chained.le_of_not_dominated (h : Chained db) (hnamed : new.sessionID ≠ legacySessionID)
    (hnone : ∀ s ∈ db, ¬Dominates new s) :
    ∀ s ∈ db, s.key = new.key → s.assertedAt ≤ new.assertedAt := by
  intro s hs hkey
  obtain ⟨last, hlast, hlive, -, hsucceeds⟩ := h.exists_live hs
  have hsession : s.sessionID ≠ legacySessionID := by
    rw [show s.sessionID = new.sessionID from congrArg ChainKey.sessionID hkey]
    exact hnamed
  have hlater : last.key = s.key ∧ s.assertedAt ≤ last.assertedAt := by
    rcases hsucceeds with rfl | hsucceeds
    · exact ⟨rfl, le_refl _⟩
    · exact ⟨hsucceeds.key_eq hsession, hsucceeds.assertedAt⟩
  have hnot := fun hlt => hnone last hlast ⟨hlater.1.trans hkey, hlive, hlt⟩
  exact hlater.2.trans (not_lt.mp hnot)

/-- A row of the chain that is not swept is later than the new one, or written with it. -/
theorem together_of_not_sweeps {row : Fact T} (hkey : row.key = new.key) (hlive : row.Live)
    (hne : row.factID ≠ new.factID) (hle : row.assertedAt ≤ new.assertedAt)
    (h : ¬Sweeps new row) : WrittenTogether new row := by
  simp only [Fact.key, ChainKey.mk.injEq] at hkey
  obtain ⟨hagent, hsubject, hpredicate, hsession, hprincipal, hepoch⟩ := hkey
  by_contra hnot
  refine h ⟨hagent, hsubject, hpredicate, ?_, hprincipal, hepoch, hlive, hle, hne, hnot⟩
  rw [hsession, olderSessions]
  split_ifs
  · exact List.mem_singleton_self _
  · exact List.mem_cons_self

theorem Latest.write (h : Latest db) (hlive : new.Live)
    (hid : new.factID ∉ db.map Fact.factID) :
    Latest (applySupersession (db ++ [new]) new).2 := by
  have hchained : Chained (db ++ [new]) := h.chained.insert hlive hid
  have hnew : new ∈ db ++ [new] := List.mem_append_right _ (List.mem_singleton_self _)
  have hne {row : Fact T} (hrow : row ∈ db) : row.factID ≠ new.factID :=
    fun heq => hid (heq ▸ List.mem_map_of_mem hrow)
  -- the rows that are left live, and when the new one is
  have hleft {row : Fact T} (hrow : row ∈ (applySupersession (db ++ [new]) new).2)
      (hrowLive : row.Live) : row ∈ db ∧ ¬Sweeps new row ∨
        row = new ∧ ∀ s ∈ db ++ [new], ¬Dominates new s := by
    obtain ⟨hmem, hsweeps, hself⟩ := live_of_applySupersession hrow hrowLive
    rcases List.mem_append.mp hmem with hmem | hmem
    · exact .inl ⟨hmem, hsweeps⟩
    · obtain rfl := List.mem_singleton.mp hmem
      exact .inr ⟨rfl, hself rfl rfl⟩
  have hwithNew {row : Fact T} (hrow : row ∈ db) (hrowLive : row.Live) (hkey : row.key = new.key)
      (hsweeps : ¬Sweeps new row) (hnone : ∀ s ∈ db ++ [new], ¬Dominates new s) :
      WrittenTogether new row := by
    have hle : row.assertedAt ≤ new.assertedAt :=
      not_lt.mp fun hlt => hnone row (List.mem_append_left _ hrow) ⟨hkey, hrowLive, hlt⟩
    exact together_of_not_sweeps hkey hrowLive (hne hrow) hle hsweeps
  refine ⟨hchained.applySupersession hnew hlive, ?_, ?_⟩
  · intro r hr hrlive hnamed s hs hkey
    have hs' : s.written ∈ (db ++ [new]).map Fact.written := by
      have hkept := @written_applySupersession _ _ (db ++ [new]) new
      rw [← hkept]
      exact List.mem_map_of_mem hs
    obtain ⟨s', hs', heq⟩ := List.mem_map.mp hs'
    have hskey : s'.key = r.key := (congrArg Fact.key heq).trans hkey
    have hstime : s'.written.assertedAt = s.written.assertedAt := congrArg Fact.assertedAt heq
    rw [Fact.written_assertedAt, Fact.written_assertedAt] at hstime
    rw [← hstime]
    rcases hleft hr hrlive with ⟨hrmem, hsweeps⟩ | ⟨rfl, hnone⟩
    · rcases List.mem_append.mp hs' with hs' | hs'
      · exact h.greatest r hrmem hrlive hnamed s' hs' hskey
      · obtain rfl := List.mem_singleton.mp hs'
        by_contra hlt
        have hle := (not_le.mp hlt).le
        have htogether := together_of_not_sweeps hskey.symm hrlive (hne hrmem) hle hsweeps
        exact hlt htogether.2.2.1.ge
    · exact hchained.le_of_not_dominated hnamed hnone s' hs' hskey
  · intro r hr s hs hrlive hslive hnamed hkey hdistinct
    rcases hleft hr hrlive with ⟨hrmem, hrsweeps⟩ | ⟨rfl, hnone⟩
    · rcases hleft hs hslive with ⟨hsmem, -⟩ | ⟨rfl, hnone⟩
      · exact h.together r hrmem s hsmem hrlive hslive hnamed hkey hdistinct
      · obtain ⟨hsource, htogether, -, hobject⟩ :=
          hwithNew hrmem hrlive hkey.symm hrsweeps hnone
        unfold togetherSource at htogether
        split_ifs at htogether with hsingle
        · exact absurd htogether hsource
        · refine ⟨hsource, htogether.symm, hobject.symm, ?_⟩
          rwa [← show s.predicate = r.predicate from congrArg ChainKey.predicate hkey]
    · rcases hleft hs hslive with ⟨hsmem, hssweeps⟩ | ⟨rfl, -⟩
      · obtain ⟨hsource, htogether, -, hobject⟩ := hwithNew hsmem hslive hkey hssweeps hnone
        unfold togetherSource at htogether
        split_ifs at htogether with hsingle
        · exact absurd htogether hsource
        · exact ⟨htogether ▸ hsource, htogether, hobject, hsingle⟩
      · exact absurd rfl hdistinct

end

/-! ### Every sequence of writes -/

theorem latest_afterInsert {casefold : String → String} {db : List (Fact T)} (h : Latest db)
    (call : InsertCall T) : Latest (afterInsert casefold db call) := by
  unfold afterInsert insertFact
  cases hrow : newRow casefold call with
  | error e => exact h
  | ok row =>
    obtain ⟨-, hlive⟩ := newRow_eq_ok hrow
    change Latest (match writeRow db row with
      | .error _ => db
      | .ok (_, _, db) => db)
    unfold writeRow
    cases hinsert : insertRow db row with
    | none => exact h
    | some db' =>
      obtain ⟨hid, rfl⟩ := insertRow_eq_some hinsert
      exact h.write hlive hid

theorem latest_afterInserts (casefold : String → String) (calls : List (InsertCall T)) :
    Latest (afterInserts casefold calls) := by
  have hall : ∀ db : List (Fact T), Latest db →
      Latest (calls.foldl (afterInsert casefold) db) := by
    induction calls with
    | nil => exact fun _ h => h
    | cons call calls ih => exact fun db h => ih _ (latest_afterInsert h call)
  exact hall [] .empty

/-- In each chain of a named session that has a row some row is live; the live ones have the
greatest time, and two of them were written together; and the pointers from each row stay in the
chain, make no cycle and end at a live row. -/
theorem latest_assertion_wins (casefold : String → String) (calls : List (InsertCall T))
    {key : ChainKey} (hnamed : key.sessionID ≠ legacySessionID) :
    let db := afterInserts casefold calls
    ((∃ row ∈ db, row.key = key) → ∃ row ∈ db, row.key = key ∧ row.Live) ∧
      (∀ row ∈ db, row.key = key → row.Live → ∀ other ∈ db, other.key = key →
        other.assertedAt ≤ row.assertedAt) ∧
      (∀ row ∈ db, ∀ other ∈ db, row.key = key → other.key = key → row.Live → other.Live →
        other ≠ row → row.sourceInteractionID ≠ none ∧
          other.sourceInteractionID = row.sourceInteractionID ∧ other.object ≠ row.object ∧
          key.predicate ∉ singleValuedPredicates) ∧
      ∀ row ∈ db, row.key = key →
        (∀ id, superseder db row.factID = some id →
          ∃ next ∈ db, next.factID = id ∧ next.key = key) ∧
        ¬Relation.TransGen (Points (superseder db)) row.factID row.factID ∧
        ∃ last ∈ db, last.key = key ∧ last.Live ∧
          Reaches (superseder db) row.factID last.factID := by
  intro db
  have h : Latest db := latest_afterInserts casefold calls
  have hsession {row : Fact T} (hkey : row.key = key) : row.sessionID ≠ legacySessionID := by
    rw [show row.sessionID = key.sessionID from congrArg ChainKey.sessionID hkey]
    exact hnamed
  have hlast {row : Fact T} (hrow : row ∈ db) (hkey : row.key = key) : ∃ last ∈ db,
      last.key = key ∧ last.Live ∧ Reaches (superseder db) row.factID last.factID := by
    obtain ⟨last, hmem, hlive, hreaches, rfl | hsucceeds⟩ := h.chained.exists_live hrow
    · exact ⟨row, hmem, hkey, hlive, hreaches⟩
    · exact ⟨last, hmem, (hsucceeds.key_eq (hsession hkey)).trans hkey, hlive, hreaches⟩
  refine ⟨?_, ?_, ?_, ?_⟩
  · rintro ⟨row, hrow, hkey⟩
    obtain ⟨last, hmem, hlastKey, hlive, -⟩ := hlast hrow hkey
    exact ⟨last, hmem, hlastKey, hlive⟩
  · intro row hrow hkey hlive other hother hotherKey
    exact h.greatest row hrow hlive (hsession hkey) other hother (hotherKey.trans hkey.symm)
  · intro row hrow other hother hkey hotherKey hlive hotherLive hne
    have htogether := h.together row hrow other hother hlive hotherLive (hsession hkey)
      (hotherKey.trans hkey.symm) hne
    rwa [show row.predicate = key.predicate from congrArg ChainKey.predicate hkey] at htogether
  · intro row hrow hkey
    refine ⟨fun id hid => ?_, h.chained.acyclic _, hlast hrow hkey⟩
    obtain ⟨r, hr, s, hs, hrid, rfl, hsucceeds⟩ := h.chained.below _ _ hid
    obtain ⟨next, hnext, rfl⟩ := List.mem_map.mp hs
    have heq : r = row.written :=
      eq_of_factID (nodup_written h.chained.nodup) hr (List.mem_map_of_mem hrow) hrid
    subst heq
    exact ⟨next, hnext, rfl, (hsucceeds.key_eq (hsession hkey)).trans hkey⟩

/-- A fact of an extraction at a time, with what it says. -/
def sampleCall (factID object : String) (source : Option String) (assertedAt : ℕ) : InsertCall ℕ where
  predicateValidator _ := .ok ()
  factID := factID
  args := ⟨"agent", "bob", "prefers", object, source, assertedAt, 1, "run", "principal", "epoch",
    "internal", none, none⟩

/-- Two facts of one extraction, between an older and a late one. -/
theorem latest_assertion_wins_together :
    ∃ row ∈ afterInserts id [sampleCall "1" "tea" none 1, sampleCall "2" "milk" (some "i") 3,
      sampleCall "3" "sugar" (some "i") 3, sampleCall "4" "coffee" (some "h") 2],
      row.key = ⟨"agent", "bob", "prefers", "run", "principal", "epoch"⟩ ∧ row.Live :=
  (latest_assertion_wins id _ (by decide)).1 (by decide)

end Persatrix.Agents

/-!
## Writes that come too late

A row that is asserted before another of its chain is superseded as it is inserted, as long as
one that is later than it is live. In the legacy session the later ones may all have been
superseded from named sessions, and then it is left live.
-/
namespace Persatrix.Agents
open Pointers

variable {T : Type} [LinearOrder T]

/-- A row of the same chain was asserted later. -/
def Late (db : List (Fact T)) (new : Fact T) : Prop :=
  ∃ row ∈ db, row.key = new.key ∧ new.assertedAt < row.assertedAt

instance (db : List (Fact T)) (new : Fact T) : Decidable (Late db new) :=
  inferInstanceAs (Decidable (∃ row ∈ db, row.key = new.key ∧ new.assertedAt < row.assertedAt))

/-- The row is late in the legacy session, and the pointers from each later row of its chain lead
to the live row of a named session. -/
structure Displaced (db : List (Fact T)) (new : Fact T) : Prop where
  legacy : new.sessionID = legacySessionID
  late : Late db new
  superseded : ∀ row ∈ db, row.key = new.key → new.assertedAt < row.assertedAt →
    ∃ last ∈ db, last.Live ∧ last.sessionID ≠ legacySessionID ∧
      Reaches (superseder db) row.factID last.factID

theorem late_written {db : List (Fact T)} {row : Fact T} : Late db row.written ↔ Late db row :=
  Iff.rfl

theorem displaced_written {db : List (Fact T)} {row : Fact T} :
    Displaced db row.written ↔ Displaced db row :=
  ⟨fun h => ⟨h.legacy, h.late, h.superseded⟩, fun h => ⟨h.legacy, h.late, h.superseded⟩⟩

/-! ### One write -/

section
variable {db : List (Fact T)} {new row : Fact T}

theorem not_dominates_self : ¬Dominates new new := fun h => lt_irrefl _ h.2.2

/-- The new row is the one with its id, but for its pointer. -/
theorem written_eq_new (hnodup : ((db ++ [new]).map Fact.factID).Nodup)
    (hrow : row ∈ (applySupersession (db ++ [new]) new).2) (hid : row.factID = new.factID) :
    row.written = new.written := by
  have hwritten : row.written ∈ (db ++ [new]).map Fact.written := by
    rw [← @written_applySupersession _ _ (db ++ [new]) new]
    exact List.mem_map_of_mem hrow
  have hnew : new.written ∈ (db ++ [new]).map Fact.written :=
    List.mem_map_of_mem (List.mem_append_right _ (List.mem_singleton_self _))
  exact eq_of_factID (nodup_written hnodup) hwritten hnew hid

theorem live_of_selectNewer_eq_none (hlive : new.Live) (hid : new.factID ∉ db.map Fact.factID)
    (hnone : selectNewer (db ++ [new]) new = none)
    (hrow : row ∈ (applySupersession (db ++ [new]) new).2) (hrowID : row.factID = new.factID) :
    row.Live := by
  have hkept {old : Fact T} (hold : old ∈ db ++ [new]) (holdID : old.factID = new.factID) :
      old.Live := by
    rcases List.mem_append.mp hold with hold | hold
    · exact absurd (holdID ▸ List.mem_map_of_mem hold) hid
    · rwa [List.mem_singleton.mp hold]
  unfold applySupersession at hrow
  rw [hnone] at hrow
  dsimp only at hrow
  split_ifs at hrow with hempty
  · exact hkept hrow hrowID
  · obtain ⟨old, hold, rfl⟩ := List.mem_map.mp hrow
    split_ifs at hrowID ⊢ with hswept
    · obtain ⟨other, -, hsweeps, hother⟩ := mem_selectOlder.mp hswept.2
      obtain ⟨-, -, -, -, -, -, -, -, hne, -⟩ := hsweeps
      exact absurd (hother.trans hrowID) hne
    · exact hkept hold hrowID

/-- The new row is left live when no row dominates it, and only then. -/
theorem new_live_iff (hlive : new.Live) (hid : new.factID ∉ db.map Fact.factID)
    (hnodup : ((db ++ [new]).map Fact.factID).Nodup)
    (hrow : row ∈ (applySupersession (db ++ [new]) new).2) (hrowID : row.factID = new.factID) :
    row.Live ↔ ∀ other ∈ db, ¬Dominates new other := by
  constructor
  · intro hrowLive other hother
    have hwritten := written_eq_new hnodup hrow hrowID
    have hkey : row.written.key = new.written.key := congrArg Fact.key hwritten
    obtain ⟨-, -, hnot⟩ := live_of_applySupersession hrow hrowLive
    exact hnot hkey hrowID other (List.mem_append_left _ hother)
  · intro hnot
    cases hnewer : selectNewer (db ++ [new]) new with
    | none => exact live_of_selectNewer_eq_none hlive hid hnewer hrow hrowID
    | some id =>
      obtain ⟨other, hother, hdominates, -⟩ := selectNewer_eq_some hnewer
      rcases List.mem_append.mp hother with hother | hother
      · exact absurd hdominates (hnot other hother)
      · rw [List.mem_singleton.mp hother] at hdominates
        exact absurd hdominates not_dominates_self

/-- The pointers from a later row lead to a live one, which dominates the new row when it is of
the same session. -/
theorem Chained.later_live (h : Chained db) (hrow : row ∈ db) (hkey : row.key = new.key)
    (hlt : new.assertedAt < row.assertedAt) :
    ∃ last ∈ db, last.Live ∧ Reaches (superseder db) row.factID last.factID ∧
      (row.sessionID = last.sessionID → Dominates new last) ∧
      (row.sessionID ≠ legacySessionID → row.sessionID = last.sessionID) := by
  obtain ⟨last, hlast, hlive, hreaches, hsucceeds⟩ := h.exists_live hrow
  refine ⟨last, hlast, hlive, hreaches, ?_⟩
  rcases hsucceeds with rfl | hsucceeds
  · exact ⟨fun _ => ⟨hkey, hlive, hlt⟩, fun _ => rfl⟩
  · refine ⟨fun hsession => ⟨?_, hlive, hlt.trans_le hsucceeds.assertedAt⟩,
      fun hnamed => (hsucceeds.sessionID hnamed).symm⟩
    have hlastKey : last.key = row.key :=
      ChainKey.ext hsucceeds.agentID hsucceeds.subject hsucceeds.predicate hsession.symm
        hsucceeds.principalID hsucceeds.epochID
    exact hlastKey.trans hkey

/-- A late row is dominated, unless the later ones were superseded from named sessions. -/
theorem Chained.dominated_iff (h : Chained db) (hlate : Late db new) :
    (∃ row ∈ db, Dominates new row) ↔ ¬Displaced db new := by
  constructor
  · rintro ⟨row, hrow, hkey, hlive, hlt⟩ hdisplaced
    obtain ⟨last, hlast, -, hnamed, hreaches⟩ := hdisplaced.superseded row hrow hkey hlt
    have hend : superseder db row.factID = none := (superseder_factID h.nodup hrow).trans hlive
    have heq : last = row := eq_of_factID h.nodup hlast hrow (hreaches.eq_of_end hend)
    rw [heq, show row.sessionID = new.sessionID from congrArg ChainKey.sessionID hkey] at hnamed
    exact hnamed hdisplaced.legacy
  · intro hnot
    by_contra hnone
    have hleaves {row : Fact T} (hrow : row ∈ db) (hkey : row.key = new.key)
        (hlt : new.assertedAt < row.assertedAt) : new.sessionID = legacySessionID ∧
          ∃ last ∈ db, last.Live ∧ last.sessionID ≠ legacySessionID ∧
            Reaches (superseder db) row.factID last.factID := by
      obtain ⟨last, hlast, hlive, hreaches, hdominates, hkept⟩ := h.later_live hrow hkey hlt
      have hsession : row.sessionID = new.sessionID := congrArg ChainKey.sessionID hkey
      have hother : row.sessionID ≠ last.sessionID :=
        fun heq => hnone ⟨last, hlast, hdominates heq⟩
      have hlegacy : row.sessionID = legacySessionID := by
        by_contra hnamed
        exact hother (hkept hnamed)
      refine ⟨hsession.symm.trans hlegacy, last, hlast, hlive, ?_, hreaches⟩
      exact fun heq => hother (hlegacy.trans heq.symm)
    obtain ⟨row, hrow, hkey, hlt⟩ := hlate
    exact hnot ⟨(hleaves hrow hkey hlt).1, ⟨row, hrow, hkey, hlt⟩,
      fun other hother hotherKey hotherLt => (hleaves hother hotherKey hotherLt).2⟩

theorem Chained.inserted_superseded_iff (h : Chained db) (hlive : new.Live)
    (hid : new.factID ∉ db.map Fact.factID)
    (hrow : row ∈ (Agents.applySupersession (db ++ [new]) new).2)
    (hrowID : row.factID = new.factID) :
    (Late db row → ¬row.Live) ↔ ¬Displaced db row := by
  have hnodup := (h.insert hlive hid).nodup
  have hwritten : row.written = new :=
    (written_eq_new hnodup hrow hrowID).trans (Fact.written_eq hlive)
  rw [← late_written, ← displaced_written, hwritten, new_live_iff hlive hid hnodup hrow hrowID]
  constructor
  · intro hsuperseded hdisplaced
    refine hsuperseded hdisplaced.late fun other hother hdominates => ?_
    exact (h.dominated_iff hdisplaced.late).mp ⟨other, hother, hdominates⟩ hdisplaced
  · intro hnot hlate hnone
    obtain ⟨other, hother, hdominates⟩ := (h.dominated_iff hlate).mpr hnot
    exact hnone other hother hdominates

end

/-! ### Every sequence of writes -/

/-- After any sequence of writes: a late row is superseded when its insert returns, unless it is
displaced. -/
theorem late_superseded_iff (casefold : String → String) (calls : List (InsertCall T))
    {call : InsertCall T} {id : String} {result : SupersessionResult} {db' : List (Fact T)}
    {new : Fact T}
    (h : insertFact casefold (afterInserts casefold calls) call = .ok (id, result, db'))
    (hnew : new ∈ db') (hid : new.factID = id) :
    (Late (afterInserts casefold calls) new → ¬new.Live) ↔
      ¬Displaced (afterInserts casefold calls) new := by
  have hlatest := latest_afterInserts casefold calls
  unfold insertFact at h
  cases hrow : newRow casefold call with
  | error e =>
    rw [hrow] at h
    cases h
  | ok row =>
    obtain ⟨-, hlive⟩ := newRow_eq_ok hrow
    rw [hrow] at h
    change writeRow (afterInserts casefold calls) row = .ok (id, result, db') at h
    unfold writeRow at h
    cases hinsert : insertRow (afterInserts casefold calls) row with
    | none =>
      rw [hinsert] at h
      cases h
    | some inserted =>
      obtain ⟨hfresh, rfl⟩ := insertRow_eq_some hinsert
      rw [hinsert] at h
      obtain ⟨hrowID, hwritten⟩ := Prod.mk.inj (Except.ok.inj h)
      have hdb := congrArg Prod.snd hwritten
      dsimp only at hdb
      rw [← hdb] at hnew
      exact hlatest.chained.inserted_superseded_iff hlive hfresh hnew (hid.trans hrowID.symm)

/-! ### Sample runs -/

def legacyFact (factID object : String) (assertedAt : ℕ) : InsertCall ℕ :=
  { sampleCall factID object none assertedAt with
    args := { (sampleCall factID object none assertedAt).args with
      sessionID := legacySessionID } }

theorem exists_ok_of_any {ε α : Type} {x : Except ε α} {P : α → Prop} [DecidablePred P]
    (h : x.toOption.any (fun a => decide (P a)) = true) : ∃ a, x = .ok a ∧ P a := by
  cases x with
  | error e => cases h
  | ok a => exact ⟨a, rfl, of_decide_eq_true h⟩

/-- A late fact of the legacy session, when the later one is live. -/
theorem late_superseded_legacy :
    ∃ p, insertFact id (afterInserts id [legacyFact "1" "tea" 5]) (legacyFact "2" "milk" 3) =
      .ok p ∧ ∃ new ∈ p.2.2, new.factID = p.1 ∧ ¬new.Live := by
  obtain ⟨p, hp, new, hnew, hid, hlate⟩ : ∃ p,
      insertFact id (afterInserts id [legacyFact "1" "tea" 5]) (legacyFact "2" "milk" 3) = .ok p ∧
        ∃ new ∈ p.2.2, new.factID = p.1 ∧ Late (afterInserts id [legacyFact "1" "tea" 5]) new :=
    exists_ok_of_any (by decide)
  refine ⟨p, hp, new, hnew, hid, (late_superseded_iff id [legacyFact "1" "tea" 5] hp hnew hid).mpr
    ?_ hlate⟩
  intro hdisplaced
  obtain ⟨row, hrow, hkey, hlt⟩ := hlate
  obtain ⟨last, hlast, -, hnamed, -⟩ := hdisplaced.superseded row hrow hkey hlt
  have hall : ∀ row ∈ afterInserts id [legacyFact "1" "tea" 5], row.sessionID = legacySessionID := by
    decide
  exact hnamed (hall last hlast)

/-- A named session asserts a fact of the legacy session again; then an older one of the legacy
session is written, and stays live. -/
theorem stale_left_live :
    ∃ p, insertFact id (afterInserts id [legacyFact "1" "tea" 5, sampleCall "2" "coffee" none 6])
      (legacyFact "3" "milk" 3) = .ok p ∧
        ∃ new ∈ p.2.2, new.factID = p.1 ∧ new.Live ∧
          Late (afterInserts id [legacyFact "1" "tea" 5, sampleCall "2" "coffee" none 6]) new :=
  exists_ok_of_any (by decide)

end Persatrix.Agents
