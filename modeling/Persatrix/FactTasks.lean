import Persatrix.FactLatest
import Persatrix.System

/-!
# Fact writes that overlap

Writes run as tasks on one connection, and may be interleaved at each statement. Two of them
whose rows are of one time can each sweep the row of the other, and both rows are then dead. As
long as no write sweeps a row that its own row already leads to, no cycle appears, and each row
leads to a live one. That one is of the same session, except that a named session may take over
what is in the legacy one.
-/
namespace Persatrix.Agents
open Pointers

/-- The statement that a write awaits next, with what it has read. -/
inductive Statement where
  | insert
  | selectOlder
  | selectNewer (older : List String)
  | updateOlder (older : List String) (newer : Option String)
  | updateSelf (older : List String) (newer : String)
  | commit (result : SupersessionResult)
  | finished (result : SupersessionResult)
  | failed
deriving DecidableEq

structure WriteTask (T : Type) where
  row : Fact T
  next : Statement

/-- The table that the connection sees, and the writes that were begun. -/
structure Connection (T : Type) where
  db : List (Fact T)
  tasks : List (WriteTask T)

inductive FactEvent (T : Type) where
  | call (call : InsertCall T)
  | run (k : ℕ)

variable {T : Type}

def afterUpdateOlder (older : List String) (newer : Option String) : Statement :=
  match newer with
  | none => .commit ⟨older, none⟩
  | some id => .updateSelf older id

def afterSelects (older : List String) (newer : Option String) : Statement :=
  if older = [] then afterUpdateOlder older newer else .updateOlder older newer

/-- The next statement of the task sweeps a row that the row of the task already leads to. -/
def SweepsSuperseder (s : Connection T) : FactEvent T → Prop
  | .call _ => False
  | .run k => ∃ row older newer, s.tasks[k]? = some ⟨row, .updateOlder older newer⟩ ∧
      ∃ id ∈ older, Reaches (superseder s.db) row.factID id

/-- The row of a write that sweeps is not superseded yet. -/
def SweepsLive (s : Connection T) : FactEvent T → Prop
  | .call _ => True
  | .run k =>
    match s.tasks[k]? with
    | some ⟨row, .updateOlder older _⟩ => superseder s.db row.factID = none ∧ row.factID ∉ older
    | _ => True

instance (s : Connection T) (e : FactEvent T) : Decidable (SweepsLive s e) := by
  unfold SweepsLive
  split
  · exact instDecidableTrue
  · split
    · exact instDecidableAnd
    · exact instDecidableTrue

theorem not_sweepsSuperseder_of_sweepsLive {s : Connection T} {e : FactEvent T}
    (h : SweepsLive s e) : ¬SweepsSuperseder s e := by
  cases e with
  | call call => exact id
  | run k =>
    rintro ⟨row, older, newer, htask, id, hid, hreaches⟩
    unfold SweepsLive at h
    simp only [htask] at h
    rw [hreaches.eq_of_end h.1] at hid
    exact h.2 hid

section
variable [LinearOrder T]

/-- The statement is executed: the table, and the statement after it. -/
def execute (db : List (Fact T)) (row : Fact T) : Statement → Option (List (Fact T) × Statement)
  | .insert =>
    match insertRow db row with
    | none => some (db, .failed)
    | some db => some (db, .selectOlder)
  | .selectOlder => some (db, .selectNewer (selectOlder db row))
  | .selectNewer older => some (db, afterSelects older (selectNewer db row))
  | .updateOlder older newer =>
    some (setSupersededBy db row.agentID older row.factID, afterUpdateOlder older newer)
  | .updateSelf older newer =>
    some (setSupersededBy db row.agentID [row.factID] newer, .commit ⟨older, some newer⟩)
  | .commit result => some (db, .finished result)
  | .finished _ | .failed => none

/-- A call begins a task when its values pass the checks, and raises when they do not. -/
def connection (casefold : String → String) : System (Connection T) (FactEvent T) where
  init := ⟨[], []⟩
  step s
    | .call call =>
      match newRow casefold call with
      | .error _ => some s
      | .ok row => some { s with tasks := s.tasks ++ [⟨row, .insert⟩] }
    | .run k =>
      s.tasks[k]?.bind fun task =>
        (execute s.db task.row task.next).map fun r =>
          ⟨r.1, s.tasks.set k { task with next := r.2 }⟩

/-! ### A write alone -/

/-- The statements of a task that nothing comes between. -/
inductive RunsAlone (row : Fact T) : List (Fact T) → Statement → List (Fact T) → Statement → Prop
  | refl (db : List (Fact T)) (next : Statement) : RunsAlone row db next db next
  | step {db db' db'' : List (Fact T)} {next next' next'' : Statement}
      (hstep : execute db row next = some (db', next')) (h : RunsAlone row db' next' db'' next'') :
      RunsAlone row db next db'' next''

/-- A task that runs alone does what `insertFact` does. -/
theorem runsAlone_writeRow {db db' : List (Fact T)} {row : Fact T} {id : String}
    {result : SupersessionResult} (h : writeRow db row = .ok (id, result, db')) :
    RunsAlone row db .insert db' (.finished result) := by
  unfold writeRow at h
  cases hinsert : insertRow db row with
  | none =>
    rw [hinsert] at h
    cases h
  | some inserted =>
    rw [hinsert] at h
    obtain ⟨-, h⟩ := Prod.mk.inj (Except.ok.inj h)
    have hfirst : execute db row .insert = some (inserted, .selectOlder) := by
      rw [execute, hinsert]
    refine .step hfirst (.step rfl (.step rfl ?_))
    have hself : ∀ older newer swept, (match newer with
          | none => ((⟨older, none⟩, swept) : SupersessionResult × List (Fact T))
          | some id => (⟨older, some id⟩, setSupersededBy swept row.agentID [row.factID] id)) =
          (result, db') →
        RunsAlone row swept (afterUpdateOlder older newer) db' (.finished result) := by
      intro older newer swept hresult
      cases newer with
      | none =>
        cases hresult
        exact .step rfl (.refl _ _)
      | some id =>
        cases hresult
        exact .step rfl (.step rfl (.refl _ _))
    unfold applySupersession at h
    dsimp only at h
    unfold afterSelects
    split_ifs at h ⊢ with hnone
    · exact hself _ _ _ h
    · exact .step rfl (hself _ _ _ h)

theorem runsAlone_writeRow_first : ∃ row id result db,
    newRow (fun s => s) (sampleCall "1" "tea" none 1) = .ok row ∧
      writeRow [] row = .ok (id, result, db) ∧
      RunsAlone row [] .insert db (.finished result) :=
  ⟨_, _, _, _, rfl, rfl, runsAlone_writeRow rfl⟩

/-! ### Every interleaving -/

/-- What a write has read is of rows that are still in the table. -/
def Grounded (db : List (Fact T)) (row : Fact T) : Statement → Prop
  | .insert => row.Live
  | .selectOlder => row ∈ db.map Fact.written
  | .selectNewer older => row ∈ db.map Fact.written ∧
      ∀ id ∈ older, ∃ r ∈ db.map Fact.written, r.factID = id ∧ Succeeds r row
  | .updateOlder older newer => row ∈ db.map Fact.written ∧
      (∀ id ∈ older, ∃ r ∈ db.map Fact.written, r.factID = id ∧ Succeeds r row) ∧
      ∀ id ∈ newer, ∃ r ∈ db.map Fact.written, r.factID = id ∧ Succeeds row r ∧
        row.assertedAt < r.assertedAt
  | .updateSelf _ newer => row ∈ db.map Fact.written ∧
      ∃ r ∈ db.map Fact.written, r.factID = newer ∧ Succeeds row r ∧
        row.assertedAt < r.assertedAt
  | .commit _ | .finished _ | .failed => True

theorem Grounded.mono {db db' : List (Fact T)} {row : Fact T} {next : Statement}
    (hsub : db.map Fact.written ⊆ db'.map Fact.written) (h : Grounded db row next) :
    Grounded db' row next := by
  have hrows {P : Fact T → Prop} (h : ∃ r ∈ db.map Fact.written, P r) :
      ∃ r ∈ db'.map Fact.written, P r := by
    obtain ⟨r, hr, hP⟩ := h
    exact ⟨r, hsub hr, hP⟩
  cases next with
  | insert => exact h
  | selectOlder => exact hsub h
  | selectNewer older => exact ⟨hsub h.1, fun id hid => hrows (h.2 id hid)⟩
  | updateOlder older newer =>
    exact ⟨hsub h.1, fun id hid => hrows (h.2.1 id hid), fun id hid => hrows (h.2.2 id hid)⟩
  | updateSelf older newer => exact ⟨hsub h.1, hrows h.2⟩
  | commit => trivial
  | finished => trivial
  | failed => trivial

theorem Grounded.afterUpdateOlder {db : List (Fact T)} {row : Fact T} {older : List String}
    {newer : Option String} (h : Grounded db row (.updateOlder older newer)) :
    Grounded db row (Agents.afterUpdateOlder older newer) := by
  cases newer with
  | none => trivial
  | some id => exact ⟨h.1, h.2.2 id rfl⟩

theorem Grounded.afterSelects {db : List (Fact T)} {row : Fact T} {older : List String}
    {newer : Option String} (h : Grounded db row (.updateOlder older newer)) :
    Grounded db row (Agents.afterSelects older newer) := by
  unfold Agents.afterSelects
  split_ifs
  · exact h.afterUpdateOlder
  · exact h

/-- One statement keeps the chains, unless it sweeps a row that its own row leads to. -/
theorem chained_execute {db db' : List (Fact T)} {row : Fact T} {next next' : Statement}
    (hchained : Chained db) (hgrounded : Grounded db row next)
    (hsweeps : ∀ older newer, next = .updateOlder older newer →
      ∀ id ∈ older, ¬Reaches (superseder db) row.factID id)
    (h : execute db row next = some (db', next')) :
    Chained db' ∧ db.map Fact.written ⊆ db'.map Fact.written ∧ Grounded db' row next' := by
  cases next with
  | insert =>
    rw [execute] at h
    cases hinsert : insertRow db row with
    | none =>
      rw [hinsert] at h
      cases h
      exact ⟨hchained, List.Subset.refl _, trivial⟩
    | some inserted =>
      rw [hinsert] at h
      cases h
      obtain ⟨hid, rfl⟩ := insertRow_eq_some hinsert
      have hlive : row.Live := hgrounded
      refine ⟨hchained.insert hlive hid, ?_, ?_⟩
      · rw [List.map_append]
        exact List.subset_append_left _ _
      · rw [Grounded, List.map_append, List.map_singleton, Fact.written_eq hlive]
        exact List.mem_append_right _ (List.mem_singleton_self _)
  | selectOlder =>
    cases h
    refine ⟨hchained, List.Subset.refl _, hgrounded, fun id hid => ?_⟩
    obtain ⟨r, hr, hswept, rfl⟩ := mem_selectOlder.mp hid
    have hrow : row.written = row := by
      obtain ⟨stored, -, rfl⟩ := List.mem_map.mp hgrounded
      rfl
    exact ⟨r.written, List.mem_map_of_mem hr, rfl, hrow ▸ hswept.succeeds⟩
  | selectNewer older =>
    cases h
    refine ⟨hchained, List.Subset.refl _, Grounded.afterSelects ⟨hgrounded.1, hgrounded.2, ?_⟩⟩
    intro id hid
    obtain ⟨r, hr, hdominates, rfl⟩ := selectNewer_eq_some hid
    have hrow : row.written = row := by
      obtain ⟨stored, -, rfl⟩ := List.mem_map.mp hgrounded.1
      rfl
    exact ⟨r.written, List.mem_map_of_mem hr, rfl, hrow ▸ hdominates.succeeds, hdominates.2.2⟩
  | updateOlder older newer =>
    cases h
    have hsame := written_setSupersededBy db row.agentID older row.factID
    have hsub : db.map Fact.written ⊆
        (setSupersededBy db row.agentID older row.factID).map Fact.written := by
      rw [hsame]
      exact List.Subset.refl _
    refine ⟨hchained.updateOlder hgrounded.1 hgrounded.2.1 (hsweeps older newer rfl), hsub, ?_⟩
    exact (hgrounded.mono hsub).afterUpdateOlder
  | updateSelf older newer =>
    cases h
    obtain ⟨hmem, r, hr, rfl, hsucceeds, hlt⟩ := hgrounded
    refine ⟨hchained.updateSelf hmem hr hsucceeds hlt, ?_, trivial⟩
    rw [written_setSupersededBy]
    exact List.Subset.refl _
  | commit result =>
    cases h
    exact ⟨hchained, List.Subset.refl _, trivial⟩
  | finished => cases h
  | failed => cases h

/-- The chains of the table, and what the writes under way have read. -/
structure Sound (s : Connection T) : Prop where
  chained : Chained s.db
  grounded : ∀ task ∈ s.tasks, Grounded s.db task.row task.next

theorem Sound.step {casefold : String → String} {s t : Connection T} {e : FactEvent T}
    (h : Sound s) (hsweeps : ¬SweepsSuperseder s e)
    (hstep : (connection casefold).step s e = some t) : Sound t := by
  cases e with
  | call call =>
    unfold connection at hstep
    dsimp only at hstep
    cases hrow : newRow casefold call with
    | error e =>
      rw [hrow] at hstep
      cases hstep
      exact h
    | ok row =>
      rw [hrow] at hstep
      cases hstep
      refine ⟨h.chained, fun task htask => ?_⟩
      rcases List.mem_append.mp htask with htask | htask
      · exact h.grounded task htask
      · obtain rfl := List.mem_singleton.mp htask
        exact (newRow_eq_ok hrow).2
  | run k =>
    obtain ⟨⟨row, next⟩, htask, hmap⟩ := Option.bind_eq_some_iff.mp hstep
    obtain ⟨⟨db, next'⟩, hexecute, rfl⟩ := Option.map_eq_some_iff.mp hmap
    have hmem := List.mem_of_getElem? htask
    have hno : ∀ older newer, next = .updateOlder older newer →
        ∀ id ∈ older, ¬Reaches (superseder s.db) row.factID id := by
      rintro older newer rfl id hid hreaches
      exact hsweeps ⟨row, older, newer, htask, id, hid, hreaches⟩
    obtain ⟨hchained, hsub, hgrounded⟩ :=
      chained_execute h.chained (h.grounded _ hmem) hno hexecute
    refine ⟨hchained, fun task htask => ?_⟩
    rcases List.mem_or_eq_of_mem_set htask with htask | rfl
    · exact (h.grounded task htask).mono hsub
    · exact hgrounded

/-- A statement that sweeps a row its own row leads to makes a cycle. -/
theorem Sound.cycle {casefold : String → String} {s t : Connection T} {e : FactEvent T}
    (h : Sound s) (hsweeps : SweepsSuperseder s e)
    (hstep : (connection casefold).step s e = some t) : ¬NoCycle (superseder t.db) := by
  cases e with
  | call call => exact hsweeps.elim
  | run k =>
    obtain ⟨row, older, newer, htask, id, hid, hreaches⟩ := hsweeps
    obtain ⟨task, htask', hmap⟩ := Option.bind_eq_some_iff.mp hstep
    obtain rfl := Option.some.inj (htask.symm.trans htask')
    obtain ⟨r, hexecute, rfl⟩ := Option.map_eq_some_iff.mp hmap
    cases hexecute
    obtain ⟨-, holder, -⟩ := h.grounded _ (List.mem_of_getElem? htask)
    have hids : ∀ id ∈ older, ∃ r ∈ s.db, r.factID = id ∧ r.agentID = row.agentID := by
      intro id hid
      obtain ⟨other, hother, rfl, hsucceeds⟩ := holder id hid
      obtain ⟨r, hr, rfl⟩ := List.mem_map.mp hother
      exact ⟨r, hr, rfl, hsucceeds.agentID.symm⟩
    dsimp only
    rw [superseder_setSupersededBy h.chained.nodup hids, noCycle_redirect_iff h.chained.acyclic]
    exact fun hall => hall id hid hreaches

/-- While no write sweeps a row that its own row leads to, there is no cycle, and each row leads
to a live one of its chain, or from the legacy session into a named one. -/
theorem overlapping_writes_keep_live_row {casefold : String → String} {s : Connection T}
    (h : (connection casefold).Reaches (fun s e => ¬SweepsSuperseder s e) s) :
    NoCycle (superseder s.db) ∧
      (∀ row ∈ s.db, ∃ last ∈ s.db, last.Live ∧
        Reaches (superseder s.db) row.factID last.factID ∧
        (last.key = row.key ∨ row.sessionID = legacySessionID ∧
          last.key = { row.key with sessionID := last.sessionID })) ∧
      ∀ key : ChainKey, key.sessionID ≠ legacySessionID → (∃ row ∈ s.db, row.key = key) →
        ∃ row ∈ s.db, row.key = key ∧ row.Live := by
  have hsound : Sound s := by
    refine h.invariant ⟨.empty, fun task htask => ?_⟩ fun s e t hs hsweeps hstep =>
      hs.step hsweeps hstep
    cases htask
  have hlast : ∀ row ∈ s.db, ∃ last ∈ s.db, last.Live ∧
      Reaches (superseder s.db) row.factID last.factID ∧
      (last.key = row.key ∨ row.sessionID = legacySessionID ∧
        last.key = { row.key with sessionID := last.sessionID }) := by
    intro row hrow
    obtain ⟨last, hmem, hlive, hreaches, rfl | hsucceeds⟩ := hsound.chained.exists_live hrow
    · exact ⟨row, hmem, hlive, hreaches, .inl rfl⟩
    · refine ⟨last, hmem, hlive, hreaches, ?_⟩
      by_cases hsession : row.sessionID = legacySessionID
      · refine .inr ⟨hsession, ?_⟩
        obtain ⟨hagent, hsubject, hpredicate, -, hprincipal, hepoch, -⟩ := hsucceeds
        exact ChainKey.ext hagent hsubject hpredicate rfl hprincipal hepoch
      · exact .inl (hsucceeds.key_eq hsession)
  refine ⟨hsound.chained.acyclic, hlast, fun key hnamed hstored => ?_⟩
  obtain ⟨row, hrow, rfl⟩ := hstored
  obtain ⟨last, hmem, hlive, -, hkey | ⟨hlegacy, -⟩⟩ := hlast row hrow
  · exact ⟨last, hmem, hkey, hlive⟩
  · exact absurd hlegacy hnamed

end

/-! ### Sample runs -/

/-- Two writes of one time, each of which reads before the other updates. -/
def overlapping : List (FactEvent ℕ) :=
  [.call (sampleCall "1" "tea" (some "i") 1), .call (sampleCall "2" "coffee" (some "j") 1),
    .run 0, .run 1, .run 0, .run 1, .run 0, .run 1, .run 0, .run 1, .run 0, .run 1]

def legacyCall : InsertCall ℕ :=
  { sampleCall "1" "tea" (some "i") 1 with
    args := { (sampleCall "1" "tea" (some "i") 1).args with sessionID := legacySessionID } }

/-- A fact of the legacy session that a named one asserts again. -/
def reasserted : List (FactEvent ℕ) :=
  [.call legacyCall, .run 0, .run 0, .run 0, .run 0, .call (sampleCall "2" "coffee" (some "j") 2),
    .run 1, .run 1, .run 1, .run 1, .run 1]

def Statement.isFinished : Statement → Bool
  | .finished _ => true
  | _ => false

/-- All writes have finished, the chain has a row, and none of its rows is live. -/
def Extinct (key : ChainKey) (s : Connection ℕ) : Prop :=
  (∀ task ∈ s.tasks, task.next.isFinished = true) ∧ (∃ row ∈ s.db, row.key = key) ∧
    ¬∃ row ∈ s.db, row.key = key ∧ row.Live

instance (key : ChainKey) (s : Connection ℕ) : Decidable (Extinct key s) :=
  inferInstanceAs (Decidable (_ ∧ _ ∧ _))

instance (next : String → Option String) (a b : String) : Decidable (Points next a b) :=
  inferInstanceAs (Decidable (next a = some b))

/-- The overlapping writes sweep each other's row; and the row of the legacy session is taken
over by the named one. -/
theorem chain_without_live_row :
    (∃ s, (connection id).exec overlapping = some s ∧
      Extinct ⟨"agent", "bob", "prefers", "run", "principal", "epoch"⟩ s ∧
      Points (superseder s.db) "1" "2" ∧ Points (superseder s.db) "2" "1") ∧
    ∃ s, (connection id).exec reasserted = some s ∧
      Extinct ⟨"agent", "bob", "prefers", "legacy", "principal", "epoch"⟩ s :=
  ⟨System.exists_of_exec (by decide), System.exists_of_exec (by decide)⟩

/-- The named session's fact is written after the legacy one. -/
theorem overlapping_writes_keep_live_row_reasserted :
    ∃ s, ((connection id).guarded SweepsLive).exec reasserted = some s ∧
      NoCycle (superseder s.db) ∧
      ∃ row ∈ s.db, row.key = ⟨"agent", "bob", "prefers", "run", "principal", "epoch"⟩ ∧
        row.Live := by
  obtain ⟨s, hexec, hstored⟩ : ∃ s, ((connection id).guarded SweepsLive).exec reasserted = some s ∧
      ∃ row ∈ s.db, row.key = ⟨"agent", "bob", "prefers", "run", "principal", "epoch"⟩ :=
    System.exists_of_exec (by decide)
  have hreaches := (System.Reachable.of_guarded (System.reachable_exec hexec)).mono
    fun _ _ => not_sweepsSuperseder_of_sweepsLive
  obtain ⟨hacyclic, -, hlive⟩ := overlapping_writes_keep_live_row hreaches
  exact ⟨s, hexec, hacyclic, hlive _ (by decide) hstored⟩

end Persatrix.Agents
