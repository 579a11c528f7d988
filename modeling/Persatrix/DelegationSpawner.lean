import Persatrix.DelegationMerge

/-!
# Dispatching a delegation

What happens once the child has replied: the reply is read, its artifacts are held against the schema
of the request, its memory writes are merged and the admitted ones are stored one by one. Where a store
raises, those stored before are deleted. Where it is cancelled they are not.

A store ends as the environment has it: it returns, raises or is cancelled, and in the latter two cases
its row has been inserted or not. The deletes succeed.
-/
namespace Persatrix.SubAgents
open PyJson

/-! ### Storing a batch -/

structure StoredRow where
  content : PyText
  importance : PyFloat
  ttlSeconds : Option PyFloat
  tags : List Value

/-- The rows that are read through the connection, by their ids. -/
structure Episodes where
  rows : List (ℕ × StoredRow)
  next : ℕ
  fresh : ∀ p ∈ rows, p.1 < next

theorem fresh_append {rows : List (ℕ × StoredRow)} {next : ℕ} (fresh : ∀ p ∈ rows, p.1 < next)
    (row : StoredRow) : ∀ p ∈ rows ++ [(next, row)], p.1 < next + 1 := by
  intro p hp
  rcases List.mem_append.mp hp with hp | hp
  · exact (fresh p hp).trans (Nat.lt_succ_self next)
  · rw [List.mem_singleton.mp hp]
    exact Nat.lt_succ_self next

theorem fresh_filter {rows : List (ℕ × StoredRow)} {next : ℕ} (fresh : ∀ p ∈ rows, p.1 < next)
    (keep : ℕ × StoredRow → Bool) : ∀ p ∈ rows.filter keep, p.1 < next :=
  fun p hp => fresh p (List.mem_filter.mp hp).1

namespace Episodes

def insert (db : Episodes) (row : StoredRow) : Episodes :=
  ⟨db.rows ++ [(db.next, row)], db.next + 1, fresh_append db.fresh row⟩

def deleteEpisode (db : Episodes) (id : ℕ) : Episodes :=
  ⟨db.rows.filter fun p => p.1 ≠ id, db.next, fresh_filter db.fresh _⟩

/-- `_rollback_persisted` -/
def rollback (db : Episodes) (ids : List ℕ) : Episodes := ids.reverse.foldl deleteEpisode db

end Episodes

/-- How a call of `store_observation` ends, and whether its row has been inserted. -/
inductive StoreStep where
  | returns
  | raises (inserted : Bool)
  | cancelled (inserted : Bool)
deriving DecidableEq

inductive StoreError where
  | raised
  | cancelled
deriving DecidableEq

/-- `entry.source_agent or 'unknown'` -/
def sourceOf (u : UnicodeData) (entry : MemoryWriteEntry) : PyText :=
  if entry.sourceAgent.truthy then strText u entry.sourceAgent else word "unknown"

def rowOf (u : UnicodeData) (entry : MemoryWriteEntry) : StoredRow where
  content := entry.content
  importance := entry.importance
  ttlSeconds := entry.ttlSeconds
  tags := entry.tags ++ [.str (word "tier:" ++ entry.tier), .str (word "key:" ++ entry.key),
    .str (word "source:" ++ sourceOf u entry)]

/-- The store that is left by a call that did not return. -/
def Episodes.leave (db : Episodes) (row : StoredRow) (inserted : Bool) : Episodes :=
  if inserted then db.insert row else db

/-- `_persist_admitted`, with the ids of the rows stored so far. -/
def persist (steps : ℕ → StoreStep) :
    List StoredRow → List ℕ → Episodes → Except StoreError (List ℕ) × Episodes
  | [], ids, db => (.ok ids, db)
  | row :: rows, ids, db =>
    match steps ids.length with
    | .returns => persist steps rows (ids ++ [db.next]) (db.insert row)
    | .raises inserted => (.error .raised, (db.leave row inserted).rollback ids)
    | .cancelled inserted => (.error .cancelled, db.leave row inserted)

/-! ### The dispatch -/

inductive DispatchError where
  | delegationFailure
  | python (e : PyException)
  | store (e : StoreError)

/-- The child's answer; what its metadata holds under the key of the result. -/
structure TaskOutput where
  failed : Bool
  delegationResult : Option Value

structure SpawnResult where
  result : DelegationResult
  outcome : MergeOutcome
  admittedEntryIDs : List ℕ

def DispatchError.ofRead : ReadError → DispatchError
  | .contractError => .delegationFailure
  | .python e => .python e

/-- `_extract_result` -/
def extractResult (u : UnicodeData) (output : TaskOutput) : Except DispatchError DelegationResult :=
  if output.failed then .error .delegationFailure
  else
    match output.delegationResult with
    | some (.str raw) => (fromMetadataValue u raw).mapError .ofRead
    | _ => .error .delegationFailure

section
variable (u : UnicodeData) (request : DelegationRequest) (childID : PyText)
  (existingKeys : List PyText) (output : TaskOutput) (steps : ℕ → StoreStep) (db : Episodes)

/-- A result is held against the schema and merged. -/
def mergeReply (result : DelegationResult) : Except DispatchError (DelegationResult × MergeOutcome) :=
  if request.acceptsArtifacts result.artifacts then
    ((mergeResult u request childID existingKeys result.memoryWrites).map fun outcome =>
      (result, outcome)).mapError .python
  else .error .delegationFailure

def receive : Except DispatchError (DelegationResult × MergeOutcome) :=
  (extractResult u output).bind (mergeReply u request childID existingKeys)

/-- `dispatch`, once the child has answered. -/
def dispatch : Except DispatchError SpawnResult × Episodes :=
  match receive u request childID existingKeys output with
  | .error e => (.error e, db)
  | .ok (result, outcome) =>
    match persist steps (outcome.admitted.map (rowOf u)) [] db with
    | (.error e, db) => (.error (.store e), db)
    | (.ok ids, db) => (.ok ⟨result, outcome, ids⟩, db)

end

/-! ### What a batch leaves in the store -/

theorem rollback_rows (ids : List ℕ) (db : Episodes) :
    (db.rollback ids).rows = db.rows.filter fun p => p.1 ∉ ids := by
  unfold Episodes.rollback
  have hfold : ∀ (l : List ℕ) (db : Episodes),
      (l.foldl Episodes.deleteEpisode db).rows = db.rows.filter fun p => p.1 ∉ l := by
    intro l
    induction l with
    | nil => simp
    | cons id l ih =>
      intro db
      rw [List.foldl_cons, ih]
      unfold Episodes.deleteEpisode
      rw [List.filter_filter]
      refine List.filter_congr fun p _ => ?_
      rw [Bool.eq_iff_iff]
      simp only [Bool.and_eq_true, decide_eq_true_eq, List.mem_cons, not_or]
      exact and_comm
  rw [hfold]
  simp only [List.mem_reverse]

/-- The store holds, beside what it held, these rows under new ids. -/
structure Grown (base : Episodes) (ids : List ℕ) (rows : List StoredRow) (db : Episodes) : Prop where
  held : db.rows = base.rows ++ ids.zip rows
  ids_eq : ids = List.range' base.next rows.length
  next_eq : db.next = base.next + rows.length

namespace Grown
variable {base db : Episodes} {ids : List ℕ} {rows : List StoredRow}

theorem refl (base : Episodes) : Grown base [] [] base := ⟨(List.append_nil _).symm, rfl, rfl⟩

theorem length_eq (h : Grown base ids rows db) : ids.length = rows.length := by
  rw [h.ids_eq, List.length_range']

theorem insert (h : Grown base ids rows db) (row : StoredRow) :
    Grown base (ids ++ [db.next]) (rows ++ [row]) (db.insert row) where
  held := by
    unfold Episodes.insert
    dsimp only
    rw [h.held, List.zip_append h.length_eq, List.append_assoc]
    rfl
  ids_eq := by
    rw [List.length_append, List.length_singleton, List.range'_1_concat, ← h.ids_eq, h.next_eq]
  next_eq := by
    rw [List.length_append, List.length_singleton, ← Nat.add_assoc, ← h.next_eq]
    rfl

/-- The rows of the batch are deleted again. -/
theorem rollback_rows (h : Grown base ids rows db) : (db.rollback ids).rows = base.rows := by
  rw [SubAgents.rollback_rows, h.held, List.filter_append]
  have hbase : base.rows.filter (fun p => p.1 ∉ ids) = base.rows := by
    rw [List.filter_eq_self]
    intro p hp
    have hlt := base.fresh p hp
    rw [decide_eq_true_eq, h.ids_eq, List.mem_range'_1]
    omega
  have hbatch : (ids.zip rows).filter (fun p => p.1 ∉ ids) = [] := by
    rw [List.filter_eq_nil_iff]
    intro p hp
    rw [decide_eq_true_eq, not_not]
    exact (List.of_mem_zip hp).1
  rw [hbase, hbatch, List.append_nil]

/-- A row that was inserted by the call that raised stays. -/
theorem rollback_inserted (h : Grown base ids rows db) (row : StoredRow) :
    ((db.insert row).rollback ids).rows = base.rows ++ [(db.next, row)] := by
  have hnew : db.next ∉ ids := by
    rw [h.ids_eq, List.mem_range'_1, h.next_eq]
    omega
  have hsplit : (db.insert row).rows = db.rows ++ [(db.next, row)] := rfl
  rw [SubAgents.rollback_rows, hsplit, List.filter_append, ← SubAgents.rollback_rows,
    h.rollback_rows, List.filter_singleton, decide_eq_true hnew]
  rfl

end Grown

/-- A call that leaves nothing behind, where it is the first of the batch that does not return. -/
def StoreStep.Safe (place : ℕ) : StoreStep → Prop
  | .returns => True
  | .raises inserted => inserted = false
  | .cancelled inserted => place = 0 ∧ inserted = false

/-- The first call of a batch that does not return leaves nothing behind. -/
def StepsSafe (steps : ℕ → StoreStep) (count : ℕ) : Prop :=
  ∀ j < count, (∀ i < j, steps i = .returns) → (steps j).Safe j

theorem append_ne_self {α : Type} (l : List α) {l' : List α} (h : l' ≠ []) : l ++ l' ≠ l :=
  fun heq => h (List.append_right_eq_self.mp heq)

/-- A batch that is stored, or the call that ended it. -/
theorem persist_cases {steps : ℕ → StoreStep} {rows stored : List StoredRow} {ids : List ℕ}
    {base db : Episodes} (h : Grown base ids stored db)
    (hreturned : ∀ i < stored.length, steps i = .returns) :
    (∃ ids' db', persist steps rows ids db = (.ok ids', db') ∧
      Grown base ids' (stored ++ rows) db' ∧
      ∀ i < (stored ++ rows).length, steps i = .returns) ∨
    ∃ e db' j, persist steps rows ids db = (.error e, db') ∧ j < (stored ++ rows).length ∧
      (∀ i < j, steps i = .returns) ∧ steps j ≠ .returns ∧
      (db'.rows = base.rows ↔ (steps j).Safe j) := by
  induction rows generalizing stored ids db with
  | nil =>
    refine .inl ⟨ids, db, rfl, ?_, ?_⟩
    · rw [List.append_nil]
      exact h
    · rw [List.append_nil]
      exact hreturned
  | cons row rows ih =>
    have hlt : stored.length < (stored ++ row :: rows).length := by
      rw [List.length_append, List.length_cons]
      omega
    have hplace : steps ids.length = steps stored.length := by rw [h.length_eq]
    unfold persist
    rw [hplace]
    cases hstep : steps stored.length with
    | returns =>
      have hnext : ∀ i < (stored ++ [row]).length, steps i = .returns := by
        intro i hi
        rw [List.length_append, List.length_singleton, Nat.lt_succ_iff_lt_or_eq] at hi
        rcases hi with hi | rfl
        · exact hreturned i hi
        · exact hstep
      have hrest := ih (h.insert row) hnext
      rw [List.append_assoc, List.singleton_append] at hrest
      exact hrest
    | raises inserted =>
      refine .inr ⟨.raised, _, stored.length, rfl, hlt, hreturned, ?_, ?_⟩
      · rw [hstep]
        exact fun heq => by cases heq
      · rw [hstep]
        cases inserted with
        | false => exact iff_of_true h.rollback_rows rfl
        | true =>
          refine iff_of_false ?_ (fun heq => by cases heq)
          have hrows := h.rollback_inserted row
          unfold Episodes.leave
          rw [if_pos rfl, hrows]
          exact append_ne_self _ (List.cons_ne_nil _ _)
    | cancelled inserted =>
      refine .inr ⟨.cancelled, _, stored.length, rfl, hlt, hreturned, ?_, ?_⟩
      · rw [hstep]
        exact fun heq => by cases heq
      · rw [hstep]
        cases inserted with
        | true =>
          refine iff_of_false ?_ (fun heq => by cases heq.2)
          have hrows : (db.insert row).rows =
              base.rows ++ (ids.zip stored ++ [(db.next, row)]) := by
            rw [← List.append_assoc, ← h.held]
            rfl
          unfold Episodes.leave
          rw [if_pos rfl, hrows]
          exact append_ne_self _ (List.append_ne_nil_of_right_ne_nil _ (List.cons_ne_nil _ _))
        | false =>
          unfold Episodes.leave StoreStep.Safe
          rw [if_neg Bool.false_ne_true, h.held]
          have hlength := h.length_eq
          cases stored with
          | nil =>
            rw [List.zip_nil_right, List.append_nil]
            exact iff_of_true rfl ⟨rfl, rfl⟩
          | cons first stored =>
            refine iff_of_false ?_ fun heq => Nat.succ_ne_zero _ heq.1
            refine append_ne_self _ fun hnil => ?_
            have hzero := congrArg List.length hnil
            rw [List.length_zip, hlength, min_self] at hzero
            cases hzero

end Persatrix.SubAgents
