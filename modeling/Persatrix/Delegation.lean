import Persatrix.PythonBuiltins

/-!
# The reply of a sub-agent

A sub-agent replies with a text that is read leniently: unknown fields are ignored, missing ones have
defaults and what is there is converted. A reply of the wrong shape is a breach of the contract; a
conversion that fails raises the exception of Python that it raises.
-/
namespace Persatrix.SubAgents
open PyJson

def allowedTiers : List PyText := [word "episodic", word "notes"]

def allowedStatuses : List PyText := [word "completed", word "partial", word "failed"]

def rejectOnConflict : PyText := word "reject_on_conflict"

def allowedStrategies : List PyText :=
  [word "replace", word "append", word "patch", rejectOnConflict]

/-- The source agent is `None` where the reply names none. -/
structure MemoryWriteEntry where
  tier : PyText
  key : PyText
  content : PyText
  importance : PyFloat
  ttlSeconds : Option PyFloat
  tags : List Value
  mergeStrategy : PyText
  sourceAgent : Value

structure DelegationResult where
  summary : PyText
  status : PyText
  artifacts : List (Value × Value)
  decisions : List Value
  memoryWrites : List MemoryWriteEntry
  risks : List Value

/-- A request that `validate` accepts; the reply meets three of its fields. -/
structure DelegationRequest where
  acceptsArtifacts : List (Value × Value) → Bool
  trustCeiling : PyFloat
  maxMemoryWrites : ℕ
  ceiling_low : (toFloat false 0).le trustCeiling = true
  ceiling_high : trustCeiling.le (toFloat false 1) = true

inductive ReadError where
  | contractError
  | python (e : PyException)
deriving DecidableEq

/-- `str(d.get(key, default))` -/
def textOf (u : UnicodeData) (items : List (PyText × Value)) (key default : String) : PyText :=
  strText u ((get items key).getD (.str (word default)))

def importanceOf (u : UnicodeData) (raw : List (PyText × Value)) : Except PyException PyFloat :=
  floatOf u ((get raw "importance").getD (.float (toFloat false (1 / 2))))

def ttlOf (u : UnicodeData) (raw : List (PyText × Value)) : Except PyException (Option PyFloat) :=
  match get raw "ttl_seconds" with
  | none => .ok none
  | some .null => .ok none
  | some v => (floatOf u v).map some

def readEntry (u : UnicodeData) (raw : List (PyText × Value)) :
    Except PyException MemoryWriteEntry :=
  (importanceOf u raw).bind fun importance =>
    (ttlOf u raw).bind fun ttlSeconds =>
      (tupleOrEmpty (get raw "tags")).map fun tags =>
        { tier := textOf u raw "tier" ""
          key := textOf u raw "key" ""
          content := textOf u raw "content" ""
          importance, ttlSeconds, tags
          mergeStrategy := textOf u raw "merge_strategy" "replace"
          sourceAgent := (get raw "source_agent").getD .null }

def readEntries (u : UnicodeData) : List Value → Except ReadError (List MemoryWriteEntry)
  | [] => .ok []
  | .object raw :: writes =>
    match readEntry u raw with
    | .error e => .error (.python e)
    | .ok entry => (readEntries u writes).map (entry :: ·)
  | _ :: _ => .error .contractError

/-- `data.get("memory_writes") or []` -/
def writesOf (data : List (PyText × Value)) : Value :=
  match get data "memory_writes" with
  | none => .array []
  | some v => if v.truthy then v else .array []

/-- The artifacts, the decisions and the risks, in the order in which they are converted. -/
def readTuples (data : List (PyText × Value)) :
    Except PyException (List (Value × Value) × List Value × List Value) :=
  (dictOrEmpty (get data "artifacts")).bind fun artifacts =>
    (tupleOrEmpty (get data "decisions")).bind fun decisions =>
      (tupleOrEmpty (get data "risks")).map fun risks => (artifacts, decisions, risks)

/-- `DelegationResult.validate`; the artifacts are a `dict`. -/
def DelegationResult.valid (result : DelegationResult) : Bool := result.status ∈ allowedStatuses

/-- The result that an object's members make, once its entries are read. -/
def resultOf (u : UnicodeData) (data : List (PyText × Value))
    (memoryWrites : List MemoryWriteEntry) : Except ReadError DelegationResult :=
  match readTuples data with
  | .error e => .error (.python e)
  | .ok (artifacts, decisions, risks) =>
    let result : DelegationResult :=
      { summary := textOf u data "summary" ""
        status := textOf u data "status" ""
        artifacts, decisions, memoryWrites, risks }
    if result.valid then .ok result else .error .contractError

/-- `DelegationResult.from_metadata_value` -/
def fromMetadataValue (u : UnicodeData) (value : PyText) : Except ReadError DelegationResult :=
  match loads value with
  | .error .jsonDecodeError => .error .contractError
  | .error .valueError => .error (.python .valueError)
  | .ok (.object data) =>
    match writesOf data with
    | .array writes => (readEntries u writes).bind (resultOf u data)
    | _ => .error .contractError
  | .ok _ => .error .contractError

/-! ### Which replies are read -/

/-- The objects before the first value that is none. -/
def objectsOf : List Value → List (List (PyText × Value))
  | .object raw :: writes => raw :: objectsOf writes
  | _ => []

/-- Every value is an object. -/
def allObjects : List Value → Bool
  | [] => true
  | .object _ :: writes => allObjects writes
  | _ => false

/-- The numbers and the tags of an entry can be converted. -/
def Convertible (u : UnicodeData) (raw : List (PyText × Value)) : Prop :=
  (importanceOf u raw).isOk ∧ (ttlOf u raw).isOk ∧ (tupleOrEmpty (get raw "tags")).isOk

theorem readEntry_isOk_iff (u : UnicodeData) (raw : List (PyText × Value)) :
    (readEntry u raw).isOk ↔ Convertible u raw := by
  unfold readEntry Convertible
  cases importanceOf u raw <;> cases ttlOf u raw <;> cases tupleOrEmpty (get raw "tags") <;>
    simp [Except.bind, Except.map, Except.isOk, Except.toBool]

/-- Entries are read where all are objects that can be converted. -/
theorem readEntries_isOk_iff (u : UnicodeData) (writes : List Value) :
    (readEntries u writes).isOk ↔
      allObjects writes = true ∧ ∀ raw ∈ objectsOf writes, Convertible u raw := by
  induction writes with
  | nil => simp [readEntries, allObjects, objectsOf, Except.isOk, Except.toBool]
  | cons v writes ih =>
    cases v with
    | object raw =>
      rw [readEntries, allObjects, objectsOf, List.forall_mem_cons, ← readEntry_isOk_iff]
      cases readEntry u raw with
      | error e => simp [Except.isOk, Except.toBool]
      | ok entry =>
        have hmap : ((readEntries u writes).map (entry :: ·)).isOk =
            (readEntries u writes).isOk := by cases readEntries u writes <;> rfl
        dsimp only
        rw [hmap, ih]
        simp [Except.isOk, Except.toBool]
    | _ => simp [readEntries, allObjects, Except.isOk, Except.toBool]

/-- The error is of Python where an object before the first other value cannot be converted. -/
theorem readEntries_python_iff (u : UnicodeData) (writes : List Value) :
    (∃ e, readEntries u writes = .error (.python e)) ↔
      ¬ ∀ raw ∈ objectsOf writes, Convertible u raw := by
  induction writes with
  | nil => simp [readEntries, objectsOf]
  | cons v writes ih =>
    cases v with
    | object raw =>
      rw [readEntries, objectsOf, List.forall_mem_cons, ← readEntry_isOk_iff]
      cases readEntry u raw with
      | error e => simp [Except.isOk, Except.toBool]
      | ok entry =>
        have hmap : (∃ e, (readEntries u writes).map (entry :: ·) = .error (.python e)) ↔
            ∃ e, readEntries u writes = .error (.python e) := by
          cases readEntries u writes with
          | error e => rfl
          | ok entries => simp [Except.map]
        dsimp only
        rw [hmap, ih]
        simp [Except.isOk, Except.toBool]
    | _ => simp [readEntries, objectsOf]

end Persatrix.SubAgents
