import Persatrix.FactPredicates
import Mathlib.Data.Rat.Defs
import Mathlib.Order.Lattice

/-!
# The table of facts

The rows in the order of their insertion, the statements that a write runs on them, and the
write as a whole. The times at which facts are asserted are in a linear order. The id of a new
fact is given; the statement that inserts the row fails when the id is taken.
-/
namespace Persatrix.Agents

def legacySessionID : String := "legacy"

structure Fact (T : Type) where
  factID : String
  agentID : String
  subject : String
  predicate : String
  object : String
  certainty : ℚ
  sourceInteractionID : Option String
  assertedAt : T
  lastRecalledAt : Option T
  supersededBy : Option String
  sessionID : String
  principalID : String
  epochID : String
  protectionLevel : String
  sourceChannelID : Option String
  speakerID : Option String
deriving DecidableEq

/-- What the rows of one chain share. -/
@[ext] structure ChainKey where
  agentID : String
  subject : String
  predicate : String
  sessionID : String
  principalID : String
  epochID : String
deriving DecidableEq

inductive FactError where
  | value (message : String)
  | certaintyOutOfRange (got : ℚ)
  | idTaken
deriving DecidableEq

structure SupersessionResult where
  supersededOlderIDs : List String
  selfSupersededBy : Option String
deriving DecidableEq

structure FactArgs (T : Type) where
  agentID : String
  subject : String
  predicate : String
  object : String
  sourceInteractionID : Option String
  assertedAt : T
  certainty : ℚ
  sessionID : String
  principalID : String
  epochID : String
  protectionLevel : String
  sourceChannelID : Option String
  speakerID : Option String

/-- The arguments of a write, with the check it makes on the predicate and the id it generates. -/
structure InsertCall (T : Type) where
  predicateValidator : String → Except String Unit
  factID : String
  args : FactArgs T

variable {T : Type}

namespace Fact

def key (row : Fact T) : ChainKey :=
  ⟨row.agentID, row.subject, row.predicate, row.sessionID, row.principalID, row.epochID⟩

def Live (row : Fact T) : Prop := row.supersededBy = none

instance (row : Fact T) : Decidable row.Live := inferInstanceAs (Decidable (_ = _))

end Fact

/-! ### The statements of a write -/

/-- Nothing is inserted when the id is taken. -/
def insertRow (db : List (Fact T)) (row : Fact T) : Option (List (Fact T)) :=
  if row.factID ∈ db.map Fact.factID then none else some (db ++ [row])

def olderSessions (sessionID : String) : List String :=
  if sessionID = legacySessionID then [sessionID] else [sessionID, legacySessionID]

def togetherSource (new : Fact T) : Option String :=
  if new.predicate ∈ singleValuedPredicates then none else new.sourceInteractionID

section
variable [LinearOrder T]

/-- The row is of the extraction that wrote the new one, and says something else. -/
def WrittenTogether (new row : Fact T) : Prop :=
  row.sourceInteractionID ≠ none ∧ row.sourceInteractionID = togetherSource new ∧
    row.assertedAt = new.assertedAt ∧ row.object ≠ new.object

instance (new row : Fact T) : Decidable (WrittenTogether new row) :=
  inferInstanceAs (Decidable (_ ∧ _ ∧ _ ∧ _))

/-- The new row takes the place of the row. -/
def Sweeps (new row : Fact T) : Prop :=
  row.agentID = new.agentID ∧ row.subject = new.subject ∧ row.predicate = new.predicate ∧
    row.sessionID ∈ olderSessions new.sessionID ∧ row.principalID = new.principalID ∧
    row.epochID = new.epochID ∧ row.Live ∧ row.assertedAt ≤ new.assertedAt ∧
    row.factID ≠ new.factID ∧ ¬WrittenTogether new row

instance (new row : Fact T) : Decidable (Sweeps new row) :=
  inferInstanceAs (Decidable (_ ∧ _ ∧ _ ∧ _ ∧ _ ∧ _ ∧ _ ∧ _ ∧ _ ∧ _))

def selectOlder (db : List (Fact T)) (new : Fact T) : List String :=
  (db.filter fun row => Sweeps new row).map Fact.factID

def Dominates (new row : Fact T) : Prop :=
  row.key = new.key ∧ row.Live ∧ new.assertedAt < row.assertedAt

instance (new row : Fact T) : Decidable (Dominates new row) :=
  inferInstanceAs (Decidable (_ ∧ _ ∧ _))

/-- The row with the greatest time, the last one of these. -/
def newest : List (Fact T) → Option (Fact T)
  | [] => none
  | row :: rows =>
    match newest rows with
    | none => some row
    | some best => if best.assertedAt < row.assertedAt then some row else some best

def selectNewer (db : List (Fact T)) (new : Fact T) : Option String :=
  (newest (db.filter fun row => Dominates new row)).map Fact.factID

end

/-- The rows of the agent with the ids point at the row that supersedes them. -/
def setSupersededBy (db : List (Fact T)) (agentID : String) (ids : List String)
    (target : String) : List (Fact T) :=
  db.map fun row =>
    if row.agentID = agentID ∧ row.factID ∈ ids then { row with supersededBy := some target }
    else row

/-! ### The write -/

/-- The checks on the values of a new fact, which give the subject it is stored under. -/
def checkFact (casefold : String → String) (call : InsertCall T) : Except FactError String := do
  if blank call.args.subject then throw (.value "subject must not be empty")
  if ¬(0 ≤ call.args.certainty ∧ call.args.certainty ≤ 1) then
    throw (.certaintyOutOfRange call.args.certainty)
  (call.predicateValidator call.args.predicate).mapError .value
  (validateObject call.args.object).mapError .value
  let subject ← (canonicalizeSubject casefold call.args.subject).mapError .value
  (validateSubject subject).mapError .value
  return subject

/-- The row of a new fact, when its values pass the checks. -/
def newRow (casefold : String → String) (call : InsertCall T) : Except FactError (Fact T) :=
  (checkFact casefold call).map fun subject => {
    subject
    factID := call.factID
    agentID := call.args.agentID
    predicate := call.args.predicate
    object := call.args.object
    certainty := call.args.certainty
    sourceInteractionID := call.args.sourceInteractionID.filter fun id => !blank id
    assertedAt := call.args.assertedAt
    lastRecalledAt := none
    supersededBy := none
    sessionID := call.args.sessionID
    principalID := call.args.principalID
    epochID := call.args.epochID
    protectionLevel := call.args.protectionLevel
    sourceChannelID := call.args.sourceChannelID
    speakerID := call.args.speakerID.filter fun id => id ≠ "" }

theorem newRow_eq_ok {casefold : String → String} {call : InsertCall T} {row : Fact T}
    (h : newRow casefold call = .ok row) : row.factID = call.factID ∧ row.Live := by
  unfold newRow at h
  cases hsubject : checkFact casefold call with
  | error e =>
    rw [hsubject] at h
    cases h
  | ok subject =>
    rw [hsubject] at h
    cases h
    exact ⟨rfl, rfl⟩

section
variable [LinearOrder T]

def applySupersession (db : List (Fact T)) (new : Fact T) :
    SupersessionResult × List (Fact T) :=
  let older := selectOlder db new
  let newer := selectNewer db new
  let db := if older = [] then db else setSupersededBy db new.agentID older new.factID
  match newer with
  | none => (⟨older, none⟩, db)
  | some id => (⟨older, some id⟩, setSupersededBy db new.agentID [new.factID] id)

/-- The write of a row that passed the checks: the id of the fact, what was superseded, and the
table. -/
def writeRow (db : List (Fact T)) (row : Fact T) :
    Except FactError (String × SupersessionResult × List (Fact T)) :=
  match insertRow db row with
  | none => .error .idTaken
  | some db => .ok (row.factID, applySupersession db row)

def insertFact (casefold : String → String) (db : List (Fact T)) (call : InsertCall T) :
    Except FactError (String × SupersessionResult × List (Fact T)) := do
  writeRow db (← newRow casefold call)

end

end Persatrix.Agents
