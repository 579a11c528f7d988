import Mathlib.Data.List.Nodup
import Mathlib.Data.Nat.Notation
import Mathlib.Data.Rat.Defs

/-!
# The types of a decision

A text is a sequence of code points, surrogates among them. A decision record is assembled from
what untrusted callbacks return, so the fields of an outcome hold any values: what the code does
with such a value is what the value says of it.
-/
namespace Persatrix.Decision

abbrev CodePoint := Fin 0x110000
abbrev Text := List CodePoint

/-- The text of a literal. -/
def lit (s : String) : Text := s.toList.map fun c => Fin.ofNat 0x110000 c.toNat

inductive ActionClass where
  | respond | askClarification | toolCall | delegate | publishChannel | defer
deriving DecidableEq

inductive Checkpoint where
  | preAct | preTool | preDelegate | postOutcome
deriving DecidableEq

inductive DecisionSubject where
  | action | directive
deriving DecidableEq

inductive DirectiveVerdict where
  | accept | adapt | refuse
deriving DecidableEq

inductive PolicyMode where
  | manual | semiAutomated | automated
deriving DecidableEq

/-- `[a-z][a-z0-9_]*` -/
def isReasonCode : Text → Bool
  | [] => false
  | c :: s => lower c && s.all fun c => lower c || digit c || c = 95
where
  lower (c : CodePoint) : Bool := 97 ≤ c && c ≤ 122
  digit (c : CodePoint) : Bool := 48 ≤ c && c ≤ 57

/-- `[0-9a-f]{64}` -/
def isSHA256Hex (s : Text) : Bool :=
  s.length = 64 && s.all fun c => 48 ≤ c && c ≤ 57 || 97 ≤ c && c ≤ 102

structure DecisionContext where
  checkpoint : Checkpoint
  agentID : Text
  mode : PolicyMode
  agentType : Option Text
  eventType : Option Text
  eventID : Option Text
  workflowID : Option Text
  channelID : Option Text
  protectionLevel : Option Text
  autonomyLevel : Option Text
  mood : Option Text
deriving DecidableEq

structure DecisionCandidate where
  candidateID : Text
  actionClass : ActionClass
  action : Text
  toolName : Option Text
  argumentNames : List Text
  target : Option Text
  contentHash : Option Text
  hash_ok : ∀ h ∈ contentHash, isSHA256Hex h = true
deriving DecidableEq

/-! ### Values of any type -/

/-- An exception, as the handlers tell it apart. -/
inductive PyError where
  | valueError
  | other
deriving DecidableEq

/-- What an object yields when it is iterated over, and how that ends. -/
abbrev Iteration (α : Type) := List α × Option PyError

/-- A value. Of an object of a type that is not listed it is said what hashing it, its truth, two
iterations over it and its attribute `candidate_id` give. -/
inductive PyValue where
  | none
  | str (s : Text)
  | bool (b : Bool)
  | int (n : ℤ)
  | float (x : Option ℚ)
  | actionClass (a : ActionClass)
  | verdict (v : DirectiveVerdict)
  | rejection (candidateID : Text) (reason : Text)
  | object (hash : Option PyError) (truth : Except PyError Bool)
      (first second : List PyValue × Option PyError) (candidateID : Except PyError PyValue)

namespace PyValue

def isNone : PyValue → Bool
  | .none => true
  | _ => false

/-- A tuple or a list of values that have hashes. -/
def tuple (items : List PyValue) : PyValue :=
  .object .none (.ok !items.isEmpty) (items, .none) (items, .none) (.error .other)

def text? : PyValue → Option Text
  | .str s => some s
  | _ => .none

/-- The error that hashing the value raises. -/
def hashError : PyValue → Option PyError
  | .object hash _ _ _ _ => hash
  | _ => .none

def truth : PyValue → Except PyError Bool
  | .none => .ok false
  | .str s => .ok !s.isEmpty
  | .bool b => .ok b
  | .int n => .ok (n ≠ 0)
  | .float x => .ok (x ≠ some 0)
  | .actionClass _ | .verdict _ | .rejection _ _ => .ok true
  | .object _ truth _ _ _ => truth

/-- The first iteration over the value; that of a text yields its characters. -/
def first : PyValue → Iteration PyValue
  | .str s => (s.map fun c => .str [c], .none)
  | .object _ _ first _ _ => first
  | _ => ([], some .other)

def second : PyValue → Iteration PyValue
  | .str s => (s.map fun c => .str [c], .none)
  | .object _ _ _ second _ => second
  | _ => ([], some .other)

/-- The attribute `candidate_id`. -/
def candidateID : PyValue → Except PyError PyValue
  | .rejection candidateID _ => .ok (.str candidateID)
  | .object _ _ _ _ candidateID => candidateID
  | _ => .error .other

end PyValue

/-- The fields of a `DecisionOutcome`. -/
structure DecisionOutcome where
  actionClass : PyValue
  selectedID : PyValue
  reason : PyValue
  confidence : PyValue
  rejected : PyValue
  rationale : PyValue
  verdict : PyValue

/-! ### The checks -/

/-- `[r.candidate_id for r in …]` -/
def candidateIDs (it : Iteration PyValue) : Except PyError (List PyValue) :=
  match it.1.mapM PyValue.candidateID, it.2 with
  | .error e, _ => .error e
  | .ok _, some e => .error e
  | .ok ids, none => .ok ids

/-- The ids as a set, which must be one of different candidates. -/
def checkRejected (candidates : List DecisionCandidate) (ids : List PyValue) :
    Except PyError (List Text) :=
  match ids.findSome? PyValue.hashError with
  | some e => .error e
  | none =>
    match ids.mapM PyValue.text? with
    | none => .error .valueError
    | some texts =>
      if texts.Nodup ∧ ∀ t ∈ texts, t ∈ candidates.map DecisionCandidate.candidateID then .ok texts
      else .error .valueError

/-- The class of the candidate with this id. -/
def classOf (candidates : List DecisionCandidate) (id : Text) : Option ActionClass :=
  (candidates.find? fun c => c.candidateID = id).map DecisionCandidate.actionClass

def isClass (v : PyValue) (a : ActionClass) : Bool :=
  match v with
  | .actionClass b => a = b
  | _ => false

def checkSelected (candidates : List DecisionCandidate) (rejected : List Text)
    (selectedID actionClass : PyValue) : Except PyError Unit :=
  match selectedID with
  | .none => .ok ()
  | .str id =>
    if id ∈ rejected then .error .valueError
    else if (classOf candidates id).any (isClass actionClass) then .ok ()
    else .error .valueError
  | v =>
    match v.hashError with
    | some e => .error e
    | none => .error .valueError

/-- `outcome.action_class is DEFER and bool(outcome.reason)` -/
def deferred (o : DecisionOutcome) : Except PyError Bool :=
  if isClass o.actionClass .defer then o.reason.truth else .ok false

/-- `if p: raise ValueError(…)` -/
def raiseIf (p : Prop) [Decidable p] : Except PyError Unit :=
  if p then .error .valueError else .ok ()

def checkOutcome (mode : PolicyMode) (candidates : List DecisionCandidate) (o : DecisionOutcome)
    (subject : DecisionSubject) (subjectID : Option Text) : Except PyError Unit := do
  raiseIf (mode = .manual ∧ o.confidence.isNone = false)
  let ids ← candidateIDs o.rejected.first
  let rejected ← checkRejected candidates ids
  checkSelected candidates rejected o.selectedID o.actionClass
  let deferred ← deferred o
  match subject with
  | .action =>
    raiseIf (o.actionClass.isNone = true ∨ o.verdict.isNone = false)
    raiseIf (subjectID.isSome = true)
    raiseIf (o.selectedID.isNone = true ∧ deferred = false)
  | .directive =>
    raiseIf (subjectID.all List.isEmpty = true)
    let reached := !o.verdict.isNone && o.actionClass.isNone
    raiseIf (reached = false ∧ (deferred && o.verdict.isNone) = false)

def checkCandidates (candidates : List DecisionCandidate) : Except PyError Unit :=
  if (candidates.map DecisionCandidate.candidateID).Nodup then .ok () else .error .valueError

def checkReason : PyValue → Except PyError Unit
  | .none => .ok ()
  | .str s => if isReasonCode s then .ok () else .error .valueError
  | _ => .error .other

/-- A confidence as the constructor keeps it. -/
def checkConfidence : PyValue → Except PyError PyValue
  | .none => .ok .none
  | .int n => if 0 ≤ n ∧ n ≤ 1 then .ok (.float (some n)) else .error .valueError
  | .float (some x) => if 0 ≤ x ∧ x ≤ 1 then .ok (.float (some x)) else .error .valueError
  | _ => .error .valueError

/-- `DecisionOutcome(…)` -/
def construct (o : DecisionOutcome) : Except PyError DecisionOutcome := do
  checkReason o.reason
  let confidence ← checkConfidence o.confidence
  return { o with confidence }

end Persatrix.Decision

/-!
## The selection pipeline

Constraints, a policy and approval gates settle which candidate runs. Each may return any value or
raise; what is not an answer that the step may give leaves nothing selected. A coroutine that is
returned is closed, which may raise in its turn.
-/
namespace Persatrix.Decision

/-- What a constraint or a gate does when it is asked about a candidate. -/
inductive Answer where
  | raises
  | coroutine (closes : Bool)
  | value (v : PyValue)

abbrev Check := DecisionContext → DecisionCandidate → Answer

/-- What a policy does when it is asked for a pick. -/
inductive PolicyAnswer where
  | raises
  | coroutine (closes : Bool)
  | value
  | outcome (o : DecisionOutcome)

abbrev Policy := DecisionContext → List DecisionCandidate → PolicyAnswer

structure DecisionRecord where
  context : DecisionContext
  candidates : List DecisionCandidate
  outcome : DecisionOutcome
  subject : DecisionSubject
  subjectID : Option Text
  recordID : Text
  recordedAt : ℚ

def checkRecord (r : DecisionRecord) : Except PyError Unit := do
  checkCandidates r.candidates
  checkOutcome r.context.mode r.candidates r.outcome r.subject r.subjectID

/-- An outcome that selects nothing, for a reason. -/
def deferral (reason : Text) (rejected : PyValue) : DecisionOutcome :=
  ⟨.actionClass .defer, .none, .str reason, .none, rejected, .str [], .none⟩

def noCandidate : DecisionOutcome := deferral (lit "no_candidate") (.tuple [])
def runtimeProposal : Text := lit "runtime_proposal"
def proposalRemoved : Text := lit "proposal_removed"

/-! ### Asking -/

inductive Asked where
  | passes
  | refuses (reason : Text)
  | broke

def ask (context : DecisionContext) (check : Check) (c : DecisionCandidate) :
    Except PyError Asked :=
  match check context c with
  | .raises => .ok .broke
  | .coroutine closes => if closes then .ok .broke else .error .other
  | .value .none => .ok .passes
  | .value (.str s) => .ok (if isReasonCode s then .refuses s else .broke)
  | .value _ => .ok .broke

/-- The first refusal of a candidate, and whether an earlier constraint broke on it. -/
def askAll (context : DecisionContext) (c : DecisionCandidate) :
    List Check → Bool → Except PyError (Option Text × Bool)
  | [], broke => .ok (none, broke)
  | k :: constraints, broke => do
    match ← ask context k c with
    | .refuses reason => return (some reason, broke)
    | .broke => askAll context c constraints true
    | .passes => askAll context c constraints broke

/-- The candidates that are left, the rejections of the others, and whether an error removed
one. -/
def constrain (context : DecisionContext) (constraints : List Check) :
    List DecisionCandidate → Except PyError (List DecisionCandidate × List PyValue × Bool)
  | [] => .ok ([], [], false)
  | c :: candidates => do
    let (refused, broke) ← askAll context c constraints false
    let (survivors, removed, brokeAny) ← constrain context constraints candidates
    match refused, broke with
    | some reason, _ => return (survivors, .rejection c.candidateID reason :: removed, brokeAny)
    | none, true =>
      return (survivors, .rejection c.candidateID (lit "constraint_error") :: removed, true)
    | none, false => return (c :: survivors, removed, brokeAny)

def policyBroke : DecisionOutcome := deferral (lit "policy_error") (.tuple [])

def pick (context : DecisionContext) (survivors : List DecisionCandidate) (policy : Policy) :
    Except PyError DecisionOutcome :=
  match policy context survivors with
  | .raises | .value => .ok policyBroke
  | .coroutine closes => if closes then .ok policyBroke else .error .other
  | .outcome o =>
    match checkOutcome context.mode survivors o .action none with
    | .ok () => .ok o
    | .error .valueError => .ok policyBroke
    | .error .other => .error .other

/-- A pick that is given as the runtime's proposal and is another candidate. -/
def mislabelled (proposal : Text) (o : DecisionOutcome) : Bool :=
  o.reason.text? = some runtimeProposal && o.selectedID.text?.any fun id => id ≠ proposal

def relabel (proposal : Text) (o : DecisionOutcome) : Except PyError DecisionOutcome :=
  if mislabelled proposal o then construct { o with reason := .str proposalRemoved } else .ok o

/-- The reason of the first gate that holds the pick, or that breaks. -/
def held (context : DecisionContext) (c : DecisionCandidate) :
    List Check → Except PyError (Option Text)
  | [] => .ok none
  | g :: gates => do
    match ← ask context g c with
    | .refuses reason => return some reason
    | .broke => return some (lit "approval_gate_error")
    | .passes => held context c gates

/-- The items of an iteration, unless it raises. -/
def items (it : Iteration PyValue) : Except PyError (List PyValue) :=
  match it.2 with
  | some e => .error e
  | none => .ok it.1

def gate (context : DecisionContext) (survivors : List DecisionCandidate) (o : DecisionOutcome)
    (gates : List Check) : Except PyError DecisionOutcome :=
  match o.selectedID.text?.bind fun id => survivors.find? fun c => c.candidateID = id with
  | none => .ok o
  | some selected => do
    match ← held context selected gates with
    | none => return o
    | some reason =>
      let rejected ← items o.rejected.second
      construct (deferral reason (.tuple (rejected ++ [.rejection selected.candidateID reason])))

/-- The outcome over the candidates that are left. -/
def settle (context : DecisionContext) (candidates survivors : List DecisionCandidate)
    (broke : Bool) (policy : Policy) (gates : List Check) : Except PyError DecisionOutcome :=
  match candidates, survivors with
  | [], _ => .ok noCandidate
  | _ :: _, [] =>
    construct (deferral (if broke then lit "constraint_error" else lit "no_permitted_candidate")
      (.tuple []))
  | proposal :: _, _ :: _ => do
    let picked ← pick context survivors policy
    let picked ← relabel proposal.candidateID picked
    gate context survivors picked gates

/-- The record of the outcome, with the candidates that the constraints removed. -/
def finish (context : DecisionContext) (candidates : List DecisionCandidate)
    (removed : List PyValue) (outcome : DecisionOutcome) (recordID : Text) (recordedAt : ℚ) :
    Except PyError DecisionRecord := do
  let rejected ← items outcome.rejected.second
  let outcome ← construct { outcome with rejected := .tuple (removed ++ rejected) }
  let record : DecisionRecord :=
    ⟨context, candidates, outcome, .action, none, recordID, recordedAt⟩
  checkRecord record
  return record

def decide (context : DecisionContext) (candidates : List DecisionCandidate) (policy : Policy)
    (constraints gates : List Check) (recordID : Text) (recordedAt : ℚ) :
    Except PyError DecisionRecord := do
  checkCandidates candidates
  let (survivors, removed, broke) ← constrain context constraints candidates
  let outcome ← settle context candidates survivors broke policy gates
  finish context candidates removed outcome recordID recordedAt

end Persatrix.Decision
