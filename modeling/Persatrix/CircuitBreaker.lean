import Mathlib.Algebra.Order.Ring.Int
import Persatrix.GoValues

/-!
# Circuit breaker

Violations are counted for each agent and type over a rolling window, and an agent whose count
reaches the threshold of a type is quarantined until an operator releases it. Times and durations
are in nanoseconds. A call returns its answer with the audit events it emits.
-/
namespace Persatrix.Breaker

abbrev ViolationType := String

structure ThresholdRule where
  count : ℤ
  window : ℤ
  disabled : Bool := false
  deriving DecidableEq

/-- `none` is a nil map of thresholds. -/
structure CircuitBreakerConfig where
  thresholds : Option (GoMap ViolationType ThresholdRule)
  exemptAgentIDs : List String := []

inductive ConfigError where
  | thresholdsRequired
  | window (vt : ViolationType) (window : ℤ)
  | count (vt : ViolationType) (count : ℤ)
  deriving DecidableEq

inductive BreakerEventType where
  | agentQuarantined
  | agentUnquarantined
  deriving DecidableEq

/-- A duration is given in whole seconds. -/
inductive BreakerDetail where
  | int (n : ℤ)
  | str (s : String)
  | seconds (d : ℤ)
  deriving DecidableEq

structure BreakerEvent where
  timestamp : ℤ
  eventType : BreakerEventType
  agentID : String
  action : String
  resource : String
  outcome : String
  detail : List (String × BreakerDetail)
  deriving DecidableEq

structure QuarantineEntry where
  since : ℤ
  reason : ViolationType
  deriving DecidableEq

/-- What is wrong with a rule. -/
def ThresholdRule.check (vt : ViolationType) (rule : ThresholdRule) : Option ConfigError :=
  if rule.disabled then none
  else if rule.window ≤ 0 then some (.window vt rule.window)
  else if rule.count ≤ 0 then some (.count vt rule.count)
  else none

structure CircuitBreaker where
  thresholds : GoMap ViolationType ThresholdRule
  /-- An enabled rule can open the breaker, and a single recording is inside its window. -/
  checked : ∀ vt rule, thresholds.lookup vt = some rule → rule.check vt = none
  exempt : List String
  violations : GoMap String (GoMap ViolationType (List ℤ)) := ∅
  quarantined : GoMap String QuarantineEntry := ∅

/-- The rule that is reported when several are wrong is any of them. -/
def newCircuitBreaker (cfg : CircuitBreakerConfig) : Except ConfigError CircuitBreaker :=
  match cfg.thresholds with
  | none => .error .thresholdsRequired
  | some thresholds =>
    match h : thresholds.entries.findSome? fun e => e.2.check e.1 with
    | some err => .error err
    | none => .ok {
        thresholds
        checked := fun vt rule hrule =>
          List.findSome?_eq_none_iff.mp h ⟨vt, rule⟩ (AList.mem_lookup_iff.mp hrule)
        exempt := cfg.exemptAgentIDs.filter fun id => id ≠ "" }

namespace CircuitBreaker

def isQuarantined (cb : CircuitBreaker) (agentID : String) : Bool :=
  (cb.quarantined.lookup agentID).isSome

/-- The recordings of a type that are kept for an agent. -/
def kept (cb : CircuitBreaker) (agentID : String) (vt : ViolationType) : List ℤ :=
  (((cb.violations.lookup agentID).getD ∅).lookup vt).getD []

def setKept (cb : CircuitBreaker) (agentID : String) (vt : ViolationType) (times : List ℤ) :
    CircuitBreaker :=
  { cb with
    violations := AList.insert agentID
      (AList.insert vt times ((cb.violations.lookup agentID).getD ∅)) cb.violations }

def quarantineEvent (agentID : String) (vt : ViolationType) (now : ℤ) (count : ℕ)
    (rule : ThresholdRule) : BreakerEvent where
  timestamp := now
  eventType := .agentQuarantined
  agentID := agentID
  action := "circuit_breaker.open"
  resource := agentID
  outcome := "quarantined"
  detail := [("violation_type", .str vt), ("count", .int count),
    ("window_seconds", .seconds rule.window)]

def releaseEvent (agentID actor : String) (now : ℤ) : BreakerEvent where
  timestamp := now
  eventType := .agentUnquarantined
  agentID := agentID
  action := "circuit_breaker.close"
  resource := agentID
  outcome := "released"
  detail := [("actor", .str actor)]

/-- `RecordViolation` for a type with an enabled rule, of an agent that is not quarantined. -/
def observe (cb : CircuitBreaker) (agentID : String) (vt : ViolationType) (rule : ThresholdRule)
    (now : ℤ) : CircuitBreaker × List BreakerEvent :=
  let cutoff := now - rule.window
  let times := (cb.kept agentID vt).filter (fun t => cutoff < t) ++ [now]
  let cb := cb.setKept agentID vt times
  if rule.count ≤ times.length then
    ({ cb with
        quarantined := AList.insert agentID ⟨now, vt⟩ cb.quarantined
        violations := cb.violations.erase agentID },
      [quarantineEvent agentID vt now times.length rule])
  else (cb, [])

def recordViolation (cb : CircuitBreaker) (agentID : String) (vt : ViolationType) (now : ℤ) :
    CircuitBreaker × List BreakerEvent :=
  if agentID = "" then (cb, [])
  else if agentID ∈ cb.exempt then (cb, [])
  else
    match cb.thresholds.lookup vt with
    | none =>
      if cb.isQuarantined agentID then (cb, [])
      else (cb.setKept agentID vt (cb.kept agentID vt ++ [now]), [])
    | some rule =>
      if rule.disabled then (cb, [])
      else if cb.isQuarantined agentID then (cb, [])
      else cb.observe agentID vt rule now

def unquarantine (cb : CircuitBreaker) (agentID actor : String) (now : ℤ) :
    CircuitBreaker × Bool × List BreakerEvent :=
  if cb.isQuarantined agentID then
    ({ cb with
        quarantined := cb.quarantined.erase agentID
        violations := cb.violations.erase agentID }, true, [releaseEvent agentID actor now])
  else (cb, false, [])

end CircuitBreaker

inductive BreakerCall where
  | recordViolation (agentID : String) (vt : ViolationType) (now : ℤ)
  | isQuarantined (agentID : String)
  | unquarantine (agentID actor : String) (now : ℤ)
  deriving DecidableEq

/-- What a call answered and emitted. -/
structure BreakerNote where
  call : BreakerCall
  answer : Bool := false
  events : List BreakerEvent := []
  deriving DecidableEq

namespace CircuitBreaker

def call (cb : CircuitBreaker) (c : BreakerCall) : CircuitBreaker × BreakerNote :=
  match c with
  | .recordViolation agentID vt now =>
    let (cb, events) := cb.recordViolation agentID vt now
    (cb, { call := c, events })
  | .isQuarantined agentID => (cb, { call := c, answer := cb.isQuarantined agentID })
  | .unquarantine agentID actor now =>
    let (cb, answer, events) := cb.unquarantine agentID actor now
    (cb, { call := c, answer, events })

/-- The state after the calls, and what each of them answered and emitted. -/
def run (cb : CircuitBreaker) (calls : List BreakerCall) : CircuitBreaker × List BreakerNote :=
  calls.foldl (fun p c => ((p.1.call c).1, p.2 ++ [(p.1.call c).2])) (cb, [])

end CircuitBreaker

/-! ## The sliding windows -/

/-- The recordings of an agent since the call that released it last. -/
def sinceRelease (agentID : String) (notes : List BreakerNote) : List (ViolationType × ℤ) :=
  notes.foldl (fun history n =>
    match n.call with
    | .recordViolation a vt now => if a = agentID then history ++ [(vt, now)] else history
    | .isQuarantined _ => history
    | .unquarantine a _ _ => if a = agentID ∧ n.answer = true then [] else history) []

def timesOf (vt : ViolationType) (history : List (ViolationType × ℤ)) : List ℤ :=
  (history.filter fun r => r.1 = vt).map Prod.snd

/-- The recordings that are later than the window before `now`. -/
def inWindow (rule : ThresholdRule) (now : ℤ) (times : List ℤ) : List ℤ :=
  times.filter fun t => now - rule.window < t

/-- At one of the recordings, the window that ends there holds as many as the rule counts. -/
def Trips (rule : ThresholdRule) (times : List ℤ) : Prop :=
  ∃ earlier now later, times = earlier ++ now :: later ∧
    rule.count ≤ (inWindow rule now (earlier ++ [now])).length

/-- Some type with an enabled rule trips. -/
def Tripped (thresholds : GoMap ViolationType ThresholdRule)
    (history : List (ViolationType × ℤ)) : Prop :=
  ∃ vt rule, thresholds.lookup vt = some rule ∧ rule.disabled = false ∧
    Trips rule (timesOf vt history)

end Persatrix.Breaker
