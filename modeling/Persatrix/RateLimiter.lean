import Persatrix.GoValues
import Persatrix.RingBuffer
import Mathlib.Data.Int.Order.Basic
import Mathlib.Logic.Function.Basic

/-!
# Rate limiter

A ring of admission times for each agent, at the elements of a linked list that is kept
from the most to the least recently used agent, and a map from agents to elements.
Times and durations are in nanoseconds, and a duration is an `int64`. A call returns
its answer with the audit events it emits. Every call reads the clock once.
-/
namespace Persatrix.Security

def second : ℤ := 10 ^ 9

/-- The difference of two times as a duration, which saturates. -/
def timeSub (t u : ℤ) : ℤ := max (-2 ^ 63) (min (2 ^ 63 - 1) (t - u))

def defaultUnauthenticatedID : String := "anonymous"

structure RateLimitConfig where
  callsPerWindow : ℤ
  windowSeconds : ℤ
  maxTrackedAgents : ℤ
  enabled : Bool
  unauthenticatedID : String

structure AgentRing where
  agentID : String
  calls : RingBuffer ℤ

namespace AgentRing

/-- What an address holds before an element is allocated there. -/
def unallocated : AgentRing := ⟨"", RingBuffer.new 0 1 Nat.one_pos⟩

def append (r : AgentRing) (t : ℤ) : AgentRing := { r with calls := r.calls.push t }

def evictOlderThan (r : AgentRing) (cutoff : ℤ) : AgentRing :=
  if r.calls.count = 0 then r
  else { r with calls := r.calls.dropOldest (r.calls.leading fun t => ¬ cutoff < t) }

end AgentRing

inductive LimiterEventType where
  | agentEvicted
  | unauthenticatedCall
  | violated
  | reset
deriving DecidableEq

inductive LimiterDetail where
  | int (n : ℤ)
  | str (s : String)

/-- An event without a timestamp is given one by the auditor. -/
structure LimiterEvent where
  timestamp : Option ℤ := none
  eventType : LimiterEventType
  agentID : String
  action : String
  resource : String
  outcome : String
  detail : List (String × LimiterDetail) := []

structure RateLimiter where
  cfg : RateLimitConfig
  limits : cfg.enabled → 0 < cfg.callsPerWindow ∧ 0 < cfg.windowSeconds
  tracked : 0 < cfg.maxTrackedAgents
  bucket : cfg.unauthenticatedID ≠ ""
  rings : GoMap String ℕ := ∅
  lru : List ℕ := []
  element : ℕ → AgentRing := fun _ => AgentRing.unallocated
  allocated : ℕ := 0
  lastEmit : GoMap String ℤ := ∅

/-- The configuration with the defaults for what is not set. -/
def RateLimitConfig.withDefaults (cfg : RateLimitConfig) : RateLimitConfig :=
  { cfg with
    maxTrackedAgents := if cfg.maxTrackedAgents ≤ 0 then 1000 else cfg.maxTrackedAgents
    unauthenticatedID :=
      if cfg.unauthenticatedID = "" then defaultUnauthenticatedID else cfg.unauthenticatedID }

theorem RateLimitConfig.withDefaults_tracked (cfg : RateLimitConfig) :
    0 < cfg.withDefaults.maxTrackedAgents := by
  unfold withDefaults
  dsimp only
  split_ifs <;> omega

theorem RateLimitConfig.withDefaults_bucket (cfg : RateLimitConfig) :
    cfg.withDefaults.unauthenticatedID ≠ "" := by
  unfold withDefaults
  dsimp only
  split_ifs with h
  · decide
  · exact h

def newRateLimiter (cfg : RateLimitConfig) : Except String RateLimiter :=
  if h : cfg.enabled ∧ cfg.callsPerWindow ≤ 0 then
    .error "ratelimit: CallsPerWindow must be > 0 when enabled"
  else if h' : cfg.enabled ∧ cfg.windowSeconds ≤ 0 then
    .error "ratelimit: WindowSeconds must be > 0 when enabled"
  else
    .ok {
      cfg := cfg.withDefaults
      limits := fun henabled => by
        have hcalls := not_and.mp h henabled
        have hwindow := not_and.mp h' henabled
        exact ⟨not_le.mp hcalls, not_le.mp hwindow⟩
      tracked := cfg.withDefaults_tracked
      bucket := cfg.withDefaults_bucket }

namespace RateLimiter

def window (rl : RateLimiter) : ℤ := int64 (rl.cfg.windowSeconds * second)

def resolveAgentID (rl : RateLimiter) (id : String) : String × Bool :=
  if id = "" then (rl.cfg.unauthenticatedID, true) else (id, false)

def evictTailLocked (rl : RateLimiter) : RateLimiter × String :=
  match rl.lru.getLast? with
  | none => (rl, "")
  | some tail =>
    let victim := (rl.element tail).agentID
    ({ rl with
        lru := rl.lru.erase tail
        rings := rl.rings.erase victim
        lastEmit := rl.lastEmit.erase victim }, victim)

/-- The loop that evicts while too many agents are tracked, for at most the given number
of turns. -/
def evictExcess : ℕ → RateLimiter → Option (RateLimiter × List String)
  | 0, _ => none
  | turns + 1, rl =>
    if rl.cfg.maxTrackedAgents < rl.rings.keys.length then
      let (rl, id) := rl.evictTailLocked
      if id ≠ "" then (evictExcess turns rl).map fun (rl, ids) => (rl, id :: ids)
      else some (rl, [])
    else some (rl, [])

/-- Returns the element of the agent's ring and the evicted agents. `none` stands for an
eviction loop that does not end after every element is evicted. -/
def touchRingLocked (rl : RateLimiter) (h : 0 < rl.cfg.callsPerWindow) (agentID : String) :
    Option (RateLimiter × ℕ × List String) :=
  match rl.rings.lookup agentID with
  | some elem =>
    some ({ rl with lru := if elem ∈ rl.lru then elem :: rl.lru.erase elem else rl.lru }, elem, [])
  | none =>
    let elem := rl.allocated
    let ring : AgentRing :=
      ⟨agentID, RingBuffer.new 0 rl.cfg.callsPerWindow.toNat (Int.pos_iff_toNat_pos.mp h)⟩
    let rl := { rl with
      lru := elem :: rl.lru
      element := Function.update rl.element elem ring
      allocated := elem + 1
      rings := AList.insert agentID elem rl.rings }
    (rl.evictExcess (rl.lru.length + 1)).map fun (rl, evicted) => (rl, elem, evicted)

def shouldEmitViolation (rl : RateLimiter) (agentID : String) (now : ℤ) : RateLimiter × Bool :=
  match rl.lastEmit.lookup agentID with
  | some last =>
    if timeSub now last < rl.window then (rl, false)
    else ({ rl with lastEmit := AList.insert agentID now rl.lastEmit }, true)
  | none => ({ rl with lastEmit := AList.insert agentID now rl.lastEmit }, true)

def evictedEvent (now : ℤ) (victim : String) : LimiterEvent where
  timestamp := some now
  eventType := .agentEvicted
  agentID := victim
  action := "rate_limit.evict"
  resource := victim
  outcome := "evicted"

def unauthenticatedEvent (resolved : String) : LimiterEvent where
  eventType := .unauthenticatedCall
  agentID := resolved
  action := "rate_limit.check"
  resource := resolved
  outcome := "warn"

def violatedEvent (cfg : RateLimitConfig) (resolved : String) : LimiterEvent where
  eventType := .violated
  agentID := resolved
  action := "rate_limit.check"
  resource := resolved
  outcome := "deny"
  detail := [("calls_per_window", .int cfg.callsPerWindow),
    ("window_seconds", .int cfg.windowSeconds)]

def resetEvent (now : ℤ) (resolved actor : String) : LimiterEvent where
  timestamp := some now
  eventType := .reset
  agentID := resolved
  action := "rate_limit.reset"
  resource := resolved
  outcome := "reset"
  detail := [("actor", .str actor)]

def cutoff (rl : RateLimiter) (now : ℤ) : ℤ :=
  now + int64 (int64 (-rl.cfg.windowSeconds) * second)

/-- What a call does to its agent's ring. -/
def admitCall (cfg : RateLimitConfig) (ring : AgentRing) (cutoff now : ℤ) : AgentRing × Bool :=
  let ring := ring.evictOlderThan cutoff
  if ring.calls.count < cfg.callsPerWindow then (ring.append now, true) else (ring, false)

def setRing (rl : RateLimiter) (elem : ℕ) (ring : AgentRing) : RateLimiter :=
  { rl with element := Function.update rl.element elem ring }

/-- The events of a call; a denial is reported once in a window. -/
def report (rl : RateLimiter) (resolved : String) (anon allowed : Bool) (evicted : List String)
    (now : ℤ) : RateLimiter × List LimiterEvent :=
  let (rl, violated) := if allowed then (rl, false) else rl.shouldEmitViolation resolved now
  (rl, evicted.map (evictedEvent now) ++
    (if anon then [unauthenticatedEvent resolved] else []) ++
    if violated then [violatedEvent rl.cfg resolved] else [])

def allow (rl : RateLimiter) (agentID : String) (now : ℤ) :
    Option (RateLimiter × Bool × List LimiterEvent) :=
  if h : rl.cfg.enabled then
    let (resolved, anon) := rl.resolveAgentID agentID
    let cutoff := rl.cutoff now
    (rl.touchRingLocked (rl.limits h).1 resolved).map fun (rl, elem, evicted) =>
      let (ring, allowed) := admitCall rl.cfg (rl.element elem) cutoff now
      let (rl, events) := (rl.setRing elem ring).report resolved anon allowed evicted now
      (rl, allowed, events)
  else some (rl, true, [])

def reset (rl : RateLimiter) (agentID actor : String) (now : ℤ) :
    RateLimiter × Bool × List LimiterEvent :=
  let (resolved, _) := rl.resolveAgentID agentID
  match rl.rings.lookup resolved with
  | some elem =>
    ({ rl with
        lru := rl.lru.erase elem
        rings := rl.rings.erase resolved
        lastEmit := rl.lastEmit.erase resolved }, true, [resetEvent now resolved actor])
  | none => ({ rl with lastEmit := rl.lastEmit.erase resolved }, false, [])

end RateLimiter

inductive LimiterCall where
  | allow (agentID : String) (now : ℤ)
  | reset (agentID actor : String) (now : ℤ)

def LimiterCall.now : LimiterCall → ℤ
  | .allow _ now => now
  | .reset _ _ now => now

inductive LimiterAnswer where
  | decision (allowed : Bool) (evicted : List String)
  | reset (tracked : Bool)
deriving DecidableEq

/-- The agents that the events report as evicted. -/
def evictedIDs (events : List LimiterEvent) : List String :=
  (events.filter fun e => e.eventType = .agentEvicted).map LimiterEvent.agentID

namespace RateLimiter

def call (rl : RateLimiter) : LimiterCall → Option (RateLimiter × LimiterAnswer)
  | .allow agentID now =>
    (rl.allow agentID now).map fun (rl, allowed, events) =>
      (rl, .decision allowed (evictedIDs events))
  | .reset agentID actor now =>
    let (rl, tracked, _) := rl.reset agentID actor now
    some (rl, .reset tracked)

def run (rl : RateLimiter) (calls : List LimiterCall) : Option (RateLimiter × List LimiterAnswer) :=
  calls.foldlM (fun (rl, answers) c => (rl.call c).map fun (rl, a) => (rl, answers ++ [a])) (rl, [])

end RateLimiter
end Persatrix.Security
