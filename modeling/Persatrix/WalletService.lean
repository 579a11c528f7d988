import Persatrix.TokenCounter

/-!
# Wallet service

Leases in front of every model call: acquisition behind the concurrency cap, the
per-interaction ceiling and the dollar budget; settlement and release; and the
reaper that closes abandoned leases. Each call holds the wallet's mutex for its
whole body, so a call is one step.

Instants and durations are nanoseconds. A lease's cause and the reason given to
a release are only logged and are left out. One call adds at most two billion to
an interaction total, which is therefore kept as an integer without wrapping;
the ledger, where callers outside the wallet may book any amount, wraps.
-/
namespace Persatrix.Wallet
open Cost

def maxTokenCount : ℤ := 1000000000

inductive Code where
  | invalidArgument | resourceExhausted | internal
  deriving DecidableEq, Repr

/-- A gRPC status error. -/
structure Status where
  code : Code
  message : String
  deriving DecidableEq

/-- The constructor of the service panics on a configuration that breaks these. -/
structure Config where
  ttl : ℤ
  reaperInterval : ℤ
  maxActiveLeases : ℕ
  ttl_pos : 0 < ttl
  reaperInterval_pos : 0 < reaperInterval
  maxActiveLeases_pos : 1 ≤ maxActiveLeases

/-- The tuning used when `optimization.yaml` has no `wallet:` block. -/
def defaultConfig : Config where
  ttl := 60 * 1000000000
  reaperInterval := 5 * 1000000000
  maxActiveLeases := 16
  ttl_pos := by decide
  reaperInterval_pos := by decide
  maxActiveLeases_pos := by decide

structure Lease where
  workflowID : String
  agentID : String
  model : String
  grantedInput : ℤ
  grantedOutput : ℤ
  interactionID : String
  issuedAt : ℤ
  ttl : ℤ
  settled : Bool := false
  deriving DecidableEq

structure WalletService where
  counter : TokenCounter
  cfg : Config
  active : GoMap String Lease
  interactionTokens : GoMap String ℤ

def newWalletService (counter : TokenCounter) (cfg : Config) : WalletService :=
  ⟨counter, cfg, ∅, ∅⟩

structure LeaseRequest where
  workflowID : String
  agentID : String
  model : String
  estimatedInputTokens : ℤ
  estimatedMaxOutputTokens : ℤ
  interactionID : String := ""
  interactionBudgetTokens : ℤ := 0
  deriving DecidableEq

inductive LeaseDeniedReason where
  | budget | interactionBudgetExhausted
  deriving DecidableEq, Repr

structure LeaseDenied where
  scope : String
  spentUsd : ℚ := 0
  limitUsd : ℚ := 0
  estimatedUsd : ℚ := 0
  message : String
  reason : LeaseDeniedReason
  deriving DecidableEq

structure LeaseGrant where
  leaseID : String
  grantedInputTokens : ℤ
  grantedOutputTokens : ℤ
  ttlSeconds : ℤ
  deriving DecidableEq

inductive LeaseResponse where
  | denied (denied : LeaseDenied)
  | grant (grant : LeaseGrant)
  deriving DecidableEq

structure SettlementAck where
  success : Bool
  errorMessage : String := ""
  deriving DecidableEq

def validateTokenCount (field : String) (n : ℤ) : Option Status :=
  if n < 0 ∨ maxTokenCount < n then
    some ⟨.invalidArgument, field ++ " must be in [0, " ++ toString maxTokenCount ++ "], got " ++
      toString n⟩
  else none

/-- A wired resolver is authoritative; without one the request's own field counts. -/
def resolveInteractionBudget (resolver : Option (String → Option ℤ)) (req : LeaseRequest) : ℤ :=
  match resolver with
  | none => req.interactionBudgetTokens
  | some resolve => (resolve req.interactionID).getD 0

def interactionBudgetMessage (interactionID : String) (spent estimated budget : ℤ) : String :=
  "interaction " ++ interactionID.quote ++ " cost ceiling exceeded: " ++ toString spent ++
    " spent + " ++ toString estimated ++ " estimated > " ++ toString budget ++ " budget tokens"

def recordInteractionGrantLocked (tokens : GoMap String ℤ) (interactionID : String)
    (estimatedTokens : ℤ) : GoMap String ℤ :=
  if interactionID = "" then tokens
  else AList.insert interactionID ((tokens.lookup interactionID).getD 0 + estimatedTokens) tokens

def adjustInteractionTokensLocked (tokens : GoMap String ℤ) (interactionID : String)
    (delta : ℤ) : GoMap String ℤ :=
  if interactionID = "" ∨ delta = 0 then tokens
  else
    let total := (tokens.lookup interactionID).getD 0 + delta
    if 0 < total then AList.insert interactionID total tokens else tokens.erase interactionID

namespace WalletService

/-- The running total of an interaction; an absent entry reads as zero. -/
def interactionSpend (w : WalletService) (interactionID : String) : ℤ :=
  if interactionID = "" then 0 else (w.interactionTokens.lookup interactionID).getD 0

def evictInteraction (w : WalletService) (interactionID : String) : WalletService × Bool :=
  if interactionID = "" then (w, false)
  else if (w.interactionTokens.lookup interactionID).isNone then (w, false)
  else ({ w with interactionTokens := w.interactionTokens.erase interactionID }, true)

def activeLeasesForLocked (w : WalletService) (agentID : String) : ℕ :=
  w.active.count fun ls => ls.agentID == agentID && !ls.settled

def interactionCeilingDenialLocked (w : WalletService) (req : LeaseRequest)
    (estimatedTokens budget : ℤ) : Option LeaseDenied :=
  if req.interactionID = "" ∨ budget ≤ 0 then none
  else
    let spent := (w.interactionTokens.lookup req.interactionID).getD 0
    if spent + estimatedTokens ≤ budget then none
    else some
      { scope := "interaction"
        message := interactionBudgetMessage req.interactionID spent estimatedTokens budget
        reason := .interactionBudgetExhausted }

/-- A lease is charged to its interaction only while a ceiling is in effect. -/
def trackedInteractionID (resolver : Option (String → Option ℤ)) (req : LeaseRequest) : String :=
  if 0 < resolveInteractionBudget resolver req then req.interactionID else ""

/-- The tail of an acquisition, once every check has passed. -/
def grantLease (w : WalletService) (resolver : Option (String → Option ℤ)) (leaseID : String)
    (now : ℤ) (req : LeaseRequest) : WalletService :=
  { w with
    counter := w.counter.recordProvisional leaseID
      ⟨req.workflowID, req.agentID, req.model, req.estimatedInputTokens,
        req.estimatedMaxOutputTokens⟩
    active := AList.insert leaseID
      { workflowID := req.workflowID, agentID := req.agentID, model := req.model,
        grantedInput := req.estimatedInputTokens, grantedOutput := req.estimatedMaxOutputTokens,
        interactionID := trackedInteractionID resolver req, issuedAt := now, ttl := w.cfg.ttl }
      w.active
    interactionTokens := recordInteractionGrantLocked w.interactionTokens
      (trackedInteractionID resolver req)
      (req.estimatedInputTokens + req.estimatedMaxOutputTokens) }

/-- `resolver` gives the injected resolver's answers during this call, `newID` the
identifier the generator returns and `now` the clock reading. -/
def acquireLease (w : WalletService) (resolver : Option (String → Option ℤ)) (newID : String)
    (now : ℤ) (req : LeaseRequest) : WalletService × Except Status LeaseResponse :=
  match validateTokenCount "estimated_input_tokens" req.estimatedInputTokens with
  | some err => (w, .error err)
  | none =>
  match validateTokenCount "estimated_max_output_tokens" req.estimatedMaxOutputTokens with
  | some err => (w, .error err)
  | none =>
  let interactionBudget := resolveInteractionBudget resolver req
  let n := w.activeLeasesForLocked req.agentID
  if w.cfg.maxActiveLeases ≤ n then
    (w, .error ⟨.resourceExhausted, "agent " ++ req.agentID.quote ++ " holds " ++ toString n ++
      " active leases, max is " ++ toString w.cfg.maxActiveLeases⟩)
  else
  let estimatedTokens := req.estimatedInputTokens + req.estimatedMaxOutputTokens
  match w.interactionCeilingDenialLocked req estimatedTokens interactionBudget with
  | some denied => (w, .ok (.denied denied))
  | none =>
  match checkBudget w.counter req.workflowID req.agentID req.model estimatedTokens with
  | .reject be =>
    (w, .ok (.denied
      { scope := be.scope, spentUsd := be.spent, limitUsd := be.limit,
        estimatedUsd := be.estimated, message := be.error, reason := .budget }))
  | .allow =>
  if (w.active.lookup newID).isSome then
    (w, .error ⟨.internal, "lease-id collision: " ++ newID.quote⟩)
  else
    (w.grantLease resolver newID now req,
      .ok (.grant ⟨newID, req.estimatedInputTokens, req.estimatedMaxOutputTokens,
        w.cfg.ttl / 1000000000⟩))

/-- Sets the `settled` flag of a tracked lease. -/
def markSettled (w : WalletService) (leaseID : String) (ls : Lease) : WalletService :=
  { w with active := AList.insert leaseID { ls with settled := true } w.active }

def finalize (w : WalletService) (leaseID : String) (actualInput actualOutput : ℤ) :
    WalletService × SettlementAck :=
  match w.active.lookup leaseID with
  | none => (w, ⟨false, "unknown lease: " ++ leaseID⟩)
  | some ls =>
    if ls.settled then (w, ⟨true, "noop: lease already settled"⟩)
    else
      match w.counter.reconcile leaseID actualInput actualOutput with
      -- Only a daily reset clears the charge of an unsettled lease.
      | .error _ => (w.markSettled leaseID ls, ⟨true, "noop: provisional already cleared"⟩)
      | .ok counter =>
        let adjusted := adjustInteractionTokensLocked w.interactionTokens ls.interactionID
          ((actualInput + actualOutput) - (ls.grantedInput + ls.grantedOutput))
        ({ w.markSettled leaseID ls with counter := counter, interactionTokens := adjusted },
          ⟨true, ""⟩)

def settleLease (w : WalletService) (leaseID : String) (actualInput actualOutput : ℤ) :
    WalletService × Except Status SettlementAck :=
  match validateTokenCount "actual_input_tokens" actualInput with
  | some err => (w, .error err)
  | none =>
  match validateTokenCount "actual_output_tokens" actualOutput with
  | some err => (w, .error err)
  | none =>
    let (after, ack) := w.finalize leaseID actualInput actualOutput
    (after, .ok ack)

def releaseLease (w : WalletService) (leaseID : String) : WalletService × SettlementAck :=
  w.finalize leaseID 0 0

/-- One iteration of the reaper's range loop; the flag reports a reaped lease. -/
def reapLease (w : WalletService) (now : ℤ) (leaseID : String) : WalletService × Bool :=
  match w.active.lookup leaseID with
  | none => (w, false)
  | some ls =>
    if !ls.settled && decide (ls.issuedAt + ls.ttl < now) then
      match w.counter.reconcile leaseID ls.grantedInput ls.grantedOutput with
      | .error _ => (w.markSettled leaseID ls, true)
      | .ok counter => ({ w.markSettled leaseID ls with counter := counter }, true)
    else if ls.settled && decide (ls.issuedAt + 2 * ls.ttl < now) then
      ({ w with active := w.active.erase leaseID }, false)
    else (w, false)

/-- The loop body of the reaper; the second component lists the leases reaped so far,
which the loop logs one by one. -/
def reapVisit (now : ℤ) (acc : WalletService × List String) (leaseID : String) :
    WalletService × List String :=
  let (after, reaped) := acc.1.reapLease now leaseID
  (after, if reaped then acc.2 ++ [leaseID] else acc.2)

/-- `order` is the order in which the range loop visits the map. -/
def reapExpired (w : WalletService) (now : ℤ) (order : List String) :
    WalletService × List String :=
  order.foldl (reapVisit now) (w, [])

/-- Everything `acquireLease` has checked by the time it grants. -/
structure Admits (w : WalletService) (resolver : Option (String → Option ℤ)) (newID : String)
    (req : LeaseRequest) : Prop where
  input : 0 ≤ req.estimatedInputTokens ∧ req.estimatedInputTokens ≤ maxTokenCount
  output : 0 ≤ req.estimatedMaxOutputTokens ∧ req.estimatedMaxOutputTokens ≤ maxTokenCount
  slot : w.activeLeasesForLocked req.agentID < w.cfg.maxActiveLeases
  ceiling : w.interactionCeilingDenialLocked req
    (req.estimatedInputTokens + req.estimatedMaxOutputTokens)
    (resolveInteractionBudget resolver req) = none
  budget : checkBudget w.counter req.workflowID req.agentID req.model
    (req.estimatedInputTokens + req.estimatedMaxOutputTokens) = .allow
  fresh : w.active.lookup newID = none

end WalletService

theorem validateTokenCount_eq_none {field : String} {n : ℤ} :
    validateTokenCount field n = none ↔ 0 ≤ n ∧ n ≤ maxTokenCount := by
  unfold validateTokenCount
  split_ifs with h
  · simp only [false_iff]
    omega
  · simp only [true_iff]
    omega

namespace WalletService
variable (w : WalletService)

/-- An acquisition either leaves the wallet alone or passes every check and grants. -/
theorem acquireLease_cases (resolver : Option (String → Option ℤ)) (newID : String) (now : ℤ)
    (req : LeaseRequest) :
    ((w.acquireLease resolver newID now req).1 = w ∧
      ∀ g, (w.acquireLease resolver newID now req).2 ≠ .ok (.grant g)) ∨
    (w.Admits resolver newID req ∧ w.acquireLease resolver newID now req =
      (w.grantLease resolver newID now req,
        .ok (.grant ⟨newID, req.estimatedInputTokens, req.estimatedMaxOutputTokens,
          w.cfg.ttl / 1000000000⟩))) := by
  unfold acquireLease
  split
  · exact .inl ⟨rfl, by simp⟩
  next hi =>
  split
  · exact .inl ⟨rfl, by simp⟩
  next ho =>
  dsimp only
  split
  · exact .inl ⟨rfl, by simp⟩
  next hslot =>
  split
  · exact .inl ⟨rfl, by simp⟩
  next hceiling =>
  split
  · exact .inl ⟨rfl, by simp⟩
  next hbudget =>
  split
  · exact .inl ⟨rfl, by simp⟩
  next hid =>
  exact .inr ⟨⟨validateTokenCount_eq_none.mp hi, validateTokenCount_eq_none.mp ho,
      not_le.mp hslot, hceiling, hbudget, by simpa using hid⟩, rfl⟩

variable {w} in
/-- Conversely, an acquisition that passes every check is granted. -/
theorem Admits.acquireLease {resolver : Option (String → Option ℤ)} {newID : String}
    {req : LeaseRequest} (h : w.Admits resolver newID req) (now : ℤ) :
    w.acquireLease resolver newID now req = (w.grantLease resolver newID now req,
      .ok (.grant ⟨newID, req.estimatedInputTokens, req.estimatedMaxOutputTokens,
        w.cfg.ttl / 1000000000⟩)) := by
  have hslot := not_le.mpr h.slot
  simp [WalletService.acquireLease, validateTokenCount_eq_none.mpr h.input,
    validateTokenCount_eq_none.mpr h.output, hslot, h.ceiling, h.budget, h.fresh]

variable {w} {leaseID : String} {ls : Lease}

theorem finalize_unknown (h : w.active.lookup leaseID = none) (i o : ℤ) :
    w.finalize leaseID i o = (w, ⟨false, "unknown lease: " ++ leaseID⟩) := by
  simp only [finalize, h]

theorem finalize_settled (h : w.active.lookup leaseID = some ls) (hs : ls.settled = true)
    (i o : ℤ) : w.finalize leaseID i o = (w, ⟨true, "noop: lease already settled"⟩) := by
  simp only [finalize, h, hs, if_true]

theorem finalize_cleared (h : w.active.lookup leaseID = some ls) (hs : ls.settled = false)
    (hp : w.counter.provisional.lookup leaseID = none) (i o : ℤ) :
    w.finalize leaseID i o =
      (w.markSettled leaseID ls, ⟨true, "noop: provisional already cleared"⟩) := by
  simp [finalize, h, hs, TokenCounter.reconcile_miss hp]

theorem finalize_held (h : w.active.lookup leaseID = some ls) (hs : ls.settled = false)
    {pc : ProvisionalCharge} (hp : w.counter.provisional.lookup leaseID = some pc) (i o : ℤ) :
    w.finalize leaseID i o =
      ({ w.markSettled leaseID ls with
          counter := w.counter.replaceCharge leaseID pc i o
          interactionTokens := adjustInteractionTokensLocked w.interactionTokens
            ls.interactionID ((i + o) - (ls.grantedInput + ls.grantedOutput)) },
        ⟨true, ""⟩) := by
  simp [finalize, h, hs, TokenCounter.reconcile_hit hp]

/-- A settlement either fails its range checks and changes nothing, or finalizes. -/
theorem settleLease_cases (w : WalletService) (leaseID : String) (i o : ℤ) :
    (∃ err, w.settleLease leaseID i o = (w, .error err)) ∨
    ((0 ≤ i ∧ i ≤ maxTokenCount) ∧ (0 ≤ o ∧ o ≤ maxTokenCount) ∧ w.settleLease leaseID i o =
      ((w.finalize leaseID i o).1, .ok (w.finalize leaseID i o).2)) := by
  unfold settleLease
  split
  · exact .inl ⟨_, rfl⟩
  next hi =>
  split
  · exact .inl ⟨_, rfl⟩
  next ho =>
  exact .inr ⟨validateTokenCount_eq_none.mp hi, validateTokenCount_eq_none.mp ho, rfl⟩

end WalletService
end Persatrix.Wallet
