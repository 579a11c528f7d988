import Persatrix.WalletService
import Mathlib.Algebra.BigOperators.Group.List.Basic
import Mathlib.Tactic.Abel

/-!
# Runs of the wallet and what they granted

A run is a list of calls on one wallet and its counter. Beside the wallet the
run keeps a history written from the calls and their responses alone: every
lease granted, how it ended, whether a daily reset came after the grant, and the
usage booked directly. The history is what the totals are compared with; no
call reads it.
-/
namespace Persatrix.Wallet
open Cost

inductive Call where
  | acquireLease (resolver : Option (String → Option ℤ)) (newID : String) (now : ℤ)
      (req : LeaseRequest)
  | settleLease (leaseID : String) (actualInput actualOutput : ℤ)
  | releaseLease (leaseID : String)
  | reapExpired (now : ℤ) (order : List String)
  | resetDaily
  | recordUsage (record : UsageRecord)
  | evictInteraction (interactionID : String)

inductive Response where
  | lease (result : Except Status LeaseResponse)
  | ack (result : Except Status SettlementAck)
  | reaped (leaseIDs : List String)
  | evicted (removed : Bool)
  | done

/-- Answers that grant nothing and settle nothing. -/
def Response.failed : Response → Bool
  | .lease (.ok (.grant _)) => false
  | .lease _ => true
  | .ack (.ok settlement) => !settlement.success || settlement.errorMessage ≠ ""
  | .ack (.error _) => true
  | _ => false

def WalletService.call (w : WalletService) : Call → WalletService × Response
  | .acquireLease resolver newID now req =>
    let (after, result) := w.acquireLease resolver newID now req
    (after, .lease result)
  | .settleLease leaseID actualInput actualOutput =>
    let (after, result) := w.settleLease leaseID actualInput actualOutput
    (after, .ack result)
  | .releaseLease leaseID =>
    let (after, ack) := w.releaseLease leaseID
    (after, .ack (.ok ack))
  | .reapExpired now order =>
    let (after, reaped) := w.reapExpired now order
    (after, .reaped reaped)
  | .resetDaily => ({ w with counter := w.counter.resetDaily }, .done)
  | .recordUsage record => ({ w with counter := w.counter.recordUsage record }, .done)
  | .evictInteraction interactionID =>
    let (after, removed) := w.evictInteraction interactionID
    (after, .evicted removed)

inductive Outcome where
  | unsettled
  | settled (actualInput actualOutput : ℤ)
  | released
  | reaped
  deriving DecidableEq

/-- A granted lease. `current` says that no daily reset followed the grant, `late`
that one fell between the grant and the end of the lease. -/
structure Granted where
  leaseID : String
  workflowID : String
  agentID : String
  model : String
  grantedInput : ℤ
  grantedOutput : ℤ
  interactionID : String
  current : Bool := true
  outcome : Outcome := .unsettled
  late : Bool := false
  deriving DecidableEq

def Granted.finish (g : Granted) (outcome : Outcome) : Granted :=
  { g with outcome := outcome, late := !g.current }

/-- The usage a lease stands for: its actual tokens once it is settled or released,
the granted tokens while it is open and after it was reaped. -/
def Granted.usage (g : Granted) : UsageRecord :=
  let tokens := match g.outcome with
    | .settled actualInput actualOutput => (actualInput, actualOutput)
    | .released => (0, 0)
    | .unsettled | .reaped => (g.grantedInput, g.grantedOutput)
  ⟨g.workflowID, g.agentID, g.model, tokens.1, tokens.2⟩

/-- Newest grants first; `direct` holds the usage booked since the last reset. -/
structure History where
  grants : List Granted := []
  direct : List UsageRecord := []

/-- The most recent lease granted under an identifier. -/
def newest (leaseID : String) (grants : List Granted) : Option Granted :=
  grants.find? fun g => g.leaseID = leaseID

def finishNewest (leaseID : String) (outcome : Outcome) : List Granted → List Granted
  | [] => []
  | g :: grants =>
    if g.leaseID = leaseID then g.finish outcome :: grants
    else g :: finishNewest leaseID outcome grants

def finishReaped (leaseIDs : List String) (grants : List Granted) : List Granted :=
  leaseIDs.foldl (fun gs id => finishNewest id .reaped gs) grants

/-- A successful acknowledgement ends the lease unless it had ended before. -/
def ends (ack : SettlementAck) : Bool :=
  ack.success && ack.errorMessage ≠ "noop: lease already settled"

def History.observe (h : History) : Call → Response → History
  | .acquireLease resolver _ _ req, .lease (.ok (.grant grant)) =>
    { h with grants :=
        { leaseID := grant.leaseID, workflowID := req.workflowID, agentID := req.agentID,
          model := req.model, grantedInput := grant.grantedInputTokens,
          grantedOutput := grant.grantedOutputTokens,
          interactionID := WalletService.trackedInteractionID resolver req } :: h.grants }
  | .settleLease leaseID actualInput actualOutput, .ack (.ok ack) =>
    if ends ack then
      { h with grants := finishNewest leaseID (.settled actualInput actualOutput) h.grants }
    else h
  | .releaseLease leaseID, .ack (.ok ack) =>
    if ends ack then { h with grants := finishNewest leaseID .released h.grants } else h
  | .reapExpired _ _, .reaped leaseIDs =>
    { h with grants := finishReaped leaseIDs h.grants }
  | .resetDaily, _ => ⟨h.grants.map fun g => { g with current := false }, []⟩
  | .recordUsage record, _ => { h with direct := record :: h.direct }
  | _, _ => h

structure Traced where
  wallet : WalletService
  history : History

def Traced.next (s : Traced) (call : Call) : Traced :=
  let (wallet, response) := s.wallet.call call
  ⟨wallet, s.history.observe call response⟩

def start (pricing : CostConfig) (cfg : Config) : Traced :=
  ⟨newWalletService (newTokenCounter pricing) cfg, {}⟩

/-- The state after a whole run. -/
def run (pricing : CostConfig) (cfg : Config) (calls : List Call) : Traced :=
  calls.foldl Traced.next (start pricing cfg)

theorem run_concat (pricing : CostConfig) (cfg : Config) (calls : List Call) (call : Call) :
    run pricing cfg (calls ++ [call]) = (run pricing cfg calls).next call := by
  simp [run]

/-- What holds at the start and survives every call holds after every run. -/
theorem run_induction {pricing : CostConfig} {cfg : Config} {I : Traced → Prop}
    (init : I (start pricing cfg)) (step : ∀ s call, I s → I (s.next call))
    (calls : List Call) : I (run pricing cfg calls) := by
  induction calls using List.reverseRecOn with
  | nil => exact init
  | append_singleton calls call ih =>
    rw [run_concat]
    exact step _ _ ih

@[simp] theorem newest_cons (leaseID : String) (g : Granted) (grants : List Granted) :
    newest leaseID (g :: grants) =
      if g.leaseID = leaseID then some g else newest leaseID grants := by
  unfold newest
  rw [List.find?_cons]
  split_ifs with h <;> simp [h]

theorem newest_mem {leaseID : String} {grants : List Granted} {g : Granted}
    (h : newest leaseID grants = some g) : g ∈ grants ∧ g.leaseID = leaseID :=
  ⟨List.mem_of_find?_eq_some h, by simpa using List.find?_some h⟩

theorem newest_finishNewest (leaseID other : String) (outcome : Outcome)
    (grants : List Granted) : newest other (finishNewest leaseID outcome grants) =
      if other = leaseID then (newest other grants).map (·.finish outcome)
      else newest other grants := by
  induction grants with
  | nil => simp [finishNewest, newest]
  | cons g grants ih =>
    by_cases hg : g.leaseID = leaseID
    · by_cases ho : other = leaseID
      · simp [finishNewest, hg, ho, Granted.finish]
      · simp [finishNewest, hg, ho, Granted.finish, Ne.symm ho]
    · by_cases ho : other = leaseID
      · subst ho
        simpa [finishNewest, hg] using ih
      · simp [finishNewest, hg, ho, ih]

theorem newest_forget (leaseID : String) (grants : List Granted) :
    newest leaseID (grants.map fun g => { g with current := false }) =
      (newest leaseID grants).map fun g => { g with current := false } := by
  unfold newest
  rw [List.find?_map]
  rfl

theorem mem_finishNewest {leaseID : String} {outcome : Outcome} {grants : List Granted}
    {g : Granted} (h : g ∈ finishNewest leaseID outcome grants) :
    g ∈ grants ∨ ∃ old ∈ grants, g = old.finish outcome := by
  induction grants with
  | nil => simp [finishNewest] at h
  | cons old grants ih =>
    unfold finishNewest at h
    split_ifs at h
    · rcases List.mem_cons.mp h with rfl | h
      · exact .inr ⟨old, by simp, rfl⟩
      · exact .inl (by simp [h])
    · rcases List.mem_cons.mp h with rfl | h
      · exact .inl (by simp)
      · rcases ih h with h | ⟨g₀, h₀, rfl⟩
        · exact .inl (by simp [h])
        · exact .inr ⟨g₀, by simp [h₀], rfl⟩

/-- Ending a lease changes a sum over the grants by that lease's summand only. -/
theorem sum_finishNewest {M : Type} [AddCommGroup M] (f : Granted → M) {leaseID : String}
    (outcome : Outcome) {grants : List Granted} {g : Granted}
    (h : newest leaseID grants = some g) :
    ((finishNewest leaseID outcome grants).map f).sum =
      (grants.map f).sum + (f (g.finish outcome) - f g) := by
  induction grants with
  | nil => simp [newest] at h
  | cons old grants ih =>
    rw [newest_cons] at h
    unfold finishNewest
    split_ifs at h ⊢ with hid
    · obtain rfl : old = g := by simpa using h
      simp only [List.map_cons, List.sum_cons]
      abel
    · simp only [List.map_cons, List.sum_cons, ih h]
      abel

end Persatrix.Wallet
