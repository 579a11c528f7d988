import Persatrix.WalletHistory
import Mathlib.Algebra.Group.Prod

/-!
# Conservation of the wallet's ledger

For every scope the counter's totals are the usage of the leases granted since
the last daily reset plus the usage booked directly since then. The invariant
behind it relates, for each lease identifier, the tracked lease, the newest grant
under that identifier and the provisional charge: the charge is there exactly
while the lease is unsettled and no reset has come after its grant.
-/
namespace Persatrix.Wallet
open Cost

/-- Tokens and dollars booked under a scope by one usage record. -/
def booked (pricing : CostConfig) (scope : Scope) (r : UsageRecord) : ℤ × ℤ × ℚ :=
  if scope.covers r.workflowID r.agentID then
    (r.inputTokens, r.outputTokens, pricing.estimateCost r.model r.inputTokens r.outputTokens)
  else 0

/-- Only leases granted since the last daily reset count. -/
def Granted.booked (pricing : CostConfig) (scope : Scope) (g : Granted) : ℤ × ℤ × ℚ :=
  if g.current then Wallet.booked pricing scope g.usage else 0

def History.sum (pricing : CostConfig) (scope : Scope) (h : History) : ℤ × ℤ × ℚ :=
  (h.direct.map (booked pricing scope)).sum + (h.grants.map (Granted.booked pricing scope)).sum

/-- The totals as `int64` and dollar variables hold them. -/
def asTotals (v : ℤ × ℤ × ℚ) : UsageTotals := ⟨int64 v.1, int64 v.2.1, v.2.2⟩

theorem asTotals_add (v : ℤ × ℤ × ℚ) (i o : ℤ) (q : ℚ) :
    (asTotals v).add i o q = asTotals (v + (i, o, q)) := by
  simp [asTotals, UsageTotals.add, int64_add]

theorem asTotals_add_int64 (v : ℤ × ℤ × ℚ) (i o : ℤ) (q : ℚ) :
    (asTotals v).add (int64 i) (int64 o) q = asTotals (v + (i, o, q)) := by
  simp [asTotals, UsageTotals.add, int64_add_int64]

/-- The lease a grant produced, as the wallet tracks it. -/
structure Granted.Describes (g : Granted) (ls : Lease) : Prop where
  workflowID : ls.workflowID = g.workflowID
  agentID : ls.agentID = g.agentID
  model : ls.model = g.model
  grantedInput : ls.grantedInput = g.grantedInput
  grantedOutput : ls.grantedOutput = g.grantedOutput
  interactionID : ls.interactionID = g.interactionID

def Granted.charge (pricing : CostConfig) (g : Granted) : ProvisionalCharge :=
  ⟨g.workflowID, g.agentID, g.model, g.grantedInput, g.grantedOutput,
    pricing.estimateCost g.model g.grantedInput g.grantedOutput⟩

/-- The four ways a lease identifier can stand in the wallet and the counter. -/
inductive Standing (pricing : CostConfig) :
    Option Lease → Option Granted → Option ProvisionalCharge → Prop
  | absent {g : Option Granted} : (∀ g₀, g = some g₀ → g₀.outcome ≠ .unsettled) →
      Standing pricing none g none
  | ended {ls : Lease} {g : Granted} : ls.settled = true → g.outcome ≠ .unsettled →
      g.Describes ls → Standing pricing (some ls) (some g) none
  | held {ls : Lease} {g : Granted} : ls.settled = false → g.outcome = .unsettled →
      g.Describes ls → g.current = true →
      Standing pricing (some ls) (some g) (some (g.charge pricing))
  | cleared {ls : Lease} {g : Granted} : ls.settled = false → g.outcome = .unsettled →
      g.Describes ls → g.current = false → Standing pricing (some ls) (some g) none

structure Conserved (pricing : CostConfig) (s : Traced) : Prop where
  config : s.wallet.counter.config = pricing
  totals : ∀ scope, s.wallet.counter.totals scope = asTotals (s.history.sum pricing scope)
  standing : ∀ leaseID, Standing pricing (s.wallet.active.lookup leaseID)
    (newest leaseID s.history.grants) (s.wallet.counter.provisional.lookup leaseID)

variable {pricing : CostConfig} {s : Traced}

theorem conserved_start (pricing : CostConfig) (cfg : Config) :
    Conserved pricing (start pricing cfg) where
  config := rfl
  totals scope := by
    simp [start, newWalletService, History.sum, asTotals, int64]
  standing leaseID := .absent (by simp [start, newest])

/-- Booking a usage record moves the totals by what the record books. -/
theorem totals_recordUsage {tc : TokenCounter} (r : UsageRecord) {v : ℤ × ℤ × ℚ} {scope : Scope}
    (h : tc.totals scope = asTotals v) :
    (tc.recordUsage r).totals scope = asTotals (v + booked tc.config scope r) := by
  rw [TokenCounter.recordUsage, TokenCounter.totals_addToScopesLocked, h, booked]
  split_ifs
  · exact asTotals_add v _ _ _
  · rw [add_zero]

/-- Replacing a held charge moves the totals from the granted to the actual usage. -/
theorem totals_replaceCharge {tc : TokenCounter} (leaseID : String) {g : Granted}
    {o : Outcome} {v : ℤ × ℤ × ℚ} {scope : Scope} (hopen : g.outcome = .unsettled)
    (hcurrent : g.current = true) (h : tc.totals scope = asTotals v) :
    (tc.replaceCharge leaseID (g.charge tc.config) (g.finish o).usage.inputTokens
        (g.finish o).usage.outputTokens).totals scope =
      asTotals (v + ((g.finish o).booked tc.config scope - g.booked tc.config scope)) := by
  have hbefore : g.booked tc.config scope =
      if scope.covers g.workflowID g.agentID then
        (g.grantedInput, g.grantedOutput,
          tc.config.estimateCost g.model g.grantedInput g.grantedOutput) else 0 := by
    simp [Granted.booked, booked, Granted.usage, hopen, hcurrent]
  have hafter : (g.finish o).booked tc.config scope =
      if scope.covers g.workflowID g.agentID then
        ((g.finish o).usage.inputTokens, (g.finish o).usage.outputTokens,
          tc.config.estimateCost g.model (g.finish o).usage.inputTokens
            (g.finish o).usage.outputTokens) else 0 := by
    simp [Granted.booked, booked, Granted.usage, Granted.finish, hcurrent]
  rw [TokenCounter.totals_replaceCharge, h, hbefore, hafter]
  by_cases hcover : scope.covers g.workflowID g.agentID = true
  · simp only [Granted.charge, hcover, if_true]
    exact asTotals_add_int64 v _ _ _
  · simp [Granted.charge, hcover]

theorem Conserved.recordUsage (h : Conserved pricing s) (r : UsageRecord) :
    Conserved pricing ⟨{ s.wallet with counter := s.wallet.counter.recordUsage r },
      { s.history with direct := r :: s.history.direct }⟩ where
  config := h.config
  totals scope := by
    rw [totals_recordUsage r (h.totals scope), h.config]
    simp only [History.sum, List.map_cons, List.sum_cons]
    congr 1
    abel
  standing := h.standing

theorem Conserved.resetDaily (h : Conserved pricing s) :
    Conserved pricing ⟨{ s.wallet with counter := s.wallet.counter.resetDaily },
      ⟨s.history.grants.map fun g => { g with current := false }, []⟩⟩ where
  config := h.config
  totals scope := by
    have hzero : ∀ g : Granted, Granted.booked pricing scope { g with current := false } = 0 :=
      fun g => by simp [Granted.booked]
    simp [History.sum, hzero, Function.comp_def, asTotals, int64]
  standing leaseID := by
    rw [newest_forget]
    have hs := h.standing leaseID
    simp only [TokenCounter.provisional_resetDaily, GoMap.lookup_empty]
    revert hs
    generalize s.wallet.active.lookup leaseID = l, newest leaseID s.history.grants = g,
      s.wallet.counter.provisional.lookup leaseID = p
    intro hcases
    rcases hcases with hg | ⟨hs, ho, hd⟩ | ⟨hs, ho, hd, -⟩ | ⟨hs, ho, hd, -⟩
    · apply Standing.absent
      intro g₀ h₀
      obtain ⟨g₁, h₁, rfl⟩ := Option.map_eq_some_iff.mp h₀
      exact hg g₁ h₁
    · exact .ended hs ho ⟨hd.1, hd.2, hd.3, hd.4, hd.5, hd.6⟩
    · exact .cleared hs ho ⟨hd.1, hd.2, hd.3, hd.4, hd.5, hd.6⟩ rfl
    · exact .cleared hs ho ⟨hd.1, hd.2, hd.3, hd.4, hd.5, hd.6⟩ rfl

/-- A fresh identifier enters as a held charge; every other standing is untouched. -/
theorem Conserved.grant (h : Conserved pricing s) {resolver : Option (String → Option ℤ)}
    {newID : String} {now : ℤ} {req : LeaseRequest}
    (hfresh : s.wallet.active.lookup newID = none) :
    Conserved pricing ⟨s.wallet.grantLease resolver newID now req,
      { s.history with grants :=
          { leaseID := newID, workflowID := req.workflowID, agentID := req.agentID,
            model := req.model, grantedInput := req.estimatedInputTokens,
            grantedOutput := req.estimatedMaxOutputTokens,
            interactionID := WalletService.trackedInteractionID resolver req } ::
          s.history.grants }⟩ where
  config := h.config
  totals scope := by
    simp only [WalletService.grantLease, TokenCounter.totals_recordProvisional]
    rw [totals_recordUsage _ (h.totals scope), h.config]
    simp only [History.sum, List.map_cons, List.sum_cons, Granted.booked, Granted.usage, if_true]
    congr 1
    abel
  standing leaseID := by
    simp only [WalletService.grantLease, GoMap.lookup_insert, newest_cons,
      TokenCounter.provisional_recordProvisional]
    by_cases hid : leaseID = newID
    · subst hid
      simp only [if_true, h.config]
      exact .held rfl rfl ⟨rfl, rfl, rfl, rfl, rfl, rfl⟩ rfl
    · simp only [hid, Ne.symm hid, if_false]
      exact h.standing leaseID

/-- Ending an unsettled lease, whether its charge is still held or a reset cleared it. -/
theorem Conserved.finish (h : Conserved pricing s) {w : WalletService} {leaseID : String}
    {ls : Lease} {g : Granted} {o : Outcome}
    (hg : newest leaseID s.history.grants = some g) (hopen : g.outcome = .unsettled)
    (hd : g.Describes ls) (ho : o ≠ .unsettled)
    (hactive : w.active = AList.insert leaseID { ls with settled := true } s.wallet.active)
    (hcounter : if g.current then
        w.counter = s.wallet.counter.replaceCharge leaseID (g.charge pricing)
          (g.finish o).usage.inputTokens (g.finish o).usage.outputTokens
      else w.counter = s.wallet.counter ∧ s.wallet.counter.provisional.lookup leaseID = none) :
    Conserved pricing
      ⟨w, { s.history with grants := finishNewest leaseID o s.history.grants }⟩ where
  config := by
    dsimp only
    split_ifs at hcounter
    · rw [hcounter, TokenCounter.config_replaceCharge, h.config]
    · rw [hcounter.1, h.config]
  totals scope := by
    simp only [History.sum, sum_finishNewest _ o hg, ← add_assoc]
    split_ifs at hcounter with hc
    · have ht := totals_replaceCharge leaseID (o := o) hopen hc (h.totals scope)
      rw [h.config] at ht
      rw [hcounter, ht]
      rfl
    · have hzero : (g.finish o).booked pricing scope - g.booked pricing scope = 0 := by
        simp [Granted.booked, Granted.finish, hc]
      rw [hcounter.1, h.totals scope, hzero, add_zero]
      rfl
  standing other := by
    simp only [hactive, GoMap.lookup_insert, newest_finishNewest]
    by_cases hid : other = leaseID
    · subst hid
      simp only [if_true, hg, Option.map_some]
      have hp : w.counter.provisional.lookup other = none := by
        split_ifs at hcounter
        · rw [hcounter, TokenCounter.provisional_replaceCharge, if_pos rfl]
        · rw [hcounter.1, hcounter.2]
      rw [hp]
      exact .ended rfl ho ⟨hd.1, hd.2, hd.3, hd.4, hd.5, hd.6⟩
    · have hp : w.counter.provisional.lookup other =
          s.wallet.counter.provisional.lookup other := by
        split_ifs at hcounter
        · rw [hcounter, TokenCounter.provisional_replaceCharge, if_neg hid]
        · rw [hcounter.1]
      simp only [hid, if_false, hp]
      exact h.standing other

/-- Purging a settled lease drops an identifier nothing is held under. -/
theorem Conserved.purge (h : Conserved pricing s) {leaseID : String} {ls : Lease}
    (hl : s.wallet.active.lookup leaseID = some ls) (hs : ls.settled = true) :
    Conserved pricing ⟨{ s.wallet with active := s.wallet.active.erase leaseID }, s.history⟩ where
  config := h.config
  totals := h.totals
  standing other := by
    simp only [GoMap.lookup_erase]
    by_cases hid : other = leaseID
    · subst hid
      have hst := h.standing other
      rw [hl] at hst
      rw [if_pos rfl]
      revert hst
      generalize newest other s.history.grants = g,
        s.wallet.counter.provisional.lookup other = p
      intro hcases
      rcases hcases with _ | ⟨-, ho, -⟩ | ⟨hs', -, -, -⟩ | ⟨hs', -, -, -⟩
      · exact .absent (by rintro g₀ ⟨⟩; exact ho)
      · simp [hs] at hs'
      · simp [hs] at hs'
    · rw [if_neg hid]
      exact h.standing other

/-- An unsettled lease with its newest grant and the state of its charge. -/
structure Unsettled (pricing : CostConfig) (s : Traced) (leaseID : String) (ls : Lease)
    (g : Granted) : Prop where
  active : s.wallet.active.lookup leaseID = some ls
  settled : ls.settled = false
  newest : newest leaseID s.history.grants = some g
  outcome : g.outcome = .unsettled
  describes : g.Describes ls
  charge : s.wallet.counter.provisional.lookup leaseID =
    if g.current then some (g.charge pricing) else none

theorem Conserved.lease_cases (h : Conserved pricing s) (leaseID : String) :
    s.wallet.active.lookup leaseID = none ∨
      (∃ ls, s.wallet.active.lookup leaseID = some ls ∧ ls.settled = true) ∨
      ∃ ls g, Unsettled pricing s leaseID ls g := by
  have hst := h.standing leaseID
  cases hl : s.wallet.active.lookup leaseID with
  | none => exact .inl rfl
  | some ls =>
    right
    generalize hg : newest leaseID s.history.grants = og,
      hp : s.wallet.counter.provisional.lookup leaseID = op at hst
    rw [hl] at hst
    cases hst with
    | ended hs _ _ => exact .inl ⟨ls, rfl, hs⟩
    | held hs ho hd hc => exact .inr ⟨ls, _, hl, hs, hg, ho, hd, by rw [hp, if_pos hc]⟩
    | cleared hs ho hd hc => exact .inr ⟨ls, _, hl, hs, hg, ho, hd, by rw [hp, hc]; rfl⟩

/-- The three ways a finalization can go, by the standing of its lease. -/
theorem finalize_cases (h : Conserved pricing s) (leaseID : String) (i o : ℤ) :
    (∃ ack, s.wallet.finalize leaseID i o = (s.wallet, ack) ∧ ends ack = false) ∨
    ∃ ls g, Unsettled pricing s leaseID ls g ∧
      if g.current then
        s.wallet.finalize leaseID i o =
          ({ s.wallet.markSettled leaseID ls with
              counter := s.wallet.counter.replaceCharge leaseID (g.charge pricing) i o
              interactionTokens := adjustInteractionTokensLocked s.wallet.interactionTokens
                ls.interactionID ((i + o) - (ls.grantedInput + ls.grantedOutput)) },
            ⟨true, ""⟩)
      else s.wallet.finalize leaseID i o =
        (s.wallet.markSettled leaseID ls, ⟨true, "noop: provisional already cleared"⟩) := by
  rcases h.lease_cases leaseID with hl | ⟨ls, hl, hs⟩ | ⟨ls, g, hu⟩
  · exact .inl ⟨_, WalletService.finalize_unknown hl i o, rfl⟩
  · exact .inl ⟨_, WalletService.finalize_settled hl hs i o, rfl⟩
  · refine .inr ⟨ls, g, hu, ?_⟩
    have hp := hu.charge
    split_ifs at hp ⊢
    · exact WalletService.finalize_held hu.active hu.settled hp i o
    · exact WalletService.finalize_cleared hu.active hu.settled hp i o

theorem Conserved.finalize (h : Conserved pricing s) (leaseID : String) {i o : ℤ}
    {outcome : Outcome} (hne : outcome ≠ .unsettled)
    (husage : ∀ g : Granted, (g.finish outcome).usage.inputTokens = i ∧
      (g.finish outcome).usage.outputTokens = o) :
    Conserved pricing ⟨(s.wallet.finalize leaseID i o).1,
      if ends (s.wallet.finalize leaseID i o).2 then
        { s.history with grants := finishNewest leaseID outcome s.history.grants }
      else s.history⟩ := by
  rcases finalize_cases h leaseID i o with ⟨ack, hf, hack⟩ | ⟨ls, g, hu, hf⟩
  · rw [hf]
    simpa only [hack, Bool.false_eq_true, if_false] using h
  · have hp := hu.charge
    obtain ⟨rfl, rfl⟩ := husage g
    split_ifs at hf hp with hc
    · rw [hf]
      exact h.finish hu.newest hu.outcome hu.describes hne rfl (by rw [if_pos hc])
    · rw [hf]
      exact h.finish hu.newest hu.outcome hu.describes hne rfl
        (by rw [if_neg hc]; exact ⟨rfl, hp⟩)

/-- What one visit of the reaper does, by the standing of the lease. -/
theorem reapLease_cases (h : Conserved pricing s) (now : ℤ) (leaseID : String) :
    s.wallet.reapLease now leaseID = (s.wallet, false) ∨
    (∃ ls, s.wallet.active.lookup leaseID = some ls ∧ ls.settled = true ∧
      s.wallet.reapLease now leaseID =
        ({ s.wallet with active := s.wallet.active.erase leaseID }, false)) ∨
    ∃ ls g, Unsettled pricing s leaseID ls g ∧
      if g.current then
        s.wallet.reapLease now leaseID =
          ({ s.wallet.markSettled leaseID ls with
              counter := s.wallet.counter.replaceCharge leaseID (g.charge pricing)
                g.grantedInput g.grantedOutput }, true)
      else s.wallet.reapLease now leaseID = (s.wallet.markSettled leaseID ls, true) := by
  rcases h.lease_cases leaseID with hl | ⟨ls, hl, hs⟩ | ⟨ls, g, hu⟩
  · exact .inl (by simp [WalletService.reapLease, hl])
  · by_cases hnow : ls.issuedAt + 2 * ls.ttl < now
    · exact .inr (.inl ⟨ls, hl, hs, by simp [WalletService.reapLease, hl, hs, hnow]⟩)
    · exact .inl (by simp [WalletService.reapLease, hl, hs, hnow])
  · by_cases hnow : ls.issuedAt + ls.ttl < now
    · refine .inr (.inr ⟨ls, g, hu, ?_⟩)
      have hp := hu.charge
      split_ifs at hp ⊢
      · simp [WalletService.reapLease, hu.active, hu.settled, hnow, hu.describes.grantedInput,
          hu.describes.grantedOutput, TokenCounter.reconcile_hit hp]
      · simp [WalletService.reapLease, hu.active, hu.settled, hnow,
          TokenCounter.reconcile_miss hp]
    · exact .inl (by simp [WalletService.reapLease, hu.active, hu.settled, hnow])

theorem Conserved.reapLease (h : Conserved pricing s) (now : ℤ) (leaseID : String) :
    Conserved pricing ⟨(s.wallet.reapLease now leaseID).1,
      if (s.wallet.reapLease now leaseID).2 then
        { s.history with grants := finishNewest leaseID .reaped s.history.grants }
      else s.history⟩ := by
  rcases reapLease_cases h now leaseID with hr | ⟨ls, hl, hs, hr⟩ | ⟨ls, g, hu, hr⟩
  · rw [hr]
    exact h
  · rw [hr]
    exact h.purge hl hs
  · have hp := hu.charge
    split_ifs at hr hp with hc
    · rw [hr]
      exact h.finish hu.newest hu.outcome hu.describes (by simp) rfl (by rw [if_pos hc]; rfl)
    · rw [hr]
      exact h.finish hu.newest hu.outcome hu.describes (by simp) rfl
        (by rw [if_neg hc]; exact ⟨rfl, hp⟩)

/-- One visit of the range loop together with the history of the leases it reaped. -/
def reapStep (now : ℤ) (s : Traced) (leaseID : String) : Traced :=
  ⟨(s.wallet.reapLease now leaseID).1,
    if (s.wallet.reapLease now leaseID).2 then
      { s.history with grants := finishNewest leaseID .reaped s.history.grants }
    else s.history⟩

theorem reapExpired_eq_foldl (now : ℤ) (order : List String) (s : Traced) :
    (⟨(s.wallet.reapExpired now order).1,
      s.history.observe (.reapExpired now order) (.reaped (s.wallet.reapExpired now order).2)⟩ :
      Traced) = order.foldl (reapStep now) s := by
  have hfold : ∀ (order : List String) (acc : WalletService × List String),
      (⟨(order.foldl (WalletService.reapVisit now) acc).1, { s.history with
        grants := finishReaped (order.foldl (WalletService.reapVisit now) acc).2
          s.history.grants }⟩ : Traced) =
      order.foldl (reapStep now)
        ⟨acc.1, { s.history with grants := finishReaped acc.2 s.history.grants }⟩ := by
    intro order
    induction order with
    | nil => intro acc; rfl
    | cons leaseID order ih =>
      intro acc
      simp only [List.foldl_cons, ih]
      congr 1
      simp only [reapStep, WalletService.reapVisit]
      split_ifs <;> simp [finishReaped]
  exact hfold order (s.wallet, [])

/-- Whatever each visit preserves, a whole reaper pass preserves. -/
theorem reapExpired_induction {I : Traced → Prop} {now : ℤ}
    (step : ∀ s leaseID, I s → I (reapStep now s leaseID)) {s : Traced} (h : I s)
    (order : List String) : I (s.next (.reapExpired now order)) := by
  have hrun : I (order.foldl (reapStep now) s) := by
    induction order generalizing s with
    | nil => exact h
    | cons leaseID order ih => exact ih (step s leaseID h)
  rwa [← reapExpired_eq_foldl] at hrun

/-- An acquisition changes nothing, or tracks a lease it has admitted and records it. -/
theorem Traced.next_acquireLease_cases (s : Traced) (resolver : Option (String → Option ℤ))
    (newID : String) (now : ℤ) (req : LeaseRequest) :
    (s.next (.acquireLease resolver newID now req) = s ∧
      (s.wallet.call (.acquireLease resolver newID now req)).2.failed = true) ∨
    (s.wallet.Admits resolver newID req ∧
      (s.wallet.call (.acquireLease resolver newID now req)).2.failed = false ∧
      s.next (.acquireLease resolver newID now req) =
        ⟨s.wallet.grantLease resolver newID now req,
          { s.history with grants :=
              { leaseID := newID, workflowID := req.workflowID, agentID := req.agentID,
                model := req.model, grantedInput := req.estimatedInputTokens,
                grantedOutput := req.estimatedMaxOutputTokens,
                interactionID := WalletService.trackedInteractionID resolver req } ::
              s.history.grants }⟩) := by
  rcases s.wallet.acquireLease_cases resolver newID now req with ⟨hw, hg⟩ | ⟨hadmits, hgrant⟩
  · left
    have hhistory : s.history.observe (.acquireLease resolver newID now req)
        (.lease (s.wallet.acquireLease resolver newID now req).2) = s.history := by
      unfold History.observe
      split <;> simp_all
    refine ⟨by simp only [Traced.next, WalletService.call, hhistory, hw], ?_⟩
    simp only [WalletService.call]
    unfold Response.failed
    split <;> simp_all
  · right
    refine ⟨hadmits, ?_, ?_⟩
    · simp only [WalletService.call, hgrant, Response.failed]
    · simp only [Traced.next, WalletService.call, hgrant]
      rfl

theorem Conserved.acquireLease (h : Conserved pricing s) (resolver : Option (String → Option ℤ))
    (newID : String) (now : ℤ) (req : LeaseRequest) :
    Conserved pricing (s.next (.acquireLease resolver newID now req)) := by
  rcases s.next_acquireLease_cases resolver newID now req with
    ⟨hnext, -⟩ | ⟨hadmits, -, hnext⟩
  · rw [hnext]
    exact h
  · rw [hnext]
    exact h.grant hadmits.fresh

theorem Conserved.settleLease (h : Conserved pricing s) (leaseID : String) (i o : ℤ) :
    Conserved pricing (s.next (.settleLease leaseID i o)) := by
  rcases s.wallet.settleLease_cases leaseID i o with ⟨err, he⟩ | ⟨-, -, hf⟩
  · simp only [Traced.next, WalletService.call, he]
    exact h
  · simp only [Traced.next, WalletService.call, hf]
    exact h.finalize leaseID (by simp) fun g => ⟨rfl, rfl⟩

theorem Conserved.evictInteraction (h : Conserved pricing s) (interactionID : String) :
    Conserved pricing (s.next (.evictInteraction interactionID)) := by
  simp only [Traced.next, WalletService.call, WalletService.evictInteraction]
  split_ifs
  · exact h
  · exact h
  · exact ⟨h.config, h.totals, h.standing⟩

theorem Conserved.next (h : Conserved pricing s) (call : Call) :
    Conserved pricing (s.next call) := by
  cases call with
  | acquireLease resolver newID now req => exact h.acquireLease resolver newID now req
  | settleLease leaseID i o => exact h.settleLease leaseID i o
  | releaseLease leaseID => exact h.finalize leaseID (by simp) fun g => ⟨rfl, rfl⟩
  | reapExpired now order =>
    exact reapExpired_induction (fun s leaseID hs => hs.reapLease now leaseID) h order
  | resetDaily => exact h.resetDaily
  | recordUsage record => exact h.recordUsage record
  | evictInteraction interactionID => exact h.evictInteraction interactionID

theorem conserved_run (pricing : CostConfig) (cfg : Config) (calls : List Call) :
    Conserved pricing (run pricing cfg calls) :=
  run_induction (conserved_start pricing cfg) (fun _ call h => h.next call) calls

theorem finalize_failed {w : WalletService} {leaseID : String} {i o : ℤ}
    (h : (w.finalize leaseID i o).2 ≠ ⟨true, ""⟩) :
    (w.finalize leaseID i o).1.counter = w.counter ∧
      (w.finalize leaseID i o).1.interactionTokens = w.interactionTokens := by
  unfold WalletService.finalize at h ⊢
  split
  · exact ⟨rfl, rfl⟩
  · split
    · exact ⟨rfl, rfl⟩
    · split
      · exact ⟨rfl, rfl⟩
      · simp_all

/-- A denied or failing call books nothing, in the ledger or in an interaction total. -/
theorem call_failed {w : WalletService} {call : Call} (h : (w.call call).2.failed = true) :
    (w.call call).1.counter = w.counter ∧
      (w.call call).1.interactionTokens = w.interactionTokens := by
  have hack : ∀ ack : SettlementAck,
      (Response.ack (.ok ack)).failed = true → ack ≠ ⟨true, ""⟩ := by
    rintro ack hf rfl
    simp [Response.failed] at hf
  cases call with
  | acquireLease resolver newID now req =>
    rcases w.acquireLease_cases resolver newID now req with ⟨hw, -⟩ | ⟨-, hgrant⟩
    · simp only [WalletService.call, hw, and_self]
    · simp [WalletService.call, hgrant, Response.failed] at h
  | settleLease leaseID i o =>
    rcases w.settleLease_cases leaseID i o with ⟨err, he⟩ | ⟨-, -, hf⟩
    · simp only [WalletService.call, he, and_self]
    · simp only [WalletService.call, hf] at h ⊢
      exact finalize_failed (hack _ h)
  | releaseLease leaseID => exact finalize_failed (hack _ h)
  | reapExpired now order => simp [WalletService.call, Response.failed] at h
  | resetDaily => simp [WalletService.call, Response.failed] at h
  | recordUsage record => simp [WalletService.call, Response.failed] at h
  | evictInteraction interactionID => simp [WalletService.call, Response.failed] at h

/-- Every provisional charge is the granted charge of the one tracked lease under its
identifier, and that lease is unsettled. -/
theorem Conserved.charge_owner (h : Conserved pricing s) {leaseID : String}
    {pc : ProvisionalCharge} (hp : s.wallet.counter.provisional.lookup leaseID = some pc) :
    ∃! ls, s.wallet.active.lookup leaseID = some ls ∧ ls.settled = false ∧
      pc = ⟨ls.workflowID, ls.agentID, ls.model, ls.grantedInput, ls.grantedOutput,
        pricing.estimateCost ls.model ls.grantedInput ls.grantedOutput⟩ := by
  have hst := h.standing leaseID
  rw [hp] at hst
  generalize hl : s.wallet.active.lookup leaseID = ol,
    newest leaseID s.history.grants = og at hst
  cases hst with
  | held hs ho hd hc =>
    refine ⟨_, ⟨rfl, hs, ?_⟩, ?_⟩
    · rw [Granted.charge, hd.workflowID, hd.agentID, hd.model, hd.grantedInput,
        hd.grantedOutput]
    · rintro ls ⟨⟨⟩, -, -⟩
      rfl

/-- Conservation over whole runs: in every scope the totals are the usage of the leases
granted and the usage booked since the last daily reset, failing calls book nothing,
and every provisional charge has its lease. -/
theorem ledger_conserved (pricing : CostConfig) (cfg : Config) (calls : List Call) :
    (∀ scope, (run pricing cfg calls).wallet.counter.totals scope =
      asTotals ((run pricing cfg calls).history.sum pricing scope)) ∧
    (∀ call, ((run pricing cfg calls).wallet.call call).2.failed = true → ∀ scope,
      ((run pricing cfg calls).wallet.call call).1.counter.totals scope =
        (run pricing cfg calls).wallet.counter.totals scope) ∧
    ∀ leaseID pc, (run pricing cfg calls).wallet.counter.provisional.lookup leaseID = some pc →
      ∃! ls, (run pricing cfg calls).wallet.active.lookup leaseID = some ls ∧
        ls.settled = false ∧
        pc = ⟨ls.workflowID, ls.agentID, ls.model, ls.grantedInput, ls.grantedOutput,
          pricing.estimateCost ls.model ls.grantedInput ls.grantedOutput⟩ := by
  have h := conserved_run pricing cfg calls
  refine ⟨h.totals, ?_, fun leaseID pc hp => h.charge_owner hp⟩
  intro call hf scope
  rw [(call_failed hf).1]

end Persatrix.Wallet
